import Workshop.Proofs.Walk.Points

/-!
# What is kept on a walk

A property of bindings that no step can break holds at all points of a walk.
Often it can be broken, but not on the walk in question, because of what is known
of the points at which variables are declared and constants are defined.  This
module lets a proof look at just these points.

Main definitions:

- `Point.Preserves`: a property that the walk from a point does not break.
- `Bindings.AllConstants`, `Bindings.AllGlobals`: a property of all constants,
  and of all global variables in sight.

Main results:

- Theorem `Point.Preserves.statement`: the property holds after every statement,
  whether it succeeds or fails.
- Theorem `Point.Preserves.atPoint`: it holds at all points of the walk.
- Theorem `Point.Preserves.afterPoint`: and wherever the task of a point ends.
- Theorem `Reaches.constants`: what is true of all definitions is true of all
  constants.
- Theorem `Reaches.allocated`: every global variable in sight got its slot on
  this walk.
-/

namespace Workshop

section Preservation

variable {catalog : Catalog} {start point : Point} {Holds : Bindings → Prop}

/-- A property of bindings that the walk from a point does not break.  About the steps that declare
a variable or define a constant, it is known that the walk comes to them. -/
structure Point.Preserves (catalog : Catalog) (start : Point) (Holds : Bindings → Prop) : Prop where
  enter : ∀ {bindings : Bindings}, Holds bindings → Holds bindings.enter
  leave : ∀ {bindings : Bindings}, Holds bindings → Holds bindings.leave
  useBank : ∀ {bindings : Bindings} (domain : Domain) (bank : Bank),
    Holds bindings → Holds (bindings.useBank domain bank)
  retype : ∀ {bindings : Bindings} (domain : Domain) (name : String) (type : ValueType),
    Holds bindings → Holds (bindings.retype domain name type)
  declare : ∀ {domain : Domain} {name : String} {type : ValueType} {state : CompileState}
    {slot : Slot} {final : Bindings}, Reaches catalog start ⟨.allocation domain name type, state⟩ →
    state.bindings.declare domain name type = .ok (slot, final) → Holds state.bindings →
    Holds final
  define : ∀ {name : String} {node : Node} {state final : CompileState},
    Reaches catalog start ⟨.statement (.constant name node), state⟩ →
    catalog.define name node state = .ok () final → Holds state.bindings → Holds final.bindings

/-! ## Single steps -/

namespace Compile

variable {α β : Type} {state : CompileState}

/-- One step after the other. -/
theorem holds_after_bind {x : Compile α} {f : α → Compile β}
    (hx : Holds (x.after state).bindings)
    (hf : ∀ a middle, x state = .ok a middle → Holds middle.bindings →
      Holds ((f a).after middle).bindings) :
    Holds ((x >>= f).after state).bindings := by
  cases hrun : x state with
  | ok a middle =>
      rw [after_of_ok hrun] at hx
      rw [after_bind_of_ok hrun]
      exact hf a middle hrun hx
  | error error middle =>
      rw [CompileOn.after, hrun] at hx
      rw [after_bind_of_error hrun]
      exact hx

/-- A question and what follows. -/
theorem holds_after_query {f : Bindings → Except SemanticError α} {g : α → Compile β}
    (hstate : Holds state.bindings)
    (hg : ∀ a, f state.bindings = .ok a → Holds ((g a).after state).bindings) :
    Holds ((query f >>= g).after state).bindings := by
  refine holds_after_bind (by rwa [after_query]) fun a middle hrun _ => ?_
  rcases query_eq_ok.1 hrun with ⟨ha, rfl⟩
  exact hg a ha

end Compile

/-- Actions one by one. -/
theorem Catalog.holds_after_actionList {nodes : List Node} {state : CompileState}
    (hnodes : ∀ node ∈ nodes, ∀ state, Reaches catalog start ⟨.action node, state⟩ →
      Holds state.bindings → Holds ((catalog.action node).after state).bindings)
    (hreaches : Reaches catalog start ⟨.actions nodes, state⟩) (hstate : Holds state.bindings) :
    Holds ((catalog.actionList nodes).after state).bindings := by
  induction nodes generalizing state with
  | nil => exact hstate
  | cons node rest ih =>
      rw [List.forall_mem_cons] at hnodes
      have hfirst := hnodes.1 state (hreaches.tail (.firstAction node rest state)) hstate
      refine Compile.holds_after_bind hfirst fun lines middle hrun hmiddle => ?_
      rw [Compile.bindings_after_bind fun _ _ => rfl]
      exact ih hnodes.2 (hreaches.tail (.otherActions rest hrun)) hmiddle

/-- Statements one by one. -/
theorem Catalog.holds_after_topLevelList {nodes : List Node} {state : CompileState}
    (hnodes : ∀ node ∈ nodes, ∀ state, Reaches catalog start ⟨.statement node, state⟩ →
      Holds state.bindings → Holds ((catalog.topLevel node).after state).bindings)
    (hreaches : Reaches catalog start ⟨.statements nodes, state⟩) (hstate : Holds state.bindings) :
    Holds ((catalog.topLevelList nodes).after state).bindings := by
  induction nodes generalizing state with
  | nil => exact hstate
  | cons node rest ih =>
      rw [List.forall_mem_cons] at hnodes
      have hfirst := hnodes.1 state (hreaches.tail (.firstStatement node rest state)) hstate
      refine Compile.holds_after_bind hfirst fun rules middle hrun hmiddle => ?_
      rw [Compile.bindings_after_bind fun _ _ => rfl]
      exact ih hnodes.2 (hreaches.tail (.otherStatements rest hrun)) hmiddle

/-- Computing a first value changes nothing. -/
theorem Catalog.after_initialValue (catalog : Catalog) (initial : Option Node)
    (state : CompileState) : (catalog.initialValue initial).after state = state := by
  cases initial with
  | none => rfl
  | some node =>
      cases hvalue : catalog.valueOf state.bindings node with
      | error error =>
          have hquery : Compile.query (catalog.valueOf · node) state = .error error state := by
            simp only [Compile.query, hvalue]
          exact Compile.after_bind_of_error hquery
      | ok value =>
          have hquery : Compile.query (catalog.valueOf · node) state = .ok value state :=
            Compile.query_eq_ok.2 ⟨hvalue, rfl⟩
          exact Compile.after_bind_of_ok hquery

namespace Point.Preserves

variable {state : CompileState} (hpreserves : start.Preserves catalog Holds) {name : String}
include hpreserves

/-- A store preserves. -/
theorem store (domain : Domain) (name : String) (type : ValueType) (value : Typed)
    (hstate : Holds state.bindings) :
    Holds ((store domain name type value).after state).bindings := by
  rcases after_store domain name type value state with hsame | ⟨text, fixed, _, hsettled⟩
  · rwa [hsame]
  · rw [hsettled]
    exact hpreserves.retype domain name fixed hstate

/-- So does an assignment. -/
theorem assign (target : String) (receiver : Option Node) (value : Node)
    (hstate : Holds state.bindings) :
    Holds ((catalog.assign target receiver value).after state).bindings := by
  cases receiver with
  | none =>
      refine Compile.holds_after_query hstate fun _ _ => ?_
      refine Compile.holds_after_query hstate fun typed _ => ?_
      refine Compile.holds_after_query hstate fun found _ => ?_
      rw [Compile.bindings_after_bind fun _ _ => rfl]
      exact hpreserves.store .global target found.type typed hstate
  | some receiver =>
      refine Compile.holds_after_query hstate fun typed _ => ?_
      refine Compile.holds_after_query hstate fun _ _ => ?_
      refine Compile.holds_after_query hstate fun _ _ => ?_
      refine Compile.holds_after_query hstate fun found _ => ?_
      rw [Compile.bindings_after_bind fun _ _ => rfl]
      exact hpreserves.store .player target found.type typed hstate

/-- A declaration comes to the point at which the variable gets its slot. -/
theorem declaration {typeName : String} {domain : Domain} {initial : Option Node}
    (hreaches : Reaches catalog start ⟨.declaration typeName name domain initial, state⟩)
    (hstate : Holds state.bindings) :
    Holds ((catalog.declare typeName name domain initial).after state).bindings := by
  refine Compile.holds_after_bind (by rwa [Catalog.requireFree, Compile.after_query])
    fun _ _ hrequired _ => ?_
  rcases Catalog.requireFree_eq_ok.1 hrequired with ⟨_, rfl⟩
  refine Compile.holds_after_query hstate fun type htype => ?_
  have hinitial := catalog.after_initialValue initial state
  refine Compile.holds_after_bind (by rwa [hinitial]) fun value middle hvalue _ => ?_
  have hmiddle : middle = state := (Compile.after_of_ok hvalue).symm.trans hinitial
  subst hmiddle
  refine Compile.holds_after_query hstate fun result hslot => ?_
  rcases result with ⟨slot, bindings⟩
  have hallocated : Holds bindings :=
    hpreserves.declare (hreaches.tail (.allocation hrequired htype hvalue)) hslot hstate
  have hupdate : (Compile.update fun _ => bindings : Compile Unit) middle =
      .ok () ⟨bindings, middle.journal⟩ := rfl
  rw [Compile.after_bind_of_ok hupdate]
  cases value with
  | none => exact hallocated
  | some value =>
      simp only
      rw [Compile.bindings_after_bind fun _ _ => rfl]
      exact hpreserves.store domain name type value hallocated

/-- So does a constant. -/
theorem definition {node : Node}
    (hreaches : Reaches catalog start ⟨.statement (.constant name node), state⟩)
    (hstate : Holds state.bindings) : Holds ((catalog.define name node).after state).bindings := by
  refine Compile.holds_after_bind (by rwa [Catalog.requireFree, Compile.after_query])
    fun _ _ hrequired _ => ?_
  rcases Catalog.requireFree_eq_ok.1 hrequired with ⟨hfree, rfl⟩
  refine Compile.holds_after_query hstate fun typed htyped => ?_
  exact hpreserves.define hreaches (Catalog.define_eq_ok.2 ⟨hfree, typed, htyped, rfl⟩) hstate

/-! ## All tasks -/

/-- So does an action. -/
theorem action (node : Node) (hreaches : Reaches catalog start ⟨.action node, state⟩)
    (hstate : Holds state.bindings) : Holds ((catalog.action node).after state).bindings := by
  induction node generalizing state with
  | assign target receiver value =>
      rw [Catalog.action, Compile.bindings_after_bind fun _ _ => rfl]
      exact hpreserves.assign target receiver value hstate
  | block statements ih =>
      rw [Catalog.action, Compile.after_inScope]
      refine hpreserves.leave (Catalog.holds_after_actionList (fun node hmem state => ?_)
        (hreaches.tail (.innerBlock statements state)) (hpreserves.enter hstate))
      exact ih node hmem
  | call callee receiver arguments => exact Compile.holds_after_query hstate fun _ _ => hstate
  | declare typeName name perPlayer initial =>
      rw [Catalog.action, Compile.bindings_after_bind fun _ _ => rfl]
      exact hpreserves.declaration (hreaches.tail (.innerDeclaration _ _ _ _ _)) hstate
  | useBank domain bank => exact hpreserves.useBank domain bank hstate
  | choice condition thenBranch elseBranch _ ihthen ihelse =>
      have hthen {text : String}
          (hcondition : catalog.condition state.bindings condition = .ok text) :
          Holds ((catalog.action thenBranch).after state).bindings :=
        ihthen (hreaches.tail (.thenBranch thenBranch elseBranch hcondition)) hstate
      cases elseBranch with
      | none =>
          refine Compile.holds_after_query hstate fun text hcondition => ?_
          exact Compile.holds_after_bind (hthen hcondition) fun _ _ _ hmiddle => hmiddle
      | some elseBranch =>
          refine Compile.holds_after_query hstate fun text hcondition => ?_
          refine Compile.holds_after_bind (hthen hcondition) fun lines middle hrun hmiddle => ?_
          refine Compile.holds_after_bind ?_ fun _ _ _ hlast => hlast
          exact ihelse elseBranch rfl (hreaches.tail (.elseBranch elseBranch hcondition hrun))
            hmiddle
  | _ => exact hstate

/-- So does a rule. -/
theorem rule {event : String} {conditions : Option (List Node)} {actions : List Node}
    (hreaches : Reaches catalog start ⟨.statement (.rule name event conditions actions), state⟩)
    (hstate : Holds state.bindings) :
    Holds ((catalog.rule name event conditions actions).after state).bindings := by
  rw [Catalog.rule, Compile.bindings_after_bind fun _ _ => rfl]
  refine Compile.holds_after_query hstate fun text hevent => ?_
  have hnote : (Compile.note (.ruleBegun name event) : Compile Unit) state =
      .ok () ⟨state.bindings, state.journal.push (.ruleBegun name event)⟩ := rfl
  rw [Compile.after_bind_of_ok hnote, Compile.after_inScope]
  refine hpreserves.leave
    (Compile.holds_after_query (hpreserves.enter hstate) fun _ hconditions => ?_)
  rw [Compile.bindings_after_bind fun _ _ => rfl]
  exact Catalog.holds_after_actionList (fun node _ _ => hpreserves.action node)
    (hreaches.tail (.rule actions hevent hconditions)) (hpreserves.enter hstate)

/-- So does a statement. -/
theorem statement (node : Node) (hreaches : Reaches catalog start ⟨.statement node, state⟩)
    (hstate : Holds state.bindings) : Holds ((catalog.topLevel node).after state).bindings := by
  induction node generalizing state with
  | block statements ih =>
      refine Catalog.holds_after_topLevelList (fun node hmem state => ?_)
        (hreaches.tail (.block statements state)) hstate
      exact ih node hmem
  | constant name value =>
      rw [Catalog.topLevel, Catalog.topLevelOf, Compile.bindings_after_bind fun _ _ => rfl]
      exact hpreserves.definition hreaches hstate
  | declare typeName name perPlayer initial =>
      rw [Catalog.topLevel, Catalog.topLevelOf, Compile.bindings_after_bind fun _ _ => rfl,
        Compile.after_discard]
      exact hpreserves.declaration (hreaches.tail (.topLevelDeclaration _ _ _ _ _)) hstate
  | rule name event conditions actions =>
      rw [Catalog.topLevel, Catalog.topLevelOf, Compile.bindings_after_bind fun _ _ => rfl]
      exact hpreserves.rule hreaches hstate
  | useBank domain bank => exact hpreserves.useBank domain bank hstate
  | _ => exact hstate

/-- At the points of the walk the property holds, if it holds at the start. -/
theorem atPoint (hstart : Holds start.state.bindings) (hreaches : Reaches catalog start point) :
    Holds point.state.bindings := by
  induction hreaches with
  | refl => exact hstart
  | tail hreaches hleads ih =>
      cases hleads with
      | rule actions hevent hconditions => exact hpreserves.enter ih
      | innerBlock nodes state => exact hpreserves.enter ih
      | otherStatements rest hrun =>
          rw [← Compile.after_of_ok hrun]
          exact hpreserves.statement _ (hreaches.tail (.firstStatement _ rest _)) ih
      | otherActions rest hrun =>
          rw [← Compile.after_of_ok hrun]
          exact hpreserves.action _ (hreaches.tail (.firstAction _ rest _)) ih
      | elseBranch branch hcondition hrun =>
          rw [← Compile.after_of_ok hrun]
          exact hpreserves.action _ (hreaches.tail (.thenBranch _ _ hcondition)) ih
      | _ => exact ih

/-- At a point that the walk reaches, it also holds when the task of the point ends. -/
theorem afterPoint (hstart : Holds start.state.bindings) (hreaches : Reaches catalog start point) :
    Holds (point.after catalog).bindings := by
  have hpoint := hpreserves.atPoint hstart hreaches
  rcases point with ⟨task, state⟩
  unfold Point.after
  cases task with
  | statement node =>
      rw [Task.run, Compile.after_discard]
      exact hpreserves.statement node hreaches hpoint
  | statements nodes =>
      rw [Task.run, Compile.after_discard]
      exact Catalog.holds_after_topLevelList (fun node _ _ => hpreserves.statement node) hreaches
        hpoint
  | action node =>
      rw [Task.run, Compile.after_discard]
      exact hpreserves.action node hreaches hpoint
  | actions nodes =>
      rw [Task.run, Compile.after_discard]
      exact Catalog.holds_after_actionList (fun node _ _ => hpreserves.action node) hreaches hpoint
  | declaration typeName name domain initial =>
      rw [Task.run, Compile.after_discard]
      exact hpreserves.declaration hreaches hpoint
  | allocation domain name type =>
      refine Compile.holds_after_query hpoint ?_
      rintro ⟨slot, bindings⟩ hslot
      exact hpreserves.declare hreaches hslot hpoint

/-- What is preserved holds at every point. -/
theorem mem_bindings (hstart : Holds start.state.bindings)
    (hreaches : Reaches catalog start point) :
    ∀ bindings ∈ point.bindings catalog, Holds bindings := by
  have hpoint := hpreserves.atPoint hstart hreaches
  simp only [Point.bindings, List.forall_mem_cons, List.not_mem_nil]
  exact ⟨hpoint, hpreserves.enter hpoint, hpreserves.afterPoint hstart hreaches,
    fun _ hmem => hmem.elim⟩

end Point.Preserves
end Preservation

/-! ## Constants -/

/-- Actions keep the constants. -/
theorem Steps.constants_of_action {catalog : Catalog} {place : Place} {bindings later : Bindings}
    (hsteps : Steps catalog place bindings later) (hplace : place = .action) :
    later.constants = bindings.constants := by
  induction hsteps with
  | done place bindings => rfl
  | andThen _ _ ihfirst ihsecond => rw [ihsecond hplace, ihfirst hplace]
  | declare _ _ hdeclare => exact (Bindings.declare_eq_ok hdeclare).1
  | @settle _ _ bindings domain _ _ _ _ _ _ _ _ _ _ ih =>
      rw [← ih hplace]
      cases domain <;> rfl
  | useBank place bindings domain bank => cases domain <;> rfl
  | define _ _ => cases hplace
  | inScope _ ih => exact ih rfl

section Definitions

variable {catalog : Catalog} {start point : Point} {Holds : String → Typed → Prop}

/-- All constants of some bindings have a property. -/
def Bindings.AllConstants (bindings : Bindings) (Holds : String → Typed → Prop) : Prop :=
  ∀ name value, bindings.constants.find? name = some value → Holds name value

/-- The same constants have the property. -/
theorem Bindings.AllConstants.of_eq {bindings later : Bindings}
    (hall : bindings.AllConstants Holds) (hsame : later.constants = bindings.constants) :
    later.AllConstants Holds := by
  intro name value hvalue
  rw [hsame] at hvalue
  exact hall name value hvalue

/-- One more constant with the property. -/
theorem Bindings.AllConstants.insert {bindings : Bindings} {name : String} {value : Typed}
    (hall : bindings.AllConstants Holds) (hvalue : Holds name value) :
    Bindings.AllConstants { bindings with constants := bindings.constants.insert name value }
      Holds := by
  intro other found hfound
  rw [Table.find?_insert] at hfound
  split at hfound
  · rename_i hname
    cases hfound
    exact hname ▸ hvalue
  · exact hall other found hfound

/-- If every definition gives its constant a property, given that all constants have it, then no
constant on the walk is without it. -/
theorem Point.preserves_allConstants
    (hdefines : ∀ {name node state final value},
      Reaches catalog start ⟨.statement (.constant name node), state⟩ →
      catalog.define name node state = .ok () final →
      catalog.valueOf state.bindings node = .ok value → state.bindings.AllConstants Holds →
      Holds name value) :
    start.Preserves catalog (·.AllConstants Holds) where
  enter hall := hall
  leave hall := hall
  useBank domain _ hall := by cases domain <;> exact hall
  retype domain _ _ hall := by cases domain <;> exact hall
  declare _ hdeclare hall := hall.of_eq (Bindings.declare_eq_ok hdeclare).1
  define hreaches hrun hall := by
    rcases Catalog.define_eq_ok.1 hrun with ⟨_, value, hvalue, rfl⟩
    exact hall.insert (hdefines hreaches hrun hvalue hall)

/-- Every definition that the walk from a point comes to gives its constant a property that all
earlier constants have. -/
def Point.Defines (catalog : Catalog) (start : Point) (Holds : String → Typed → Prop) : Prop :=
  ∀ name node state value, Reaches catalog start ⟨.statement (.constant name node), state⟩ →
    catalog.valueOf state.bindings node = .ok value → state.bindings.AllConstants Holds →
    Holds name value

/-- What every definition gives to its constant is true of all constants at all points. -/
theorem Reaches.constants (hdefines : start.Defines catalog Holds)
    (hstart : start.state.bindings.AllConstants Holds) (hreaches : Reaches catalog start point) :
    point.state.bindings.AllConstants Holds :=
  (Point.preserves_allConstants fun hreaches _ => hdefines _ _ _ _ hreaches).atPoint hstart hreaches

end Definitions

/-! ## Global variables -/

/-- All global variables in sight have a property, as far as their names and slots are concerned. -/
def Bindings.AllGlobals (bindings : Bindings) (Holds : String → Slot → Prop) : Prop :=
  ∀ place ∈ (bindings.entries .global).map fun entry => (entry.1, entry.2.slot),
    Holds place.1 place.2

section Variables

variable {catalog : Catalog} {session : Session} {program : Node} {Holds : String → Slot → Prop}

/-- A variable that is found has the property. -/
theorem Bindings.AllGlobals.of_find? {bindings : Bindings} (hall : bindings.AllGlobals Holds)
    {name : String} {found : Variable} (hfound : bindings.globals.find? name = some found) :
    Holds name found.slot := by
  rw [ScopeStack.find?_eq_lookup] at hfound
  exact hall _ (List.mem_map_of_mem (Table.mem_of_lookup hfound))

/-- If every global variable has a property when it gets its slot, then no one on the walk through
a program is without it. -/
theorem Point.preserves_allGlobals
    (hdeclares : ∀ {name type state slot final},
      Reaches catalog (.start session program) ⟨.allocation .global name type, state⟩ →
      state.bindings.declare .global name type = .ok (slot, final) → Holds name slot) :
    (Point.start session program).Preserves catalog (·.AllGlobals Holds) where
  enter {bindings} hall := by rwa [Bindings.AllGlobals, bindings.entries_enter]
  leave {bindings} hall place hplace :=
    hall place (((bindings.entries_leave_sublist .global).map _).subset hplace)
  useBank {bindings} domain bank hall := by
    rwa [Bindings.AllGlobals, bindings.entries_useBank]
  retype {bindings} domain name type hall := by
    rw [Bindings.AllGlobals, bindings.entries_retype]
    split
    · have hplaces := Table.map_change (fun found : Variable => { found with type := type })
        (fun entry => (entry.1, entry.2.slot)) (fun _ _ => rfl) name (bindings.entries .global)
      rwa [hplaces]
    · exact hall
  declare {domain name type state slot final} hreaches hdeclare hall := by
    have hnew := (Catalog.isTaken_eq_false.1 hreaches.isTaken_eq_false.1).2.2
    rcases Bindings.declare_of_find?_none hnew hdeclare with ⟨counters, _, rfl⟩
    rw [Bindings.AllGlobals, Bindings.entries_extend]
    split
    · rename_i hdomain
      subst hdomain
      rw [List.map_cons, List.forall_mem_cons]
      exact ⟨hdeclares hreaches hdeclare, hall⟩
    · exact hall
  define hreaches hrun hall := by
    rcases Catalog.define_eq_ok.1 hrun with ⟨_, _, _, rfl⟩
    exact hall

/-- Every global variable in sight got its slot under its name on the walk through this program. -/
theorem Reaches.allocated {point : Point}
    (hreaches : Reaches catalog (.start session program) point)
    {name : String} {found : Variable}
    (hfound : point.state.bindings.globals.find? name = some found) :
    ∃ type state final,
      Reaches catalog (.start session program) ⟨.allocation .global name type, state⟩ ∧
      state.bindings.declare .global name type = .ok (found.slot, final) := by
  have hpreserves : (Point.start session program).Preserves catalog
      (·.AllGlobals fun name slot => ∃ type state final,
        Reaches catalog (.start session program) ⟨.allocation .global name type, state⟩ ∧
        state.bindings.declare .global name type = .ok (slot, final)) :=
    Point.preserves_allGlobals fun hreaches hdeclare => ⟨_, _, _, hreaches, hdeclare⟩
  refine (hpreserves.atPoint ?_ hreaches).of_find? hfound
  intro place hplace
  cases hplace

end Variables
end Workshop

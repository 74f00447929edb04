import Workshop.Proofs.Substitution
import Workshop.Proofs.Walk.Naming

/-!
# Names of constants and of variables of players

A variable of players is never declared under the name of a constant.  In the
other order nothing forbids it: when a constant is defined, only the variables
in the open scopes are looked at.  So a name can come to stand for both, and this
module shows that it does so exactly if a constant is defined under the name of
a variable of players.

Main definitions:

- `Bindings.shares`: a constant and a variable of players have the same name.
- `Point.Overlaps`: a constant is defined under the name of a variable of
  players.
- `Session.Overlaps`: this happens somewhere in a session.

Main results:

- Theorem `Steps.shares_of_action`: actions give no name to both.
- Theorem `Catalog.shares_topLevel`: the names that a statement gives to both.
- Theorem `names_shared_by_later_constants`: the names that the programs of a
  session give to both, and what becomes of both orders.
- Theorem `constant_named_like_variable`: a program that is accepted and gives a
  name to both.
-/

namespace Workshop

variable {catalog : Catalog} {name : String}

/-! ## Shared names -/

namespace Bindings

/-- Whether a constant and a variable of players have the given name. -/
def shares (bindings : Bindings) (name : String) : Bool :=
  bindings.constants.contains name && bindings.players.contains name

/-- New types keep the names. -/
theorem contains_players_retype (bindings : Bindings) (domain : Domain) (other : String)
    (type : ValueType) :
    (bindings.retype domain other type).players.contains name = bindings.players.contains name := by
  cases domain with
  | global => rfl
  | player =>
      have hlayout := bindings.players.frame.layout_retype other type
      have hcontains : (bindings.players.frame.retype other type).contains name =
          bindings.players.frame.contains name := by
        rw [Frame.contains_eq, Frame.contains_eq, hlayout]
      exact hcontains

/-- New types share no names. -/
theorem shares_retype (bindings : Bindings) (domain : Domain) (other : String)
    (type : ValueType) :
    (bindings.retype domain other type).shares name = bindings.shares name := by
  have hconstants : (bindings.retype domain other type).constants = bindings.constants := by
    cases domain <;> rfl
  rw [shares, shares, hconstants, contains_players_retype]

/-- A variable that is declared under a free name shares it with no constant. -/
theorem shares_declare {bindings later : Bindings} {domain : Domain} {other : String}
    {type : ValueType} {slot : Slot} (hfree : catalog.isTaken bindings domain other = false)
    (hdeclare : bindings.declare domain other type = .ok (slot, later)) :
    later.shares name = bindings.shares name := by
  rcases Catalog.isTaken_eq_false.1 hfree with ⟨_, hconstant, hnew⟩
  rcases declare_of_find?_none hnew hdeclare with ⟨counters, _, rfl⟩
  cases domain with
  | global => rfl
  | player =>
      by_cases hsame : other = name
      · subst hsame
        have hcontains : bindings.constants.contains other = false := by
          rw [Table.contains, hconstant]
          rfl
        have hlater : (bindings.extend .player other ⟨slot, type⟩ counters).constants =
            bindings.constants := rfl
        rw [shares, shares, hlater, hcontains]
        rfl
      · have hinsert : (bindings.extend .player other ⟨slot, type⟩ counters).players.contains name =
            (decide (other = name) || bindings.players.contains name) :=
          bindings.players.frame.contains_insert other name ⟨slot, type⟩
        rw [shares, hinsert, decide_eq_false hsame, Bool.false_or]
        rfl

end Bindings

/-- Actions give no name to a constant and to a variable of players. -/
theorem Steps.shares_of_action {place : Place} {bindings later : Bindings}
    (hsteps : Steps catalog place bindings later) (hplace : place = .action) :
    later.shares name = bindings.shares name := by
  induction hsteps with
  | done place bindings => rfl
  | andThen _ _ ihfirst ihsecond => rw [ihsecond hplace, ihfirst hplace]
  | declare hfree _ hdeclare => exact Bindings.shares_declare hfree hdeclare
  | settle _ _ _ _ ih => rw [Bindings.shares_retype, ih hplace]
  | useBank place bindings domain bank => cases domain <;> rfl
  | define _ _ => cases hplace
  | inScope _ ih => exact ih rfl

/-- Actions share no names. -/
theorem MakesSteps.shares_after {α : Type} {work : Compile α} {state : CompileState}
    (hwork : MakesSteps catalog .action work state) :
    (work.after state).bindings.shares name = state.bindings.shares name :=
  Steps.shares_of_action hwork rfl

/-! ## Overlaps -/

namespace Point

/-- A constant is defined under the name of a variable of players. -/
def Overlaps (catalog : Catalog) (name : String) (point : Point) : Prop :=
  (∃ value, point.task = .statement (.constant name value)) ∧
    point.state.bindings.players.contains name = true ∧ point.Succeeds catalog

/-- From a point, the walk passes such a definition. -/
def PassesOverlap (catalog : Catalog) (name : String) (start : Point) : Prop :=
  ∃ point, Reaches catalog start point ∧ point.Overlaps catalog name

/-- An overlap is here or further on. -/
theorem passesOverlap_iff {start : Point} :
    start.PassesOverlap catalog name ↔
      start.Overlaps catalog name ∨
        ∃ next, Leads catalog start next ∧ next.PassesOverlap catalog name := by
  constructor
  · rintro ⟨point, hreaches, hoverlaps⟩
    rcases Relation.ReflTransGen.cases_head hreaches with rfl | ⟨next, hleads, hnext⟩
    · exact .inl hoverlaps
    · exact .inr ⟨next, hleads, point, hnext, hoverlaps⟩
  · rintro (hoverlaps | ⟨next, hleads, point, hnext, hoverlaps⟩)
    · exact ⟨start, .refl, hoverlaps⟩
    · exact ⟨point, .head hleads hnext, hoverlaps⟩

/-- Constants are not defined inside of rules and declarations. -/
theorem not_passesOverlap_of_isInner {start : Point} (hinner : start.isInner = true) :
    ¬ start.PassesOverlap catalog name := by
  rintro ⟨point, hreaches, ⟨value, htask⟩, _⟩
  have hpoint := isInner_of_reaches hinner hreaches
  rw [isInner, htask] at hpoint
  cases hpoint

variable {state : CompileState}

theorem passesOverlap_block {statements : List Node} :
    PassesOverlap catalog name ⟨.statement (.block statements), state⟩ ↔
      PassesOverlap catalog name ⟨.statements statements, state⟩ := by
  rw [passesOverlap_iff]
  constructor
  · rintro (⟨⟨value, htask⟩, _⟩ | ⟨next, hleads, hnext⟩)
    · cases htask
    · cases hleads
      exact hnext
  · intro hstatements
    exact .inr ⟨_, .block statements state, hstatements⟩

theorem passesOverlap_nil : ¬ PassesOverlap catalog name ⟨.statements [], state⟩ := by
  rw [passesOverlap_iff]
  rintro (⟨⟨value, htask⟩, _⟩ | ⟨next, hleads, _⟩)
  · cases htask
  · cases hleads

theorem passesOverlap_cons {node : Node} {rest : List Node} :
    PassesOverlap catalog name ⟨.statements (node :: rest), state⟩ ↔
      PassesOverlap catalog name ⟨.statement node, state⟩ ∨
        ∃ rules middle, catalog.topLevel node state = .ok rules middle ∧
          PassesOverlap catalog name ⟨.statements rest, middle⟩ := by
  rw [passesOverlap_iff]
  constructor
  · rintro (⟨⟨value, htask⟩, _⟩ | ⟨next, hleads, hnext⟩)
    · cases htask
    · cases hleads with
      | firstStatement => exact .inl hnext
      | otherStatements _ hrun => exact .inr ⟨_, _, hrun, hnext⟩
  · rintro (hfirst | ⟨rules, middle, hrun, hrest⟩)
    · exact .inr ⟨_, .firstStatement node rest state, hfirst⟩
    · exact .inr ⟨_, .otherStatements rest hrun, hrest⟩

theorem passesOverlap_constant {other : String} {value : Node} :
    PassesOverlap catalog name ⟨.statement (.constant other value), state⟩ ↔
      other = name ∧ state.bindings.players.contains name = true ∧
        ∃ final, catalog.define other value state = .ok () final := by
  have hsucceeds : Succeeds catalog ⟨.statement (.constant other value), state⟩ ↔
      ∃ final, catalog.define other value state = .ok () final := by
    rw [succeeds_statement]
    constructor
    · rintro ⟨rules, final, hrun⟩
      rcases Compile.bind_eq_ok.1 hrun with ⟨_, middle, hdefine, _⟩
      exact ⟨middle, hdefine⟩
    · rintro ⟨final, hdefine⟩
      exact ⟨[], final, Compile.bind_eq_ok.2 ⟨(), final, hdefine, rfl⟩⟩
  rw [passesOverlap_iff]
  constructor
  · rintro (⟨⟨_, htask⟩, hplayers, hdone⟩ | ⟨next, hleads, _⟩)
    · cases htask
      exact ⟨rfl, hplayers, hsucceeds.1 hdone⟩
    · cases hleads
  · rintro ⟨rfl, hplayers, hdone⟩
    exact .inl ⟨⟨value, rfl⟩, hplayers, hsucceeds.2 hdone⟩

/-- No other statement defines a constant. -/
theorem not_passesOverlap {node : Node} (hblock : ∀ statements, node ≠ .block statements)
    (hconstant : ∀ other value, node ≠ .constant other value) :
    ¬ PassesOverlap catalog name ⟨.statement node, state⟩ := by
  rw [passesOverlap_iff]
  rintro (⟨⟨value, htask⟩, _⟩ | ⟨next, hleads, hnext⟩)
  · cases htask
    exact hconstant _ _ rfl
  · have hinner : next.isInner = true := by
      cases hleads with
      | block => exact absurd rfl (hblock _)
      | _ => rfl
    exact not_passesOverlap_of_isInner hinner hnext

end Point

/-! ## What statements share -/

namespace Catalog

variable {state final : CompileState}

/-- A name that is taken is refused. -/
theorem requireFree_of_isTaken {domain : Domain}
    (htaken : catalog.isTaken state.bindings domain name = true) :
    catalog.requireFree domain name state = .error (.alreadyDeclared name) state := by
  simp only [requireFree, Compile.query, htaken]
  rfl

/-- A definition that fails changes nothing. -/
theorem eq_of_define_error {value : Node} {error : SemanticError}
    (hrun : catalog.define name value state = .error error final) : final = state := by
  have hafter : (catalog.define name value).after state = final := by
    rw [CompileOn.after, hrun]
  rw [← hafter, define]
  cases hfree : catalog.isTaken state.bindings .global name with
  | true => exact Compile.after_bind_of_error (requireFree_of_isTaken hfree)
  | false =>
      have hrequired : catalog.requireFree .global name state = .ok () state :=
        requireFree_eq_ok.2 ⟨hfree, rfl⟩
      rw [Compile.after_bind_of_ok hrequired]
      cases hvalue : catalog.valueOf state.bindings value with
      | error error =>
          have hquery : Compile.query (catalog.valueOf · value) state = .error error state := by
            simp only [Compile.query, hvalue]
          exact Compile.after_bind_of_error hquery
      | ok typed =>
          have hdefined : ∃ later, catalog.define name value state = .ok () later :=
            ⟨_, define_eq_ok.2 ⟨hfree, typed, hvalue, rfl⟩⟩
          rcases hdefined with ⟨later, hlater⟩
          cases hrun.symm.trans hlater

/-- A definition gives a name to both if it succeeds under the name of a variable of players. -/
theorem shares_define (other : String) (value : Node) (state : CompileState) :
    ((catalog.define other value).after state).bindings.shares name = true ↔
      state.bindings.shares name = true ∨
        (other = name ∧ state.bindings.players.contains name = true ∧
          ∃ final, catalog.define other value state = .ok () final) := by
  cases hrun : catalog.define other value state with
  | error error final =>
      rw [CompileOn.after, hrun, eq_of_define_error hrun]
      simp
  | ok u final =>
      rcases define_eq_ok.1 hrun with ⟨_, typed, _, rfl⟩
      rw [Compile.after_of_ok hrun]
      simp only [Bindings.shares, Table.contains_insert, Bool.and_eq_true, Bool.or_eq_true,
        decide_eq_true_eq]
      constructor
      · rintro ⟨hsame | hconstant, hplayers⟩
        · exact .inr ⟨hsame, hplayers, _, rfl⟩
        · exact .inl ⟨hconstant, hplayers⟩
      · rintro (⟨hconstant, hplayers⟩ | ⟨hsame, hplayers, _⟩)
        · exact ⟨.inr hconstant, hplayers⟩
        · exact ⟨.inl hsame, hplayers⟩

/-- Statements other than blocks and definitions make the steps of actions. -/
theorem topLevel_steps_of_ne {node : Node} (hblock : ∀ statements, node ≠ .block statements)
    (hconstant : ∀ other value, node ≠ .constant other value) (state : CompileState) :
    MakesSteps catalog .action (catalog.topLevel node) state := by
  cases node with
  | block statements => exact absurd rfl (hblock statements)
  | constant other value => exact absurd rfl (hconstant other value)
  | declare typeName other perPlayer initial =>
      refine .bind (.bind (declare_steps typeName other _ initial state) fun _ _ _ => ?_)
        fun _ _ _ => .pure _
      exact .pure _
  | rule rule event conditions actions =>
      exact .bind (rule_steps rule event conditions actions state) fun _ _ _ => .pure _
  | useBank domain bank => exact .useBank .action state.bindings domain bank
  | _ => exact .throw _

/-- Other statements share no names. -/
theorem shares_topLevel_of_ne {node : Node} (hblock : ∀ statements, node ≠ .block statements)
    (hconstant : ∀ other value, node ≠ .constant other value) (state : CompileState) :
    ((catalog.topLevel node).after state).bindings.shares name = true ↔
      state.bindings.shares name = true ∨
        Point.PassesOverlap catalog name ⟨.statement node, state⟩ := by
  rw [or_iff_left (Point.not_passesOverlap hblock hconstant),
    (topLevel_steps_of_ne hblock hconstant state).shares_after]

/-- Statements share names where they overlap. -/
theorem shares_topLevelList_of_forall (nodes : List Node)
    (ih : ∀ node ∈ nodes, ∀ state,
      ((catalog.topLevel node).after state).bindings.shares name = true ↔
        state.bindings.shares name = true ∨
          Point.PassesOverlap catalog name ⟨.statement node, state⟩)
    (state : CompileState) :
    ((catalog.topLevelList nodes).after state).bindings.shares name = true ↔
      state.bindings.shares name = true ∨
        Point.PassesOverlap catalog name ⟨.statements nodes, state⟩ := by
  induction nodes generalizing state with
  | nil =>
      rw [or_iff_left Point.passesOverlap_nil]
      rfl
  | cons node rest ihrest =>
      rw [List.forall_mem_cons] at ih
      have hnode := ih.1 state
      rw [Point.passesOverlap_cons, topLevelList_cons]
      cases hrun : catalog.topLevel node state with
      | error error middle =>
          rw [CompileOn.after, hrun] at hnode
          rw [Compile.after_bind_of_error hrun, hnode]
          simp
      | ok rules middle =>
          have hrest := ihrest ih.2 middle
          rw [Compile.after_of_ok hrun] at hnode
          rw [Compile.after_bind_of_ok hrun, Compile.bindings_after_bind (fun _ _ => rfl), hrest,
            hnode, or_assoc]
          simp

/-- After a statement, whether it succeeds or fails, a name stands for both if it did so before, or
if the walk has passed a definition of a constant under the name of a variable of players. -/
theorem shares_topLevel (node : Node) (state : CompileState) :
    ((catalog.topLevel node).after state).bindings.shares name = true ↔
      state.bindings.shares name = true ∨
        Point.PassesOverlap catalog name ⟨.statement node, state⟩ := by
  induction node generalizing state with
  | block statements ih =>
      rw [Point.passesOverlap_block]
      exact shares_topLevelList_of_forall statements ih state
  | constant other value =>
      rw [Point.passesOverlap_constant, topLevel, topLevelOf,
        Compile.bindings_after_bind (fun _ _ => rfl)]
      exact shares_define other value state
  | _ => exact shares_topLevel_of_ne (by simp) (by simp) state

end Catalog

/-- What is shared at a point was shared at the start, or the walk from there has an overlap. -/
theorem Reaches.shares {start point : Point} (hreaches : Reaches catalog start point)
    (hshares : point.state.bindings.shares name = true) :
    start.state.bindings.shares name = true ∨ start.PassesOverlap catalog name := by
  induction hreaches with
  | refl => exact .inl hshares
  | tail hreaches hleads ih =>
      cases hleads with
      | @otherStatements node state middle rules rest hrun =>
          have hafter : ((catalog.topLevel node).after state).bindings.shares name = true := by
            rw [Compile.after_of_ok hrun]
            exact hshares
          rcases (Catalog.shares_topLevel node state).1 hafter with
            hbefore | ⟨overlap, hoverlap, hoverlaps⟩
          · exact ih hbefore
          · exact .inr ⟨overlap, hreaches.trans (.head (.firstStatement _ _ _) hoverlap), hoverlaps⟩
      | otherActions rest hrun =>
          have hsteps := (Catalog.action_steps _ _).steps_of_ok hrun
          exact ih ((hsteps.shares_of_action rfl).symm.trans hshares)
      | elseBranch branch hcondition hrun =>
          have hsteps := (Catalog.action_steps _ _).steps_of_ok hrun
          exact ih ((hsteps.shares_of_action rfl).symm.trans hshares)
      | _ => exact ih hshares

/-! ## Sessions -/

namespace Session

/-- In one of the programs of a session, a constant is defined under the name of a variable of
players. -/
def Overlaps (session : Session) (catalog : Catalog) (programs : List Node) (name : String) :
    Prop :=
  ∃ before program rest, programs = before ++ program :: rest ∧
    (Point.start (session.compileAll catalog before) program).PassesOverlap catalog name

theorem not_overlaps_nil {session : Session} : ¬ session.Overlaps catalog [] name := by
  rintro ⟨before, program, rest, hprograms, _⟩
  simp at hprograms

theorem overlaps_cons {session : Session} {program : Node} {rest : List Node} :
    session.Overlaps catalog (program :: rest) name ↔
      (Point.start session program).PassesOverlap catalog name ∨
        (session.compile catalog program).session.Overlaps catalog rest name := by
  constructor
  · rintro ⟨before, other, others, hprograms, hpasses⟩
    cases before with
    | nil =>
        cases hprograms
        exact .inl hpasses
    | cons first before =>
        cases hprograms
        exact .inr ⟨before, other, others, rfl, hpasses⟩
  · rintro (hpasses | ⟨before, other, others, rfl, hpasses⟩)
    · exact ⟨[], program, rest, rfl, hpasses⟩
    · exact ⟨program :: before, other, others, rfl, hpasses⟩

/-- Programs share names where they overlap. -/
theorem shares_compile (session : Session) (program : Node) :
    (session.compile catalog program).session.bindings.shares name = true ↔
      session.bindings.shares name = true ∨
        (Point.start session program).PassesOverlap catalog name := by
  have hprogram : ((catalog.program program).after ⟨session.bindings, #[]⟩).bindings =
      ((catalog.topLevel program).after ⟨session.bindings, #[]⟩).bindings :=
    Compile.bindings_after_bind (fun _ _ => rfl) _
  have hlives (bindings : Bindings) :
      (ofBindings bindings).bindings.shares name = bindings.shares name := rfl
  rw [session_compile, hlives, hprogram]
  exact Catalog.shares_topLevel program _

/-- The names that stand for both after the programs of a session. -/
theorem shares_compileAll (session : Session) (programs : List Node) :
    (session.compileAll catalog programs).bindings.shares name = true ↔
      session.bindings.shares name = true ∨ session.Overlaps catalog programs name := by
  induction programs generalizing session with
  | nil =>
      rw [or_iff_left not_overlaps_nil]
      rfl
  | cons program rest ih => rw [overlaps_cons, ← or_assoc, ← shares_compile, ← ih, compileAll]

/-- A session starts without names, so only overlaps give a name to both. -/
theorem shares_initial_compileAll (programs : List Node) :
    (initial.compileAll catalog programs).bindings.shares name = true ↔
      initial.Overlaps catalog programs name := by
  have hinitial : initial.bindings.shares name = false := rfl
  rw [shares_compileAll, hinitial]
  simp

/-- What is shared at a point of one more program comes from an overlap in one of them. -/
theorem overlaps_of_reaches {programs : List Node} {program : Node} {point : Point}
    (hreaches : Reaches catalog (.start (initial.compileAll catalog programs) program) point)
    (hshares : point.state.bindings.shares name = true) :
    initial.Overlaps catalog (programs ++ [program]) name := by
  rcases hreaches.shares hshares with hstart | hpasses
  · rcases (shares_initial_compileAll programs).1 hstart with ⟨before, other, rest, rfl, hpasses⟩
    refine ⟨before, other, rest ++ [program], ?_, hpasses⟩
    rw [List.append_assoc, List.cons_append]
  · exact ⟨programs, program, [], rfl, hpasses⟩

end Session

/-! ## Both orders -/

/-- A plain name stands for nothing if it names neither a constant nor a variable in sight. -/
theorem Storage.name_eq_undeclared {bindings : Bindings} :
    Storage.name bindings name = .error (.undeclared name) ↔
      bindings.constants.find? name = none ∧ bindings.globals.find? name = none := by
  rw [Storage.name_eq]
  cases bindings.constants.find? name with
  | some value => simp
  | none => cases bindings.globals.find? name <;> simp

namespace Catalog

variable {state middle final : CompileState} {node value : Node} {first second nodes : List Node}
  {rules : List String}

/-- Statements that succeed lead the walk to those after them. -/
theorem reaches_of_topLevelList (hfirst : catalog.topLevelList first state = .ok rules middle) :
    Reaches catalog ⟨.statements (first ++ second), state⟩ ⟨.statements second, middle⟩ := by
  induction first generalizing state rules with
  | nil =>
      rcases Compile.pure_eq_ok.1 hfirst with ⟨_, rfl⟩
      exact .refl
  | cons node others ih =>
      rcases Compile.append_eq_ok.1 hfirst with ⟨head, next, tail, hhead, htail, _⟩
      exact .head (.otherStatements _ hhead) (ih htail)

/-- A failure after statements that succeed is the failure of all of them. -/
theorem topLevelList_append_of_error {error : SemanticError}
    (hfirst : catalog.topLevelList first state = .ok rules middle)
    (hsecond : catalog.topLevelList second middle = .error error final) :
    catalog.topLevelList (first ++ second) state = .error error final := by
  induction first generalizing state rules with
  | nil =>
      rcases Compile.pure_eq_ok.1 hfirst with ⟨_, rfl⟩
      exact hsecond
  | cons node others ih =>
      rw [topLevelList_cons, Compile.append_eq_ok] at hfirst
      rcases hfirst with ⟨head, next, tail, hhead, htail, _⟩
      have hrest : catalog.topLevelList (others ++ second) next = .error error final := ih htail
      simp only [List.cons_append, topLevelList_cons, bind, EStateM.bind, hhead, hrest]

/-- What a statement among others leaves is kept to their end. -/
theorem keeps_of_mem (hmem : node ∈ nodes)
    (hrun : catalog.topLevelList nodes state = .ok rules final) :
    ∃ before after found, catalog.topLevel node before = .ok found after ∧
      after.bindings.Keeps final.bindings := by
  rcases List.append_of_mem hmem with ⟨first, rest, rfl⟩
  rcases topLevelList_append.1 hrun with ⟨_, _, before, _, hsecond, _⟩
  rcases Compile.append_eq_ok.1 hsecond with ⟨found, after, _, hnode, hrest, _⟩
  exact ⟨before, after, found, hnode, ((topLevelList_steps rest after).steps_of_ok hrest).keeps⟩

/-- Constants are known at the end. -/
theorem contains_constant_of_mem (hmem : .constant name value ∈ nodes)
    (hrun : catalog.topLevelList nodes state = .ok rules final) :
    final.bindings.constants.contains name = true := by
  rcases keeps_of_mem hmem hrun with ⟨before, after, _, hconstant, hkeeps⟩
  rcases Compile.bind_eq_ok.1 hconstant with ⟨_, _, hdefine, hpure⟩
  rcases Compile.pure_eq_ok.1 hpure with ⟨_, rfl⟩
  rcases define_eq_ok.1 hdefine with ⟨_, typed, _, rfl⟩
  have hdefined : (before.bindings.constants.insert name typed).find? name = some typed := by
    rw [Table.find?_insert, if_pos rfl]
  have hfinal := hkeeps.session.constants name typed hdefined
  exact Option.isSome_iff_exists.2 ⟨typed, hfinal⟩

/-- A variable of players that has been declared is among them. -/
theorem contains_players_of_declare {typeName : String} {initial : Option Node}
    {written : Option String}
    (hrun : catalog.declare typeName name .player initial state = .ok written final) :
    final.bindings.players.contains name = true := by
  have hnew {type : ValueType} {slot : Slot} {bindings : Bindings}
      (hfree : catalog.isTaken state.bindings .player name = false)
      (hslot : state.bindings.declare .player name type = .ok (slot, bindings)) :
      bindings.players.contains name = true := by
    have hfound := Bindings.find?_of_declare (isTaken_eq_false.1 hfree).2.2 hslot
    exact Option.isSome_iff_exists.2 ⟨_, hfound⟩
  cases initial with
  | none =>
      rcases declare_none_eq_ok.1 hrun with ⟨hfree, _, _, _, _, hslot, _, rfl⟩
      exact hnew hfree hslot
  | some initial =>
      rcases declare_some_eq_ok.1 hrun with
        ⟨hfree, _, _, _, bindings, _, inferred, _, _, hslot, _, _, rfl⟩
      cases inferred with
      | none => exact hnew hfree hslot
      | some type =>
          exact (bindings.contains_players_retype .player name type).trans (hnew hfree hslot)

/-- So are variables of players. -/
theorem contains_player_of_mem {typeName : String} {initial : Option Node}
    (hmem : .declare typeName name true initial ∈ nodes)
    (hrun : catalog.topLevelList nodes state = .ok rules final) :
    final.bindings.players.contains name = true := by
  rcases keeps_of_mem hmem hrun with ⟨before, after, _, hdeclaration, hkeeps⟩
  rcases Compile.bind_eq_ok.1 hdeclaration with ⟨_, _, hdiscard, hpure⟩
  rcases Compile.pure_eq_ok.1 hpure with ⟨_, rfl⟩
  rcases Compile.discard_eq_ok.1 hdiscard with ⟨written, hdeclare⟩
  have hcontains := contains_players_of_declare hdeclare
  have hslots (frame : Frame) : frame.contains name = (frame.layout.slotOf? name).isSome := by
    rw [Frame.contains_eq]
  rcases Option.isSome_iff_exists.1 ((hslots _).symm.trans hcontains) with ⟨slot, hslot⟩
  have hfinal := hkeeps.session.players name slot hslot
  exact (hslots _).trans (Option.isSome_iff_exists.2 ⟨slot, hfinal⟩)

/-- A definition under the name of a variable of players succeeds if the plain name stands for
nothing and the expression has a value. -/
theorem define_under_player_eq_ok (hwell : WellNamed catalog state.bindings)
    (hplayers : state.bindings.players.contains name = true) :
    (∃ final, catalog.define name value state = .ok () final) ↔
      Storage.name state.bindings name = .error (.undeclared name) ∧
        ∃ typed, catalog.valueOf state.bindings value = .ok typed := by
  rw [Storage.name_eq_undeclared]
  constructor
  · rintro ⟨final, hrun⟩
    rcases define_eq_ok.1 hrun with ⟨hfree, typed, hvalue, _⟩
    exact ⟨(isTaken_eq_false.1 hfree).2, typed, hvalue⟩
  · rintro ⟨hnothing, typed, hvalue⟩
    have hfree : catalog.isTaken state.bindings .global name = false :=
      isTaken_eq_false.2 ⟨hwell.players name hplayers, hnothing⟩
    exact ⟨_, define_eq_ok.2 ⟨hfree, typed, hvalue, rfl⟩⟩

end Catalog

namespace Session

variable {session : Session} {before rest : List Node} {rules : List String}
  {middle : CompileState}

variable (hbefore : catalog.topLevelList before ⟨session.bindings, #[]⟩ = .ok rules middle)

include hbefore

/-- A program that declares a variable of players after a constant of its name is refused. -/
theorem outcome_of_later_variable {typeName : String} {initial : Option Node}
    (hconstant : middle.bindings.constants.contains name = true) :
    (session.compile catalog
      (.block (before ++ .declare typeName name true initial :: rest))).outcome =
        .error (.alreadyDeclared name) := by
  have htaken : catalog.isTaken middle.bindings .player name = true := by
    simp [Catalog.isTaken_eq, hconstant]
  have hdeclare : catalog.declare typeName name .player initial middle =
      .error (.alreadyDeclared name) middle :=
    Compile.bind_of_error (Catalog.requireFree_of_isTaken htaken)
  have hstatement : catalog.topLevel (.declare typeName name true initial) middle =
      .error (.alreadyDeclared name) middle :=
    Compile.bind_of_error (Compile.bind_of_error hdeclare)
  have hprogram : catalog.program (.block (before ++ .declare typeName name true initial :: rest))
      ⟨session.bindings, #[]⟩ = .error (.alreadyDeclared name) middle :=
    Compile.bind_of_error
      (Catalog.topLevelList_append_of_error hbefore (Compile.bind_of_error hstatement))
  rw [compile, hprogram]

/-- A program that ends with a definition is accepted if the definition is. -/
theorem accepts_later_constant {value : Node} :
    (∃ text, (session.compile catalog
      (.block (before ++ [.constant name value]))).outcome = .ok text) ↔
        ∃ final, catalog.define name value middle = .ok () final := by
  constructor
  · rintro ⟨text, haccepted⟩
    rcases compile_eq_ok.1 haccepted with ⟨final, hprogram, _⟩
    rcases Catalog.program_eq_ok.1 hprogram with ⟨_, hrules, _⟩
    rcases Catalog.topLevelList_append.1 hrules with ⟨_, _, _, hbefore', hconstant, _⟩
    cases hbefore.symm.trans hbefore'
    rcases Compile.append_eq_ok.1 hconstant with ⟨_, _, _, hstatement, _⟩
    rcases Compile.bind_eq_ok.1 hstatement with ⟨_, later, hdefine, _⟩
    exact ⟨later, hdefine⟩
  · rintro ⟨final, hdefine⟩
    have hstatement : catalog.topLevel (.constant name value) middle = .ok [] final :=
      Compile.bind_eq_ok.2 ⟨(), final, hdefine, rfl⟩
    have hconstant : catalog.topLevelList [.constant name value] middle = .ok [] final :=
      Compile.bind_eq_ok.2 ⟨[], final, hstatement, rfl⟩
    have hprogram : catalog.program (.block (before ++ [.constant name value]))
        ⟨session.bindings, #[]⟩ = .ok ("\n\n".intercalate (rules ++ [])) final :=
      Catalog.program_eq_ok.2
        ⟨_, Catalog.topLevelList_append.2 ⟨rules, [], middle, hbefore, hconstant, rfl⟩, rfl⟩
    exact ⟨_, by rw [compile, hprogram]⟩

/-- When a definition under the name of a variable of players succeeds, the session keeps both,
whatever comes after it. -/
theorem shares_of_later_constant {value : Node}
    (hplayers : middle.bindings.players.contains name = true)
    (hdefine : ∃ final, catalog.define name value middle = .ok () final) :
    (session.compile catalog
      (.block (before ++ .constant name value :: rest))).session.bindings.shares name = true := by
  rw [shares_compile]
  have hpasses : Point.PassesOverlap catalog name ⟨.statement (.constant name value), middle⟩ :=
    Point.passesOverlap_constant.2 ⟨rfl, hplayers, hdefine⟩
  rcases hpasses with ⟨point, hreaches, hoverlaps⟩
  have hconstant := (Catalog.reaches_of_topLevelList hbefore).trans
    (.head (.firstStatement (.constant name value) rest middle) hreaches)
  exact .inr ⟨point, .head (.block _ _) hconstant, hoverlaps⟩

end Session

/-- Names of constants and of variables of players, over all programs of a session and whether they
fail or not.  A name stands for both exactly if somewhere a constant was defined under the name of
a variable of players, and inside a further program it does so only if this happens in one of
them.  A variable of players that comes after a constant of its name is refused.  A constant that
comes after a variable of players of its name is accepted exactly if the plain name stands for
nothing and its expression has a value, and then the name stands for both from there on. -/
theorem names_shared_by_later_constants (catalog : Catalog) (programs : List Node)
    (name : String) :
    let session := Session.initial.compileAll catalog programs
    (session.bindings.shares name = true ↔ Session.initial.Overlaps catalog programs name) ∧
    (∀ program point, Reaches catalog (.start session program) point →
      point.state.bindings.shares name = true →
      Session.initial.Overlaps catalog (programs ++ [program]) name) ∧
    ∀ (before rest : List Node) (rules : List String) (middle : CompileState)
      (typeName : String) (initial : Option Node) (value : Node),
      catalog.topLevelList before ⟨session.bindings, #[]⟩ = .ok rules middle →
      (.constant name value ∈ before →
        (session.compile catalog
          (.block (before ++ .declare typeName name true initial :: rest))).outcome =
            .error (.alreadyDeclared name)) ∧
      (.declare typeName name true initial ∈ before →
        ((∃ text, (session.compile catalog
            (.block (before ++ [.constant name value]))).outcome = .ok text) ↔
          Storage.name middle.bindings name = .error (.undeclared name) ∧
            ∃ typed, catalog.valueOf middle.bindings value = .ok typed) ∧
        (Storage.name middle.bindings name = .error (.undeclared name) →
          (∃ typed, catalog.valueOf middle.bindings value = .ok typed) →
          (session.compile catalog
            (.block (before ++ .constant name value :: rest))).session.bindings.shares name =
              true)) := by
  intro session
  refine ⟨Session.shares_initial_compileAll programs, ?points, ?orders⟩
  case points => exact fun program point => Session.overlaps_of_reaches
  case orders =>
    intro before rest rules middle typeName initial value hbefore
    have hempty : WellNamed catalog Session.initial.bindings :=
      Session.wellNamed_bindings (fun _ hname => nomatch hname) (fun _ hname => nomatch hname)
    have hwell : WellNamed catalog middle.bindings :=
      ((Catalog.topLevelList_steps before _).steps_of_ok hbefore).wellNamed
        (Session.wellNamed_compileAll catalog programs hempty)
    constructor
    · intro hmem
      exact Session.outcome_of_later_variable hbefore
        (Catalog.contains_constant_of_mem hmem hbefore)
    · intro hmem
      have hplayers := Catalog.contains_player_of_mem hmem hbefore
      have hdefine : (∃ final, catalog.define name value middle = .ok () final) ↔
          Storage.name middle.bindings name = .error (.undeclared name) ∧
            ∃ typed, catalog.valueOf middle.bindings value = .ok typed :=
        Catalog.define_under_player_eq_ok hwell hplayers
      refine ⟨(Session.accepts_later_constant hbefore).trans hdefine, ?_⟩
      intro hnothing hvalue
      exact Session.shares_of_later_constant hbefore hplayers (hdefine.2 ⟨hnothing, hvalue⟩)

/-- A variable of players. -/
def scoreVariable : Node := .declare "number" "score" true none

/-- A constant of the same name. -/
def scoreConstant : Node := .constant "score" (.number "5")

/-- The variable is refused after the constant, and the constant is accepted after the variable. -/
theorem names_shared_by_later_constants_score :
    (Session.initial.compile .standard (.block [scoreConstant, scoreVariable])).outcome =
      .error (.alreadyDeclared "score") ∧
    (∃ text, (Session.initial.compile .standard
      (.block [scoreVariable, scoreConstant])).outcome = .ok text) ∧
    (Session.initial.compileAll .standard [.block [scoreVariable, scoreConstant]]).bindings.shares
      "score" = true ∧
    Session.initial.Overlaps .standard [.block [scoreVariable, scoreConstant]] "score" := by
  have hshared : (Session.initial.compileAll .standard
      [.block [scoreVariable, scoreConstant]]).bindings.shares "score" = true := by
    decide +kernel
  have horders := (names_shared_by_later_constants .standard [] "score").2.2
  have hconstant := (horders [scoreConstant] [] _ _ "number" none (.number "5") rfl).1
    List.mem_cons_self
  have hvariable := ((horders [scoreVariable] [] _ _ "number" none (.number "5") rfl).2
    List.mem_cons_self).1.2 ⟨rfl, _, rfl⟩
  have hoverlaps := (names_shared_by_later_constants .standard
    [.block [scoreVariable, scoreConstant]] "score").1.1 hshared
  exact ⟨hconstant, hvariable, hshared, hoverlaps⟩

/-- A program with both, which sets the variable of a player to the constant. -/
def sharedScore : Node :=
  .block [scoreVariable, scoreConstant,
    .rule "R" "player" none
      [.assign "score" (some .player) (.identifier "score" none)]]

/-- A constant and a variable of players can have the same name: this program is accepted, and
leaves a session in which one name stands for both. -/
theorem constant_named_like_variable :
    (∃ text, compileTree sharedScore ⟨false⟩ = .ok text) ∧
    (Session.initial.compile .standard sharedScore).session.bindings.shares "score" = true := by
  refine ⟨⟨_, rfl⟩, ?_⟩
  decide +kernel

end Workshop

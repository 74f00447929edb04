import Workshop.Proofs.Walk.Balance
import Workshop.Proofs.Walk.Points

/-!
# Names do not clash

A name is checked before a variable or a constant gets it.  So at every point
of every walk, a plain name stands for one thing at most: it names a constant,
or a variable of one open scope, or nothing.  Names that the catalog reserves
are never given away.

Main definitions:

- `WellNamed`: no name clashes with another one.
- `Bindings.meanings`: everything that a plain name could stand for.

Main results:

- Theorem `Steps.wellNamed`: no step makes names clash.
- Theorem `Bindings.name_of_wellNamed`: a plain name has at most one meaning.
- Theorem `names_never_clash`: names do not clash at any point of a session.
-/

namespace Workshop

/-! ## Names of scopes -/

/-- The names of a frame can be seen from its layout. -/
theorem Frame.contains_eq (frame : Frame) :
    frame.contains = fun name => (frame.layout.slotOf? name).isSome := by
  funext name
  simp only [contains, layout, Option.isSome_map]

/-- A frame contains the new name. -/
theorem Frame.contains_insert (frame : Frame) (name other : String) (added : Variable) :
    ({ frame with table := frame.table.insert name added } : Frame).contains other =
      (decide (name = other) || frame.contains other) := by
  simp only [contains, find?, Table.find?_insert]
  by_cases hsame : name = other <;> simp [hsame]

namespace ScopeStack

/-- Fixing a type leaves the names of all scopes as they are. -/
theorem map_contains_retype (scopes : ScopeStack) (name : String) (type : ValueType) :
    (scopes.retype name type).frames.map Frame.contains = scopes.frames.map Frame.contains := by
  have hnames (frames : List Frame) : frames.map Frame.contains =
      (frames.map Frame.layout).map fun layout name => (layout.slotOf? name).isSome := by
    rw [List.map_map]
    exact List.map_congr_left fun frame _ => frame.contains_eq
  rw [hnames, hnames scopes.frames, frames_retype, map_layout_retypeIn]

/-- A name that is not found is in none of the scopes. -/
theorem contains_of_find?_none {scopes : ScopeStack} {name : String}
    (hnone : scopes.find? name = none) (frame : Frame) (hframe : frame ∈ scopes.frames) :
    frame.contains name = false := by
  have hlookup : Table.lookup name frame.table.entries = none := by
    rw [find?_eq_lookup, Table.lookup_eq_none_iff] at hnone
    rw [Table.lookup_eq_none_iff]
    intro hname
    apply hnone
    rcases List.mem_map.1 hname with ⟨entry, hentry, hkey⟩
    exact List.mem_map.2 ⟨entry, List.mem_flatMap.2 ⟨frame, hframe, hentry⟩, hkey⟩
  have hcontains : frame.contains name = (Table.lookup name frame.table.entries).isSome := rfl
  rw [hcontains, hlookup]
  rfl

end ScopeStack

/-! ## Well named bindings -/

/-- No name clashes with another one. -/
structure WellNamed (catalog : Catalog) (bindings : Bindings) : Prop where
  /-- A name is in at most one of the open scopes. -/
  once : ∀ name, bindings.globals.frames.countP (·.contains name) ≤ 1
  /-- A name in an open scope is not the name of a constant. -/
  notConstant : ∀ frame ∈ bindings.globals.frames, ∀ name, frame.contains name = true →
    bindings.constants.contains name = false
  /-- Names of variables and constants are not reserved. -/
  globals : ∀ frame ∈ bindings.globals.frames, ∀ name, frame.contains name = true →
    catalog.isReserved name = false
  players : ∀ name, bindings.players.contains name = true → catalog.isReserved name = false
  constants : ∀ name, bindings.constants.contains name = true → catalog.isReserved name = false

namespace WellNamed

variable {catalog : Catalog} {bindings later : Bindings}

variable (hwell : WellNamed catalog bindings)

include hwell

/-- Only the names of scopes, of variables of players and of constants count. -/
theorem of_same_names (hglobals : later.globals.frames.map Frame.contains =
      bindings.globals.frames.map Frame.contains)
    (hplayers : later.players.frame.contains = bindings.players.frame.contains)
    (hconstants : later.constants = bindings.constants) : WellNamed catalog later := by
  have hframe : ∀ frame ∈ later.globals.frames, ∃ earlier ∈ bindings.globals.frames,
      earlier.contains = frame.contains := by
    intro frame hmem
    have hnames : frame.contains ∈ bindings.globals.frames.map Frame.contains :=
      hglobals ▸ List.mem_map_of_mem hmem
    exact List.mem_map.1 hnames
  refine ⟨?once, ?notConstant, ?globals, ?players, ?constants⟩
  case once =>
    intro name
    have hcount (frames : List Frame) : frames.countP (·.contains name) =
        (frames.map Frame.contains).countP fun names => names name := by
      rw [List.countP_map]
      rfl
    rw [hcount, hglobals, ← hcount]
    exact hwell.once name
  case notConstant =>
    intro frame hmem name hname
    rcases hframe frame hmem with ⟨earlier, hearlier, hsame⟩
    rw [hconstants]
    exact hwell.notConstant earlier hearlier name (hsame ▸ hname)
  case globals =>
    intro frame hmem name hname
    rcases hframe frame hmem with ⟨earlier, hearlier, hsame⟩
    exact hwell.globals earlier hearlier name (hsame ▸ hname)
  case players =>
    intro name hname
    apply hwell.players name
    have hsame := congrFun hplayers name
    exact hsame.symm.trans hname
  case constants =>
    rw [hconstants]
    exact hwell.constants

/-- Names are told apart in a new scope. -/
theorem enter : WellNamed catalog bindings.enter where
  once name := by
    have hempty : (Frame.empty bindings.globals.inner.bank).contains name = false := rfl
    have hframes : bindings.enter.globals.frames =
        Frame.empty bindings.globals.inner.bank :: bindings.globals.frames := rfl
    rw [hframes, List.countP_cons_of_neg (by simp [hempty])]
    exact hwell.once name
  notConstant frame hmem name hname := by
    rcases List.mem_cons.1 hmem with rfl | hmem
    · cases hname
    · exact hwell.notConstant frame hmem name hname
  globals frame hmem name hname := by
    rcases List.mem_cons.1 hmem with rfl | hmem
    · cases hname
    · exact hwell.globals frame hmem name hname
  players := hwell.players
  constants := hwell.constants

/-- So they are behind a scope. -/
theorem leave : WellNamed catalog bindings.leave := by
  have hsublist : bindings.leave.globals.frames.Sublist bindings.globals.frames := by
    rcases bindings with ⟨constants, players, inner, outer, slots⟩
    cases outer with
    | nil => exact List.Sublist.refl _
    | cons frame outer => exact List.sublist_cons_self _ _
  exact {
    once := fun name => Nat.le_trans hsublist.countP_le (hwell.once name)
    notConstant := fun frame hmem => hwell.notConstant frame (hsublist.subset hmem)
    globals := fun frame hmem => hwell.globals frame (hsublist.subset hmem)
    players := hwell.players
    constants := hwell.constants }

/-- So they are with new types. -/
theorem retype (domain : Domain) (name : String) (type : ValueType) :
    WellNamed catalog (bindings.retype domain name type) := by
  cases domain with
  | global => exact hwell.of_same_names (bindings.globals.map_contains_retype name type) rfl rfl
  | player =>
      refine hwell.of_same_names rfl ?_ rfl
      have hlayout := bindings.players.frame.layout_retype name type
      rw [Frame.contains_eq, Frame.contains_eq, ← hlayout]
      rfl

/-- So they are with another bank. -/
theorem useBank (domain : Domain) (bank : Bank) :
    WellNamed catalog (bindings.useBank domain bank) := by
  cases domain <;> exact hwell.of_same_names rfl rfl rfl

/-- A declaration adds a free name to the innermost scope, or to the variables of players. -/
theorem declare {domain : Domain} {name : String} {type : ValueType} {slot : Slot}
    (hfree : catalog.isTaken bindings domain name = false)
    (hdeclare : bindings.declare domain name type = .ok (slot, later)) :
    WellNamed catalog later := by
  rcases Catalog.isTaken_eq_false.1 hfree with ⟨hunreserved, hconstant, hnew⟩
  rcases Bindings.declare_of_find?_none hnew hdeclare with ⟨counters, _, rfl⟩
  -- A name of the frame with the new variable is the new name, or it was there before.
  have hadded {frame : Frame} {added : Variable} {other : String}
      (hother : ({ frame with table := frame.table.insert name added } : Frame).contains other =
        true) : name = other ∨ frame.contains other = true := by
    rw [Frame.contains_insert, Bool.or_eq_true, decide_eq_true_iff] at hother
    exact hother
  cases domain with
  | global =>
      have habsent := ScopeStack.contains_of_find?_none hnew
      have hnoConstant : bindings.constants.contains name = false := by
        rw [Table.contains, hconstant]
        rfl
      refine ⟨?once, ?notConstant, ?globals, hwell.players, hwell.constants⟩
      case once =>
        intro other
        have hframes : (bindings.extend .global name ⟨slot, type⟩ counters).globals.frames =
            { bindings.globals.inner with
              table := bindings.globals.inner.table.insert name ⟨slot, type⟩ } ::
              bindings.globals.outer := rfl
        have hbefore := hwell.once other
        rw [ScopeStack.frames, List.countP_cons] at hbefore
        rw [hframes, List.countP_cons, Frame.contains_insert]
        by_cases hsame : name = other
        · subst hsame
          have houter : bindings.globals.outer.countP (·.contains name) = 0 := by
            rw [List.countP_eq_zero]
            intro frame hmem
            rw [habsent frame (List.mem_cons_of_mem _ hmem)]
            exact Bool.false_ne_true
          rw [houter]
          split <;> omega
        · simpa only [hsame, decide_false, Bool.false_or] using hbefore
      case notConstant =>
        intro frame hmem other hother
        rcases List.mem_cons.1 hmem with rfl | hmem
        · rcases hadded hother with rfl | hother
          · exact hnoConstant
          · exact hwell.notConstant _ List.mem_cons_self other hother
        · exact hwell.notConstant frame (List.mem_cons_of_mem _ hmem) other hother
      case globals =>
        intro frame hmem other hother
        rcases List.mem_cons.1 hmem with rfl | hmem
        · rcases hadded hother with rfl | hother
          · exact hunreserved
          · exact hwell.globals _ List.mem_cons_self other hother
        · exact hwell.globals frame (List.mem_cons_of_mem _ hmem) other hother
  | player =>
      refine ⟨hwell.once, hwell.notConstant, hwell.globals, ?_, hwell.constants⟩
      intro other hother
      rcases hadded hother with rfl | hother
      · exact hunreserved
      · exact hwell.players other hother

/-- So they are behind a new constant. -/
theorem define {name : String} (value : Typed)
    (hfree : catalog.isTaken bindings .global name = false) :
    WellNamed catalog { bindings with constants := bindings.constants.insert name value } := by
  rcases Catalog.isTaken_eq_false.1 hfree with ⟨hunreserved, _, hnew⟩
  have habsent := ScopeStack.contains_of_find?_none hnew
  refine ⟨hwell.once, ?notConstant, hwell.globals, hwell.players, ?constants⟩
  case notConstant =>
    intro frame hmem other hother
    have hne : name ≠ other := by
      rintro rfl
      rw [habsent frame hmem] at hother
      cases hother
    rw [Table.contains, Table.find?_insert, if_neg hne]
    exact hwell.notConstant frame hmem other hother
  case constants =>
    intro other hother
    by_cases hsame : name = other
    · exact hsame ▸ hunreserved
    · rw [Table.contains, Table.find?_insert, if_neg hsame] at hother
      exact hwell.constants other hother

end WellNamed

/-- No step makes names clash. -/
theorem Steps.wellNamed {catalog : Catalog} {place : Place} {bindings later : Bindings}
    (hsteps : Steps catalog place bindings later) (hwell : WellNamed catalog bindings) :
    WellNamed catalog later := by
  induction hsteps with
  | done place bindings => exact hwell
  | andThen _ _ ihfirst ihsecond => exact ihsecond (ihfirst hwell)
  | declare hfree _ hdeclare => exact hwell.declare hfree hdeclare
  | settle _ _ _ _ ih => exact (ih hwell).retype _ _ _
  | useBank place bindings domain bank => exact hwell.useBank domain bank
  | define hfree _ => exact hwell.define _ hfree
  | inScope _ ih => exact (ih hwell.enter).leave

/-! ## Meanings of plain names -/

/-- The variable that is found is the first one in the scopes, from the inside out. -/
theorem ScopeStack.find?_eq_head? (scopes : ScopeStack) (name : String) :
    scopes.find? name = (scopes.frames.filterMap (·.find? name)).head? := by
  unfold find? frameOf?
  induction scopes.frames with
  | nil => rfl
  | cons frame rest ih =>
      rw [List.find?_cons, List.filterMap_cons]
      cases hfound : frame.find? name with
      | none =>
          rw [Frame.contains, hfound]
          exact ih
      | some found =>
          rw [Frame.contains, hfound]
          exact hfound

namespace Bindings

/-- Everything that a plain name could stand for: the constant of this name, and the variables of
this name in all open scopes. -/
def meanings (bindings : Bindings) (name : String) : List Typed :=
  (bindings.constants.find? name).toList ++
    (bindings.globals.frames.filterMap (·.find? name)).map fun found =>
      ⟨found.type, Term.readGlobal found.slot⟩

/-- The value of a plain name is the first of its meanings. -/
theorem name_eq_meanings (bindings : Bindings) (name : String) :
    Storage.name bindings name =
      match bindings.meanings name with
      | [] => .error (.undeclared name)
      | value :: _ => .ok value := by
  rw [Storage.name_eq, meanings]
  cases bindings.constants.find? name with
  | some value => rfl
  | none =>
      rw [ScopeStack.find?_eq_head?]
      cases bindings.globals.frames.filterMap (·.find? name) with
      | nil => rfl
      | cons found rest => rfl

/-- A name has at most one meaning. -/
theorem length_meanings_le {catalog : Catalog} {bindings : Bindings}
    (hwell : WellNamed catalog bindings) (name : String) :
    (bindings.meanings name).length ≤ 1 := by
  have hscopes : (bindings.globals.frames.filterMap (·.find? name)).length =
      bindings.globals.frames.countP (·.contains name) := List.length_filterMap_eq_countP
  have honce := hwell.once name
  rw [meanings, List.length_append, List.length_map, hscopes]
  cases hconstant : bindings.constants.find? name with
  | none => simpa using honce
  | some value =>
      have hnone : bindings.globals.frames.countP (·.contains name) = 0 := by
        rw [List.countP_eq_zero]
        intro frame hmem hname
        have hnot := hwell.notConstant frame hmem name hname
        rw [Table.contains, hconstant] at hnot
        cases hnot
      rw [hnone]
      exact Nat.le_refl 1

/-- A plain name has no meaning and no value, or one meaning, which is its value. -/
theorem name_of_wellNamed {catalog : Catalog} {bindings : Bindings}
    (hwell : WellNamed catalog bindings) (name : String) :
    (bindings.meanings name = [] ∧ Storage.name bindings name = .error (.undeclared name)) ∨
      ∃ value, bindings.meanings name = [value] ∧ Storage.name bindings name = .ok value := by
  have hlength := length_meanings_le hwell name
  have hname := bindings.name_eq_meanings name
  cases hmeanings : bindings.meanings name with
  | nil =>
      rw [hmeanings] at hname
      exact .inl ⟨rfl, hname⟩
  | cons value rest =>
      rw [hmeanings] at hname hlength
      have hrest : rest = [] := by
        rw [List.length_cons] at hlength
        exact List.length_eq_zero_iff.1 (by omega)
      exact .inr ⟨value, by rw [hrest], hname⟩

end Bindings

/-! ## Names in a session -/

/-- A program begins in an empty scope, so only what lives on from earlier programs counts. -/
theorem Session.wellNamed_bindings {catalog : Catalog} {session : Session}
    (hplayers : ∀ name, session.players.contains name = true → catalog.isReserved name = false)
    (hconstants : ∀ name, session.constants.contains name = true →
      catalog.isReserved name = false) : WellNamed catalog session.bindings := by
  have hempty : ∀ frame ∈ session.bindings.globals.frames, ∀ name,
      frame.contains name = true → False := by
    intro frame hmem name hname
    rw [List.mem_singleton.1 hmem] at hname
    cases hname
  exact {
    once := fun _ => List.countP_le_length
    notConstant := fun frame hmem name hname => (hempty frame hmem name hname).elim
    globals := fun frame hmem name hname => (hempty frame hmem name hname).elim
    players := hplayers
    constants := hconstants }

/-- Names do not clash at the beginning of any program of a session. -/
theorem Session.wellNamed_compileAll (catalog : Catalog) (programs : List Node) {session : Session}
    (hwell : WellNamed catalog session.bindings) :
    WellNamed catalog (session.compileAll catalog programs).bindings := by
  induction programs generalizing session with
  | nil => exact hwell
  | cons node rest ih =>
      rcases session.bindings_steps catalog node with ⟨final, hsteps, hsession⟩
      apply ih
      rw [hsession]
      have hfinal := hsteps.wellNamed hwell
      exact wellNamed_bindings hfinal.players hfinal.constants

/-- Names do not clash at any point of a session, whatever programs were compiled before and
whether they failed: no name is in two open scopes, in an open scope and among the constants, or
reserved and given away.  So a plain name has one meaning at most, and a variable that gets its
slot is never in its table already. -/
theorem names_never_clash {catalog : Catalog} {programs : List Node} {program : Node}
    {point : Point}
    (hreaches : Reaches catalog
      (.start (Session.initial.compileAll catalog programs) program) point) :
    WellNamed catalog point.state.bindings ∧ WellNamed catalog (point.after catalog).bindings ∧
    (∀ name,
      (point.state.bindings.meanings name = [] ∧
        Storage.name point.state.bindings name = .error (.undeclared name)) ∨
      ∃ value, point.state.bindings.meanings name = [value] ∧
        Storage.name point.state.bindings name = .ok value) ∧
    ∀ domain name type, point.task = .allocation domain name type →
      (point.state.bindings.frame domain).find? name = none := by
  have hinitial : WellNamed catalog Session.initial.bindings :=
    Session.wellNamed_bindings (fun _ hname => nomatch hname) (fun _ hname => nomatch hname)
  have hstart := Session.wellNamed_compileAll catalog programs hinitial
  have hpoint : WellNamed catalog point.state.bindings :=
    hreaches.invariant (fun _ => WellNamed.enter) (fun _ _ _ => Steps.wellNamed) hstart
  rcases hreaches.after_steps with ⟨place, hsteps⟩
  refine ⟨hpoint, hsteps.wellNamed hpoint, Bindings.name_of_wellNamed hpoint, ?_⟩
  rintro domain name type htask
  rcases point with ⟨task, state⟩
  obtain rfl : task = .allocation domain name type := htask
  have hfree := hreaches.isTaken_eq_false.1
  exact Bindings.find?_frame_of_find?_none (Catalog.isTaken_eq_false.1 hfree).2.2

/-- A program that fails after it has defined a constant and declared a variable of players. -/
def unfinishedProgram : Node :=
  .block [.constant "limit" (.number "3"), .declare "number" "score" true none, .player]

/-- A program with a variable in a scope of a scope, whose first value is a constant. -/
def nestedDeclaration : Node :=
  .block [.rule "count" "player" none
    [.block [.declare "number" "total" false (some (.identifier "limit" none))]]]

/-- The state in which the variable of the inner scope gets its slot. -/
def nestedState : CompileState :=
  ⟨(Session.initial.compileAll .standard [unfinishedProgram]).bindings.enter.enter,
    #[.ruleBegun "count" "player"]⟩

/-- The name of a variable in an inner scope is free when it gets its slot. -/
theorem names_never_clash_nestedDeclaration :
    Reaches .standard
      (.start (Session.initial.compileAll .standard [unfinishedProgram]) nestedDeclaration)
      ⟨.allocation .global "total" .number, nestedState⟩ ∧
    Storage.name nestedState.bindings "limit" = .ok ⟨.number, "3"⟩ ∧
    nestedState.bindings.globals.depth = 3 ∧
    WellNamed .standard nestedState.bindings ∧
    (nestedState.bindings.frame .global).find? "total" = none := by
  have hevent : Catalog.standard.eventText "player" = .ok "Ongoing - Each Player" := by rfl
  have hconditions (bindings : Bindings) :
      Catalog.standard.ruleConditions bindings none = .ok none := rfl
  have htype : Catalog.standard.declaredType "number" "total" = .ok .number := by rfl
  have hvalue : Catalog.standard.initialValue (some (.identifier "limit" none)) nestedState =
      .ok (some ⟨.number, "3"⟩) nestedState := by rfl
  have hfree : Catalog.standard.requireFree .global "total" nestedState = .ok () nestedState :=
    Catalog.requireFree_eq_ok.2 ⟨by decide +kernel, rfl⟩
  have hreaches : Reaches .standard
      (.start (Session.initial.compileAll .standard [unfinishedProgram]) nestedDeclaration)
      ⟨.allocation .global "total" .number, nestedState⟩ :=
    .head (.block _ _) <| .head (.firstStatement _ _ _) <| .head (.rule _ hevent (hconditions _)) <|
      .head (.firstAction _ _ _) <| .head (.innerBlock _ _) <| .head (.firstAction _ _ _) <|
      .head (.innerDeclaration _ _ _ _ _) <| .single (.allocation hfree htype hvalue)
  have hclash := names_never_clash hreaches
  exact ⟨hreaches, by rfl, by rfl, hclash.1, hclash.2.2.2 _ _ _ rfl⟩

end Workshop

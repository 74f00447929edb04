import Workshop.Proofs.Walk.Balance
import Workshop.Proofs.Walk.Preservation

/-!
# Definitions of constants

Constants live on from one program of a session to the next, and no name is
defined twice.  So every constant that a program can use has exactly one
definition, which stands in this program or in an earlier one.

Main definitions:

- `Session.before`: the session when one of its programs begins.
- `Passes`: a point on the walk through one of the programs of a session.
- `Definition.Gives`: a definition gives its constant a value.

Main results:

- Theorem `Reaches.keeps_definition`: a definition is kept to the end of the
  program, whether it succeeds or fails.
- Theorem `Definition.Gives.unique`: no name is defined twice in a session.
- Theorem `Passes.defined`: every constant has a definition.
- Theorem `Definition.Gives.before_iff`: constants are there from the program
  after their definition on.
-/

namespace Workshop

variable {catalog : Catalog} {programs : List Node} {start point : Point} {name : String}
  {value : Typed} {number : Nat}

/-! ## Programs of a session -/

namespace Session

/-- Programs are compiled part by part. -/
theorem compileAll_append (session : Session) (catalog : Catalog) (first second : List Node) :
    session.compileAll catalog (first ++ second) =
      (session.compileAll catalog first).compileAll catalog second := by
  induction first generalizing session with
  | nil => rfl
  | cons program rest ih => exact ih _

/-- The session when the program of the given number begins.  The first program has number zero. -/
def before (catalog : Catalog) (programs : List Node) (number : Nat) : Session :=
  Session.initial.compileAll catalog (programs.take number)

/-- The session behind one more program. -/
theorem before_succ {number : Nat} {program : Node} (hprogram : programs[number]? = some program) :
    before catalog programs (number + 1) =
      ((before catalog programs number).compile catalog program).session := by
  rw [before, List.take_add_one, hprogram, compileAll_append]
  rfl

/-- Later sessions keep the constants. -/
theorem before_keeps {earlier later : Nat} (hle : earlier ≤ later) :
    (before catalog programs earlier).Keeps (before catalog programs later) := by
  obtain ⟨more, rfl⟩ := Nat.exists_eq_add_of_le hle
  rw [before, before, List.take_add, compileAll_append]
  exact keeps_compileAll _ catalog _

/-- What lives on of a program is what its walk leaves. -/
theorem before_succ_eq_after {number : Nat} {program : Node}
    (hprogram : programs[number]? = some program) :
    before catalog programs (number + 1) = .ofBindings
      ((Point.start (before catalog programs number) program).after catalog).bindings := by
  rw [before_succ hprogram, session_compile_eq]

end Session

/-- A point on the walk through the program of the given number. -/
def Passes (catalog : Catalog) (programs : List Node) (number : Nat) (point : Point) : Prop :=
  ∃ program, programs[number]? = some program ∧
    Reaches catalog (.start (.before catalog programs number) program) point

/-! ## Definitions on a walk -/

/-- A constant stays where it is on the rest of the walk. -/
theorem Reaches.find?_constants (hreaches : Reaches catalog start point)
    (hconstant : start.state.bindings.constants.find? name = some value) :
    point.state.bindings.constants.find? name = some value := by
  refine @Reaches.invariant catalog start point
    (fun bindings => bindings.constants.find? name = some value) hreaches ?_ ?_ hconstant
  · exact fun _ hfound => hfound
  · exact fun _ _ _ hsteps hfound => hsteps.keeps.session.constants name value hfound

/-- The name of a constant stays taken. -/
theorem Reaches.isTaken_of_constant (hreaches : Reaches catalog start point)
    (hconstant : start.state.bindings.constants.find? name = some value) :
    catalog.isTaken point.state.bindings .global name = true := by
  simp [Catalog.isTaken_eq, Table.contains, hreaches.find?_constants hconstant]

theorem Point.after_statement (node : Node) (state : CompileState) :
    Point.after catalog ⟨.statement node, state⟩ = (catalog.topLevel node).after state :=
  Compile.after_discard _ _

theorem Point.after_statements (nodes : List Node) (state : CompileState) :
    Point.after catalog ⟨.statements nodes, state⟩ = (catalog.topLevelList nodes).after state :=
  Compile.after_discard _ _

/-- What the first part of a computation leaves is kept if the second part makes steps. -/
theorem Compile.keeps_after_bind {α β : Type} {place : Place} {x : Compile α} {f : α → Compile β}
    (hf : ∀ a middle, MakesSteps catalog place (f a) middle) (state : CompileState) :
    (x.after state).bindings.Keeps ((x >>= f).after state).bindings := by
  cases hrun : x state with
  | ok a middle =>
      rw [after_of_ok hrun, after_bind_of_ok hrun]
      exact Steps.keeps (hf a middle)
  | error error middle =>
      rw [after_bind_of_error hrun, CompileOn.after, hrun]
      exact .refl _

section Walks

variable {node other : Node} {state state' : CompileState} {value' : Typed}

/-- A definition is kept to the end of the walk, wherever it fails. -/
theorem Reaches.keeps_definition
    (hreaches : Reaches catalog start ⟨.statement (.constant name node), state⟩)
    (hfree : catalog.isTaken state.bindings .global name = false)
    (hvalue : catalog.valueOf state.bindings node = .ok value) :
    (start.after catalog).bindings.constants.find? name = some value := by
  induction hreaches using Relation.ReflTransGen.head_induction_on with
  | refl =>
      have hdefine : catalog.define name node state = .ok () _ :=
        Catalog.define_eq_ok.2 ⟨hfree, value, hvalue, rfl⟩
      rw [Point.after_statement, Catalog.topLevel, Catalog.topLevelOf,
        Compile.bindings_after_bind fun _ _ => rfl,
        Compile.after_of_ok hdefine]
      simp [Table.find?_insert]
  | head hleads hrest ih =>
      cases hleads with
      | block nodes state => exact ih
      | firstStatement first rest state =>
          rw [Point.after_statement] at ih
          rw [Point.after_statements]
          have hkeeps : ((catalog.topLevel first).after state).bindings.Keeps
              ((catalog.topLevelList (first :: rest)).after state).bindings :=
            Compile.keeps_after_bind (fun _ middle =>
              (Catalog.topLevelList_steps rest middle).bind fun _ _ _ => .pure _) state
          exact hkeeps.session.constants name value ih
      | otherStatements rest hrun =>
          rw [Point.after_statements] at ih ⊢
          rw [Catalog.topLevelList_cons, Compile.after_bind_of_ok hrun,
            Compile.bindings_after_bind fun _ _ => rfl]
          exact ih
      | _ => cases Point.isInner_of_reaches rfl hrest

/-- A name that a statement defines is not defined after it. -/
theorem Reaches.not_defined_again {first : Node} {rest : List Node} {before middle : CompileState}
    {rules : List String} (hrun : catalog.topLevel first before = .ok rules middle)
    (hfirst : Reaches catalog ⟨.statement first, before⟩
      ⟨.statement (.constant name node), state⟩)
    (hfree : catalog.isTaken state.bindings .global name = false)
    (hvalue : catalog.valueOf state.bindings node = .ok value)
    (hrest : Reaches catalog ⟨.statements rest, middle⟩ point) :
    catalog.isTaken point.state.bindings .global name = true := by
  have hkept := hfirst.keeps_definition hfree hvalue
  rw [Point.after_statement, Compile.after_of_ok hrun] at hkept
  exact hrest.isTaken_of_constant hkept

/-- Two definitions of one name on a walk are the same. -/
theorem Reaches.definition_unique
    (hfirst : Reaches catalog start ⟨.statement (.constant name node), state⟩)
    (hfree : catalog.isTaken state.bindings .global name = false)
    (hvalue : catalog.valueOf state.bindings node = .ok value)
    (hsecond : Reaches catalog start ⟨.statement (.constant name other), state'⟩)
    (hfree' : catalog.isTaken state'.bindings .global name = false)
    (hvalue' : catalog.valueOf state'.bindings other = .ok value') :
    node = other ∧ state = state' := by
  induction hfirst using Relation.ReflTransGen.head_induction_on with
  | refl =>
      rcases Relation.ReflTransGen.cases_head hsecond with hsame | ⟨next, hleads, _⟩
      · cases hsame
        exact ⟨rfl, rfl⟩
      · cases hleads
  | head hleads hrest ih =>
      rcases Relation.ReflTransGen.cases_head hsecond with rfl | ⟨next, hleads', hrest'⟩
      · cases hleads
      · cases hleads with
        | block nodes state =>
            cases hleads'
            exact ih hrest'
        | firstStatement first rest state =>
            cases hleads' with
            | firstStatement => exact ih hrest'
            | otherStatements _ hrun =>
                have htaken := Reaches.not_defined_again hrun hrest hfree hvalue hrest'
                rw [hfree'] at htaken
                cases htaken
        | otherStatements rest hrun =>
            cases hleads' with
            | firstStatement =>
                have htaken := Reaches.not_defined_again hrun hrest' hfree' hvalue' hrest
                rw [hfree] at htaken
                cases htaken
            | otherStatements _ hrun' =>
                cases hrun.symm.trans hrun'
                exact ih hrest'
        | _ => cases Point.isInner_of_reaches rfl hrest

end Walks

/-! ## Definitions in a session -/

/-- A definition of a constant: the number of the program that it stands in, its expression, and the
state in which it is made. -/
structure Definition where
  number : Nat
  name : String
  node : Node
  state : CompileState

/-- A definition that the session comes to, and that gives its constant a value. -/
structure Definition.Gives (catalog : Catalog) (programs : List Node) (definition : Definition)
    (value : Typed) : Prop where
  passes : Passes catalog programs definition.number
    ⟨.statement (.constant definition.name definition.node), definition.state⟩
  free : catalog.isTaken definition.state.bindings .global definition.name = false
  value : catalog.valueOf definition.state.bindings definition.node = .ok value

namespace Definition.Gives

variable {definition other : Definition} {number : Nat} {value' : Typed}

variable (hgives : definition.Gives catalog programs value)

include hgives

/-- From the next program on, the constant is there. -/
theorem find?_before (hlater : definition.number < number) :
    (Session.before catalog programs number).constants.find? definition.name = some value := by
  rcases hgives.passes with ⟨program, hprogram, hreaches⟩
  have hkept := hreaches.keeps_definition hgives.free hgives.value
  have hnext : (Session.before catalog programs (definition.number + 1)).constants.find?
      definition.name = some value := by
    rw [Session.before_succ_eq_after hprogram]
    exact hkept
  exact (Session.before_keeps hlater).constants _ _ hnext

/-- A later program does not define the name again. -/
theorem number_le (hother : other.Gives catalog programs value')
    (hname : definition.name = other.name) : other.number ≤ definition.number := by
  by_contra hlater
  have hbefore := hgives.find?_before (Nat.lt_of_not_le hlater)
  rcases hother.passes with ⟨program, _, hreaches⟩
  have htaken := hreaches.isTaken_of_constant (hname ▸ hbefore)
  rw [hother.free] at htaken
  cases htaken

/-- No name is defined twice in a session. -/
theorem unique (hother : other.Gives catalog programs value')
    (hname : definition.name = other.name) : definition = other ∧ value = value' := by
  have hnumber : definition.number = other.number :=
    Nat.le_antisymm (hother.number_le hgives hname.symm) (hgives.number_le hother hname)
  rcases definition with ⟨number, name, node, state⟩
  rcases other with ⟨_, _, node', state'⟩
  cases hname
  cases hnumber
  rcases hgives.passes with ⟨program, hprogram, hreaches⟩
  rcases hother.passes with ⟨_, hprogram', hreaches'⟩
  cases hprogram.symm.trans hprogram'
  rcases hreaches.definition_unique hgives.free hgives.value hreaches' hother.free hother.value with
    ⟨rfl, rfl⟩
  cases hgives.value.symm.trans hother.value
  exact ⟨rfl, rfl⟩

end Definition.Gives

/-- A constant is defined in one of the first programs of a session. -/
def Defined (catalog : Catalog) (programs : List Node) (bound : Nat) (name : String)
    (value : Typed) : Prop :=
  ∃ definition : Definition, definition.Gives catalog programs value ∧ definition.name = name ∧
    definition.number < bound

/-- Definitions stay definitions. -/
theorem Bindings.AllConstants.defined_succ {bindings : Bindings}
    (hall : bindings.AllConstants (Defined catalog programs number)) :
    bindings.AllConstants (Defined catalog programs (number + 1)) := by
  intro name value hfound
  rcases hall name value hfound with ⟨definition, hgives, hname, hearlier⟩
  exact ⟨definition, hgives, hname, Nat.lt_succ_of_lt hearlier⟩

/-- The walk through a program defines its constants in this program. -/
theorem Point.preserves_defined {program : Node} (hprogram : programs[number]? = some program) :
    (Point.start (.before catalog programs number) program).Preserves catalog
      (·.AllConstants (Defined catalog programs (number + 1))) := by
  refine Point.preserves_allConstants fun {name node state _ _} hreaches hrun hvalue _ => ?_
  rcases Catalog.define_eq_ok.1 hrun with ⟨hfree, _⟩
  exact ⟨⟨number, name, node, state⟩, ⟨⟨program, hprogram, hreaches⟩, hfree, hvalue⟩, rfl,
    Nat.lt_succ_self number⟩

/-- When a program begins, every constant has a definition in an earlier one. -/
theorem Session.before_defined (catalog : Catalog) (programs : List Node) (number : Nat) :
    (before catalog programs number).bindings.AllConstants (Defined catalog programs number) := by
  induction number with
  | zero =>
      intro name value hfound
      cases hfound
  | succ number ih =>
      cases hprogram : programs[number]? with
      | none =>
          have hsame : before catalog programs (number + 1) = before catalog programs number := by
            rw [before, before, List.take_add_one, hprogram, Option.toList_none, List.append_nil]
          rw [hsame]
          exact ih.defined_succ
      | some program =>
          rw [before_succ_eq_after hprogram, Point.start, Point.after_statement]
          exact (Point.preserves_defined hprogram).statement program .refl ih.defined_succ

/-- Every constant has a definition, in the same program or in an earlier one. -/
theorem Passes.defined (hpasses : Passes catalog programs number point) :
    point.state.bindings.AllConstants (Defined catalog programs (number + 1)) := by
  rcases hpasses with ⟨program, hprogram, hreaches⟩
  have hstart := (Session.before_defined catalog programs number).defined_succ
  exact (Point.preserves_defined hprogram).atPoint hstart hreaches

/-- A program finds a constant at its beginning exactly if an earlier program defines it. -/
theorem Definition.Gives.before_iff {definition : Definition}
    (hgives : definition.Gives catalog programs value) :
    (Session.before catalog programs number).constants.contains definition.name = true ↔
      definition.number < number := by
  constructor
  · intro hcontains
    rcases Option.isSome_iff_exists.1 hcontains with ⟨found, hfound⟩
    rcases Session.before_defined catalog programs number _ _ hfound with
      ⟨other, hother, hname, hearlier⟩
    rw [(hgives.unique hother hname.symm).1]
    exact hearlier
  · intro hearlier
    rw [Table.contains, hgives.find?_before hearlier]
    rfl

end Workshop

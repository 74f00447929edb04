import Workshop.Proofs.Walk.Definitions

/-!
# Where slots are read

A plain name becomes the slot of a global variable, or the text of a constant.
The text of a constant was made where the constant is defined, with the variables
that were in sight there, and it lives on when these variables do not.  So a
program can read slots that an earlier program gave to its variables.  This
module traces every slot that is read back to the name that stands for it, and
proves that this is the only way.

Main definitions:

- `Node.operands`: the expressions that are compiled for an expression.
- `Draws`: the text of an expression is made of the text of another one.
- `Occurrence.ReadsSlot`: a name becomes the slot of a global variable.

Main results:

- Theorem `Catalog.valueOf_congr`: the value of an expression only depends on
  the plain names that it draws on, and on the variables of players.
- Theorem `Occurrence.DrawsOn.number_ne_iff`: what an expression draws on stands
  in another program exactly if a constant from an earlier program is between.
- Theorem `slots_read_are_declared`: every slot that is read belongs to the
  variable that is named where the trace ends.
- Theorem `slot_read_of_other_program`: a session in which a program reads the
  slot of another program's variable.
-/

namespace Workshop

/-! ## Operands -/

/-- The expressions that are compiled for the value of an expression.  The names of builtins and of
enumerations are not compiled. -/
def Node.operands (catalog : Catalog) : Node → List Node
  | block statements => statements
  | call _ receiver arguments => receiver.toList ++ arguments
  | negation operand => [operand]
  | binary _ left right => [left, right]
  | choice condition thenBranch elseBranch => condition :: thenBranch :: elseBranch.toList
  | identifier _ (some receiver) =>
    if (catalog.namedEnumeration? receiver).isSome then [] else [receiver]
  | _ => []

/-- One expression is compiled for another. -/
def Node.Needs (catalog : Catalog) : Node → Node → Prop :=
  Relation.ReflTransGen fun whole operand => operand ∈ whole.operands catalog

/-- The value of an expression only depends on the variables of players and on what its plain names
stand for. -/
theorem Catalog.valueOf_congr {catalog : Catalog} {bindings other : Bindings}
    (hplayers : other.players = bindings.players) {node : Node}
    (hnames : ∀ name, node.Needs catalog (.identifier name none) →
      Storage.name other name = Storage.name bindings name) :
    catalog.valueOf other node = catalog.valueOf bindings node := by
  have hoperands {node operand : Node} (hmem : operand ∈ node.operands catalog)
      (hnames : ∀ name, node.Needs catalog (.identifier name none) →
        Storage.name other name = Storage.name bindings name) :
      ∀ name, operand.Needs catalog (.identifier name none) →
        Storage.name other name = Storage.name bindings name :=
    fun name hneeds => hnames name (.head hmem hneeds)
  induction node with
  | block statements ih =>
      match statements with
      | [single] => exact ih single List.mem_cons_self (hoperands List.mem_cons_self hnames)
      | [] => rfl
      | _ :: _ :: _ => rfl
  | call callee receiver arguments _ ihreceiver iharguments =>
      have hreceiver : catalog.optionalValueOf other receiver =
          catalog.optionalValueOf bindings receiver := by
        cases receiver with
        | none => rfl
        | some receiver =>
            have hvalue := ihreceiver receiver rfl
              (hoperands (by simp [Node.operands]) hnames)
            rw [optionalValueOf, optionalValueOf, hvalue]
      have harguments : catalog.valuesOf other arguments = catalog.valuesOf bindings arguments := by
        rw [valuesOf_eq_map, valuesOf_eq_map]
        refine List.map_congr_left fun argument hmem => ?_
        exact iharguments argument hmem (hoperands (by simp [Node.operands, hmem]) hnames)
      rw [valueOf, valueOf, hreceiver, harguments]
  | negation operand ih =>
      rw [valueOf, valueOf, ih (hoperands List.mem_cons_self hnames)]
  | binary operator left right ihleft ihright =>
      rw [valueOf, valueOf, ihleft (hoperands (by simp [Node.operands]) hnames),
        ihright (hoperands (by simp [Node.operands]) hnames)]
  | choice condition thenBranch elseBranch ihcondition ihthen ihelse =>
      cases elseBranch with
      | none => rfl
      | some elseBranch =>
          have hcondition := ihcondition (hoperands (by simp [Node.operands]) hnames)
          have hthen := ihthen (hoperands (by simp [Node.operands]) hnames)
          have helse := ihelse elseBranch rfl (hoperands (by simp [Node.operands]) hnames)
          simp only [valueOf, hcondition, hthen, helse]
  | identifier name receiver ih =>
      cases receiver with
      | none => exact hnames name .refl
      | some receiver =>
          cases hnamed : catalog.namedEnumeration? receiver with
          | some enumName => simp only [valueOf, hnamed]
          | none =>
              have hvalue := ih receiver rfl (hoperands (by simp [Node.operands, hnamed]) hnames)
              simp only [valueOf, hnamed, hvalue, Storage.playerMember_eq, hplayers]
  | _ => rfl

/-! ## Tracing texts -/

/-- An expression, the number of the program that it stands in, and what the names in it stand
for. -/
structure Occurrence where
  number : Nat
  bindings : Bindings
  node : Node

/-- The expression of a definition, where it is defined. -/
def Definition.occurrence (definition : Definition) : Occurrence :=
  ⟨definition.number, definition.state.bindings, definition.node⟩

/-- The text of an expression is made of the texts of its operands.  The text of a name that stands
for a constant is that of the expression which defines it. -/
inductive Draws (catalog : Catalog) (programs : List Node) : Occurrence → Occurrence → Prop
  | operand {number : Nat} {bindings : Bindings} {node operand : Node} :
      operand ∈ node.operands catalog →
      Draws catalog programs ⟨number, bindings, node⟩ ⟨number, bindings, operand⟩
  | constant {number : Nat} {bindings : Bindings} {definition : Definition} {value : Typed} :
      bindings.constants.find? definition.name = some value →
      definition.Gives catalog programs value →
      Draws catalog programs ⟨number, bindings, .identifier definition.name none⟩
        definition.occurrence

namespace Occurrence

/-- The text of an expression is made of the text of another one, in any number of steps. -/
def DrawsOn (catalog : Catalog) (programs : List Node) : Occurrence → Occurrence → Prop :=
  Relation.ReflTransGen (Draws catalog programs)

/-- A plain name becomes the slot of the global variable that it stands for. -/
def ReadsSlot (occurrence : Occurrence) (name : String) (slot : Slot) : Prop :=
  occurrence.node = .identifier name none ∧
    occurrence.bindings.constants.find? name = none ∧
    ∃ type, occurrence.bindings.globals.find? name = some ⟨slot, type⟩

/-- A plain name stands for a constant that was there when the program began. -/
def IsInherited (catalog : Catalog) (programs : List Node) (occurrence : Occurrence) : Prop :=
  ∃ name, occurrence.node = .identifier name none ∧
    (Session.before catalog programs occurrence.number).constants.contains name = true

/-- The names of an expression stand for what they stand for at a point of its program. -/
def Stands (catalog : Catalog) (programs : List Node) (occurrence : Occurrence) : Prop :=
  ∃ point, Passes catalog programs occurrence.number point ∧
    point.state.bindings = occurrence.bindings

end Occurrence

/-- In the program of the given number, a global variable gets a slot under its name. -/
def DeclaresGlobal (catalog : Catalog) (programs : List Node) (number : Nat) (name : String)
    (slot : Slot) : Prop :=
  ∃ type state final, Passes catalog programs number ⟨.allocation .global name type, state⟩ ∧
    state.bindings.declare .global name type = .ok (slot, final)

namespace Occurrence

variable {catalog : Catalog} {programs : List Node} {occurrence source : Occurrence}
  {name : String} {slot : Slot}

/-- A tree draws on what it needs. -/
theorem DrawsOn.of_needs {number : Nat} {bindings : Bindings} {whole part : Node}
    (hneeds : whole.Needs catalog part) :
    DrawsOn catalog programs ⟨number, bindings, whole⟩ ⟨number, bindings, part⟩ := by
  induction hneeds with
  | refl => exact .refl
  | tail _ hmem ih => exact ih.tail (.operand hmem)

variable (hstands : occurrence.Stands catalog programs)

include hstands

/-- What an expression draws on stands in the same program or in an earlier one. -/
theorem Stands.of_draws (hdraws : Draws catalog programs occurrence source) :
    source.Stands catalog programs ∧ source.number ≤ occurrence.number := by
  cases hdraws with
  | operand hmem => exact ⟨hstands, Nat.le_refl _⟩
  | constant hfound hgives =>
      rcases hstands with ⟨point, hpasses, rfl⟩
      rcases hpasses.defined _ _ hfound with ⟨definition, hgives', hname, hbound⟩
      cases (hgives'.unique hgives hname).1
      exact ⟨⟨_, hgives.passes, rfl⟩, Nat.le_of_lt_succ hbound⟩

/-- Sources stand in earlier programs or the same. -/
theorem Stands.of_drawsOn (hdraws : occurrence.DrawsOn catalog programs source) :
    source.Stands catalog programs ∧ source.number ≤ occurrence.number := by
  induction hdraws with
  | refl => exact ⟨hstands, Nat.le_refl _⟩
  | tail _ hlast ih =>
      rcases ih.1.of_draws hlast with ⟨hsource, hle⟩
      exact ⟨hsource, Nat.le_trans hle ih.2⟩

/-- The slot that a name becomes was given to a variable of this name in the same program. -/
theorem Stands.declares (hreads : occurrence.ReadsSlot name slot) :
    DeclaresGlobal catalog programs occurrence.number name slot := by
  rcases hstands with ⟨point, ⟨program, hprogram, hreaches⟩, hbindings⟩
  rcases hreads with ⟨_, _, type, hfound⟩
  rcases hreaches.allocated (hbindings ▸ hfound) with ⟨type, state, final, hallocation, hslot⟩
  exact ⟨type, state, final, ⟨program, hprogram, hallocation⟩, hslot⟩

/-- A constant that was there when the program began is there everywhere in it. -/
theorem Stands.find?_of_isInherited (hnode : occurrence.node = .identifier name none)
    (hinherited : occurrence.IsInherited catalog programs) :
    occurrence.bindings.constants.find? name ≠ none := by
  rcases hinherited with ⟨_, hnode', hcontains⟩
  cases hnode.symm.trans hnode'
  rcases hstands with ⟨point, ⟨program, _, hreaches⟩, hbindings⟩
  rcases Option.isSome_iff_exists.1 hcontains with ⟨value, hfound⟩
  have hkept := hreaches.find?_constants hfound
  rw [← hbindings, hkept]
  exact Option.some_ne_none value

/-- From a constant that was there when the program began, the text comes from an earlier one. -/
theorem Stands.number_lt_of_isInherited (hinherited : occurrence.IsInherited catalog programs)
    (hdraws : occurrence.DrawsOn catalog programs source) (hreads : source.ReadsSlot name slot) :
    source.number < occurrence.number := by
  rcases Relation.ReflTransGen.cases_head hdraws with rfl | ⟨next, hfirst, hrest⟩
  · exact absurd hreads.2.1 (hstands.find?_of_isInherited hreads.1 hinherited)
  · have hnext := hstands.of_draws hfirst
    have hsource := hnext.1.of_drawsOn hrest
    cases hfirst with
    | operand hmem =>
        rcases hinherited with ⟨other, rfl, _⟩
        cases hmem
    | constant hfound hgives =>
        rcases hinherited with ⟨other, hnode, hcontains⟩
        cases hnode
        exact Nat.lt_of_le_of_lt hsource.2 (hgives.before_iff.1 hcontains)

/-- A slot that is read belongs to another program exactly if it comes in through a constant that
was there when the program began. -/
theorem DrawsOn.number_ne_iff (hdraws : occurrence.DrawsOn catalog programs source)
    (hreads : source.ReadsSlot name slot) :
    source.number ≠ occurrence.number ↔
      ∃ through : Occurrence, occurrence.DrawsOn catalog programs through ∧
        through.number = occurrence.number ∧ through.IsInherited catalog programs ∧
        through.DrawsOn catalog programs source := by
  constructor
  · intro hother
    -- The induction looks for the first step that leaves the program.
    induction hdraws using Relation.ReflTransGen.head_induction_on with
    | refl => exact absurd rfl hother
    | head hfirst hrest ih =>
        have hnext := hstands.of_draws hfirst
        cases hfirst with
        | operand hmem =>
            rcases ih hnext.1 hother with ⟨through, hthrough, hnumber, hinherited, hsource⟩
            exact ⟨through, .head (.operand hmem) hthrough, hnumber, hinherited, hsource⟩
        | @constant number _ definition _ hfound hgives =>
            by_cases hsame : definition.number = number
            · have hother' : source.number ≠ definition.number := hsame ▸ hother
              rcases ih hnext.1 hother' with ⟨through, hthrough, hnumber, hinherited, hsource⟩
              exact ⟨through, .head (.constant hfound hgives) hthrough, hnumber.trans hsame,
                hinherited, hsource⟩
            · have hearlier : definition.number < number := Nat.lt_of_le_of_ne hnext.2 hsame
              exact ⟨_, .refl, rfl, ⟨definition.name, rfl, hgives.before_iff.2 hearlier⟩,
                .head (.constant hfound hgives) hrest⟩
  · rintro ⟨through, hthrough, hnumber, hinherited, hrest⟩
    rw [← hnumber]
    exact Nat.ne_of_lt ((hstands.of_drawsOn hthrough).1.number_lt_of_isInherited hinherited hrest
      hreads)

/-- A plain name that has a value becomes a slot, or it draws on a definition of the same value. -/
theorem Stands.readsSlot_or_draws {value : Typed} (hnode : occurrence.node = .identifier name none)
    (hvalue : catalog.valueOf occurrence.bindings occurrence.node = .ok value) :
    (∃ slot, occurrence.ReadsSlot name slot ∧ value.text = Term.readGlobal slot) ∨
      ∃ definition : Definition, definition.Gives catalog programs value ∧
        definition.name = name ∧ Draws catalog programs occurrence definition.occurrence := by
  rcases occurrence with ⟨number, bindings, node⟩
  cases hnode
  have hname : Storage.name bindings name = .ok value := hvalue
  rcases hstands with ⟨point, hpasses, rfl⟩
  rw [Storage.name_eq] at hname
  split at hname
  · rename_i found hfound
    cases hname
    rcases hpasses.defined name value hfound with ⟨definition, hgives, rfl, _⟩
    exact .inr ⟨definition, hgives, rfl, .constant hfound hgives⟩
  · rename_i hnone
    split at hname
    · rename_i found hfound
      cases hname
      exact .inl ⟨found.slot, ⟨rfl, hnone, found.type, hfound⟩, rfl⟩
    · cases hname

end Occurrence

/-- Every slot that is read, over all programs of a session and whether they fail or not.  The text
of an expression is traced through its operands and through constants to plain names, and nothing
but these names and the variables of players decides on it.  A name at the end of the trace becomes
the slot of the variable that it names, and this variable was declared in the program in which the
name stands.  That program is the one of the expression, unless the trace goes through a constant
that an earlier program has defined. -/
theorem slots_read_are_declared (catalog : Catalog) (programs : List Node) {number : Nat}
    {point : Point} (hpasses : Passes catalog programs number point) (node : Node) :
    let here : Occurrence := ⟨number, point.state.bindings, node⟩
    (∀ other : Bindings, other.players = here.bindings.players →
      (∀ name, here.DrawsOn catalog programs ⟨number, here.bindings, .identifier name none⟩ →
        Storage.name other name = Storage.name here.bindings name) →
      catalog.valueOf other node = catalog.valueOf here.bindings node) ∧
    ∀ source name, here.DrawsOn catalog programs source → source.node = .identifier name none →
      (∀ value, catalog.valueOf source.bindings source.node = .ok value →
        (∃ slot, source.ReadsSlot name slot ∧ value.text = Term.readGlobal slot) ∨
          ∃ definition : Definition, definition.Gives catalog programs value ∧
            definition.name = name ∧ Draws catalog programs source definition.occurrence) ∧
      ∀ slot, source.ReadsSlot name slot →
        DeclaresGlobal catalog programs source.number name slot ∧
        source.number ≤ number ∧
        (source.number ≠ number ↔
          ∃ through : Occurrence, here.DrawsOn catalog programs through ∧
            through.number = number ∧ through.IsInherited catalog programs ∧
            through.DrawsOn catalog programs source) := by
  intro here
  have hhere : here.Stands catalog programs := ⟨point, hpasses, rfl⟩
  constructor
  · intro other hplayers hnames
    exact Catalog.valueOf_congr hplayers fun name hneeds => hnames name (.of_needs hneeds)
  · intro source name hdraws hnode
    rcases hhere.of_drawsOn hdraws with ⟨hsource, hle⟩
    refine ⟨fun value => hsource.readsSlot_or_draws hnode, fun slot hreads => ?_⟩
    exact ⟨hsource.declares hreads, hle, hdraws.number_ne_iff hhere hreads⟩

/-- The declaration of a variable, without a type or a value. -/
def declareX : Node := .declare "var" "x" false none

/-- The declaration of another variable. -/
def declareOther : Node := .declare "number" "other" false (some (.number "5"))

/-- An action with a constant as its argument. -/
def waitForC : Node := .call (.identifier "wait" none) none [.identifier "c" none]

/-- A program that defines a constant as the value of its variable. -/
def definingProgram : Node := .block [declareX, .constant "c" (.identifier "x" none)]

/-- A program that uses the constant, and has a variable of the same name behind another one. -/
def usingProgram : Node :=
  .block [declareOther, declareX, .rule "R" "global" none [waitForC]]

/-- Both programs, one after the other. -/
def sharedConstant : List Node := [definingProgram, usingProgram]

/-- The definition in the first program. -/
def definitionOfC : Definition where
  number := 0
  name := "c"
  node := .identifier "x" none
  state := (Catalog.standard.topLevel declareX).after ⟨Session.initial.bindings, #[]⟩

/-- The state of the second program after its first declaration. -/
def otherState : CompileState :=
  (Catalog.standard.topLevel declareOther).after
    ⟨(Session.before .standard sharedConstant 1).bindings, #[]⟩

/-- The state of the second program after both declarations. -/
def bothState : CompileState :=
  (Catalog.standard.topLevel declareX).after otherState

/-- The state in which the constant is used. -/
def waitState : CompileState :=
  ⟨bothState.bindings.enter, bothState.journal.push (.ruleBegun "R" "global")⟩

theorem definitionOfC_gives :
    definitionOfC.Gives .standard sharedConstant ⟨.dynamic, Term.readGlobal ⟨.first, 0⟩⟩ where
  passes := by
    have hx : Catalog.standard.topLevel declareX ⟨Session.initial.bindings, #[]⟩ =
        .ok [] definitionOfC.state := rfl
    exact ⟨_, rfl, .head (.block _ _) <| .head (.otherStatements _ hx) <|
      .single (.firstStatement _ _ _)⟩
  free := rfl
  value := rfl

theorem passes_waitForC : Passes .standard sharedConstant 1 ⟨.action waitForC, waitState⟩ := by
  have hother : Catalog.standard.topLevel declareOther
      ⟨(Session.before .standard sharedConstant 1).bindings, #[]⟩ = .ok [] otherState := rfl
  have hboth : Catalog.standard.topLevel declareX otherState = .ok [] bothState := rfl
  have hevent : Catalog.standard.eventText "global" = .ok "Ongoing - Global" := rfl
  have hconditions : Catalog.standard.ruleConditions bothState.bindings.enter none = .ok none := rfl
  exact ⟨_, rfl, .head (.block _ _) <| .head (.otherStatements _ hother) <|
    .head (.otherStatements _ hboth) <| .head (.firstStatement _ _ _) <|
    .head (.rule _ hevent hconditions) <| .single (.firstAction _ _ _)⟩

theorem waitForC_drawsOn :
    Occurrence.DrawsOn .standard sharedConstant ⟨1, waitState.bindings, waitForC⟩
      definitionOfC.occurrence := by
  have hconstant : waitState.bindings.constants.find? definitionOfC.name =
      some ⟨.dynamic, Term.readGlobal ⟨.first, 0⟩⟩ := rfl
  exact .head (.operand List.mem_cons_self) (.single (.constant hconstant definitionOfC_gives))

theorem definitionOfC_readsSlot : definitionOfC.occurrence.ReadsSlot "x" ⟨.first, 0⟩ :=
  ⟨rfl, rfl, .dynamic, rfl⟩

/-- The action of the second program reads the slot of a variable of the first one, through the
constant. -/
theorem slots_read_are_declared_constant :
    Passes .standard sharedConstant 1 ⟨.action waitForC, waitState⟩ ∧
    Occurrence.DrawsOn .standard sharedConstant ⟨1, waitState.bindings, waitForC⟩
      definitionOfC.occurrence ∧
    definitionOfC.occurrence.ReadsSlot "x" ⟨.first, 0⟩ ∧
    DeclaresGlobal .standard sharedConstant 0 "x" ⟨.first, 0⟩ ∧
    ∃ through : Occurrence,
      Occurrence.DrawsOn .standard sharedConstant ⟨1, waitState.bindings, waitForC⟩ through ∧
      through.number = 1 ∧ through.IsInherited .standard sharedConstant ∧
      through.DrawsOn .standard sharedConstant definitionOfC.occurrence := by
  have hreads := (slots_read_are_declared .standard sharedConstant passes_waitForC waitForC).2
    definitionOfC.occurrence "x" waitForC_drawsOn rfl
  rcases hreads.2 _ definitionOfC_readsSlot with ⟨hdeclares, _, hother⟩
  exact ⟨passes_waitForC, waitForC_drawsOn, definitionOfC_readsSlot, hdeclares,
    hother.1 Nat.zero_ne_one⟩

/-- A program can read a slot that is not that of its own variable: the constant stands for the
variable of the first program, whose slot belongs to another variable in the second one, and not to
the variable of the same name. -/
theorem slot_read_of_other_program :
    ((Session.initial.compile .standard definingProgram).session.compile
      .standard usingProgram).outcome =
        .ok ("rule(\"R\")\n\x7b\n\tevent\n\t\x7b\n\t\tOngoing - Global;\n\t\x7d\n\n" ++
          "\tactions\n\t\x7b\n" ++
          "\t\tWait(Value In Array(Global Variable(A), 0), Ignore Condition);\n\t\x7d\n\x7d") ∧
    Passes .standard sharedConstant 1 ⟨.action waitForC, waitState⟩ ∧
    Catalog.standard.valueOf waitState.bindings (.identifier "c" none) =
      .ok ⟨.dynamic, Term.readGlobal ⟨.first, 0⟩⟩ ∧
    Draws .standard sharedConstant ⟨1, waitState.bindings, .identifier "c" none⟩
      definitionOfC.occurrence ∧
    definitionOfC.occurrence.ReadsSlot "x" ⟨.first, 0⟩ ∧ definitionOfC.occurrence.number = 0 ∧
    waitState.bindings.globals.find? "other" = some ⟨⟨.first, 0⟩, .number⟩ ∧
    waitState.bindings.globals.find? "x" = some ⟨⟨.first, 1⟩, .dynamic⟩ := by
  refine ⟨?_, passes_waitForC, rfl, .constant rfl definitionOfC_gives, definitionOfC_readsSlot, rfl,
    rfl, rfl⟩
  exact Except.toOption_eq_some.1 (by decide +kernel)

end Workshop

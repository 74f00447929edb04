import Mathlib
import Workshop.Proofs.Output.Readability
import Workshop.Proofs.Walk.Typing

/-!
# Formulas and their texts

A formula is an expression of numbers, truth values, global variables, operators
and choices.  Its text shows which formula it is, although a player may have
been converted to its position and a variable is only written as its slot: in
no state that compiling reaches do two variables in sight share a slot.

Main definitions:

- `Bindings.IsApart`: no two variables of a domain share a slot.
- `Node.IsFormula`: the expressions that are read back.

Main results:

- Theorem `Steps.isApart`: variables never come to share a slot.
- Theorem `Catalog.shows_of_valueOf`: the text of a formula shows the formula.
- Theorem `formula_text_injective`: no two formulas have the same text.
-/

namespace Workshop

/-! ## Slots of variables -/

variable {catalog : Catalog} {bindings : Bindings}

namespace Bindings

/-- The slots of the variables of a domain that are in sight. -/
def slots (bindings : Bindings) (domain : Domain) : List Slot :=
  (bindings.entries domain).map (·.2.slot)

/-- No two variables of a domain share a slot, and all their slots have been given out. -/
structure IsApart (bindings : Bindings) (domain : Domain) : Prop where
  distinct : (bindings.slots domain).Nodup
  issued : ∀ slot ∈ bindings.slots domain,
    slot.index < (bindings.counters domain).count slot.bank

namespace IsApart

variable {bindings later : Bindings} {domain : Domain}

variable (hapart : bindings.IsApart domain)

include hapart

/-- Fewer slots are apart. -/
theorem of_sublist (hslots : (later.slots domain).Sublist (bindings.slots domain))
    (hcounters : later.counters domain = bindings.counters domain) : later.IsApart domain where
  distinct := hapart.distinct.sublist hslots
  issued slot hslot := by
    rw [hcounters]
    exact hapart.issued slot (hslots.subset hslot)

/-- Slots are apart in a new scope. -/
theorem enter : bindings.enter.IsApart domain := by
  apply hapart.of_sublist
  · rw [slots, entries_enter]
    exact List.Sublist.refl _
  · exact bindings.counters_enter domain

/-- So they are behind a scope. -/
theorem leave : bindings.leave.IsApart domain :=
  hapart.of_sublist ((bindings.entries_leave_sublist domain).map _) (bindings.counters_leave domain)

/-- So they are with another bank. -/
theorem useBank (other : Domain) (bank : Bank) : (bindings.useBank other bank).IsApart domain := by
  apply hapart.of_sublist
  · rw [slots, entries_useBank]
    exact List.Sublist.refl _
  · exact bindings.counters_useBank other domain bank

/-- So they are with new types. -/
theorem retype (other : Domain) (name : String) (type : ValueType) :
    (bindings.retype other name type).IsApart domain := by
  apply hapart.of_sublist
  · rw [slots, entries_retype]
    split
    · have hsame := Table.map_change (fun found : Variable => { found with type := type })
        (fun entry => entry.2.slot) (fun _ _ => rfl) name (bindings.entries domain)
      rw [hsame]
      exact List.Sublist.refl _
    · exact List.Sublist.refl _
  · exact bindings.counters_retype other domain name type

/-- A new variable gets the number that its bank has not given out yet. -/
theorem declare {other : Domain} {name : String} {type : ValueType} {slot : Slot}
    (hnew : bindings.find? other name = none)
    (hdeclare : bindings.declare other name type = .ok (slot, later)) : later.IsApart domain := by
  rcases declare_of_find?_none hnew hdeclare with ⟨counters, hallocate, rfl⟩
  by_cases hdomain : other = domain
  · subst hdomain
    have hslot := SlotCounters.slot_of_allocate hallocate
    have hcount := SlotCounters.count_of_allocate hallocate
    have hslots : (bindings.extend other name ⟨slot, type⟩ counters).slots other =
        slot :: bindings.slots other := by
      rw [slots, entries_extend, if_pos rfl]
      rfl
    refine ⟨?_, ?_⟩
    · rw [hslots, List.nodup_cons]
      refine ⟨fun hmem => ?_, hapart.distinct⟩
      have hlt := hapart.issued slot hmem
      subst hslot
      exact Nat.lt_irrefl _ hlt
    · rw [hslots, counters_extend, if_pos rfl]
      intro given hgiven
      rw [hcount]
      rcases List.mem_cons.1 hgiven with rfl | hgiven
      · subst hslot
        simp
      · have hlt := hapart.issued given hgiven
        omega
  · apply hapart.of_sublist
    · rw [slots, entries_extend, if_neg hdomain]
      exact List.Sublist.refl _
    · rw [counters_extend, if_neg hdomain]

/-- Variables in sight with the same slot are the same. -/
theorem eq_of_slot_eq {first second : String × Variable} (hfirst : first ∈ bindings.entries domain)
    (hsecond : second ∈ bindings.entries domain) (hslot : first.2.slot = second.2.slot) :
    first = second :=
  List.inj_on_of_nodup_map hapart.distinct hfirst hsecond hslot

end IsApart

/-- The text of a slot leads back to the only variable that has it. -/
theorem globalAt?_eq {bindings : Bindings} (hapart : bindings.IsApart .global) {name : String}
    {found : Variable} (hfound : bindings.globals.find? name = some found) :
    bindings.globalAt? found.slot.bank.text (toString found.slot.index) =
      some (.identifier name none) := by
  have hmem : (name, found) ∈ bindings.entries .global := by
    rw [ScopeStack.find?_eq_lookup] at hfound
    exact Table.mem_of_lookup hfound
  unfold globalAt?
  cases hfind : (bindings.entries .global).find? fun entry =>
      entry.2.slot.bank.text == found.slot.bank.text &&
        toString entry.2.slot.index == toString found.slot.index with
  | none =>
      have hnone := List.find?_eq_none.1 hfind _ hmem
      simp at hnone
  | some entry =>
      have hsame := List.find?_some hfind
      rw [Bool.and_eq_true, beq_iff_eq, beq_iff_eq] at hsame
      have hbank := Bank.text_injective hsame.1
      have hindex := Nat.repr_inj.1 hsame.2
      have hslot : entry.2.slot = found.slot := by
        cases hentry : entry.2.slot
        cases hother : found.slot
        simp_all
      have hentry := hapart.eq_of_slot_eq (List.mem_of_find?_eq_some hfind) hmem hslot
      rw [hentry]
      rfl

end Bindings

/-- Steps keep slots apart. -/
theorem Steps.isApart {place : Place} {later : Bindings} {domain : Domain}
    (hsteps : Steps catalog place bindings later) (hapart : bindings.IsApart domain) :
    later.IsApart domain := by
  induction hsteps with
  | done place bindings => exact hapart
  | andThen _ _ ihfirst ihsecond => exact ihsecond (ihfirst hapart)
  | declare hfree _ hdeclare =>
      exact hapart.declare (Catalog.isTaken_eq_false.1 hfree).2.2 hdeclare
  | settle _ _ _ _ ih => exact (ih hapart).retype _ _ _
  | useBank place bindings domain bank => exact hapart.useBank domain bank
  | define _ _ =>
      cases domain
      · exact ⟨hapart.distinct, hapart.issued⟩
      · exact ⟨hapart.distinct, hapart.issued⟩
  | inScope _ ih => exact (ih hapart.enter).leave

/-! ## Formulas -/

/-- The phrase that reads a global variable. -/
def Phrase.readGlobal (bank index : PlainText) : Phrase :=
  .apply ⟨"Value In Array", by decide⟩
    (.apply ⟨"Global Variable", by decide⟩ (.word bank) []) [.word index]

/-- The text of reading a variable. -/
theorem Phrase.render_readGlobal (bank index : PlainText) :
    ("Value In Array(Global Variable(" ++ bank.text ++ "), " ++ index.text ++ ")").toList =
      (readGlobal bank index).render := by
  simp [readGlobal, render, renderOthers]

/-- Its source is the variable. -/
theorem Phrase.source?_readGlobal (bindings : Bindings) (bank index : PlainText) :
    (readGlobal bank index).source? bindings = bindings.globalAt? bank.text index.text := by
  simp [readGlobal, source?]

/-- Variables are shown. -/
theorem Shows.global (hapart : bindings.IsApart .global) {name : String} {found : Variable}
    (hfound : bindings.globals.find? name = some found) :
    Shows bindings (Term.readGlobal found.slot) (.identifier name none) := by
  have hbank : isPlain found.slot.bank.text = true := by
    rcases found.slot.bank with ⟨index⟩
    revert index
    decide
  have hindex : isPlain (toString found.slot.index) = true := by
    refine isPlain_iff.2 fun c hc => ?_
    have hdigits : c ∈ Nat.toDigits 10 found.slot.index := by rwa [← Nat.toList_repr]
    exact isDelimiter_of_isDigit (.inl (Nat.isDigit_of_mem_toDigits (by omega) (by omega) hdigits))
  refine ⟨.readGlobal ⟨_, hbank⟩ ⟨_, hindex⟩, Phrase.render_readGlobal ⟨_, hbank⟩ ⟨_, hindex⟩, ?_⟩
  rw [Phrase.source?_readGlobal]
  exact Bindings.globalAt?_eq hapart hfound

/-- The only conversion to a type is that of a player to its position. -/
def ValueType.TakesPositions (type : ValueType) : Prop :=
  ∀ conversion ∈ type.conversions, conversion ∈ ValueType.vector.conversions
deriving Decidable

/-- No type of a catalog has conversions of its own. -/
theorem Catalog.takesPositions {type : ValueType} (hmem : type ∈ catalog.registry.types) :
    type.TakesPositions := by
  have hfold (enumerations : List Enumeration) : ∀ registry : Registry,
      (∀ type ∈ registry.types, type.TakesPositions) →
      ∀ type ∈ (enumerations.foldl (fun registry enumeration =>
        registry.insert (.enumeration enumeration.name)) registry).types,
        type.TakesPositions := by
    induction enumerations with
    | nil => exact fun _ hall => hall
    | cons enumeration rest ih =>
        intro registry hall
        apply ih
        intro type hmem
        rcases List.mem_cons.1 hmem with rfl | hmem
        · intro conversion hconversion
          cases hconversion
        · exact hall type hmem
  have hprimitives : ∀ type ∈ Registry.primitives.types, type.TakesPositions := by decide
  exact hfold catalog.enumerations _ hprimitives type hmem

section Operators

variable {bindings : Bindings} {leftNode rightNode : Node} {left right value : Typed}
  {operator : BinaryOperator}

/-- Operands of a comparison are shown. -/
theorem shows_of_comparable {texts : String × String} (hleftType : left.type.TakesPositions)
    (hrightType : right.type.TakesPositions) (hleft : Shows bindings left.text leftNode)
    (hright : Shows bindings right.text rightNode)
    (htexts : comparable operator left right = .ok texts) :
    Shows bindings texts.1 leftNode ∧ Shows bindings texts.2 rightNode := by
  rcases comparable_eq_ok htexts with ⟨htext, has⟩ | ⟨has, htext⟩
  · exact ⟨htext ▸ hleft, hright.as hleftType has⟩
  · exact ⟨hleft.as hrightType has, htext ▸ hright⟩

/-- So are operands of an operator. -/
theorem shows_of_firstSignature? {signatures : List OperatorSignature} {type : ValueType}
    {leftText rightText : String}
    (hsignatures : ∀ signature ∈ signatures,
      signature.left.TakesPositions ∧ signature.right.TakesPositions)
    (hleft : Shows bindings left.text leftNode) (hright : Shows bindings right.text rightNode)
    (hfirst : firstSignature? left right signatures = some (type, leftText, rightText)) :
    Shows bindings leftText leftNode ∧ Shows bindings rightText rightNode := by
  rcases firstSignature?_eq_some hfirst with ⟨signature, hmem, _, hasLeft, hasRight⟩
  exact ⟨hleft.as (hsignatures signature hmem).1 hasLeft,
    hright.as (hsignatures signature hmem).2 hasRight⟩

/-- Operations are shown. -/
theorem shows_of_applyOperator (hleftType : left.type.TakesPositions)
    (hrightType : right.type.TakesPositions) (hleft : Shows bindings left.text leftNode)
    (hright : Shows bindings right.text rightNode)
    (hvalue : applyOperator operator left right = .ok value) :
    Shows bindings value.text (.binary operator leftNode rightNode) := by
  unfold applyOperator at hvalue
  split at hvalue
  · rcases Except.bind_eq_ok.1 hvalue with ⟨texts, htexts, hresult⟩
    cases hresult
    rcases shows_of_comparable hleftType hrightType hleft hright htexts with ⟨hfirst, hsecond⟩
    exact hfirst.comparison operator hsecond
  · rename_i hfunction
    split at hvalue
    · rename_i type leftText rightText hfirst
      cases hvalue
      have hsignatures : ∀ signature ∈ operator.signatures,
          signature.left.TakesPositions ∧ signature.right.TakesPositions := by
        cases operator <;> decide
      rcases shows_of_firstSignature? hsignatures hleft hright hfirst with ⟨hfirst, hsecond⟩
      exact hfirst.binary (Bool.eq_false_iff.2 hfunction) hsecond
    · cases hvalue

/-- Negations are shown. -/
theorem shows_of_negate {operand : Typed} {node : Node}
    (hoperand : Shows bindings operand.text node) (hvalue : negate operand = .ok value) :
    Shows bindings value.text (.negation node) := by
  rcases negate_eq_ok hvalue with ⟨text, has, rfl⟩
  have hboolean : ValueType.boolean.TakesPositions := by decide
  exact (hoperand.as hboolean has).negation

/-- Choices are shown. -/
theorem shows_of_choose {condition : String} {node : Node}
    (hleftType : left.type.TakesPositions) (hrightType : right.type.TakesPositions)
    (hcondition : Shows bindings condition node)
    (hleft : Shows bindings left.text leftNode) (hright : Shows bindings right.text rightNode)
    (hvalue : choose condition left right = .ok value) :
    Shows bindings value.text (.choice node leftNode (some rightNode)) := by
  rcases Except.bind_eq_ok.1 hvalue with ⟨leftText, hasLeft, hrest⟩
  rcases Except.bind_eq_ok.1 hrest with ⟨rightText, hasRight, hresult⟩
  cases hresult
  have htype : (choiceType left.type right.type).TakesPositions :=
    holds_choiceType hleftType hrightType
  exact hcondition.choice (hleft.as htype hasLeft) (hright.as htype hasRight)

end Operators

/-- The expressions of numbers, truth values, global variables, operators and choices. -/
inductive Node.IsFormula (bindings : Bindings) : Node → Prop
  | number {digits : String} : isNumeral digits = true → IsFormula bindings (.number digits)
  | boolean (truth : Bool) : IsFormula bindings (.boolean truth)
  /-- A plain name that stands for a variable and not for a constant. -/
  | global {name : String} {found : Variable} : bindings.constants.find? name = none →
      bindings.globals.find? name = some found → IsFormula bindings (.identifier name none)
  | negation {operand : Node} : IsFormula bindings operand →
      IsFormula bindings (.negation operand)
  | binary {operator : BinaryOperator} {left right : Node} : IsFormula bindings left →
      IsFormula bindings right → IsFormula bindings (.binary operator left right)
  | choice {condition thenBranch elseBranch : Node} : IsFormula bindings condition →
      IsFormula bindings thenBranch → IsFormula bindings elseBranch →
      IsFormula bindings (.choice condition thenBranch (some elseBranch))

/-- The text of a formula shows the formula. -/
theorem Catalog.shows_of_valueOf {node : Node} (hwell : WellTyped catalog bindings)
    (hapart : bindings.IsApart .global) (hformula : node.IsFormula bindings) {value : Typed}
    (hvalue : catalog.valueOf bindings node = .ok value) : Shows bindings value.text node := by
  have htype {node : Node} {value : Typed} (hvalue : catalog.valueOf bindings node = .ok value) :
      value.type.TakesPositions :=
    takesPositions (type_mem_of_valueOf hwell hvalue)
  induction hformula generalizing value with
  | number hnumeral =>
      cases hvalue
      exact .number hnumeral
  | boolean truth =>
      cases hvalue
      exact .boolean truth
  | global hconstant hfound =>
      simp only [valueOf, Storage.name_eq, hconstant, hfound] at hvalue
      cases hvalue
      exact .global hapart hfound
  | negation _ ih =>
      rcases Except.bind_eq_ok.1 hvalue with ⟨operand, hoperand, hnegate⟩
      exact shows_of_negate (ih hoperand) hnegate
  | binary _ _ ihleft ihright =>
      rcases Except.bind_eq_ok.1 hvalue with ⟨left, hleft, hrest⟩
      rcases Except.bind_eq_ok.1 hrest with ⟨right, hright, happly⟩
      exact shows_of_applyOperator (htype hleft) (htype hright) (ihleft hleft) (ihright hright)
        happly
  | choice _ _ _ ihcondition ihthen ihelse =>
      rcases valueOf_choice_eq_ok.1 hvalue with
        ⟨text, thenValue, elseValue, hcondition, hthen, helse, hchoose⟩
      rcases Except.bind_eq_ok.1 hcondition with ⟨conditionValue, hconditionValue, has⟩
      have hboolean : ValueType.boolean.TakesPositions := by decide
      exact shows_of_choose (htype hthen) (htype helse)
        ((ihcondition hconditionValue).as hboolean has) (ihthen hthen) (ihelse helse) hchoose

/-! ## Sessions -/

/-- A program begins without global variables. -/
theorem Session.isApart_bindings (session : Session) : session.bindings.IsApart .global where
  distinct := List.nodup_nil
  issued _ hslot := nomatch hslot

/-- The text of a formula determines the formula, at every point of every session: two formulas
that have values have the same text only if they are the same tree. -/
theorem formula_text_injective {catalog : Catalog} {programs : List Node} {program : Node}
    {point : Point}
    (hreaches : Reaches catalog
      (.start (Session.initial.compileAll catalog programs) program) point)
    {bindings : Bindings} (hbindings : bindings ∈ point.bindings catalog)
    {first second : Node} (hfirst : first.IsFormula bindings) (hsecond : second.IsFormula bindings)
    {value other : Typed} (hvalue : catalog.valueOf bindings first = .ok value)
    (hother : catalog.valueOf bindings second = .ok other) :
    value.text = other.text ↔ first = second := by
  have hwell : WellTyped catalog bindings :=
    hreaches.of_mem_bindings (WellTyped catalog) (fun _ => .enter) (fun _ _ _ => Steps.wellTyped)
      (Session.wellTyped_compileAll catalog programs .initial) bindings hbindings
  have hapart : bindings.IsApart .global :=
    hreaches.of_mem_bindings (·.IsApart .global) (fun _ => .enter) (fun _ _ _ => Steps.isApart)
      (Session.isApart_bindings _) bindings hbindings
  have hshows := Catalog.shows_of_valueOf hwell hapart hfirst hvalue
  have hshowsOther := Catalog.shows_of_valueOf hwell hapart hsecond hother
  constructor
  · intro htext
    rw [htext] at hshows
    exact hshows.unique hshowsOther
  · intro hsame
    subst hsame
    cases hvalue.symm.trans hother
    rfl

/-- A program with a variable for a vector and one for a player. -/
def positionsProgram : Node :=
  .block [.declare "vector" "goal" false none, .declare "player" "runner" false none]

/-- The bindings that this program leaves. -/
def positionsBindings : Bindings :=
  ((Point.start .initial positionsProgram).after .standard).bindings

/-- Two operators on three operands, of which the first two are grouped. -/
def leftGrouping : Node :=
  .binary .add (.binary .sub (.identifier "goal" none) (.identifier "runner" none))
    (.identifier "runner" none)

/-- The same operators on the same operands, of which the last two are grouped. -/
def rightGrouping : Node :=
  .binary .sub (.identifier "goal" none)
    (.binary .add (.identifier "runner" none) (.identifier "runner" none))

/-- Two groupings of the same operands, some of them converted to positions, have texts of their
own. -/
theorem formula_text_injective_positions :
    leftGrouping.IsFormula positionsBindings ∧ rightGrouping.IsFormula positionsBindings ∧
    Catalog.standard.valueOf positionsBindings leftGrouping = .ok ⟨.vector,
      "Add(Subtract(Value In Array(Global Variable(A), 0), " ++
      "Position Of(Value In Array(Global Variable(A), 1))), " ++
      "Position Of(Value In Array(Global Variable(A), 1)))"⟩ ∧
    ∃ other, Catalog.standard.valueOf positionsBindings rightGrouping = .ok other ∧
      other.text ≠ "Add(Subtract(Value In Array(Global Variable(A), 0), " ++
        "Position Of(Value In Array(Global Variable(A), 1))), " ++
        "Position Of(Value In Array(Global Variable(A), 1)))" := by
  have hfirst : positionsBindings.globals.find? "goal" = some ⟨⟨.first, 0⟩, .vector⟩ := rfl
  have hsecond : positionsBindings.globals.find? "runner" = some ⟨⟨.first, 1⟩, .player⟩ := rfl
  have hgoal : (Node.identifier "goal" none).IsFormula positionsBindings := .global rfl hfirst
  have hrunner : (Node.identifier "runner" none).IsFormula positionsBindings := .global rfl hsecond
  have hleft : leftGrouping.IsFormula positionsBindings := .binary (.binary hgoal hrunner) hrunner
  have hright : rightGrouping.IsFormula positionsBindings := .binary hgoal (.binary hrunner hrunner)
  have hvalue : Catalog.standard.valueOf positionsBindings leftGrouping = .ok ⟨.vector,
      "Add(Subtract(Value In Array(Global Variable(A), 0), " ++
      "Position Of(Value In Array(Global Variable(A), 1))), " ++
      "Position Of(Value In Array(Global Variable(A), 1)))"⟩ := by decide +kernel
  have hother : Catalog.standard.valueOf positionsBindings rightGrouping = .ok ⟨.vector,
      "Subtract(Value In Array(Global Variable(A), 0), " ++
      "Add(Position Of(Value In Array(Global Variable(A), 1)), " ++
      "Position Of(Value In Array(Global Variable(A), 1))))"⟩ := by decide +kernel
  have hmem : positionsBindings ∈ (Point.start (Session.initial.compileAll .standard [])
      positionsProgram).bindings .standard :=
    List.mem_cons_of_mem _ (List.mem_cons_of_mem _ List.mem_cons_self)
  have hiff := formula_text_injective .refl hmem hleft hright hvalue hother
  refine ⟨hleft, hright, hvalue, _, hother, fun htext => ?_⟩
  have hsame := hiff.1 htext.symm
  cases hsame

end Workshop

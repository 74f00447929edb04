import Workshop.Proofs.Resolution.Pass

/-!
# Texts of resolved trees

Once every variable is given by its slot, the text of a script can be written
without knowing any name of a variable.  All that is kept on the way is the
type of every slot, as far as it is known, and the values of the constants.

Main definitions:

- `Emission`: the types of slots and the values of constants.
- `Emission.valueOf`, `Emission.action`, `Emission.statement`: the values and
  texts of resolved trees.
-/

namespace Workshop
namespace Resolution

/-- The types of the slots of both domains, and the values of the constants. -/
structure Emission where
  constants : Table Typed
  types : Domain → Slot → ValueType

namespace Emission

/-- Before the first statement there are no constants, and the types of slots do not matter. -/
def initial : Emission := ⟨.empty, fun _ _ => .dynamic⟩

/-- Gives a slot a type. -/
def setType (emission : Emission) (domain : Domain) (slot : Slot) (type : ValueType) : Emission :=
  { emission with
    types := fun other place =>
      if other = domain ∧ place = slot then type else emission.types other place }

@[simp]
theorem setType_types (emission : Emission) (domain other : Domain) (slot place : Slot)
    (type : ValueType) :
    (emission.setType domain slot type).types other place =
      if other = domain ∧ place = slot then type else emission.types other place :=
  rfl

/-- Gives a slot the type of its first value, if this is what fixes it. -/
def settle (emission : Emission) (domain : Domain) (slot : Slot) : Option ValueType → Emission
  | none => emission
  | some type => emission.setType domain slot type

/-- The text of a value that is stored in a slot. -/
def store (emission : Emission) (domain : Domain) (slot : Slot) (value : Typed) :
    Except SemanticError (String × Emission) := do
  let (text, inferred) ← storedText slot.text (emission.types domain slot) value
  pure (text, emission.settle domain slot inferred)

/-! ## Expressions -/

mutual

/-- The value of an expression. -/
@[simp]
def valueOf (emission : Emission) (catalog : Catalog) : Expression → ValueResult
  | .number digits => .ok ⟨.number, digits⟩
  | .text body => .ok ⟨.string, Term.customString body⟩
  | .boolean value => .ok ⟨.boolean, Term.boolean value⟩
  | .player => .ok ⟨.player, Term.eventPlayer⟩
  | .enumMember enumName member => catalog.enumMember enumName member
  | .constant name =>
    match emission.constants.find? name with
    | some value => .ok value
    | none => .error (.undeclared name)
  | .readGlobal slot => .ok ⟨emission.types .global slot, Term.readGlobal slot⟩
  | .readPlayer actor slot => do
    let actor ← emission.valueOf catalog actor
    let player ← playerText slot.text actor
    pure ⟨emission.types .player slot, Term.readPlayer player slot⟩
  | .call callee receiver arguments =>
    catalog.applyCall .value (.identifier callee none) (emission.optionalValueOf catalog receiver)
      (emission.valuesOf catalog arguments)
  | .negation operand => do
    let operand ← emission.valueOf catalog operand
    negate operand
  | .binary operator left right => do
    let left ← emission.valueOf catalog left
    let right ← emission.valueOf catalog right
    applyOperator operator left right
  | .choice condition thenBranch elseBranch => do
    let condition ← emission.valueOf catalog condition
    let conditionText ← condition.as .boolean
    let thenValue ← emission.valueOf catalog thenBranch
    let elseValue ← emission.valueOf catalog elseBranch
    choose conditionText thenValue elseValue
termination_by structural expression => expression

/-- The values of several expressions. -/
@[simp]
def valuesOf (emission : Emission) (catalog : Catalog) : List Expression → List ValueResult
  | [] => []
  | expression :: rest => emission.valueOf catalog expression :: emission.valuesOf catalog rest
termination_by structural expressions => expressions

/-- The value of an expression that may be missing. -/
@[simp]
def optionalValueOf (emission : Emission) (catalog : Catalog) :
    Option Expression → Option ValueResult
  | none => none
  | some expression => some (emission.valueOf catalog expression)
termination_by structural expression => expression

end

/-- The text of a rule condition, which has to be a comparison. -/
def comparison (emission : Emission) (catalog : Catalog) (condition : Comparison) :
    Except SemanticError String :=
  if condition.operator.isComparison then do
    let left ← emission.valueOf catalog condition.left
    let right ← emission.valueOf catalog condition.right
    let (leftText, rightText) ← comparable condition.operator left right
    pure (leftText ++ " " ++ condition.operator.symbol ++ " " ++ rightText)
  else .error (.notACondition condition.operator.symbol)

/-- The texts of the conditions of a rule. -/
def comparisons (emission : Emission) (catalog : Catalog) :
    Option (List Comparison) → Except SemanticError (Option (List String))
  | none => .ok none
  | some conditions => do
    let texts ← conditions.mapM (emission.comparison catalog)
    pure (some texts)

/-! ## Statements -/

/-- The text that stores the first value of a new variable in its slot, if it has one. -/
def declaration (emission : Emission) (catalog : Catalog) (domain : Domain) (slot : Slot)
    (typeName : String) (initial : Option Expression) :
    Except SemanticError (Option String × Emission) := do
  let type ← catalog.declaredType typeName slot.text
  match initial with
  | none => pure (none, emission.setType domain slot type)
  | some initial => do
    let value ← emission.valueOf catalog initial
    let (text, emission) ← (emission.setType domain slot type).store domain slot value
    pure (some (Catalog.writeInitial domain slot text), emission)

mutual

/-- The lines of an action. -/
@[simp]
def action (catalog : Catalog) : Action → Emission → Except SemanticError (List Line × Emission)
  | .writeGlobal slot value, emission => do
    let value ← emission.valueOf catalog value
    let (text, emission) ← emission.store .global slot value
    pure ([.statement (Term.writeGlobal slot text)], emission)
  | .writePlayer actor slot value, emission => do
    let value ← emission.valueOf catalog value
    let actor ← emission.valueOf catalog actor
    let player ← playerText slot.text actor
    let (text, emission) ← emission.store .player slot value
    pure ([.statement (Term.writePlayer player slot text)], emission)
  | .call callee receiver arguments, emission => do
    let call ← catalog.applyCall .action (.identifier callee none)
      (emission.optionalValueOf catalog receiver) (emission.valuesOf catalog arguments)
    pure ([.statement call.text], emission)
  | .declare domain slot typeName initial, emission => do
    let (written, emission) ← emission.declaration catalog domain slot typeName initial
    pure (written.toList.map Line.statement, emission)
  | .useBank, emission => pure ([], emission)
  | .block list, emission => actions catalog list emission
  | .choice condition thenBranch elseBranch, emission => do
    let condition ← emission.valueOf catalog condition
    let conditionText ← condition.as .boolean
    let (thenLines, emission) ← action catalog thenBranch emission
    match elseBranch with
    | none =>
      pure ([.statement ("If(" ++ conditionText ++ ")"), .indent] ++ thenLines ++ [.dedent] ++
        [] ++ [.statement "End"], emission)
    | some elseBranch => do
      let (elseLines, emission) ← action catalog elseBranch emission
      pure ([.statement ("If(" ++ conditionText ++ ")"), .indent] ++ thenLines ++ [.dedent] ++
        ([.statement "Else", .indent] ++ elseLines ++ [.dedent]) ++ [.statement "End"], emission)
termination_by structural node => node

/-- The lines of several actions, one after the other. -/
@[simp]
def actions (catalog : Catalog) :
    List Action → Emission → Except SemanticError (List Line × Emission)
  | [], emission => pure ([], emission)
  | first :: rest, emission => do
    let (lines, emission) ← action catalog first emission
    let (others, emission) ← actions catalog rest emission
    pure (lines ++ others, emission)
termination_by structural nodes => nodes

end

mutual

/-- The texts of the rules in a top level statement. -/
@[simp]
def statement (catalog : Catalog) :
    Statement → Emission → Except SemanticError (List String × Emission)
  | .block list, emission => statements catalog list emission
  | .constant name value, emission => do
    let value ← emission.valueOf catalog value
    pure ([], { emission with constants := emission.constants.insert name value })
  | .declare domain slot typeName initial, emission => do
    let (_, emission) ← emission.declaration catalog domain slot typeName initial
    pure ([], emission)
  | .rule name event conditions list, emission => do
    let eventText ← catalog.eventText event
    let texts ← emission.comparisons catalog conditions
    let (lines, emission) ← actions catalog list emission
    pure ([(RuleLayout.mk name eventText (event != globalEvent) texts lines).render], emission)
  | .useBank, emission => pure ([], emission)
termination_by structural node => node

/-- The texts of the rules in several statements. -/
@[simp]
def statements (catalog : Catalog) :
    List Statement → Emission → Except SemanticError (List String × Emission)
  | [], emission => pure ([], emission)
  | first :: rest, emission => do
    let (rules, emission) ← statement catalog first emission
    let (others, emission) ← statements catalog rest emission
    pure (rules ++ others, emission)
termination_by structural nodes => nodes

end

end Emission
end Resolution
end Workshop

import Workshop.Compilation.Bindings
import Workshop.Output.Term

/-!
# Values

An expression is compiled to its type and its text.  This depends on what the names in it stand
for, and changes nothing.

Main definitions:

- `Catalog.applyBuiltin`: checks a call against the types of the parameters.
- `applyOperator`: checks an operator against the types of the operands.
- `Catalog.valueOf`: the compiled value of an expression.
-/

namespace Workshop

/-- The outcome of compiling an expression. -/
abbrev ValueResult := Except SemanticError Typed

/-! ## Operators -/

/-- Both operands of a comparison as values of one type: that of the left one if it accepts the
right one, and otherwise that of the right one. -/
def comparable (operator : BinaryOperator) (left right : Typed) :
    Except SemanticError (String × String) :=
  if left.type.accepts right.type then do
    let rightText ← right.as left.type
    pure (left.text, rightText)
  else if right.type.accepts left.type then do
    let leftText ← left.as right.type
    pure (leftText, right.text)
  else .error (.operandMismatch operator left.type.name right.type.name)

/-- The types of the operands and of the result of an operator. -/
structure OperatorSignature where
  left : ValueType
  right : ValueType
  result : ValueType
deriving DecidableEq, Repr

/-- An operator that keeps one type. -/
def OperatorSignature.within (type : ValueType) : OperatorSignature := ⟨type, type, type⟩

namespace BinaryOperator

/-- The signatures of an operator in the order in which they are tried. -/
def signatures : BinaryOperator → List OperatorSignature
  | or | and => [.within .boolean]
  | add | sub => [.within .number, .within .vector]
  | mul => [.within .number, ⟨.vector, .number, .vector⟩, ⟨.number, .vector, .vector⟩]
  | div => [.within .number, ⟨.vector, .number, .vector⟩]
  | rem => [.within .number]
  | lt | gt | le | ge | eq | ne => []

/-- The function that an operator becomes. -/
def function : BinaryOperator → String
  | or => "Or"
  | and => "And"
  | add => "Add"
  | sub => "Subtract"
  | mul => "Multiply"
  | div => "Divide"
  | rem => "Modulo"
  | lt | gt | le | ge | eq | ne => "Compare"

end BinaryOperator

/-- The texts of two operands under a signature, if it accepts them. -/
def OperatorSignature.operands? (signature : OperatorSignature) (left right : Typed) :
    Option (String × String) :=
  match left.as signature.left, right.as signature.right with
  | .ok leftText, .ok rightText => some (leftText, rightText)
  | _, _ => none

/-- The first signature that accepts the operands, with their texts. -/
def firstSignature? (left right : Typed) :
    List OperatorSignature → Option (ValueType × String × String)
  | [] => none
  | signature :: rest =>
    match signature.operands? left right with
    | some (leftText, rightText) => some (signature.result, leftText, rightText)
    | none => firstSignature? left right rest

/-- The value of an operator applied to compiled operands. -/
def applyOperator (operator : BinaryOperator) (left right : Typed) : ValueResult :=
  if operator.isComparison then do
    let (leftText, rightText) ← comparable operator left right
    pure ⟨.boolean, "Compare(" ++ leftText ++ ", " ++ operator.symbol ++ ", " ++ rightText ++ ")"⟩
  else
    match firstSignature? left right operator.signatures with
    | some (type, leftText, rightText) =>
      .ok ⟨type, operator.function ++ "(" ++ leftText ++ ", " ++ rightText ++ ")"⟩
    | none => .error (.operandMismatch operator left.type.name right.type.name)

/-- The negation of a compiled value. -/
def negate (operand : Typed) : ValueResult :=
  if ValueType.boolean.accepts operand.type then do
    let text ← operand.as .boolean
    pure ⟨.boolean, "Not(" ++ text ++ ")"⟩
  else .error (.notNegatable operand.type.name)

/-- The type of a choice: that of the branch which accepts the other, preferably the first. -/
def choiceType (thenType elseType : ValueType) : ValueType :=
  if thenType.isDynamic || (!thenType.accepts elseType && elseType.accepts thenType) then elseType
  else thenType

/-- The value of a choice between two compiled values. -/
def choose (condition : String) (thenValue elseValue : Typed) : ValueResult := do
  let type := choiceType thenValue.type elseValue.type
  let thenText ← thenValue.as type
  let elseText ← elseValue.as type
  pure ⟨type, "If-Then-Else(" ++ condition ++ ", " ++ thenText ++ ", " ++ elseText ++ ")"⟩

/-! ## Calls -/

/-- Whether a call stands for an action or for a value. -/
inductive CallMode where
  | action
  | value
deriving DecidableEq, Repr

namespace Catalog

/-- The builtin that a call names. -/
def calledBuiltin (catalog : Catalog) (mode : CallMode) (name : String) :
    Except SemanticError Builtin :=
  match mode with
  | .action =>
    match catalog.action? name with
    | some builtin => .ok builtin
    | none =>
      if (catalog.value? name).isSome then .error (.notAllowed ("value '" ++ name ++ "'") .action)
      else .error (.unknownAction name)
  | .value =>
    match catalog.value? name with
    | some builtin => .ok builtin
    | none =>
      if (catalog.action? name).isSome then .error (.notAValue ("action '" ++ name ++ "'"))
      else .error (.unknownValue name)

/-- Whether one of the named types accepts a type.  All of them have to exist. -/
def anyAccepts (catalog : Catalog) (type : ValueType) : List String → Except SemanticError Bool
  | [] => .ok false
  | name :: rest => do
    let target ← catalog.type name
    let others ← catalog.anyAccepts type rest
    pure (target.accepts type || others)

variable {σ ε : Type} [Storage σ ε] [Reason ε]

/-- The receiver of a call as its first argument. -/
def receiverArgument (catalog : Catalog) (method : String) (builtin : Builtin) :
    Option (Except ε Typed) → Except ε (List Typed)
  | none => .ok []
  | some receiver =>
    if builtin.receivers.isEmpty then Reason.fail (.receiverNotAllowed method)
    else do
      let receiver ← receiver
      if ← Reason.lift (catalog.anyAccepts receiver.type builtin.receivers) then pure [receiver]
      else Reason.fail (.receiverMismatch method receiver.type.name)

/-- The arguments of a call, all of which have to produce values.  The first of them has the given
position. -/
def producedArguments (method : String) :
    Nat → List (Except ε Typed) → Except ε (List Typed)
  | _, [] => .ok []
  | position, argument :: rest => do
    let value ← argument
    if value.type.isVoid then Reason.fail (.voidArgument method position)
    else
      let values ← producedArguments method (position + 1) rest
      pure (value :: values)

/-- The texts of arguments as values of the types of the parameters.  The first of them has the
given position. -/
def adaptedArguments (catalog : Catalog) (method : String) :
    Nat → List Typed → List String → Except SemanticError (List String)
  | position, argument :: arguments, parameter :: parameters => do
    let expected ← catalog.type parameter
    if expected.accepts argument.type then
      let text ← argument.as expected
      let texts ← catalog.adaptedArguments method (position + 1) arguments parameters
      pure (text :: texts)
    else throw (.argumentType method position parameter argument.type.name)
  | _, _, _ => .ok []

/-- The value of a builtin applied to compiled arguments, the receiver included. -/
def applyBuiltin (catalog : Catalog) (method : String) (builtin : Builtin)
    (arguments : List Typed) : Except ε Typed :=
  if arguments.length = builtin.parameters.length then do
    let texts ← Reason.lift (catalog.adaptedArguments method 1 arguments builtin.parameters)
    let result ← Reason.lift (catalog.type builtin.result)
    let text ← Reason.render builtin texts
    pure ⟨result, text⟩
  else
    Reason.fail (.argumentCount method builtin.parameters.length arguments.length
      (min arguments.length builtin.parameters.length + 1))

/-- The value of a call, given the outcomes for its receiver and its arguments. -/
def applyCall (catalog : Catalog) (mode : CallMode) (callee : Node)
    (receiver : Option (Except ε Typed)) (arguments : List (Except ε Typed)) :
    Except ε Typed :=
  match callee with
  | .identifier name none => do
    let builtin ← Reason.lift (catalog.calledBuiltin mode name)
    let first ← catalog.receiverArgument name builtin receiver
    let others ← producedArguments name (first.length + 1) arguments
    catalog.applyBuiltin name builtin (first ++ others)
  | other => Reason.fail (.calleeNotPlain other.describe)

/-! ## Names -/

/-- The value of a member of an enumeration. -/
def enumMember (catalog : Catalog) (enumName member : String) : ValueResult :=
  match catalog.enumeration? enumName with
  | none => .error (.unknownEnum enumName)
  | some enumeration =>
    match enumeration.member? member with
    | none => .error (.unknownMember enumName member)
    | some text => do
      let type ← catalog.type (ValueType.enumName enumName)
      pure ⟨type, text⟩

/-- The enumeration that a receiver names, if it is a plain name of one. -/
def namedEnumeration? (catalog : Catalog) : Node → Option String
  | .identifier name none => if (catalog.enumeration? name).isSome then some name else none
  | _ => none

end Catalog

/-- The text of the player whose variable is used. -/
def playerText (member : String) (receiver : Typed) : Except SemanticError String :=
  if receiver.type.name == "player" || receiver.type.isDynamic then .ok receiver.text
  else .error (.memberReceiverMismatch member receiver.type.name)

variable {σ ε : Type} [Storage σ ε] [Reason ε]

namespace Storage

/-- The variable of a domain with the given name, which has to be there. -/
def get (bindings : σ) (domain : Domain) (name : String) : Except ε Variable :=
  match find? bindings domain name with
  | some found => .ok found
  | none => Reason.fail (.undeclared name)

/-- The value of a plain name: a constant or a global variable. -/
def name (bindings : σ) (name : String) : Except ε Typed :=
  match (constants bindings).find? name with
  | some value => .ok value
  | none =>
    match find? bindings .global name with
    | some found => .ok ⟨found.type, Term.readGlobal found.slot⟩
    | none => Reason.fail (.undeclared name)

/-- The value of a player's variable. -/
def playerMember (bindings : σ) (player name : String) : Except ε Typed :=
  match find? bindings .player name with
  | some found => .ok ⟨found.type, Term.readPlayer player found.slot⟩
  | none => Reason.fail (.undeclared name)

theorem name_eq (bindings : Bindings) (name : String) :
    Storage.name bindings name =
      match bindings.constants.find? name with
      | some value => .ok value
      | none =>
        match bindings.globals.find? name with
        | some found => .ok ⟨found.type, Term.readGlobal found.slot⟩
        | none => .error (.undeclared name) := rfl

theorem playerMember_eq (bindings : Bindings) (player name : String) :
    playerMember bindings player name =
      match bindings.players.find? name with
      | some found => .ok ⟨found.type, Term.readPlayer player found.slot⟩
      | none => .error (.undeclared name) := rfl

end Storage

/-! ## Expressions -/

namespace Catalog

mutual

/-- The compiled value of an expression. -/
def valueOf (catalog : Catalog) (bindings : σ) : Node → Except ε Typed
  | .block statements =>
    match statements with
    | [single] => catalog.valueOf bindings single
    | _ => Reason.fail (.notAllowed "a block" .value)
  | .call callee receiver arguments =>
    catalog.applyCall .value callee (catalog.optionalValueOf bindings receiver)
      (catalog.valuesOf bindings arguments)
  | .enumMember enumName member => Reason.lift (catalog.enumMember enumName member)
  | .negation operand => do
    let operand ← catalog.valueOf bindings operand
    Reason.lift (negate operand)
  | .binary operator left right => do
    let left ← catalog.valueOf bindings left
    let right ← catalog.valueOf bindings right
    Reason.lift (applyOperator operator left right)
  | .choice condition thenBranch elseBranch =>
    match elseBranch with
    | none => Reason.fail .elseMissing
    | some elseBranch => do
      let condition ← catalog.valueOf bindings condition
      let conditionText ← Reason.lift (condition.as .boolean)
      let thenValue ← catalog.valueOf bindings thenBranch
      let elseValue ← catalog.valueOf bindings elseBranch
      Reason.lift (choose conditionText thenValue elseValue)
  | .number digits => .ok ⟨.number, digits⟩
  | .text body => .ok ⟨.string, Term.customString body⟩
  | .boolean truth => .ok ⟨.boolean, Term.boolean truth⟩
  | .player => .ok ⟨.player, Term.eventPlayer⟩
  | .identifier name receiver =>
    match receiver with
    | none => Storage.name bindings name
    | some receiver =>
      match catalog.namedEnumeration? receiver with
      | some enumName => Reason.lift (catalog.enumMember enumName name)
      | none => do
        let receiver ← catalog.valueOf bindings receiver
        let player ← Reason.lift (playerText name receiver)
        Storage.playerMember bindings player name
  | other => Reason.fail (.notAValue other.describe)
termination_by structural node => node

/-- The outcomes for several expressions. -/
def valuesOf (catalog : Catalog) (bindings : σ) : List Node → List (Except ε Typed)
  | [] => []
  | node :: rest => catalog.valueOf bindings node :: catalog.valuesOf bindings rest
termination_by structural nodes => nodes

/-- The outcome for an expression that may be missing. -/
def optionalValueOf (catalog : Catalog) (bindings : σ) :
    Option Node → Option (Except ε Typed)
  | none => none
  | some node => some (catalog.valueOf bindings node)
termination_by structural node => node

end

/-- The text of an expression as a truth value. -/
def condition (catalog : Catalog) (bindings : σ) (node : Node) : Except ε String := do
  let value ← catalog.valueOf bindings node
  Reason.lift (value.as .boolean)

/-- The text of a rule condition, which has to be a comparison. -/
def ruleCondition (catalog : Catalog) (bindings : σ) (node : Node) : Except ε String :=
  match node with
  | .binary operator left right =>
    if operator.isComparison then do
      let left ← catalog.valueOf bindings left
      let right ← catalog.valueOf bindings right
      let (leftText, rightText) ← Reason.lift (comparable operator left right)
      pure (leftText ++ " " ++ operator.symbol ++ " " ++ rightText)
    else Reason.fail (.notACondition (Node.binary operator left right).describe)
  | other => Reason.fail (.notACondition other.describe)

theorem valuesOf_eq_map (catalog : Catalog) (bindings : σ) (nodes : List Node) :
    catalog.valuesOf bindings nodes = nodes.map (catalog.valueOf bindings) := by
  induction nodes with
  | nil => rfl
  | cons node rest ih => simp [valuesOf, ih]

theorem optionalValueOf_eq_map (catalog : Catalog) (bindings : σ) (node : Option Node) :
    catalog.optionalValueOf bindings node = node.map (catalog.valueOf bindings) := by
  cases node <;> rfl

end Catalog
end Workshop

import Workshop.Script.Operator
import Workshop.Storage.Bank

/-!
# Semantic errors

The ways in which a well formed script can fail to make sense, with their wording.
-/

namespace Workshop

/-- Where a construct was found that may not stand there. -/
inductive Place where
  | topLevel
  | action
  | value
deriving DecidableEq, Repr

/-- A place as it is worded in errors. -/
def Place.text : Place → String
  | .topLevel => "at the top level"
  | .action => "as an action"
  | .value => "as a value unless it holds exactly one expression"

/-- Why a script makes no sense. -/
inductive SemanticError where
  /-- A variable is used that no declaration introduces. -/
  | undeclared (name : String)
  /-- A declaration reuses a name. -/
  | alreadyDeclared (name : String)
  /-- A constant is given a new value. -/
  | constantAssigned (name : String)
  /-- A value of this type cannot be kept in a variable. -/
  | notStorable (name type : String)
  /-- No variable can have this type. -/
  | notDeclarable (name type : String)
  /-- A call has too few or too many arguments; the position is that of the first one missing or
  too many. -/
  | argumentCount (method : String) (expected found position : Nat)
  /-- An argument has a type that the parameter does not accept. -/
  | argumentType (method : String) (position : Nat) (expected found : String)
  /-- An argument produces no value. -/
  | voidArgument (method : String) (position : Nat)
  /-- A value of one type is needed as another. -/
  | notConvertible (source target : String)
  | unknownType (name : String)
  | unknownEnum (name : String)
  | unknownMember (enumName member : String)
  | unknownEvent (name : String)
  /-- A rule condition is no comparison. -/
  | notACondition (construct : String)
  /-- An operator does not take operands of these types. -/
  | operandMismatch (operator : BinaryOperator) (left right : String)
  | notNegatable (type : String)
  | notAValue (construct : String)
  | unknownAction (name : String)
  | unknownValue (name : String)
  /-- Something other than a plain name is called. -/
  | calleeNotPlain (construct : String)
  | receiverNotAllowed (method : String)
  | receiverMismatch (method found : String)
  | memberReceiverMismatch (member found : String)
  /-- A choice used as a value has no second branch. -/
  | elseMissing
  | notAllowed (construct : String) (place : Place)
  | bankFull (bank : Bank)
deriving DecidableEq, Repr

namespace SemanticError

/-- The wording of an error. -/
def message : SemanticError → String
  | undeclared name => "variable '" ++ name ++ "' is not declared"
  | alreadyDeclared name => "'" ++ name ++ "' is already declared"
  | constantAssigned name => "cannot assign to constant '" ++ name ++ "'"
  | notStorable name type =>
    "cannot store a value of type '" ++ type ++ "' in variable '" ++ name ++ "'"
  | notDeclarable name type =>
    "cannot declare variable '" ++ name ++ "' with type '" ++ type ++ "'"
  | argumentCount method expected found position =>
    "'" ++ method ++ "' expects " ++ toString expected ++ " arguments but received " ++
      toString found ++ " (argument " ++ toString position ++ ")"
  | argumentType method position expected found =>
    "argument " ++ toString position ++ " of '" ++ method ++ "' expects type '" ++ expected ++
      "' but got '" ++ found ++ "'"
  | voidArgument method position =>
    "argument " ++ toString position ++ " of '" ++ method ++ "' does not produce a value"
  | notConvertible source target =>
    "cannot convert '" ++ source ++ "' to '" ++ target ++ "' implicitly"
  | unknownType name => "unknown type '" ++ name ++ "'"
  | unknownEnum name => "unknown enum '" ++ name ++ "'"
  | unknownMember enumName member => "enum '" ++ enumName ++ "' has no member '" ++ member ++ "'"
  | unknownEvent name => "unknown event target '" ++ name ++ "'"
  | notACondition construct =>
    "'" ++ construct ++ "' cannot be used as a rule condition, expected a comparison"
  | operandMismatch operator left right =>
    "operator '" ++ operator.symbol ++ "' cannot be applied to '" ++ left ++ "' and '" ++ right ++
      "'"
  | notNegatable type => "cannot negate a value of type '" ++ type ++ "'"
  | notAValue construct => construct ++ " does not produce a value"
  | unknownAction name => "'" ++ name ++ "' is not a known action"
  | unknownValue name => "'" ++ name ++ "' is not a known value"
  | calleeNotPlain construct =>
    "the callee of a call must be a plain identifier, got " ++ construct
  | receiverNotAllowed method => "'" ++ method ++ "' cannot be called on a receiver"
  | receiverMismatch method found =>
    "'" ++ method ++ "' cannot be called on a value of type '" ++ found ++ "'"
  | memberReceiverMismatch member found =>
    "member '" ++ member ++ "' requires a player receiver, got '" ++ found ++ "'"
  | elseMissing => "an if expression used as a value needs an else branch"
  | notAllowed construct place => construct ++ " is not allowed " ++ place.text
  | bankFull bank => "bank " ++ bank.text ++ " has no free slots left"

end SemanticError
end Workshop

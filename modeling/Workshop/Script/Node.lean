import Workshop.Json
import Workshop.Script.Operator
import Workshop.Storage.Bank

/-!
# Syntax trees

A script is a tree of nodes.  One type serves for statements and expressions, because the
language does not separate them before names and types are known.

Main definitions:

- `Node`: the trees.
- `Node.describe`: the short name of a node in diagnostics.
- `Node.attach`: gives a receiver to the innermost member of a chain.
- `Node.asCondition`: reads a bare condition as a comparison with `true`.
- `Node.toJson`: the tree as a JSON document.
-/

namespace Workshop

/-- The two kinds of variables: one for the whole match, or one for every player. -/
inductive Domain where
  | global
  | player
deriving DecidableEq, Repr

namespace Domain

/-- A domain as it is written in a script. -/
def keyword : Domain → String
  | global => "global"
  | player => "player"

/-- A domain as the journal names it. -/
def title : Domain → String
  | global => "Global"
  | player => "Player"

end Domain

/-- A node of a syntax tree. -/
inductive Node where
  /-- Statements between braces, or a whole program. -/
  | block (statements : List Node)
  /-- A named value that is put in place of its name. -/
  | constant (name : String) (value : Node)
  /-- A new variable, with the name of its type and an optional first value. -/
  | declare (typeName name : String) (perPlayer : Bool) (initial : Option Node)
  /-- The choice of the bank for later declarations of a domain. -/
  | useBank (domain : Domain) (bank : Bank)
  /-- A rule: its name, the event that starts it, its conditions if it has a list of them, and
  its actions. -/
  | rule (name event : String) (conditions : Option (List Node)) (actions : List Node)
  /-- A new value for a variable, of the receiver if there is one. -/
  | assign (target : String) (receiver : Option Node) (value : Node)
  /-- A call, on a receiver if there is one. -/
  | call (callee : Node) (receiver : Option Node) (arguments : List Node)
  /-- A member of an enumeration, spelled like a keyword. -/
  | enumMember (enumName member : String)
  /-- A logical negation. -/
  | negation (operand : Node)
  /-- An operator between two operands. -/
  | binary (operator : BinaryOperator) (left right : Node)
  /-- One of two branches, chosen by a condition. -/
  | choice (condition thenBranch : Node) (elseBranch : Option Node)
  /-- A number as it is written. -/
  | number (digits : String)
  /-- A string literal without its quotes. -/
  | text (body : String)
  /-- A truth value. -/
  | boolean (value : Bool)
  /-- The player an event concerns. -/
  | player
  /-- A name, looked up in the receiver if there is one. -/
  | identifier (name : String) (receiver : Option Node)

namespace Node

instance : Inhabited Node := ⟨player⟩

/-- The short name of a node in diagnostics. -/
def describe : Node → String
  | block _ => "a block"
  | constant name _ => "constant '" ++ name ++ "'"
  | declare _ name _ _ => "declaration of '" ++ name ++ "'"
  | useBank _ _ => "usevar"
  | rule name _ _ _ => "rule \"" ++ name ++ "\""
  | assign target _ _ => "assignment to '" ++ target ++ "'"
  | call callee _ _ => "call to " ++ callee.describe
  | enumMember enumName member => "'" ++ enumName ++ "." ++ member ++ "'"
  | negation _ => "a negation"
  | binary operator _ _ => "operator '" ++ operator.symbol ++ "'"
  | choice _ _ _ => "an if expression"
  | number digits => "number " ++ digits
  | text body => "string \"" ++ body ++ "\""
  | boolean value => if value then "boolean true" else "boolean false"
  | player => "'player'"
  | identifier name _ => "'" ++ name ++ "'"

/-- Gives a receiver to the innermost member of a chain of names, calls and assignments.  The
node that cannot have a receiver is the result when the chain does not end in such a member. -/
def attach (receiver : Node) : Node → Except Node Node
  | identifier name none => .ok (identifier name (some receiver))
  | identifier name (some inner) =>
    (attach receiver inner).map fun inner => identifier name (some inner)
  | call callee none arguments => .ok (call callee (some receiver) arguments)
  | call callee (some inner) arguments =>
    (attach receiver inner).map fun inner => call callee (some inner) arguments
  | assign target none value => .ok (assign target (some receiver) value)
  | assign target (some inner) value =>
    (attach receiver inner).map fun inner => assign target (some inner) value
  | other => .error other
termination_by structural chain => chain

/-- A condition that is not an operation is compared with `true`. -/
def asCondition : Node → Node
  | binary operator left right => binary operator left right
  | other => binary .eq other (boolean true)

/-! ## Trees as documents -/

mutual

/-- The tree as a JSON document.  Every node is an object whose first field is its type. -/
def toJson : Node → Json
  | block statements =>
    .object [("type", .string "block"), ("statements", .array (listToJson statements))]
  | constant name value =>
    .object [("type", .string "const"), ("name", .string name), ("value", value.toJson)]
  | declare typeName name perPlayer initial =>
    .object [("type", .string "declare"), ("varType", .string typeName), ("name", .string name),
      ("actorScoped", .bool perPlayer), ("init", optionToJson initial)]
  | useBank domain bank =>
    .object [("type", .string "useVar"), ("domain", .string domain.keyword),
      ("bank", .string bank.text)]
  | rule name event conditions actions =>
    .object [("type", .string "rule"), ("name", .string name), ("eventTarget", .string event),
      ("conditions", match conditions with
        | none => .null
        | some conditions => .array (listToJson conditions)),
      ("actions", .array (listToJson actions))]
  | assign target receiver value =>
    .object [("type", .string "assign"), ("target", .string target),
      ("scope", optionToJson receiver), ("value", value.toJson)]
  | call callee receiver arguments =>
    .object [("type", .string "call"), ("callee", callee.toJson),
      ("scope", optionToJson receiver), ("args", .array (listToJson arguments))]
  | enumMember enumName member =>
    .object [("type", .string "enumRef"), ("enumName", .string enumName),
      ("member", .string member)]
  | negation operand =>
    .object [("type", .string "not"), ("operand", operand.toJson)]
  | binary operator left right =>
    .object [("type", .string "binary"), ("operator", .string operator.symbol),
      ("left", left.toJson), ("right", right.toJson)]
  | choice condition thenBranch elseBranch =>
    .object [("type", .string "if"), ("condition", condition.toJson),
      ("thenBranch", thenBranch.toJson), ("elseBranch", optionToJson elseBranch)]
  | number digits => .object [("type", .string "number"), ("value", .string digits)]
  | text body => .object [("type", .string "string"), ("value", .string body)]
  | boolean value => .object [("type", .string "boolean"), ("value", .bool value)]
  | player => .object [("type", .string "player")]
  | identifier name receiver =>
    .object [("type", .string "identifier"), ("name", .string name),
      ("scope", optionToJson receiver)]
termination_by structural node => node

/-- The documents of several trees. -/
def listToJson : List Node → List Json
  | [] => []
  | node :: rest => node.toJson :: listToJson rest
termination_by structural nodes => nodes

/-- The document of a tree that may be missing. -/
def optionToJson : Option Node → Json
  | none => .null
  | some node => node.toJson
termination_by structural node => node

end

theorem listToJson_eq_map (nodes : List Node) : listToJson nodes = nodes.map toJson := by
  induction nodes with
  | nil => rfl
  | cons node rest ih => simp [listToJson, ih]

end Node
end Workshop

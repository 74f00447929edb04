import Workshop.Script.OperatorTree
import Workshop.Script.TokenStream

/-!
# Grammar

The grammar of scripts as readers of token streams.  Each rule of the grammar is a definition that
takes the readers of nested atoms and expressions; the rules consume at least one token before
they use them, so as many levels of nesting as there are tokens are enough.

Main definitions:

- `Grammar.program`: a whole script, that is, statements separated by semicolons.
- `Script.read`: reads a source text, and tells which tokens were read for it.
- `Script.parse`: the syntax tree of a source text.
-/

namespace Workshop
namespace Grammar

open TokenStream

/-- The readers of nested atoms and expressions. -/
structure Level where
  atom : Parse Node
  expression : Parse Node

/-! ## Operators, calls and members -/

/-- The binary operator that comes next, if one does. -/
def nextOperator : Parse (Option BinaryOperator) := do
  match ← peek with
  | some token =>
    pure (if token.kind == .operator then BinaryOperator.ofSymbol? token.text else none)
  | none => pure none

/-- Operators, each followed by its right operand.  Every operator is a token, so that `fuel`
operators are enough once it exceeds the number of tokens. -/
def operatorTail (atom : Parse Node) : Nat → Parse (List (BinaryOperator × Node))
  | 0 => pure []
  | fuel + 1 => do
    match ← nextOperator with
    | none => pure []
    | some operator =>
      discard (advance operator.symbol)
      let right ← atom
      let rest ← operatorTail atom fuel
      pure ((operator, right) :: rest)

/-- Atoms with operators between them. -/
def operation (atom : Parse Node) : Parse Node := do
  let first ← atom
  let remaining := (← get).ahead.length
  let tail ← operatorTail atom (remaining + 1)
  pure (OperatorTree.ofChain first tail).toNode

/-- Gives a chain its receiver; the dot is to blame when the chain cannot have one. -/
def attached (receiver : Node) (dot : Token) (chain : Node) : Parse Node :=
  match Node.attach receiver chain with
  | .ok chain => pure chain
  | .error node => throw (.misplaced dot (.inaccessible node.describe))

/-- What may follow an expression: arguments, which make it a call, and a chain of members that
has the call as its innermost receiver. -/
def callSuffix (nested : Level) (head : Node) : Parse Node := do
  if ← nextIs .operator ["("] then
    let arguments ← delimited "(" ")" "," nested.expression
    let call := Node.call head none arguments
    if ← nextIs .operator ["."] then
      let dot ← advance "'.'"
      let chain ← nested.atom
      attached call dot chain
    else pure call
  else pure head

/-! ## Names -/

/-- An assignment, after its target has been read. -/
def assignment (nested : Level) (target : Token) : Parse Node := do
  discard (expectOperator "=")
  if target.kind == .identifier then
    let value ← operation nested.atom
    pure (.assign target.text none value)
  else throw (.misplaced target (.expected "an identifier"))

/-- The name or player that a token stands for. -/
def nameOf (token : Token) : Parse Node :=
  if token.kind == .identifier then pure (.identifier token.text none)
  else if token.is .keyword "player" then pure .player
  else throw (.misplaced token (.expected "an identifier"))

/-- The keyword that comes next, if it can name a member of an enumeration. -/
def nextKeywordMember : Parse (Option String) := do
  match ← peek with
  | some token =>
    pure (if token.kind == .keyword && token.text != "player" then some token.text else none)
  | none => pure none

/-- What follows the dot after a name: a member spelled like a keyword, or a chain of members. -/
def memberOf (nested : Level) (node : Node) (dot : Token) : Parse Node := do
  match node with
  | .identifier name _ =>
    match ← nextKeywordMember with
    | some member =>
      discard (advance "an enum member")
      pure (.enumMember name member)
    | none =>
      let chain ← nested.atom
      attached node dot chain
  | _ =>
    let chain ← nested.atom
    attached node dot chain

/-- An assignment, a name, or a chain of members, after its first name has been read. -/
def named (nested : Level) (leading : Token) : Parse Node := do
  if ← nextIs .operator ["="] then assignment nested leading
  else
    let node ← nameOf leading
    if ← nextIs .operator ["."] then
      let dot ← advance "'.'"
      memberOf nested node dot
    else pure node

/-- A declaration, after the name of the type has been read. -/
def declaration (nested : Level) (typeName : Token) : Parse Node := do
  let perPlayer ← nextIs .keyword ["player"]
  if perPlayer then
    discard (advance "player")
    discard (expectOperator ".")
  let name ← expectIdentifier
  if ← nextIs .operator ["="] then
    discard (advance "'='")
    let initial ← operation nested.atom
    pure (.declare typeName.text name.text perPlayer (some initial))
  else pure (.declare typeName.text name.text perPlayer none)

/-! ## Keywords -/

/-- A choice between branches. -/
def choice (nested : Level) : Parse Node := do
  discard (expect .keyword ["if"])
  let condition ← nested.expression
  let thenBranch ← nested.expression
  if ← nextIs .keyword ["else"] then
    discard (advance "else")
    let elseBranch ← nested.expression
    pure (.choice condition thenBranch (some elseBranch))
  else pure (.choice condition thenBranch none)

/-- Statements between braces. -/
def block (nested : Level) : Parse Node := do
  let statements ← delimited "\x7b" "\x7d" ";" nested.expression
  pure (.block statements)

/-- The definition of a constant. -/
def constant (nested : Level) : Parse Node := do
  discard (expect .keyword ["const"])
  let name ← expectIdentifier
  discard (expectOperator "=")
  let value ← operation nested.atom
  pure (.constant name.text value)

/-- The name of a rule. -/
def ruleName : Parse Token := do
  let name ← advance "a rule name"
  if name.kind == .string then pure name
  else throw (.misplaced name (.expected "a string"))

/-- The event that starts a rule.  Its arguments are read and have no meaning. -/
def ruleEvent : Parse Token := do
  discard (expect .identifier ["Event"])
  discard (expectOperator ".")
  let event ← advance "an event target"
  if event.kind == .identifier || event.kind == .keyword then
    discard (delimited "(" ")" "," (advance "an event argument"))
    pure event
  else throw (.misplaced event (.expected "an identifier"))

/-- The conditions of a rule, if it lists any. -/
def ruleConditions (nested : Level) : Parse (Option (List Node)) := do
  if ← nextIs .keyword ["if"] then
    discard (advance "if")
    let conditions ← delimited "(" ")" ";" nested.expression
    pure (some (conditions.map Node.asCondition))
  else pure none

/-- A rule with its event, conditions and actions. -/
def rule (nested : Level) : Parse Node := do
  discard (expect .keyword ["rule"])
  let name ← ruleName
  discard (expectOperator ":")
  let event ← ruleEvent
  let conditions ← ruleConditions nested
  let actions ← delimited "\x7b" "\x7d" ";" nested.expression
  pure (.rule name.text event.text conditions actions)

/-- A truth value. -/
def boolean : Parse Node := do
  let token ← expect .keyword ["true", "false"]
  pure (.boolean (token.text == "true"))

/-- A negation.  It extends over the whole expression that follows. -/
def negation (nested : Level) : Parse Node := do
  discard (expectOperator "!")
  let operand ← nested.expression
  pure (.negation operand)

/-- The bank that a token names. -/
def bankOf? (token : Token) : Option Bank :=
  match token.text.toList with
  | [letter] => if token.kind == .identifier then Bank.ofLetter? letter else none
  | _ => none

/-- The choice of a bank. -/
def useBank : Parse Node := do
  discard (advance "usevar")
  let domain ← expect .keyword ["global", "player"]
  let letter ← advance "a bank letter"
  match bankOf? letter with
  | some bank => pure (.useBank (if domain.text == "global" then .global else .player) bank)
  | none => throw (.misplaced letter (.expected "one of ABCDEFGHIJKLMNOPQRSTUVWXYZ"))

/-- An expression in parentheses. -/
def parenthesised (nested : Level) : Parse Node := do
  discard (advance "'('")
  let inner ← nested.expression
  discard (expectOperator ")")
  pure inner

/-- A declaration, or a phrase that starts with a name. -/
def worded (nested : Level) : Parse Node := do
  let leading ← advance "an identifier"
  if ← nextHasKind .identifier then declaration nested leading
  else if ← nextIs .keyword ["player"] then declaration nested leading
  else named nested leading

/-! ## Atoms, expressions and programs -/

/-- An atom that starts with the given token, which comes next. -/
def startingWith (nested : Level) (token : Token) : Parse Node := do
  if token.is .operator "(" then parenthesised nested
  else if token.is .operator "\x7b" then block nested
  else if token.is .keyword "if" then choice nested
  else if token.is .keyword "const" then constant nested
  else if token.is .keyword "rule" then rule nested
  else if token.is .keyword "true" || token.is .keyword "false" then boolean
  else if token.is .operator "!" then negation nested
  else if token.is .keyword "usevar" then useBank
  else if token.kind == .identifier || token.is .keyword "player" || token.is .keyword "var" then
    worded nested
  else if token.kind == .number then
    discard (advance "a number")
    pure (.number token.text)
  else if token.kind == .string then
    discard (advance "a string")
    pure (.text token.text)
  else
    discard (advance "an expression")
    throw (.misplaced token .unexpected)

/-- An atom without arguments behind it.  Its first token decides what it is. -/
def primary (nested : Level) : Parse Node := do
  match ← peek with
  | none => throw (.unexpectedEnd "an expression")
  | some token => startingWith nested token

/-- An operand: an atom, or a call of one. -/
def atom (nested : Level) : Parse Node := do
  let node ← primary nested
  callSuffix nested node

/-- Operands with operators between them, or a call of their result. -/
def expression (nested : Level) : Parse Node := do
  let node ← operation (atom nested)
  callSuffix nested node

/-- Where no token is left there is no expression. -/
def noExpression : Parse Node := do
  discard peek
  throw (.unexpectedEnd "an expression")

/-- The readers for at most the given number of tokens. -/
def level : Nat → Level
  | 0 => ⟨noExpression, noExpression⟩
  | depth + 1 =>
    let nested := level depth
    ⟨atom nested, expression nested⟩

/-- Statements separated by semicolons.  Every statement has a token, so that `fuel` statements
are enough once it exceeds the number of tokens. -/
def statements (expression : Parse Node) : Nat → Parse (List Node)
  | 0 => pure []
  | fuel + 1 => do
    if ← atEnd then pure []
    else
      let statement ← expression
      if ← atEnd then pure () else expectSemicolon
      let rest ← statements expression fuel
      pure (statement :: rest)

/-- A whole script. -/
def program : Parse Node := do
  let count := (← get).ahead.length
  let statements ← statements (level count).expression (count + 1)
  pure (.block statements)

end Grammar

/-! ## Source texts -/

/-- What reading a source text gives: its syntax tree or a diagnostic, and the tokens that were
read until then, blanks and comments included. -/
structure Reading where
  outcome : Except Diagnostic Node
  tokens : List Token

namespace Script

/-- Reads a source text. -/
def read (vocabulary : Vocabulary) (source : String) : Reading :=
  let lexed := lex vocabulary source
  match Grammar.program (TokenStream.ofLexed vocabulary lexed (endOf source)) with
  | .ok node stream => ⟨.ok node, stream.read lexed.tokens⟩
  | .error diagnostic stream => ⟨.error diagnostic, stream.read lexed.tokens⟩

/-- The syntax tree of a source text in a language with the given vocabulary. -/
def parseWith (vocabulary : Vocabulary) (source : String) : Except Diagnostic Node :=
  (read vocabulary source).outcome

/-- The syntax tree of a script. -/
def parse (source : String) : Except Diagnostic Node :=
  parseWith Vocabulary.standard source

end Script
end Workshop

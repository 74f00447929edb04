import Workshop.Script.Lexing
import Workshop.SemanticError

/-!
# Diagnostics

Everything that can be wrong with a script.  The first problem ends the work, so a diagnostic
names exactly one cause.
-/

namespace Workshop

/-- What is wrong with a token. -/
inductive SyntaxProblem where
  /-- No expression starts with the token. -/
  | unexpected
  /-- Something else has to stand in its place. -/
  | expected (what : String)
  /-- The statement before it has to be ended first. -/
  | missingSemicolon
  /-- What follows the dot is no member. -/
  | inaccessible (construct : String)
  /-- A problem in words. -/
  | remark (text : String)
deriving DecidableEq, Repr

/-- The wording of a problem with a token. -/
def SyntaxProblem.message (token : Token) : SyntaxProblem → String
  | .unexpected => "unexpected " ++ token.describe
  | .expected what => "expected " ++ what ++ " but got " ++ token.describe
  | .missingSemicolon => "missing ;"
  | .inaccessible construct => construct ++ " cannot be accessed through '.'"
  | .remark text => text

/-- The cause for which a script is rejected. -/
inductive Diagnostic where
  /-- A character that starts no token. -/
  | lexical (fault : LexFault)
  /-- A token that does not fit the grammar. -/
  | misplaced (token : Token) (problem : SyntaxProblem)
  /-- The script ends too early. -/
  | unexpectedEnd (expected : String)
  /-- The script is well formed and makes no sense. -/
  | semantic (error : SemanticError)
deriving DecidableEq, Repr

namespace Diagnostic

/-- The wording of a diagnostic. -/
def message : Diagnostic → String
  | lexical fault => fault.message
  | misplaced token problem =>
    "syntax error at " ++ token.position.text ++ ": " ++ problem.message token
  | unexpectedEnd expected => "syntax error: unexpected end of input, expected " ++ expected
  | semantic error => "semantic error: " ++ error.message

/-- The wordings of a diagnostic and of the cause it wraps, from the outside in. -/
def messages : Diagnostic → List String
  | semantic error => [(semantic error).message, error.message]
  | other => [other.message]

end Diagnostic
end Workshop

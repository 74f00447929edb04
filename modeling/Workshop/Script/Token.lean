/-!
# Tokens

The words of a script with their kinds and their places in the source text.
-/

namespace Workshop

/-- A place in the source text.  The offset counts bytes of the encoded text from zero; lines and
columns are counted from one, and a column is one character wide. -/
structure Position where
  offset : Nat
  line : Nat
  column : Nat
deriving DecidableEq, Repr

namespace Position

/-- The place of the first character. -/
def start : Position := ⟨0, 1, 1⟩

/-- The place after one more character.  Only a line feed begins a new line. -/
def step (position : Position) (c : Char) : Position :=
  if c = '\n' then ⟨position.offset + c.utf8Size, position.line + 1, 1⟩
  else ⟨position.offset + c.utf8Size, position.line, position.column + 1⟩

/-- The place after several more characters. -/
def advance (position : Position) (chars : List Char) : Position :=
  chars.foldl step position

/-- A place as it is shown in diagnostics. -/
def text (position : Position) : String :=
  "line " ++ toString position.line ++ " column " ++ toString position.column

@[simp]
theorem advance_nil (position : Position) : position.advance [] = position := rfl

@[simp]
theorem advance_cons (position : Position) (c : Char) (chars : List Char) :
    position.advance (c :: chars) = (position.step c).advance chars := rfl

theorem advance_append (position : Position) (first second : List Char) :
    position.advance (first ++ second) = (position.advance first).advance second := by
  simp [advance]

end Position

/-- The kinds of tokens. -/
inductive TokenKind where
  | identifier
  | keyword
  | number
  | string
  | operator
  /-- Blanks, line breaks and comments. -/
  | blank
deriving DecidableEq, Repr

namespace TokenKind

/-- A kind as it is shown in diagnostics. -/
def text : TokenKind → String
  | identifier => "identifier"
  | keyword => "keyword"
  | number => "number"
  | string => "string"
  | operator => "operator"
  | blank => "whitespace"

end TokenKind

/-- A token.  The text of a string literal is without its quotes. -/
structure Token where
  kind : TokenKind
  text : String
  position : Position
deriving DecidableEq, Repr

namespace Token

/-- Whether a token has the given kind and text. -/
def is (token : Token) (kind : TokenKind) (text : String) : Bool :=
  token.kind == kind && token.text == text

/-- Whether a token matters to the grammar. -/
def isSignificant (token : Token) : Bool :=
  token.kind != .blank

/-- A token as it is shown in diagnostics. -/
def describe (token : Token) : String :=
  token.kind.text ++ " '" ++ token.text ++ "'"

theorem is_iff {token : Token} {kind : TokenKind} {text : String} :
    token.is kind text = true ↔ token.kind = kind ∧ token.text = text := by
  simp [is]

end Token
end Workshop

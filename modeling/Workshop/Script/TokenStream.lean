import Workshop.Diagnostic

/-!
# Token streams

The grammar reads the significant tokens of a source text in order, with one token of lookahead.
A stream holds the tokens still to come.  It also remembers whether the next one has been looked
at already, which tells how far into the source the grammar has read.

Main definitions:

- `TokenStream`: the tokens to come and the lexical fault that may end them.
- `Parse`: computations that read a stream and may fail.  A failure keeps the stream as it was
  left.
- `TokenStream.delimited`: lists between brackets, with a separator between the elements.
-/

namespace Workshop

/-- The significant tokens of a source text that are still to come. -/
structure TokenStream where
  /-- The tokens not yet consumed. -/
  ahead : List Token
  /-- The fault that ends the tokens, until it has been reported. -/
  fault : Option LexFault
  /-- Whether what comes next has been looked at. -/
  probed : Bool
  /-- The end of the source text. -/
  finish : Position
deriving DecidableEq, Repr

/-- Computations that read tokens and fail with a diagnostic. -/
abbrev Parse := EStateM Diagnostic TokenStream

namespace TokenStream

/-- An identifier that is a reserved word is a keyword. -/
def classify (vocabulary : Vocabulary) (token : Token) : Token :=
  if token.kind == .identifier && vocabulary.isKeyword token.text then
    { token with kind := .keyword }
  else token

/-- The tokens that matter to the grammar, with keywords told from identifiers. -/
def significant (vocabulary : Vocabulary) (tokens : List Token) : List Token :=
  (tokens.filter Token.isSignificant).map (classify vocabulary)

/-- The stream of a source text that has been lexed. -/
def ofLexed (vocabulary : Vocabulary) (lexed : Lexed) (finish : Position) : TokenStream where
  ahead := significant vocabulary lexed.tokens
  fault := lexed.fault
  probed := false
  finish := finish

/-- The stream of a source text. -/
def ofSource (vocabulary : Vocabulary) (source : String) : TokenStream :=
  ofLexed vocabulary (lex vocabulary source) (endOf source)

/-- The first tokens of a list up to the given number of significant ones. -/
def takeSignificant : Nat → List Token → List Token
  | 0, _ => []
  | _, [] => []
  | count + 1, token :: rest =>
    token :: takeSignificant (if token.isSignificant then count else count + 1) rest

/-- Those of the lexed tokens of a text that have been read when this stream is left of it. -/
def read (stream : TokenStream) (tokens : List Token) : List Token :=
  if stream.probed && stream.ahead.isEmpty then tokens
  else
    let unread := if stream.probed then stream.ahead.length - 1 else stream.ahead.length
    takeSignificant ((tokens.filter Token.isSignificant).length - unread) tokens

/-! ## Single tokens -/

/-- Looks at the next token. -/
def peek : Parse (Option Token) := fun stream =>
  match stream.ahead, stream.fault with
  | token :: _, _ => .ok (some token) { stream with probed := true }
  | [], some fault => .error (.lexical fault) { stream with fault := none, probed := true }
  | [], none => .ok none { stream with probed := true }

/-- Consumes the next token. -/
def next : Parse (Option Token) := fun stream =>
  match stream.ahead, stream.fault with
  | token :: rest, _ => .ok (some token) { stream with ahead := rest, probed := false }
  | [], some fault => .error (.lexical fault) { stream with fault := none, probed := true }
  | [], none => .ok none { stream with probed := true }

/-- Consumes the next token, which has to be there. -/
def advance (expected : String) : Parse Token := do
  match ← next with
  | some token => pure token
  | none => throw (.unexpectedEnd expected)

/-- Whether the tokens have come to their end. -/
def atEnd : Parse Bool := do
  pure (← peek).isNone

/-- Whether the next token has the kind and one of the texts. -/
def nextIs (kind : TokenKind) (accepted : List String) : Parse Bool := do
  match ← peek with
  | some token => pure (token.kind == kind && accepted.contains token.text)
  | none => pure false

/-- Whether the next token has the kind. -/
def nextHasKind (kind : TokenKind) : Parse Bool := do
  match ← peek with
  | some token => pure (token.kind == kind)
  | none => pure false

/-- Texts between single quotes, for diagnostics. -/
def alternatives : List String → String
  | [single] => "'" ++ single ++ "'"
  | texts => "one of " ++ ",".intercalate (texts.map fun text => "'" ++ text ++ "'")

/-- Consumes a token that has to have the kind and one of the texts. -/
def expect (kind : TokenKind) (accepted : List String) : Parse Token := do
  let token ← advance (alternatives accepted)
  if token.kind == kind && accepted.contains token.text then pure token
  else throw (.misplaced token (.expected (alternatives accepted)))

/-- Consumes an operator that has to come next. -/
def expectOperator (operator : String) : Parse Token :=
  expect .operator [operator]

/-- Consumes an identifier that has to come next. -/
def expectIdentifier : Parse Token := do
  let token ← advance "an identifier"
  if token.kind == .identifier then pure token
  else throw (.misplaced token (.expected "an identifier"))

/-- Consumes the semicolon that has to end a statement. -/
def expectSemicolon : Parse Unit := do
  let token ← advance "';'"
  if token.is .operator ";" then pure ()
  else throw (.misplaced token .missingSemicolon)

/-- The place of the next token, or of the end of the source. -/
def position : Parse Position := fun stream =>
  match peek stream with
  | .ok (some token) stream => .ok token.position stream
  | .ok none stream => .ok stream.finish stream
  | .error diagnostic stream => .error diagnostic stream

/-! ## Lists between brackets -/

/-- The elements of a list up to its closing bracket, which stays.  Every element but the first
follows a separator, so that `fuel` elements are enough once it exceeds the number of tokens. -/
def elements {α : Type} (closing separator : String) (element : Parse α) :
    Nat → Bool → Parse (List α)
  | 0, _ => pure []
  | fuel + 1, isFirst => do
    if ← atEnd then pure []
    else if ← nextIs .operator [closing] then pure []
    else
      if isFirst then pure () else discard (expectOperator separator)
      if ← nextIs .operator [closing] then pure []
      else
        let head ← element
        let rest ← elements closing separator element fuel false
        pure (head :: rest)

/-- A list between brackets.  It may be empty, and a separator may stand before the closing
bracket. -/
def delimited {α : Type} (opening closing separator : String) (element : Parse α) :
    Parse (List α) := do
  discard (expectOperator opening)
  let remaining := (← get).ahead.length
  let items ← elements closing separator element (remaining + 1) true
  discard (expectOperator closing)
  pure items

end TokenStream
end Workshop

import Workshop.Script.Lexeme
import Workshop.Text.Quoted

/-!
# Lexing

A source text is cut into lexemes from left to right.  Every token carries the place of its first
character, and the cut stops at the first character where no lexeme starts.

Main definitions:

- `lex`: all tokens of a text, blanks and comments included, and the fault that ends them.
- `Lexer`: the same tokens one at a time.

Main result: Theorem `lexFrom_eq`: lexing takes one lexeme and goes on with the rest.
-/

namespace Workshop

/-- A character at which no lexeme starts. -/
structure LexFault where
  position : Position
  char : Char
deriving DecidableEq, Repr

namespace LexFault

/-- The offending character as text. -/
def fragment (fault : LexFault) : String :=
  String.ofList [fault.char]

/-- The wording of a fault. -/
def message (fault : LexFault) : String :=
  "lex error at " ++ fault.position.text ++ ": unexpected input " ++ Text.quoted fault.fragment

end LexFault

/-- The tokens of a text, and the fault that ends them if there is one. -/
structure Lexed where
  tokens : List Token
  fault : Option LexFault
deriving DecidableEq, Repr

/-- Puts one more token in front. -/
def Lexed.cons (token : Token) (lexed : Lexed) : Lexed :=
  ⟨token :: lexed.tokens, lexed.fault⟩

/-- Lexes a text that starts at the given place.  The count `skip` says how many characters still
belong to the lexeme that was found last. -/
def lexFrom (vocabulary : Vocabulary) : List Char → Position → Nat → Lexed
  | [], _, _ => ⟨[], none⟩
  | c :: rest, position, skip + 1 => lexFrom vocabulary rest (position.step c) skip
  | c :: rest, position, 0 =>
    match Lexeme.scan? vocabulary (c :: rest) with
    | none => ⟨[], some ⟨position, c⟩⟩
    | some lexeme =>
      (lexFrom vocabulary rest (position.step c) (lexeme.chars.length - 1)).cons
        ⟨lexeme.kind, lexeme.text, position⟩

/-- All tokens of a source text. -/
def lex (vocabulary : Vocabulary) (source : String) : Lexed :=
  lexFrom vocabulary source.toList Position.start 0

theorem lexFrom_skip (vocabulary : Vocabulary) (input : List Char) (position : Position)
    (skip : Nat) (h : skip ≤ input.length) :
    lexFrom vocabulary input position skip =
      lexFrom vocabulary (input.drop skip) (position.advance (input.take skip)) 0 := by
  induction input generalizing position skip with
  | nil =>
    have : skip = 0 := by simpa using h
    subst this
    rfl
  | cons c rest ih =>
    cases skip with
    | zero => rfl
    | succ skip =>
      simp only [List.length_cons, Nat.add_le_add_iff_right] at h
      simpa [lexFrom] using ih (position.step c) skip h

/-- Lexing takes one lexeme and goes on with what follows it. -/
theorem lexFrom_eq (vocabulary : Vocabulary) (input : List Char) (position : Position)
    {lexeme : Lexeme} (h : Lexeme.scan? vocabulary input = some lexeme) :
    lexFrom vocabulary input position 0 =
      (lexFrom vocabulary (input.drop lexeme.chars.length) (position.advance lexeme.chars) 0).cons
        ⟨lexeme.kind, lexeme.text, position⟩ := by
  obtain ⟨rest, cut⟩ := Lexeme.chars_prefix_of_scan? h
  cases input with
  | nil => simp [Lexeme.scan?] at h
  | cons c tail =>
    cases chars : lexeme.chars with
    | nil => exact absurd chars (Lexeme.chars_ne_nil_of_scan? h)
    | cons d word =>
      rw [chars] at cut
      simp only [List.cons_append, List.cons.injEq] at cut
      obtain ⟨rfl, rfl⟩ := cut
      rw [lexFrom, h]
      simp only [chars, List.length_cons, Nat.add_sub_cancel]
      rw [lexFrom_skip _ _ _ _ (by simp)]
      simp

/-- The place after the last character of a source text.  The lines are counted in the whole text,
and the columns in its last line. -/
def endOf (source : String) : Position where
  offset := source.utf8ByteSize
  line := source.toList.count '\n' + 1
  column := (source.toList.reverse.takeWhile fun c => c != '\n').length + 1

/-! ## One token at a time -/

/-- A source text that is read token by token. -/
structure Lexer where
  source : String
  vocabulary : Vocabulary
  unread : Lexed

namespace Lexer

/-- A lexer at the start of a text. -/
def ofSource (vocabulary : Vocabulary) (source : String) : Lexer :=
  ⟨source, vocabulary, lex vocabulary source⟩

/-- Goes back to the start of the text. -/
def reset (lexer : Lexer) : Lexer :=
  ofSource lexer.vocabulary lexer.source

/-- The next token, the fault in its place, or nothing at the end.  A fault is reported once, and
nothing follows it. -/
def next (lexer : Lexer) : Option (Except LexFault Token) × Lexer :=
  match lexer.unread with
  | ⟨token :: rest, fault⟩ => (some (.ok token), { lexer with unread := ⟨rest, fault⟩ })
  | ⟨[], some fault⟩ => (some (.error fault), { lexer with unread := ⟨[], none⟩ })
  | ⟨[], none⟩ => (none, lexer)

/-- How many tokens and faults are left, all of which are passed over. -/
def drain (lexer : Lexer) : Nat × Lexer :=
  (lexer.unread.tokens.length + lexer.unread.fault.toList.length,
    { lexer with unread := ⟨[], none⟩ })

end Lexer
end Workshop

import Workshop.Script.Token
import Workshop.Script.Vocabulary

/-!
# Lexemes

A lexeme is the longest word at the start of a text.  The first character decides its class:
identifiers, numbers, string literals, line breaks, blanks, comments, and last the operators of
the vocabulary.

Main results:

- Theorem `Lexeme.chars_prefix_of_scan?`: a lexeme stands at the start of the text.
- Theorem `Lexeme.chars_ne_nil_of_scan?`: a lexeme is not empty.
-/

namespace Workshop

/-! ## Character classes -/

/-- Whether a character ends a line. -/
def isLineBreak (c : Char) : Bool :=
  c == '\n' || c == '\r'

/-- Whether a character is a blank within a line. -/
def isBlank (c : Char) : Bool :=
  c == ' ' || c == '\t'

/-- Whether a character opens and closes string literals. -/
def isQuote (c : Char) : Bool :=
  c == '"' || c == '\''

/-- Whether a character can start an identifier. -/
def isWordStart (c : Char) : Bool :=
  c.isAlpha || c == '_'

/-- Whether a character can continue an identifier. -/
def isWordChar (c : Char) : Bool :=
  isWordStart c || c.isDigit

/-! ## Scanning -/

/-- The number at the start of a text: digits, and a fraction if a digit follows the point. -/
def numberAt (input : List Char) : List Char :=
  let digits := input.takeWhile Char.isDigit
  match input.dropWhile Char.isDigit with
  | point :: rest =>
    if point = '.' && !(rest.takeWhile Char.isDigit).isEmpty then
      digits ++ point :: rest.takeWhile Char.isDigit
    else digits
  | [] => digits

/-- The text up to the closing quote of a string literal.  A backslash protects the character
after it.  There is none when the line or the text ends first, and no line break can be
protected. -/
def literalBody? (quote : Char) : List Char → Option (List Char)
  | [] => none
  | c :: rest =>
    if c = '\\' then
      match rest with
      | [] => none
      | d :: rest =>
        if isLineBreak d then none else (literalBody? quote rest).map fun body => c :: d :: body
    else if isLineBreak c then none
    else if c = quote then some []
    else (literalBody? quote rest).map fun body => c :: body

/-- A word of the source text with its kind. -/
structure Lexeme where
  kind : TokenKind
  chars : List Char
deriving DecidableEq, Repr

namespace Lexeme

/-- The text of the token: all characters of the lexeme, without the quotes of a literal. -/
def text (lexeme : Lexeme) : String :=
  String.ofList
    (if lexeme.kind = .string then lexeme.chars.tail.dropLast else lexeme.chars)

/-- The lexeme at the start of a text, if there is one. -/
def scan? (vocabulary : Vocabulary) : List Char → Option Lexeme
  | [] => none
  | c :: rest =>
    if isWordStart c then some ⟨.identifier, (c :: rest).takeWhile isWordChar⟩
    else if c.isDigit then some ⟨.number, numberAt (c :: rest)⟩
    else if isQuote c then
      (literalBody? c rest).map fun body => ⟨.string, c :: (body ++ [c])⟩
    else if isLineBreak c then some ⟨.blank, (c :: rest).takeWhile isLineBreak⟩
    else if isBlank c then some ⟨.blank, (c :: rest).takeWhile isBlank⟩
    else if ['/', '/'].isPrefixOf (c :: rest) then
      some ⟨.blank, (c :: rest).takeWhile fun d => !isLineBreak d⟩
    else
      (vocabulary.operatorAt? (c :: rest)).map fun operator => ⟨.operator, operator.toList⟩

/-! ## Lexemes stand at the start of the text -/

theorem numberAt_prefix (input : List Char) : numberAt input <+: input := by
  have cut : input = input.takeWhile Char.isDigit ++ input.dropWhile Char.isDigit :=
    (List.takeWhile_append_dropWhile).symm
  unfold numberAt
  split
  · rename_i point rest h
    rw [h] at cut
    split
    · have inner : rest.takeWhile Char.isDigit <+: rest := List.takeWhile_prefix _
      conv => rhs; rw [cut]
      simpa using inner
    · exact List.takeWhile_prefix _
  · exact List.takeWhile_prefix _

theorem literalBody?_prefix {quote : Char} {input body : List Char}
    (h : literalBody? quote input = some body) : body ++ [quote] <+: input := by
  fun_induction literalBody? quote input generalizing body with
  | case1 => cases h
  | case2 => cases h
  | case3 => cases h
  | case4 d rest _ ih =>
    obtain ⟨inner, found, rfl⟩ := Option.map_eq_some_iff.1 h
    simpa using ih found
  | case5 => cases h
  | case6 =>
    cases h
    simp
  | case7 c rest _ _ _ ih =>
    obtain ⟨inner, found, rfl⟩ := Option.map_eq_some_iff.1 h
    simpa using ih found

theorem chars_prefix_of_scan? {vocabulary : Vocabulary} {input : List Char} {lexeme : Lexeme}
    (h : scan? vocabulary input = some lexeme) : lexeme.chars <+: input := by
  unfold scan? at h
  split at h
  · cases h
  · rename_i c rest
    split at h
    · cases h
      exact List.takeWhile_prefix _
    split at h
    · cases h
      exact numberAt_prefix _
    split at h
    · obtain ⟨body, found, rfl⟩ := Option.map_eq_some_iff.1 h
      simpa using literalBody?_prefix found
    split at h
    · cases h
      exact List.takeWhile_prefix _
    split at h
    · cases h
      exact List.takeWhile_prefix _
    split at h
    · cases h
      exact List.takeWhile_prefix _
    · obtain ⟨operator, found, rfl⟩ := Option.map_eq_some_iff.1 h
      exact (Vocabulary.starts_iff.1 (Vocabulary.longest?_eq_some found).2.1).2

theorem chars_ne_nil_of_scan? {vocabulary : Vocabulary} {input : List Char} {lexeme : Lexeme}
    (h : scan? vocabulary input = some lexeme) : lexeme.chars ≠ [] := by
  unfold scan? at h
  split at h
  · cases h
  · rename_i c rest
    split at h
    · rename_i hc
      cases h
      simp [List.takeWhile, isWordChar, hc]
    split at h
    · rename_i hc
      cases h
      unfold numberAt
      simp only [List.takeWhile, List.dropWhile, hc]
      split
      · split <;> simp
      · simp
    split at h
    · obtain ⟨body, found, rfl⟩ := Option.map_eq_some_iff.1 h
      simp
    split at h
    · rename_i hc
      cases h
      simp [List.takeWhile, hc]
    split at h
    · rename_i hc
      cases h
      simp [List.takeWhile, hc]
    split at h
    · rename_i hl _ _
      cases h
      simp [List.takeWhile, hl]
    · obtain ⟨operator, found, rfl⟩ := Option.map_eq_some_iff.1 h
      exact (Vocabulary.starts_iff.1 (Vocabulary.longest?_eq_some found).2.1).1

end Lexeme
end Workshop

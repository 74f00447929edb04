import Workshop.Proofs.Lexing.Segmentation

/-!
# Writing words

A script is written by spelling out its words one after the other.  A blank
stands between two words where the form of the script asks for one, and where
the words would otherwise run together.  Lexing finds the words again.

Main definitions:

- `Word`: a token without its place.
- `LexesTo`: characters that are lexed without a fault into the given words.
- `Word.spelling`: the characters of a word.
- `layout`: the text of several words.

Main results:

- Theorem `Word.maximal_spelling`: the spelling of a word is a maximal lexeme,
  whatever follows at its boundary.
- Theorem `lex_layout`: lexing a text gives the words that it was made of.
-/

namespace Workshop

/-- A token without its place. -/
structure Word where
  kind : TokenKind
  text : String
deriving DecidableEq, Repr

namespace Word

@[simp]
def operator (text : String) : Word := ⟨.operator, text⟩

@[simp]
def keyword (text : String) : Word := ⟨.keyword, text⟩

@[simp]
def name (text : String) : Word := ⟨.identifier, text⟩

end Word

/-- The kind and the text of a token. -/
def Token.word (token : Token) : Word := ⟨token.kind, token.text⟩

/-- A token has the kind of its word. -/
theorem Token.kind_eq {token : Token} {word : Word} (htoken : token.word = word) :
    token.kind = word.kind :=
  congrArg Word.kind htoken

/-- A token has the text of its word. -/
theorem Token.text_eq {token : Token} {word : Word} (htoken : token.word = word) :
    token.text = word.text :=
  congrArg Word.text htoken

/-! ## Words of a text -/

/-- No operator is empty. -/
theorem standard_operators_ne : "" ∉ Vocabulary.standard.operators := by decide

/-- The words of a text, without blanks and comments. -/
def Lexed.words (lexed : Lexed) : List Word :=
  (lexed.tokens.filter Token.isSignificant).map Token.word

/-- The word of a lexeme, if it is one. -/
def Lexeme.words (lexeme : Lexeme) : List Word :=
  if lexeme.kind = .blank then [] else [⟨lexeme.kind, lexeme.text⟩]

/-- Characters that are lexed without a fault into the given words, from whatever place. -/
def LexesTo (vocabulary : Vocabulary) (input : List Char) (words : List Word) : Prop :=
  ∀ position, (lexFrom vocabulary input position 0).fault = none ∧
    (lexFrom vocabulary input position 0).words = words

/-- The words of one more lexeme. -/
theorem Lexed.words_cons (lexeme : Lexeme) (position : Position) (lexed : Lexed) :
    (lexed.cons ⟨lexeme.kind, lexeme.text, position⟩).words = lexeme.words ++ lexed.words := by
  by_cases hblank : lexeme.kind = .blank
  · simp [Lexed.words, Lexed.cons, Lexeme.words, hblank, Token.isSignificant]
  · have hkept : Token.isSignificant ⟨lexeme.kind, lexeme.text, position⟩ = true := by
      simp [Token.isSignificant, hblank]
    simp only [Lexed.words, Lexed.cons, Lexeme.words, hblank, List.filter_cons_of_pos hkept]
    rfl

/-- The words of lexemes do not depend on their place. -/
theorem words_tokensFrom (position : Position) (lexemes : List Lexeme) (fault : Option LexFault) :
    (Lexed.mk (tokensFrom position lexemes) fault).words = lexemes.flatMap Lexeme.words := by
  induction lexemes generalizing position with
  | nil => rfl
  | cons lexeme lexemes ih =>
      rw [List.flatMap_cons, ← ih (position.advance lexeme.chars), ← Lexed.words_cons]
      rfl

/-- Segments are lexed to their words. -/
theorem Segmented.lexesTo {vocabulary : Vocabulary} {input : List Char} {lexemes : List Lexeme}
    (hoperators : "" ∉ vocabulary.operators)
    (hsegmented : Segmented vocabulary input lexemes []) :
    LexesTo vocabulary input (lexemes.flatMap Lexeme.words) := by
  intro position
  rw [hsegmented.lexFrom_eq hoperators rfl position]
  exact ⟨rfl, words_tokensFrom position lexemes _⟩

/-- A lexeme in front of a text that is lexed. -/
theorem LexesTo.cons {vocabulary : Vocabulary} {lexeme : Lexeme} {input following : List Char}
    {words : List Word}
    (hscan : Lexeme.scan? vocabulary input = some lexeme)
    (hinput : input = lexeme.chars ++ following) (hfollowing : LexesTo vocabulary following words) :
    LexesTo vocabulary input (lexeme.words ++ words) := by
  intro position
  rcases hfollowing (position.advance lexeme.chars) with ⟨hfault, hwords⟩
  rw [lexFrom_eq vocabulary _ position hscan, hinput, List.drop_left]
  refine ⟨hfault, ?_⟩
  rw [Lexed.words_cons, hwords]

/-- Keywords are told from identifiers in the same way for the same words. -/
theorem Token.word_classify {vocabulary : Vocabulary} {token token' : Token}
    (hword : token'.word = token.word) :
    (TokenStream.classify vocabulary token').word =
      (TokenStream.classify vocabulary token).word := by
  have hkind := Token.kind_eq hword
  have htext := Token.text_eq hword
  simp only [Token.word] at hkind htext
  unfold TokenStream.classify
  rw [hkind, htext]
  split
  · simp [Token.word]
  · exact hword

/-- A word with keywords told from identifiers. -/
def Word.classified (word : Word) : Word :=
  (TokenStream.classify .standard ⟨word.kind, word.text, .start⟩).word

/-- The words that the grammar reads in a text. -/
theorem LexesTo.significant {input : List Char} {words : List Word}
    (hlexes : LexesTo .standard input words) (position : Position) :
    (lexFrom .standard input position 0).fault = none ∧
      (TokenStream.significant .standard (lexFrom .standard input position 0).tokens).map
        Token.word = words.map Word.classified := by
  obtain ⟨hfault, hwords⟩ := hlexes position
  refine ⟨hfault, ?_⟩
  rw [← hwords, Lexed.words, TokenStream.significant, List.map_map, List.map_map]
  exact List.map_congr_left fun token _ => Token.word_classify rfl

/-! ## Words that can be written -/

/-- Whether a text consists of the characters of an identifier. -/
def isWordLike (text : String) : Bool :=
  match text.toList with
  | [] => false
  | c :: rest => isWordStart c && rest.all isWordChar

/-- Whether a text can name a variable: it is an identifier and no keyword. -/
def isName (text : String) : Bool :=
  isWordLike text && !Vocabulary.standard.isKeyword text

/-- Whether a text is a number: digits, and possibly a point and more digits. -/
def isNumeral (text : String) : Bool :=
  !(text.toList.takeWhile Char.isDigit).isEmpty &&
    match text.toList.dropWhile Char.isDigit with
    | [] => true
    | point :: fraction => point == '.' && !fraction.isEmpty && fraction.all Char.isDigit

/-- Digits, which a point and more digits may follow. -/
def IsNumber (text : String) : Prop :=
  ∃ digits, digits ≠ [] ∧ (∀ c ∈ digits, c.isDigit = true) ∧
    (text.toList = digits ∨
      ∃ fraction, fraction ≠ [] ∧ (∀ c ∈ fraction, c.isDigit = true) ∧
        text.toList = digits ++ '.' :: fraction)

/-- Two ways to say that a text is a number. -/
theorem isNumeral_iff {text : String} : isNumeral text = true ↔ IsNumber text := by
  constructor
  · intro hnumeral
    rw [isNumeral, Bool.and_eq_true, Bool.not_eq_true', List.isEmpty_eq_false_iff] at hnumeral
    obtain ⟨hnonempty, hrest⟩ := hnumeral
    obtain ⟨hcut, hdigits, _⟩ := Lexeme.takeWhile_cut Char.isDigit text.toList
    refine ⟨_, hnonempty, hdigits, ?_⟩
    split at hrest
    · rename_i hnone
      rw [hnone, List.append_nil] at hcut
      exact .inl hcut
    · rename_i point fraction hfraction
      rw [hfraction] at hcut
      simp only [Bool.and_eq_true, beq_iff_eq, Bool.not_eq_true', List.isEmpty_eq_false_iff,
        List.all_eq_true] at hrest
      obtain ⟨⟨rfl, hfractionNonempty⟩, hfractionDigits⟩ := hrest
      exact .inr ⟨fraction, hfractionNonempty, hfractionDigits, hcut⟩
  · rintro ⟨digits, hnonempty, hdigits, htext | ⟨fraction, hfraction, hfractionDigits, htext⟩⟩
    · have htake := List.takeWhile_eq_self_iff.2 hdigits
      have hdrop := List.dropWhile_eq_nil_iff.2 hdigits
      simp [isNumeral, htext, htake, hdrop, hnonempty]
    · have hpoint : ∀ c ∈ ('.' :: fraction).head?, c.isDigit = false := by
        intro c hc
        cases hc
        decide
      have hcut := Lexeme.takeWhile_append_of_head? hdigits hpoint
      simpa [isNumeral, htext, hcut.1, hcut.2, hnonempty, hfraction] using hfractionDigits

/-- The characters of a number are digits and points. -/
theorem isDigit_of_isNumeral {digits : String} (hnumeral : isNumeral digits = true) :
    ∀ c ∈ digits.toList, c.isDigit = true ∨ c = '.' := by
  intro c hc
  obtain ⟨whole, _, hwhole, htext | ⟨fraction, _, hfraction, htext⟩⟩ := isNumeral_iff.1 hnumeral
  · exact .inl (hwhole c (htext ▸ hc))
  · rw [htext, List.mem_append, List.mem_cons] at hc
    rcases hc with hc | rfl | hc
    · exact .inl (hwhole c hc)
    · exact .inr rfl
    · exact .inl (hfraction c hc)

/-- Whether a text can stand in a string literal, with double or with single quotes. -/
def isLiteral (text : String) : Bool :=
  isLiteralBody '"' text.toList || isLiteralBody '\'' text.toList

/-- The quotes around a text: double quotes if they are possible. -/
def quoteOf (text : String) : Char :=
  if isLiteralBody '"' text.toList then '"' else '\''

namespace Word

/-- Whether a word can be written and read. -/
def isValid (word : Word) : Bool :=
  match word.kind with
  | .identifier => isName word.text
  | .keyword => Vocabulary.standard.isKeyword word.text
  | .number => isNumeral word.text
  | .string => isLiteral word.text
  | .operator => Vocabulary.standard.operators.contains word.text
  | .blank => false

/-- The characters of a word. -/
def spelling (word : Word) : List Char :=
  if word.kind = .string then
    quoteOf word.text :: (word.text.toList ++ [quoteOf word.text])
  else word.text.toList

/-- The kind of a word before keywords are told from identifiers. -/
def lexedKind (word : Word) : TokenKind :=
  if word.kind = .keyword then .identifier else word.kind

/-- Whether a word ends where the given character follows. -/
def endsAt (word : Word) (next : Char) : Bool :=
  match word.kind with
  | .identifier | .keyword => !isWordChar next
  | .number => !next.isDigit && next != '.'
  | .operator => next != '=' && next != '/'
  | .string | .blank => true

/-! ## Single words -/

variable {text : String} {following : List Char}

/-- Keywords look like words. -/
theorem isWordLike_of_isKeyword (hkeyword : Vocabulary.standard.isKeyword text = true) :
    isWordLike text = true := by
  have hall : ∀ keyword ∈ Vocabulary.standard.keywords, isWordLike keyword = true := by decide
  exact hall text (by simpa [Vocabulary.isKeyword] using hkeyword)

/-- What operators start with. -/
theorem operator_head? : ∀ operator ∈ Vocabulary.standard.operators,
    operator.toList.head?.any startsOperator = true := by
  decide

/-- Operators start as operators do. -/
theorem operator_starts {operator : String} (hmem : operator ∈ Vocabulary.standard.operators) :
    ∃ c rest, operator.toList = c :: rest ∧ startsOperator c = true := by
  have hhead := operator_head? operator hmem
  cases hchars : operator.toList with
  | nil =>
      rw [hchars] at hhead
      cases hhead
  | cons c rest =>
      rw [hchars] at hhead
      exact ⟨c, rest, rfl, hhead⟩

/-- An operator that starts like a shorter one has only an equals sign more. -/
theorem operator_extends : ∀ operator ∈ Vocabulary.standard.operators,
    ∀ longer ∈ Vocabulary.standard.operators, operator.toList <+: longer.toList →
      operator ≠ longer → longer.toList = operator.toList ++ ['='] := by
  decide

/-- No operator starts a comment. -/
theorem operator_no_comment : ∀ operator ∈ Vocabulary.standard.operators,
    operator.toList = ['/'] ∨ ∀ following, ¬ ['/', '/'] <+: operator.toList ++ following := by
  intro operator hmem
  have hshape : operator.toList = ['/'] ∨ operator.toList.head? ≠ some '/' ∨
      operator.toList.tail.head? = some '=' := by
    revert operator
    decide
  obtain ⟨c, rest, hchars, _⟩ := operator_starts hmem
  rcases hshape with hslash | hfirst | hsecond
  · exact .inl hslash
  · refine .inr fun following hcomment => hfirst ?_
    rw [hchars, List.cons_append, List.cons_prefix_cons] at hcomment
    rw [hchars, ← hcomment.1]
    rfl
  · refine .inr fun following hcomment => ?_
    rw [hchars] at hsecond hcomment
    cases rest with
    | nil => cases hsecond
    | cons d rest =>
        cases hsecond
        simp at hcomment

/-- What starts a text with an operator is not longer, unless an equals sign follows. -/
theorem length_le_of_operator (hmem : text ∈ Vocabulary.standard.operators)
    (hfollowing : ∀ c ∈ following.head?, c ≠ '=') {other : String}
    (hother : other ∈ Vocabulary.standard.operators)
    (hstarts : other.toList <+: text.toList ++ following) : other.length ≤ text.length := by
  by_contra hlonger
  have hshorter : text.toList <+: other.toList := by
    refine List.prefix_of_prefix_length_le (List.prefix_append _ _) hstarts ?_
    rw [String.length_toList, String.length_toList]
    omega
  have hextends := operator_extends text hmem other hother hshorter
    (fun heq => hlonger (heq ▸ Nat.le_refl _))
  rw [hextends, List.prefix_append_right_inj] at hstarts
  cases following with
  | nil => simp at hstarts
  | cons c rest => exact hfollowing c rfl (List.cons_prefix_cons.1 hstarts).1.symm

/-- An operator ends in front of most characters. -/
theorem maximal_operator (hmem : text ∈ Vocabulary.standard.operators)
    (hfollowing : ∀ c ∈ following.head?, c ≠ '=' ∧ c ≠ '/') :
    Lexeme.Maximal .standard ⟨.operator, text.toList⟩ following := by
  refine .operator hmem ?_ ?_ fun other hother hstarts =>
    length_le_of_operator hmem (fun c hc => (hfollowing c hc).1) hother hstarts
  · obtain ⟨c, rest, hchars, hstarts⟩ := operator_starts hmem
    intro d hd
    rw [hchars] at hd
    cases hd
    exact hstarts
  · rcases operator_no_comment text hmem with hslash | hno
    · intro hcomment
      rw [hslash] at hcomment
      cases following with
      | nil => simp at hcomment
      | cons c rest =>
          have hc := (hfollowing c rfl).2
          simp [Ne.symm hc] at hcomment
    · exact hno following

/-- A word ends where no letter follows. -/
theorem maximal_wordLike (hword : isWordLike text = true)
    (hfollowing : ∀ c ∈ following.head?, isWordChar c = false) :
    Lexeme.Maximal .standard ⟨.identifier, text.toList⟩ following := by
  unfold isWordLike at hword
  split at hword
  · cases hword
  · rename_i c rest hchars
    rw [Bool.and_eq_true, List.all_eq_true] at hword
    rw [hchars]
    exact .word hword.1 hword.2 hfollowing

/-- A number ends where no digit follows. -/
theorem maximal_numeral (hnumeral : isNumeral text = true)
    (hfollowing : ∀ c ∈ following.head?, c.isDigit = false ∧ c ≠ '.') :
    Lexeme.Maximal .standard ⟨.number, text.toList⟩ following := by
  have hstop : ∀ c ∈ following.head?, c.isDigit = false := fun c hc => (hfollowing c hc).1
  obtain ⟨digits, hnonempty, hdigits, htext | ⟨fraction, hfraction, hfractionDigits, htext⟩⟩ :=
    isNumeral_iff.1 hnumeral
  · rw [htext]
    refine .digits hnonempty hdigits hstop fun c rest hpoint => ?_
    rw [hpoint] at hfollowing
    exact absurd rfl (hfollowing '.' rfl).2
  · rw [htext]
    exact .fraction hnonempty hdigits hfraction hfractionDigits hstop

/-- A text ends at its quote. -/
theorem maximal_literal (hliteral : isLiteral text = true) (following : List Char) :
    Lexeme.Maximal .standard ⟨.string, quoteOf text :: (text.toList ++ [quoteOf text])⟩
      following := by
  unfold quoteOf
  split
  · rename_i hdouble
    exact .literal following rfl hdouble
  · rename_i hdouble
    exact .literal following rfl (by simpa [isLiteral, hdouble] using hliteral)

/-- The spelling of a word is a maximal lexeme, whatever follows at its boundary. -/
theorem maximal_spelling {word : Word} (hvalid : word.isValid = true)
    (hfollowing : ∀ c ∈ following.head?, word.endsAt c = true) :
    Lexeme.Maximal .standard ⟨word.lexedKind, word.spelling⟩ following := by
  obtain ⟨kind, text⟩ := word
  cases kind with
  | identifier =>
      have hname : isName text = true := hvalid
      rw [isName, Bool.and_eq_true] at hname
      exact maximal_wordLike hname.1 fun c hc => by simpa [endsAt] using hfollowing c hc
  | keyword =>
      exact maximal_wordLike (isWordLike_of_isKeyword hvalid)
        fun c hc => by simpa [endsAt] using hfollowing c hc
  | number =>
      exact maximal_numeral hvalid fun c hc => by simpa [endsAt] using hfollowing c hc
  | string => exact maximal_literal hvalid following
  | operator =>
      have hmem : text ∈ Vocabulary.standard.operators := by simpa [isValid] using hvalid
      exact maximal_operator hmem fun c hc => by simpa [endsAt] using hfollowing c hc
  | blank => cases hvalid

/-- Words have characters. -/
theorem spelling_ne_nil {word : Word} (hvalid : word.isValid = true) : word.spelling ≠ [] :=
  (@maximal_spelling [] word hvalid (by simp)).chars_ne_nil standard_operators_ne

/-- The spelling of a word does not start with a blank. -/
theorem isBlank_head_spelling {word : Word} (hvalid : word.isValid = true) :
    ∀ c ∈ word.spelling.head?, isBlank c = false := by
  intro c hc
  have hscan := Lexeme.scan?_of_maximal standard_operators_ne
    (@maximal_spelling [] word hvalid (by simp))
  rw [List.append_nil] at hscan
  cases hspelling : word.spelling with
  | nil => exact absurd hspelling (spelling_ne_nil hvalid)
  | cons d rest =>
      rw [hspelling] at hc hscan
      cases hc
      rw [Bool.eq_false_iff]
      intro hblank
      rw [Lexeme.scan?_blank hblank] at hscan
      have hkind : .blank = word.lexedKind := congrArg Lexeme.kind (Option.some.inj hscan)
      obtain ⟨kind, text⟩ := word
      cases kind <;> simp [lexedKind, isValid] at hkind hvalid

/-- What a valid word is before keywords are told from identifiers. -/
theorem words_spelling {word : Word} (hvalid : word.isValid = true) :
    (Lexeme.mk word.lexedKind word.spelling).words = [⟨word.lexedKind, word.text⟩] := by
  obtain ⟨kind, text⟩ := word
  cases kind with
  | blank => cases hvalid
  | _ => simp [Lexeme.words, Lexeme.text, lexedKind, spelling]

/-- Keywords are told from identifiers when a word has been read. -/
theorem classified_lexed {word : Word} (hvalid : word.isValid = true) :
    (Word.mk word.lexedKind word.text).classified = word := by
  obtain ⟨kind, text⟩ := word
  cases kind with
  | identifier =>
      have hname : isName text = true := hvalid
      rw [isName, Bool.and_eq_true, Bool.not_eq_true'] at hname
      simp [lexedKind, classified, TokenStream.classify, Token.word, hname.2]
  | keyword =>
      have hkeyword : Vocabulary.standard.isKeyword text = true := hvalid
      simp [lexedKind, classified, TokenStream.classify, Token.word, hkeyword]
  | _ => simp [lexedKind, classified, TokenStream.classify, Token.word]

end Word

/-! ## Texts of several words -/

/-- A word, and whether the form of the script asks for a blank before it. -/
structure Piece where
  spaced : Bool
  word : Word
deriving DecidableEq, Repr

/-- What stands between two words. -/
def gap (previous : Word) (piece : Piece) : List Char :=
  if piece.spaced || piece.word.spelling.head?.any (fun c => !previous.endsAt c) then [' '] else []

/-- The characters of words that follow another one. -/
def layoutAfter (previous : Word) : List Piece → List Char
  | [] => []
  | piece :: rest => gap previous piece ++ (piece.word.spelling ++ layoutAfter piece.word rest)

/-- The text of several words. -/
def layout : List Piece → String
  | [] => ""
  | piece :: rest => String.ofList (piece.word.spelling ++ layoutAfter piece.word rest)

/-- A word is lexed. -/
theorem LexesTo.word {word : Word} {following : List Char} {words : List Word}
    (hfollowing : LexesTo .standard following words) (hvalid : word.isValid = true)
    (hends : ∀ c ∈ following.head?, word.endsAt c = true) :
    LexesTo .standard (word.spelling ++ following) (⟨word.lexedKind, word.text⟩ :: words) := by
  have hscan := Lexeme.scan?_of_maximal standard_operators_ne (Word.maximal_spelling hvalid hends)
  have hwords := hfollowing.cons hscan rfl
  rwa [Word.words_spelling hvalid] at hwords

/-- A blank is skipped. -/
theorem LexesTo.blank {following : List Char} {words : List Word}
    (hfollowing : LexesTo .standard following words)
    (hhead : ∀ c ∈ following.head?, isBlank c = false) :
    LexesTo .standard (' ' :: following) words := by
  have hmaximal : Lexeme.Maximal .standard ⟨.blank, [' ']⟩ following :=
    .blanks (by simp) (by simp [isBlank]) hhead
  exact hfollowing.cons (Lexeme.scan?_of_maximal standard_operators_ne hmaximal) rfl

/-- Words that follow another one are lexed into these words, and the other one ends in front of
them. -/
theorem LexesTo.layoutAfter (previous : Word) (pieces : List Piece)
    (hvalid : ∀ piece ∈ pieces, piece.word.isValid = true) :
    LexesTo .standard (Workshop.layoutAfter previous pieces)
        (pieces.map fun piece => ⟨piece.word.lexedKind, piece.word.text⟩) ∧
      ∀ c ∈ (Workshop.layoutAfter previous pieces).head?, previous.endsAt c = true := by
  induction pieces generalizing previous with
  | nil => exact ⟨fun _ => ⟨rfl, rfl⟩, by simp [Workshop.layoutAfter]⟩
  | cons piece rest ih =>
      rw [List.forall_mem_cons] at hvalid
      obtain ⟨hrest, hends⟩ := ih piece.word hvalid.2
      have hword := hrest.word hvalid.1 hends
      have hhead : (piece.word.spelling ++ Workshop.layoutAfter piece.word rest).head? =
          piece.word.spelling.head? := by
        cases hspelling : piece.word.spelling with
        | nil => exact absurd hspelling (Word.spelling_ne_nil hvalid.1)
        | cons c chars => rfl
      simp only [Workshop.layoutAfter, gap, List.map_cons]
      split
      · refine ⟨hword.blank ?_, ?_⟩
        · rw [hhead]
          exact Word.isBlank_head_spelling hvalid.1
        · intro c hc
          cases hc
          obtain ⟨kind, text⟩ := previous
          cases kind <;> rfl
      · rename_i hclose
        refine ⟨hword, ?_⟩
        rw [List.nil_append, hhead]
        intro c hc
        simp only [Bool.or_eq_true, not_or] at hclose
        have hany := hclose.2
        rw [hc] at hany
        simpa using hany

/-- Lexing a text gives the words that it was made of. -/
theorem lex_layout {pieces : List Piece} (hvalid : ∀ piece ∈ pieces, piece.word.isValid = true) :
    (lex .standard (layout pieces)).fault = none ∧
      (TokenStream.significant .standard (lex .standard (layout pieces)).tokens).map Token.word =
        pieces.map Piece.word := by
  have hlexes : LexesTo .standard (layout pieces).toList
      (pieces.map fun piece => ⟨piece.word.lexedKind, piece.word.text⟩) := by
    cases pieces with
    | nil => exact fun _ => ⟨rfl, rfl⟩
    | cons piece rest =>
        rw [List.forall_mem_cons] at hvalid
        obtain ⟨hrest, hends⟩ := LexesTo.layoutAfter piece.word rest hvalid.2
        rw [layout, String.toList_ofList]
        exact hrest.word hvalid.1 hends
  obtain ⟨hfault, hwords⟩ := hlexes.significant .start
  refine ⟨hfault, hwords.trans ?_⟩
  rw [List.map_map]
  exact List.map_congr_left fun piece hmem => Word.classified_lexed (hvalid piece hmem)

end Workshop

import Workshop.Proofs.Lexing.Segmentation
import Mathlib.Data.List.Induction

/-!
# Tokens and their places

The tokens of a text stand in it one after the other, and nothing of the text
is lost between them.  Lexing finds the place of a token by going through all
characters before it.  The place is the same as the end of the text before the
token, where lines and columns are counted at once.

Main definitions:

- `Token.Covers`: the characters that a token stands for.
- `Tiled`: tokens that stand in a text one after the other.
- `Lexer.Gives`: what a lexer gives, one token at a time.
- `TokenStream.LeadsTo`: reading tokens leads from one stream to another.

Main results:

- Theorem `Position.advance_start`: going through a text leads to its end.
- Theorem `Segmented.tiled`: the tokens of the lexemes of a text stand in it one
  after the other.
- Theorem `Lexer.gives_places`: what a lexer gives covers the text up to a
  fault, and everything stands at the place that is reported for it.
-/

namespace Workshop

variable {vocabulary : Vocabulary}

/-! ## Places -/

/-- One more character. -/
theorem endOf_append_singleton (before : List Char) (c : Char) :
    endOf (String.ofList (before ++ [c])) = (endOf (String.ofList before)).step c := by
  have hsize : (String.ofList (before ++ [c])).utf8ByteSize =
      (String.ofList before).utf8ByteSize + c.utf8Size := by
    simp
  by_cases hbreak : c = '\n'
  · rw [endOf, hsize]
    simp [endOf, Position.step, hbreak]
  · rw [endOf, hsize]
    simp [endOf, Position.step, hbreak]

/-- Going through a text leads to its end. -/
theorem Position.advance_start (chars : List Char) :
    Position.start.advance chars = endOf (String.ofList chars) := by
  -- The last character decides the column, so the induction takes it off.
  induction chars using List.reverseRecOn with
  | nil => rfl
  | append_singleton before c ih =>
      rw [Position.advance_append, ih, endOf_append_singleton]
      rfl

/-! ## Tokens in a text -/

/-- A token stands for its text.  There are quotes around the text of a literal. -/
def Token.Covers (token : Token) (slice : List Char) : Prop :=
  if token.kind = .string then
    ∃ quote, isQuote quote = true ∧ slice = quote :: (token.text.toList ++ [quote])
  else slice = token.text.toList

/-- Tokens that stand one after the other, up to a rest, in a text that follows `before`.  Each
is at the end of what stands before it. -/
inductive Tiled : (before input : List Char) → List Token → (rest : List Char) → Prop
  | stop (before rest : List Char) : Tiled before rest [] rest
  | cons {before slice following rest : List Char} {token : Token} {tokens : List Token} :
      token.position = endOf (String.ofList before) → slice ≠ [] → token.Covers slice →
      Tiled (before ++ slice) following tokens rest →
      Tiled before (slice ++ following) (token :: tokens) rest

/-- A token covers its characters. -/
theorem Lexeme.Maximal.covers {lexeme : Lexeme} {following : List Char}
    (hmaximal : lexeme.Maximal vocabulary following) (position : Position) :
    (Token.mk lexeme.kind lexeme.text position).Covers lexeme.chars := by
  cases hmaximal with
  | @literal quote body following hquote _ =>
      refine ⟨quote, hquote, ?_⟩
      simp [Lexeme.text]
  | _ => simp [Token.Covers, Lexeme.text]

/-- The tokens of the lexemes of a text stand in it one after the other. -/
theorem Segmented.tiled (hoperators : "" ∉ vocabulary.operators) {input rest : List Char}
    {lexemes : List Lexeme} (hsegmented : Segmented vocabulary input lexemes rest)
    (before : List Char) :
    Tiled before input (tokensFrom (Position.start.advance before) lexemes) rest := by
  induction hsegmented generalizing before with
  | stop rest => exact .stop before rest
  | @cons lexeme lexemes following rest hmaximal _ ih =>
      have hrest := ih (before ++ lexeme.chars)
      rw [Position.advance_append] at hrest
      exact .cons (Position.advance_start before) (hmaximal.chars_ne_nil hoperators)
        (hmaximal.covers _) hrest

/-! ## One token at a time -/

/-- What a lexer gives one after the other, and the lexer that is left. -/
inductive Lexer.Gives : Lexer → List (Except LexFault Token) → Lexer → Prop
  | stop (lexer : Lexer) : Gives lexer [] lexer
  | cons {lexer following last : Lexer} {item : Except LexFault Token}
      {items : List (Except LexFault Token)} :
      lexer.next = (some item, following) → Gives following items last →
      Gives lexer (item :: items) last

/-- A lexer gives its tokens, and then its fault. -/
theorem Lexer.gives_unread (source : String) (vocabulary : Vocabulary) (unread : Lexed) :
    (Lexer.mk source vocabulary unread).Gives
      (unread.tokens.map .ok ++ unread.fault.toList.map .error)
      ⟨source, vocabulary, ⟨[], none⟩⟩ := by
  rcases unread with ⟨tokens, fault⟩
  induction tokens with
  | nil =>
      cases fault with
      | none => exact .stop _
      | some fault => exact .cons rfl (.stop _)
  | cons token rest ih => exact .cons rfl ih

/-- Looking at tokens and consuming them leads from one stream to another. -/
inductive TokenStream.LeadsTo : TokenStream → TokenStream → Prop
  | here (stream : TokenStream) : LeadsTo stream stream
  | peek {stream following last : TokenStream} {token : Option Token} :
      TokenStream.peek stream = .ok token following → LeadsTo following last →
      LeadsTo stream last
  | next {stream following last : TokenStream} {token : Option Token} :
      TokenStream.next stream = .ok token following → LeadsTo following last →
      LeadsTo stream last

namespace TokenStream

variable {stream following : TokenStream}

/-- Looking ahead keeps the end. -/
theorem finish_peek {token : Option Token} (hpeek : peek stream = .ok token following) :
    following.finish = stream.finish := by
  unfold peek at hpeek
  split at hpeek <;> cases hpeek <;> rfl

/-- So does taking a token. -/
theorem finish_next {token : Option Token} (hnext : next stream = .ok token following) :
    following.finish = stream.finish := by
  unfold next at hnext
  split at hnext <;> cases hnext <;> rfl

/-- So does everything else. -/
theorem LeadsTo.finish_eq {last : TokenStream} (hleads : stream.LeadsTo last) :
    last.finish = stream.finish := by
  induction hleads with
  | here => rfl
  | peek hpeek _ ih => rw [ih, finish_peek hpeek]
  | next hnext _ ih => rw [ih, finish_next hnext]

/-- Where no token is left, the place is the end of the text. -/
theorem position_of_peek (hpeek : peek stream = .ok none following) :
    position stream = .ok stream.finish following := by
  have hfinish := finish_peek hpeek
  simp only [position, hpeek]
  rw [hfinish]

/-- Without a fault, the end of the tokens can be reached. -/
theorem exists_leadsTo_end (hfault : stream.fault = none) :
    ∃ last following, stream.LeadsTo last ∧ peek last = .ok none following := by
  rcases stream with ⟨ahead, fault, probed, finish⟩
  cases hfault
  induction ahead generalizing probed with
  | nil => exact ⟨_, _, .here _, rfl⟩
  | cons token rest ih =>
      rcases ih false with ⟨last, following, hleads, hpeek⟩
      exact ⟨last, following, .next rfl hleads, hpeek⟩

end TokenStream

/-- Repeated reading comes to an end.  The tokens cover the text one after the other, up to a
character at which no lexeme starts.  There, a fault with this character is reported, and nothing
follows it.  Everything stands at the place that is reported for it: the end of the text before
it, with the lines and columns counted there.  So does the end of the input. -/
theorem Lexer.gives_places (hoperators : "" ∉ vocabulary.operators) (source : String) :
    ∃ before rest tokens last,
      source.toList = before ++ rest ∧
      Tiled [] source.toList tokens rest ∧
      (Lexer.ofSource vocabulary source).Gives
        (tokens.map .ok ++
          rest.head?.toList.map fun c => .error ⟨endOf (String.ofList before), c⟩) last ∧
      last.next = (none, last) ∧
      (rest = [] →
        (∃ stream following, (TokenStream.ofSource vocabulary source).LeadsTo stream ∧
          TokenStream.peek stream = .ok none following) ∧
        ∀ stream following, (TokenStream.ofSource vocabulary source).LeadsTo stream →
          TokenStream.peek stream = .ok none following →
          TokenStream.position stream = .ok (endOf source) following) := by
  rcases lexFrom_segmented vocabulary source.toList .start with
    ⟨lexemes, rest, hsegmented, _, hlexed⟩
  rw [Position.advance_start] at hlexed
  refine ⟨lexemes.flatMap Lexeme.chars, rest, tokensFrom .start lexemes,
    ⟨source, vocabulary, ⟨[], none⟩⟩, hsegmented.text_eq, hsegmented.tiled hoperators [],
    ?_, rfl, ?_⟩
  · have hgives := Lexer.gives_unread source vocabulary (lex vocabulary source)
    rw [lex, hlexed] at hgives
    rw [Lexer.ofSource, lex, hlexed]
    cases rest with
    | nil => exact hgives
    | cons c others => exact hgives
  · rintro rfl
    have hfault : (TokenStream.ofSource vocabulary source).fault = none := by
      rw [TokenStream.ofSource, lex, hlexed]
      rfl
    refine ⟨TokenStream.exists_leadsTo_end hfault, ?_⟩
    intro stream following hleads hpeek
    rw [TokenStream.position_of_peek hpeek, hleads.finish_eq]
    rfl

theorem Lexer.gives_places_standard :
    "" ∉ Vocabulary.standard.operators ∧
      (lex .standard "'é'\n @").fault = some ⟨⟨6, 2, 2⟩, '@'⟩ ∧
      ∃ before rest tokens last,
        "'é'\n @".toList = before ++ rest ∧
        Tiled [] "'é'\n @".toList tokens rest ∧
        (Lexer.ofSource .standard "'é'\n @").Gives
          (tokens.map .ok ++
            rest.head?.toList.map fun c => .error ⟨endOf (String.ofList before), c⟩) last := by
  have hoperators : "" ∉ Vocabulary.standard.operators := by decide
  rcases Lexer.gives_places hoperators "'é'\n @" with
    ⟨before, rest, tokens, last, hsource, htiled, hgives, _, _⟩
  exact ⟨hoperators, by decide, before, rest, tokens, last, hsource, htiled, hgives⟩

end Workshop

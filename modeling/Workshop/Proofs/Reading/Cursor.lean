import Workshop.Journal
import Workshop.Proofs.Reading.CursorSteps
import Workshop.Proofs.Reading.Diagnostics
import Mathlib.Data.List.Nodup

/-!
# Cursors

The grammar works on a stream that holds all tokens to come.  A source text can
also be read with a cursor that keeps one token in a buffer and asks a lexer for
the next one only when it has to.  Both give the same replies to any steps in
any order, and the stream knows how far the lexer of the cursor has come.

Main definitions:

- `BufferedCursor`: a lexer with a buffer for one token, and the tokens that the
  lexer has given so far.
- `Follows`: a cursor and a stream at the same place of a text.

Main results:

- Theorem `Follows.perform`: a step leads a cursor and a stream to the same
  place, with the same outcome.
- Theorem `Follows.read_eq`: the stream knows which tokens the lexer has given.
- Theorem `cursor_keeps_tokens`: whatever is done, the tokens of a text are
  consumed in their order and each of them once, looking ahead changes nothing,
  and the lexer is at most one token ahead.
-/

namespace Workshop

/-! ## Cursors with a buffer -/

variable {token : Token}

/-- Each token is given once. -/
theorem Lexer.length_lt_of_next {lexer following : Lexer}
    (hnext : lexer.next = (some (.ok token), following)) :
    following.unread.tokens.length < lexer.unread.tokens.length := by
  rcases lexer with ⟨source, vocabulary, tokens, fault⟩
  cases tokens with
  | nil => cases fault <;> cases hnext
  | cons first rest =>
      cases hnext
      exact Nat.lt_succ_self _

/-- A lexer with a buffer for one token, and the tokens that the lexer has given so far, those that
do not matter to the grammar included. -/
structure BufferedCursor where
  lexer : Lexer
  buffer : Option Token
  given : List Token

namespace BufferedCursor

/-- A cursor at the start of a text. -/
def ofSource (vocabulary : Vocabulary) (source : String) : BufferedCursor :=
  ⟨.ofSource vocabulary source, none, []⟩

/-- Asks the lexer for tokens until one of them matters to the grammar. -/
def pull (cursor : BufferedCursor) : Except Diagnostic (Option Token) × BufferedCursor :=
  match hnext : cursor.lexer.next with
  | (none, lexer) => (.ok none, { cursor with lexer := lexer })
  | (some (.error fault), lexer) => (.error (.lexical fault), { cursor with lexer := lexer })
  | (some (.ok token), lexer) =>
    have := Lexer.length_lt_of_next hnext
    let after : BufferedCursor :=
      { cursor with lexer := lexer, given := cursor.given ++ [token] }
    if token.isSignificant then
      (.ok (some (TokenStream.classify lexer.vocabulary token)), after)
    else after.pull
termination_by cursor.lexer.unread.tokens.length

/-- Fills the buffer if it is empty, and leaves the token there. -/
def look (cursor : BufferedCursor) : Except Diagnostic (Option Token) × BufferedCursor :=
  match cursor.buffer with
  | some token => (.ok (some token), cursor)
  | none =>
    match cursor.pull with
    | (.ok found, after) => (.ok found, { after with buffer := found })
    | (.error diagnostic, after) => (.error diagnostic, after)

/-- Empties the buffer, or takes a token from the lexer. -/
def take (cursor : BufferedCursor) : Except Diagnostic (Option Token) × BufferedCursor :=
  match cursor.buffer with
  | some token => (.ok (some token), { cursor with buffer := none })
  | none => cursor.pull

/-- The outcome of a step, and the cursor that is left. -/
def perform (cursor : BufferedCursor) (step : CursorStep) : Outcome × BufferedCursor :=
  let (found, after) := if step.consumes then cursor.take else cursor.look
  (found.bind (step.reply (endOf cursor.lexer.source)), after)

/-- The outcomes of several steps, and the cursor that is left. -/
def performAll (cursor : BufferedCursor) : List CursorStep → List Outcome × BufferedCursor
  | [] => ([], cursor)
  | step :: rest =>
    let (outcome, after) := cursor.perform step
    let (outcomes, last) := after.performAll rest
    (outcome :: outcomes, last)

variable (source : String) (vocabulary : Vocabulary) (buffer : Option Token) (given : List Token)

/-- Tokens that do not matter are passed over up to the first that does. -/
theorem pull_significant (blanks rest : List Token) (token : Token) (fault : Option LexFault)
    (hblanks : ∀ blank ∈ blanks, blank.isSignificant = false)
    (htoken : token.isSignificant = true) :
    pull ⟨⟨source, vocabulary, ⟨blanks ++ token :: rest, fault⟩⟩, buffer, given⟩ =
      (.ok (some (TokenStream.classify vocabulary token)),
        ⟨⟨source, vocabulary, ⟨rest, fault⟩⟩, buffer, given ++ (blanks ++ [token])⟩) := by
  induction blanks generalizing given with
  | nil =>
      rw [pull]
      simp [Lexer.next, htoken]
  | cons blank blanks ih =>
      rw [List.forall_mem_cons] at hblanks
      rw [pull]
      simp [Lexer.next, hblanks.1, ih _ hblanks.2]

/-- Where no token matters any more, the lexer comes to its end. -/
theorem pull_blank (blanks : List Token) (fault : Option LexFault)
    (hblanks : ∀ blank ∈ blanks, blank.isSignificant = false) :
    pull ⟨⟨source, vocabulary, ⟨blanks, fault⟩⟩, buffer, given⟩ =
      (fault.elim (.ok none) fun fault => .error (.lexical fault),
        ⟨⟨source, vocabulary, ⟨[], none⟩⟩, buffer, given ++ blanks⟩) := by
  induction blanks generalizing given with
  | nil =>
      rw [pull]
      cases fault <;> simp [Lexer.next]
  | cons blank blanks ih =>
      rw [List.forall_mem_cons] at hblanks
      rw [pull]
      simp [Lexer.next, hblanks.1, ih _ hblanks.2]

end BufferedCursor

/-! ## The same place of a text -/

namespace TokenStream

/-- Blanks are dropped. -/
theorem significant_blank {vocabulary : Vocabulary} {blanks : List Token}
    (hblanks : ∀ blank ∈ blanks, blank.isSignificant = false) :
    significant vocabulary blanks = [] := by
  have hfilter : blanks.filter Token.isSignificant = [] :=
    List.filter_eq_nil_iff.2 fun blank hmem => by simp [hblanks blank hmem]
  rw [significant, hfilter]
  rfl

/-- The tokens of a text that matter start behind those that do not. -/
theorem significant_append_cons {vocabulary : Vocabulary} {blanks rest : List Token}
    {token : Token} (hblanks : ∀ blank ∈ blanks, blank.isSignificant = false)
    (htoken : token.isSignificant = true) :
    significant vocabulary (blanks ++ token :: rest) =
      classify vocabulary token :: significant vocabulary rest := by
  have hbefore : significant vocabulary blanks = [] := significant_blank hblanks
  unfold significant at hbefore ⊢
  rw [List.filter_append, List.map_append, hbefore, List.filter_cons_of_pos htoken]
  rfl

/-- No token of a list matters, or there is a first one that does. -/
theorem blank_or_significant (tokens : List Token) :
    (∀ token ∈ tokens, token.isSignificant = false) ∨
      ∃ blanks token rest, tokens = blanks ++ token :: rest ∧
        (∀ blank ∈ blanks, blank.isSignificant = false) ∧ token.isSignificant = true := by
  induction tokens with
  | nil => exact .inl (by simp)
  | cons first others ih =>
      by_cases hfirst : first.isSignificant = true
      · exact .inr ⟨[], first, others, rfl, by simp, hfirst⟩
      · have hblank : first.isSignificant = false := by simpa using hfirst
        rcases ih with hall | ⟨blanks, token, rest, rfl, hblanks, htoken⟩
        · exact .inl (List.forall_mem_cons.2 ⟨hblank, hall⟩)
        · exact .inr ⟨first :: blanks, token, rest, rfl,
            List.forall_mem_cons.2 ⟨hblank, hblanks⟩, htoken⟩

end TokenStream

/-- The last of some tokens matters to the grammar, unless there are none. -/
def EndsSignificant (tokens : List Token) : Prop :=
  ∀ token ∈ tokens.getLast?, token.isSignificant = true

/-- A cursor and a stream at the same place of a text with the given tokens. -/
structure Follows (tokens : List Token) (cursor : BufferedCursor) (stream : TokenStream) :
    Prop where
  /-- The lexer gives the tokens of the text in their order. -/
  given : cursor.given ++ cursor.lexer.unread.tokens = tokens
  ahead : stream.ahead = cursor.buffer.toList ++
    TokenStream.significant cursor.lexer.vocabulary cursor.lexer.unread.tokens
  fault : stream.fault = cursor.lexer.unread.fault
  finish : stream.finish = endOf cursor.lexer.source
  /-- The lexer stands behind a token that matters, or at its end. -/
  stands : stream.probed = cursor.buffer.isSome ∧ EndsSignificant cursor.given ∨
    stream.probed = true ∧ cursor.buffer = none ∧ cursor.lexer.unread = ⟨[], none⟩

namespace Follows

/-- Both start at the same place. -/
theorem start (vocabulary : Vocabulary) (source : String) :
    Follows (lex vocabulary source).tokens (.ofSource vocabulary source)
      (.ofSource vocabulary source) where
  given := rfl
  ahead := rfl
  fault := rfl
  finish := rfl
  stands := .inl ⟨rfl, by simp [EndsSignificant, BufferedCursor.ofSource]⟩

section Perform

variable {source : String} {vocabulary : Vocabulary} {given blanks rest : List Token}
  {token : Token} {fault : Option LexFault} {probed : Bool} (step : CursorStep)

/-- A token from the buffer. -/
theorem perform_buffered {unread : List Token} (hends : EndsSignificant given) :
    let cursor : BufferedCursor := ⟨⟨source, vocabulary, ⟨unread, fault⟩⟩, some token, given⟩
    let stream : TokenStream :=
      ⟨token :: TokenStream.significant vocabulary unread, fault, probed, endOf source⟩
    (cursor.perform step).1 = (stream.perform step).1 ∧
      Follows (given ++ unread) (cursor.perform step).2 (stream.perform step).2 := by
  intro cursor stream
  rw [TokenStream.perform_cons]
  cases hconsumes : step.consumes with
  | false =>
      have hcursor : cursor.perform step = (step.reply (endOf source) (some token), cursor) := by
        rw [BufferedCursor.perform, hconsumes]
        rfl
      rw [hcursor]
      exact ⟨rfl, rfl, rfl, rfl, rfl, .inl ⟨rfl, hends⟩⟩
  | true =>
      have hcursor : cursor.perform step =
          (step.reply (endOf source) (some token), { cursor with buffer := none }) := by
        rw [BufferedCursor.perform, hconsumes]
        rfl
      rw [hcursor]
      exact ⟨rfl, rfl, rfl, rfl, rfl, .inl ⟨rfl, hends⟩⟩

/-- A token that the lexer has to be asked for. -/
theorem perform_significant (hblanks : ∀ blank ∈ blanks, blank.isSignificant = false)
    (htoken : token.isSignificant = true) :
    let unread := blanks ++ token :: rest
    let cursor : BufferedCursor := ⟨⟨source, vocabulary, ⟨unread, fault⟩⟩, none, given⟩
    let stream : TokenStream :=
      ⟨TokenStream.significant vocabulary unread, fault, probed, endOf source⟩
    (cursor.perform step).1 = (stream.perform step).1 ∧
      Follows (given ++ unread) (cursor.perform step).2 (stream.perform step).2 := by
  intro unread cursor stream
  have hpull := BufferedCursor.pull_significant source vocabulary none given blanks rest token
    fault hblanks htoken
  have hahead : TokenStream.significant vocabulary (blanks ++ token :: rest) =
      TokenStream.classify vocabulary token :: TokenStream.significant vocabulary rest :=
    TokenStream.significant_append_cons hblanks htoken
  have hgiven : given ++ (blanks ++ [token]) ++ rest = given ++ unread := by simp [unread]
  have hends : EndsSignificant (given ++ (blanks ++ [token])) := by
    simpa [EndsSignificant, ← List.append_assoc] using htoken
  have hstream : stream = ⟨TokenStream.classify vocabulary token ::
      TokenStream.significant vocabulary rest, fault, probed, endOf source⟩ := by
    rw [← hahead]
  rw [hstream, TokenStream.perform_cons]
  cases hconsumes : step.consumes with
  | false =>
      have hcursor : cursor.perform step =
          (step.reply (endOf source) (some (TokenStream.classify vocabulary token)),
            ⟨⟨source, vocabulary, ⟨rest, fault⟩⟩, some (TokenStream.classify vocabulary token),
              given ++ (blanks ++ [token])⟩) := by
        rw [BufferedCursor.perform, hconsumes]
        simp only [BufferedCursor.look, cursor, unread, hpull]
        rfl
      rw [hcursor]
      exact ⟨rfl, hgiven, rfl, rfl, rfl, .inl ⟨rfl, hends⟩⟩
  | true =>
      have hcursor : cursor.perform step =
          (step.reply (endOf source) (some (TokenStream.classify vocabulary token)),
            ⟨⟨source, vocabulary, ⟨rest, fault⟩⟩, none, given ++ (blanks ++ [token])⟩) := by
        rw [BufferedCursor.perform, hconsumes]
        simp only [BufferedCursor.take, cursor, unread, hpull]
        rfl
      rw [hcursor]
      exact ⟨rfl, hgiven, rfl, rfl, rfl, .inl ⟨rfl, hends⟩⟩

/-- The end of the text, or a fault that is met in its place. -/
theorem perform_blank (hblanks : ∀ blank ∈ blanks, blank.isSignificant = false) :
    let cursor : BufferedCursor := ⟨⟨source, vocabulary, ⟨blanks, fault⟩⟩, none, given⟩
    let stream : TokenStream :=
      ⟨TokenStream.significant vocabulary blanks, fault, probed, endOf source⟩
    (cursor.perform step).1 = (stream.perform step).1 ∧
      Follows (given ++ blanks) (cursor.perform step).2 (stream.perform step).2 := by
  intro cursor stream
  have hpull := BufferedCursor.pull_blank source vocabulary none given blanks fault hblanks
  have hstream : stream = ⟨[], fault, probed, endOf source⟩ := by
    rw [← TokenStream.significant_blank hblanks]
  have hcursor : cursor.perform step =
      (Except.bind (fault.elim (.ok none) fun fault => .error (.lexical fault))
        (step.reply (endOf source)),
        ⟨⟨source, vocabulary, ⟨[], none⟩⟩, none, given ++ blanks⟩) := by
    rw [BufferedCursor.perform]
    cases hconsumes : step.consumes with
    | false =>
        simp only [BufferedCursor.look, cursor, hpull]
        cases fault <;> rfl
    | true =>
        simp only [BufferedCursor.take, cursor, hpull]
        rfl
  rw [hstream, hcursor]
  cases fault with
  | none =>
      rw [TokenStream.perform_nil]
      exact ⟨rfl, List.append_nil _, rfl, rfl, rfl, .inr ⟨rfl, rfl, rfl⟩⟩
  | some fault =>
      rw [TokenStream.perform_fault]
      exact ⟨rfl, List.append_nil _, rfl, rfl, rfl, .inr ⟨rfl, rfl, rfl⟩⟩

end Perform

/-- A step leads a cursor and a stream to the same place, with the same outcome. -/
theorem perform {tokens : List Token} {cursor : BufferedCursor} {stream : TokenStream}
    (hfollows : Follows tokens cursor stream) (step : CursorStep) :
    (cursor.perform step).1 = (stream.perform step).1 ∧
      Follows tokens (cursor.perform step).2 (stream.perform step).2 := by
  rcases hfollows with ⟨hgiven, hahead, hfault, hfinish, hstands⟩
  rcases stream with ⟨ahead, fault, probed, finish⟩
  rcases cursor with ⟨⟨source, vocabulary, unread, lexFault⟩, buffer, given⟩
  simp only at hgiven hahead hfault hfinish hstands
  subst hgiven hahead hfault hfinish
  cases buffer with
  | some token =>
      rcases hstands with ⟨_, hends⟩ | ⟨_, hbuffer, _⟩
      · exact perform_buffered step hends
      · cases hbuffer
  | none =>
      rcases TokenStream.blank_or_significant unread with hblanks |
        ⟨blanks, token, rest, rfl, hblanks, htoken⟩
      · exact perform_blank step hblanks
      · exact perform_significant step hblanks htoken

/-- Steps in any order lead a cursor and a stream to the same place, with the same outcomes. -/
theorem performAll {tokens : List Token} {cursor : BufferedCursor} {stream : TokenStream}
    (hfollows : Follows tokens cursor stream) (steps : List CursorStep) :
    (cursor.performAll steps).1 = (stream.performAll steps).1 ∧
      Follows tokens (cursor.performAll steps).2 (stream.performAll steps).2 := by
  induction steps generalizing cursor stream with
  | nil => exact ⟨rfl, hfollows⟩
  | cons step rest ih =>
      rcases hfollows.perform step with ⟨hfirst, hafter⟩
      rcases ih hafter with ⟨hothers, hlast⟩
      refine ⟨?_, hlast⟩
      rw [BufferedCursor.performAll, TokenStream.performAll]
      simp only [hfirst, hothers]

end Follows

/-! ## How far a text has been read -/

namespace TokenStream

/-- The first tokens of a text. -/
theorem takeSignificant_prefix (count : Nat) (tokens : List Token) :
    takeSignificant count tokens <+: tokens := by
  induction tokens generalizing count with
  | nil => cases count <;> exact List.prefix_refl _
  | cons token rest ih =>
      cases count with
      | zero => exact List.nil_prefix
      | succ count => exact (List.prefix_cons_inj token).2 (ih _)

/-- More tokens of a text. -/
theorem takeSignificant_mono (tokens : List Token) {count more : Nat} (hmore : count ≤ more) :
    takeSignificant count tokens <+: takeSignificant more tokens := by
  induction tokens generalizing count more with
  | nil => cases count <;> cases more <;> exact List.prefix_refl _
  | cons token rest ih =>
      cases count with
      | zero => exact List.nil_prefix
      | succ count =>
          cases more with
          | zero => omega
          | succ more =>
              apply (List.prefix_cons_inj token).2
              apply ih
              by_cases htoken : token.isSignificant = true
              · simp only [htoken, if_true]
                omega
              · simp only [htoken]
                simpa using hmore

/-- Up to a number of significant tokens that there are not, all tokens are taken. -/
theorem takeSignificant_of_lt {count : Nat} {tokens : List Token}
    (hcount : (tokens.filter Token.isSignificant).length < count) :
    takeSignificant count tokens = tokens := by
  induction tokens generalizing count with
  | nil => cases count <;> rfl
  | cons token rest ih =>
      cases count with
      | zero => omega
      | succ count =>
          rw [takeSignificant]
          apply congrArg (token :: ·)
          apply ih
          by_cases htoken : token.isSignificant = true
          · rw [List.filter_cons_of_pos htoken, List.length_cons] at hcount
            simp only [htoken, if_true]
            omega
          · rw [List.filter_cons_of_neg htoken] at hcount
            simp only [htoken]
            exact hcount

end TokenStream

/-- The last token stays the last. -/
theorem EndsSignificant.tail {tokens : List Token} (hends : EndsSignificant (token :: tokens)) :
    EndsSignificant tokens := by
  cases tokens with
  | nil => simp [EndsSignificant]
  | cons next rest =>
      unfold EndsSignificant at hends ⊢
      rwa [List.getLast?_cons_cons] at hends

/-- Behind a token that does not matter there is one that does. -/
theorem EndsSignificant.length_pos {tokens : List Token} (hends : EndsSignificant (token :: tokens))
    (htoken : token.isSignificant = false) : 0 < (tokens.filter Token.isSignificant).length := by
  cases hlast : tokens.getLast? with
  | none =>
      rw [List.getLast?_eq_none_iff.1 hlast] at hends
      have hself := hends token rfl
      rw [htoken] at hself
      cases hself
  | some last =>
      have hmem : last ∈ tokens.filter Token.isSignificant :=
        List.mem_filter.2 ⟨List.mem_of_getLast? hlast, hends.tail last hlast⟩
      exact List.length_pos_of_mem hmem

/-- Tokens up to one that matters are found again by the number of those that matter. -/
theorem EndsSignificant.takeSignificant {given : List Token} (hends : EndsSignificant given)
    (rest : List Token) :
    TokenStream.takeSignificant (given.filter Token.isSignificant).length (given ++ rest) =
      given := by
  induction given with
  | nil => cases rest <;> rfl
  | cons token given ih =>
      have hrest := ih hends.tail
      by_cases htoken : token.isSignificant = true
      · rw [List.filter_cons_of_pos htoken, List.length_cons, List.cons_append,
          TokenStream.takeSignificant, if_pos htoken, hrest]
      · have hpos := hends.length_pos (by simpa using htoken)
        rw [List.filter_cons_of_neg htoken]
        cases hcount : (given.filter Token.isSignificant).length with
        | zero => omega
        | succ count =>
            rw [List.cons_append, TokenStream.takeSignificant, if_neg htoken, ← hcount, hrest]

namespace Follows

variable {tokens : List Token} {cursor : BufferedCursor} {stream : TokenStream}

/-- How many tokens that matter the lexer has given: all but those that the stream still holds, and
one more if there is one in the buffer. -/
theorem length_given (hfollows : Follows tokens cursor stream) :
    (cursor.given.filter Token.isSignificant).length + stream.ahead.length =
      (tokens.filter Token.isSignificant).length + cursor.buffer.toList.length := by
  rw [← hfollows.given, hfollows.ahead, TokenStream.significant, List.filter_append]
  simp only [List.length_append, List.length_map]
  omega

/-- The stream knows which tokens the lexer has given. -/
theorem read_eq (hfollows : Follows tokens cursor stream) : stream.read tokens = cursor.given := by
  have hlength := hfollows.length_given
  have hahead := hfollows.ahead
  rcases hfollows.stands with ⟨hprobed, hends⟩ | ⟨hprobed, hbuffer, hunread⟩
  · have htake := hends.takeSignificant cursor.lexer.unread.tokens
    rw [hfollows.given] at htake
    unfold TokenStream.read
    cases hbuffer : cursor.buffer with
    | none =>
        rw [hbuffer] at hprobed hlength
        have hcount : (tokens.filter Token.isSignificant).length - stream.ahead.length =
            (cursor.given.filter Token.isSignificant).length := by
          simp at hlength
          omega
        simp [hprobed, hcount, htake]
    | some token =>
        rw [hbuffer] at hprobed hlength hahead
        have hpos : stream.ahead.isEmpty = false := by simp [hahead]
        have hcount : (tokens.filter Token.isSignificant).length - (stream.ahead.length - 1) =
            (cursor.given.filter Token.isSignificant).length := by
          simp [hahead] at hlength ⊢
          omega
        simp [hprobed, hpos, hcount, htake]
  · have hgiven := hfollows.given
    rw [hunread, List.append_nil] at hgiven
    have hempty : stream.ahead.isEmpty = true := by
      simp [hahead, hbuffer, hunread, TokenStream.significant]
    simp [TokenStream.read, hprobed, hempty, hgiven]

/-- The lexer has given all that was consumed, and is at most one token that matters ahead. -/
theorem given_between (hfollows : Follows tokens cursor stream) {count : Nat}
    (hcount : count + stream.ahead.length = (tokens.filter Token.isSignificant).length) :
    TokenStream.takeSignificant count tokens <+: cursor.given ∧
      cursor.given <+: TokenStream.takeSignificant (count + 1) tokens := by
  have hlength := hfollows.length_given
  rcases hfollows.stands with ⟨_, hends⟩ | ⟨_, hbuffer, hunread⟩
  · have htake := hends.takeSignificant cursor.lexer.unread.tokens
    rw [hfollows.given] at htake
    have hbuffer : cursor.buffer.toList.length ≤ 1 := by cases cursor.buffer <;> simp
    rw [← htake]
    exact ⟨TokenStream.takeSignificant_mono tokens (by omega),
      TokenStream.takeSignificant_mono tokens (by omega)⟩
  · have hgiven := hfollows.given
    rw [hunread, List.append_nil] at hgiven
    rw [hgiven]
    have hahead : stream.ahead = [] := by
      simp [hfollows.ahead, hbuffer, hunread, TokenStream.significant]
    rw [hahead, List.length_nil] at hcount
    have hall : TokenStream.takeSignificant (count + 1) tokens = tokens :=
      TokenStream.takeSignificant_of_lt (by omega)
    rw [hall]
    exact ⟨TokenStream.takeSignificant_prefix count tokens, List.prefix_refl _⟩

end Follows

/-! ## The tokens of a text -/

section Lexing

variable {vocabulary : Vocabulary} {input rest : List Char} {lexemes : List Lexeme}

/-- Lexemes are no keywords.  These are told from identifiers later. -/
theorem Segmented.kind_ne_keyword (hsegmented : Segmented vocabulary input lexemes rest)
    (position : Position) : ∀ token ∈ tokensFrom position lexemes, token.kind ≠ .keyword := by
  induction hsegmented generalizing position with
  | stop rest => simp [tokensFrom]
  | cons hmaximal _ ih =>
      rw [tokensFrom, List.forall_mem_cons]
      refine ⟨?_, ih _⟩
      cases hmaximal <;> simp

/-- Tokens stand behind the start. -/
theorem offset_le_of_mem_tokensFrom (position : Position) :
    ∀ token ∈ tokensFrom position lexemes, position.offset ≤ token.position.offset := by
  induction lexemes generalizing position with
  | nil => simp [tokensFrom]
  | cons lexeme lexemes ih =>
      rw [tokensFrom, List.forall_mem_cons]
      refine ⟨Nat.le_refl _, ?_⟩
      intro token hmem
      exact (position.offset_le_advance lexeme.chars).trans (ih _ token hmem)

/-- Every token stands behind those before it. -/
theorem Segmented.pairwise_offset (hoperators : "" ∉ vocabulary.operators)
    (hsegmented : Segmented vocabulary input lexemes rest) (position : Position) :
    (tokensFrom position lexemes).Pairwise
      (fun first second => first.position.offset < second.position.offset) := by
  induction hsegmented generalizing position with
  | stop rest => exact List.Pairwise.nil
  | @cons lexeme lexemes following rest hmaximal _ ih =>
      apply List.Pairwise.cons
      · intro token hmem
        have hfirst := position.offset_lt_advance (hmaximal.chars_ne_nil hoperators)
        exact Nat.lt_of_lt_of_le hfirst (offset_le_of_mem_tokensFrom _ token hmem)
      · exact ih _

/-- Keywords are the identifiers of the keyword table, and nothing else of a token changes. -/
theorem classify_spec {token : Token} (hkind : token.kind ≠ .keyword) :
    ((TokenStream.classify vocabulary token).kind = .keyword ↔
      token.kind = .identifier ∧ vocabulary.isKeyword token.text = true) ∧
    { TokenStream.classify vocabulary token with kind := token.kind } = token := by
  rcases token with ⟨kind, text, position⟩
  unfold TokenStream.classify
  by_cases hkeyword : kind = .identifier ∧ vocabulary.isKeyword text = true
  · simp [hkeyword]
  · simpa [hkeyword] using hkind

end Lexing

/-! ## Outcomes -/

/-- Steps can be done on the tokens of a text in any order, and go on after failures.  A cursor with
a buffer replies in the same way as a stream.  The tokens consumed are the first ones that matter,
in their order and each of them once, and the keywords among them are the identifiers of the keyword
table.  Up to a fault of the text every reply is about the first token that was not consumed, so
that steps that only look can be left out.  A token that does not fit is consumed by the step that
fails on it, and nothing else is.  The lexer has given the tokens up to the last consumed one, and
at most those up to the next one that matters; so the journal of the lexer is a first part of the
tokens of the text, none of which comes twice. -/
theorem cursor_keeps_tokens {vocabulary : Vocabulary} (hoperators : "" ∉ vocabulary.operators)
    (source : String) (steps : List CursorStep) :
    let tokens := (lex vocabulary source).tokens
    let start := TokenStream.ofSource vocabulary source
    let outcomes := (start.performAll steps).1
    let last := (start.performAll steps).2
    let cursor := (BufferedCursor.ofSource vocabulary source).performAll steps
    let count := (start.consumed steps).length
    cursor.1 = outcomes ∧
      start.consumed steps = ((tokens.filter Token.isSignificant).take count).map
        (TokenStream.classify vocabulary) ∧
      (∀ token ∈ tokens,
        ((TokenStream.classify vocabulary token).kind = .keyword ↔
          token.kind = .identifier ∧ vocabulary.isKeyword token.text = true) ∧
        { TokenStream.classify vocabulary token with kind := token.kind } = token) ∧
      outcomes.takeWhile (fun outcome => !outcome.isLexical) <+:
        CursorStep.replies (endOf source) (TokenStream.significant vocabulary tokens) steps ∧
      (∀ fewer, Thinned steps fewer → (∀ outcome ∈ outcomes, outcome.isLexical = false) →
        start.consumingOutcomes fewer = start.consumingOutcomes steps) ∧
      (∀ step token problem, (last.perform step).1 = .error (.misplaced token problem) →
        last.ahead = token :: (last.perform step).2.ahead) ∧
      cursor.2.given = last.read tokens ∧
      TokenStream.takeSignificant count tokens <+: cursor.2.given ∧
      cursor.2.given <+: TokenStream.takeSignificant (count + 1) tokens ∧
      cursor.2.given.map LogEvent.lexed <+: tokens.map LogEvent.lexed ∧
      (tokens.map LogEvent.lexed).Nodup := by
  intro tokens start outcomes last cursor count
  rcases lexFrom_segmented vocabulary source.toList .start with
    ⟨lexemes, rest, hsegmented, _, hlexed⟩
  have htokens : tokens = tokensFrom .start lexemes := congrArg Lexed.tokens hlexed
  rcases (Follows.start vocabulary source).performAll steps with ⟨houtcomes, hfollows⟩
  have hconsumed := start.consumed_append steps
  have hcount : count + last.ahead.length = (tokens.filter Token.isSignificant).length := by
    have hlength := congrArg List.length hconsumed
    rw [List.length_append] at hlength
    rw [hlength]
    exact List.length_map _
  have hbetween := hfollows.given_between hcount
  have hprefix : cursor.2.given <+: tokens :=
    hbetween.2.trans (TokenStream.takeSignificant_prefix _ _)
  have hnodup : tokens.Nodup := by
    rw [htokens]
    apply (hsegmented.pairwise_offset hoperators .start).imp
    intro first second hlt hsame
    rw [hsame] at hlt
    exact Nat.lt_irrefl _ hlt
  refine ⟨houtcomes, ?_, ?_, start.performAll_prefix steps, ?_, ?_, hfollows.read_eq.symm,
    hbetween.1, hbetween.2, ?_, ?_⟩
  · have htaken := congrArg (List.take count) hconsumed
    rw [List.take_left] at htaken
    exact htaken.trans List.map_take.symm
  · intro token hmem
    rw [htokens] at hmem
    exact classify_spec (hsegmented.kind_ne_keyword .start token hmem)
  · intro fewer hthinned hlexical
    exact TokenStream.consumingOutcomes_thinned hthinned _ _ _ _ _ hlexical
  · intro step token problem hmisplaced
    exact TokenStream.ahead_of_misplaced hmisplaced
  · exact hprefix.map _
  · exact List.Nodup.map (fun first second hsame => LogEvent.lexed.inj hsame) hnodup

/-- Looking and failing steps on a text with a comment and a keyword. -/
def sampleSteps : List CursorStep :=
  [.peek, .expectOperator ";", .position, .nextHasKind .keyword, .next, .atEnd]

/-- The first token is consumed by a step that expects another one, and the lexer stops behind the
number, which has only been looked at. -/
theorem cursor_keeps_tokens_mismatch :
    let start := TokenStream.ofSource .standard "a // b\nrule 5 ;"
    let cursor := BufferedCursor.ofSource .standard "a // b\nrule 5 ;"
    let name : Token := ⟨.identifier, "a", ⟨0, 1, 1⟩⟩
    let keyword : Token := ⟨.keyword, "rule", ⟨7, 2, 1⟩⟩
    "" ∉ Vocabulary.standard.operators ∧
      Thinned sampleSteps [.expectOperator ";", .next] ∧
      (cursor.performAll sampleSteps).1 = [.ok (.found (some name)),
        .error (.misplaced name (.expected "';'")), .ok (.place ⟨7, 2, 1⟩), .ok (.truth true),
        .ok (.found (some keyword)), .ok (.truth false)] ∧
      start.consumed sampleSteps = [name, keyword] ∧
      start.consumingOutcomes [.expectOperator ";", .next] =
        [.error (.misplaced name (.expected "';'")), .ok (.found (some keyword))] ∧
      (cursor.performAll sampleSteps).2.given.map Token.text =
        ["a", " ", "// b", "\n", "rule", " ", "5"] := by
  intro start cursor name keyword
  have hoperators : "" ∉ Vocabulary.standard.operators := by decide
  have hthinned : Thinned sampleSteps [.expectOperator ";", .next] :=
    .drop rfl (.keep _ (.drop rfl (.drop rfl (.keep _ (.drop rfl .nil)))))
  rcases cursor_keeps_tokens hoperators "a // b\nrule 5 ;" sampleSteps with
    ⟨houtcomes, _, _, _, hfewer, _, hgiven, _⟩
  refine ⟨hoperators, hthinned, houtcomes.trans ?_, ?_, (hfewer _ hthinned ?_).trans ?_, ?_⟩
  · decide +kernel
  · decide +kernel
  · decide +kernel
  · decide +kernel
  · rw [hgiven]
    decide +kernel

end Workshop

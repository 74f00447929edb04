import Workshop.Proofs.Reading.Termination

/-!
# What a diagnostic reports

Reading takes tokens one at a time, and a fault of the source text comes to
light only when the tokens before it are used up.  It may do so when the next
token is merely looked at.  Still no fault is lost: a script that is read has
none, and one that seems to end too early has none either.  A diagnostic about a
token names a token that stands before the fault.

Main definitions:

- `Diagnostic.ReportsOn`: what a diagnostic says about the tokens of a text.

Main results:

- Theorem `Segmented.offset_lt`: all tokens stand before the place where lexing
  stops.
- Theorem `Script.parseWith_reports_faults`: the outcome of reading a text agrees
  with its tokens and with its fault.
-/

namespace Workshop

variable {vocabulary : Vocabulary}

/-! ## Tokens before a fault -/

theorem Position.offset_step (position : Position) (c : Char) :
    (position.step c).offset = position.offset + c.utf8Size := by
  unfold step
  split <;> rfl

/-- Places do not go back. -/
theorem Position.offset_le_advance (position : Position) (chars : List Char) :
    position.offset ≤ (position.advance chars).offset := by
  induction chars generalizing position with
  | nil => exact Nat.le_refl _
  | cons c rest ih =>
      have hrest := ih (position.step c)
      rw [offset_step] at hrest
      rw [advance_cons]
      omega

/-- They go on with each character. -/
theorem Position.offset_lt_advance (position : Position) {chars : List Char} (hchars : chars ≠ []) :
    position.offset < (position.advance chars).offset := by
  cases chars with
  | nil => exact absurd rfl hchars
  | cons c rest =>
      have hrest := (position.step c).offset_le_advance rest
      have hpos := c.utf8Size_pos
      rw [offset_step] at hrest
      rw [advance_cons]
      omega

/-- All tokens stand before the place where lexing stops. -/
theorem Segmented.offset_lt (hoperators : "" ∉ vocabulary.operators) {input rest : List Char}
    {lexemes : List Lexeme} (hsegmented : Segmented vocabulary input lexemes rest)
    (position : Position) :
    ∀ token ∈ tokensFrom position lexemes,
      token.position.offset < (position.advance (lexemes.flatMap Lexeme.chars)).offset := by
  induction hsegmented generalizing position with
  | stop rest =>
      intro token hmem
      cases hmem
  | @cons lexeme lexemes following rest hmaximal _ ih =>
      intro token hmem
      rw [List.flatMap_cons, Position.advance_append]
      rcases List.mem_cons.1 hmem with rfl | hmem
      · have hfirst := position.offset_lt_advance (hmaximal.chars_ne_nil hoperators)
        have hothers := (position.advance lexeme.chars).offset_le_advance
          (lexemes.flatMap Lexeme.chars)
        exact Nat.lt_of_lt_of_le hfirst hothers
      · exact ih _ token hmem

/-- Tokens stand before the fault. -/
theorem lex_offset_lt (hoperators : "" ∉ vocabulary.operators) (source : String) :
    ∀ token ∈ (lex vocabulary source).tokens, ∀ fault ∈ (lex vocabulary source).fault,
      token.position.offset < fault.position.offset := by
  rcases lexFrom_segmented vocabulary source.toList .start with
    ⟨lexemes, rest, hsegmented, _, hlexed⟩
  rw [lex, hlexed]
  intro token hmem fault hfault
  rcases Option.map_eq_some_iff.1 hfault with ⟨c, _, rfl⟩
  exact hsegmented.offset_lt hoperators .start token hmem

/-! ## Diagnostics -/

/-- What a diagnostic says about the tokens of a text and about the fault that ends them.  A token
that does not fit is one of those that matter to the grammar, and it stands before the fault. -/
def Diagnostic.ReportsOn (vocabulary : Vocabulary) (lexed : Lexed) : Diagnostic → Prop
  | .lexical fault => lexed.fault = some fault
  | .misplaced token _ =>
    ∃ found ∈ lexed.tokens, found.isSignificant = true ∧
      token = TokenStream.classify vocabulary found ∧
      token.position = found.position ∧
      ∀ fault ∈ lexed.fault, found.position.offset < fault.position.offset
  | .unexpectedEnd _ => lexed.fault = none
  | .semantic _ => False

theorem TokenStream.position_classify (vocabulary : Vocabulary) (token : Token) :
    (classify vocabulary token).position = token.position := by
  unfold classify
  split <;> rfl

/-- A reading of a stream beside itself fails with what the stream gives cause for. -/
theorem Pairing.Fails.reportsOn (hoperators : "" ∉ vocabulary.operators) {source : String}
    {diagnostic diagnostic' : Diagnostic}
    (hfails : (itself (.ofSource vocabulary source)).Fails diagnostic diagnostic') :
    diagnostic.ReportsOn vocabulary (lex vocabulary source) := by
  cases hfails with
  | lexical hfaults => exact hfaults.1.symm
  | @misplaced token token' problem htoken =>
      rcases List.mem_map.1 htoken.2 with ⟨found, hmem, rfl⟩
      rcases List.mem_filter.1 hmem with ⟨hmem, hsignificant⟩
      exact ⟨found, hmem, hsignificant, rfl, TokenStream.position_classify vocabulary found,
        lex_offset_lt hoperators source found hmem⟩
  | unexpectedEnd expected hfaults => exact hfaults.1.symm

/-! ## Outcomes -/

/-- The outcome of reading a source text agrees with what a lexer gives for it, one token at a time.
If the text is read, there is no fault in it, and all tokens that matter have been consumed.
Otherwise the diagnostic reports the fault itself, a token before it, or the end of a text without
a fault, and nothing else. -/
theorem Script.parseWith_reports_faults (hoperators : "" ∉ vocabulary.operators)
    (source : String) :
    (∃ last, (Lexer.ofSource vocabulary source).Gives
      ((lex vocabulary source).tokens.map .ok ++ (lex vocabulary source).fault.toList.map .error)
        last ∧ last.next = (none, last)) ∧
    match Script.parseWith vocabulary source with
    | .ok tree =>
      (lex vocabulary source).fault = none ∧
        ∃ rest, Grammar.program (TokenStream.ofSource vocabulary source) = .ok tree rest ∧
          rest.ahead = []
    | .error diagnostic => diagnostic.ReportsOn vocabulary (lex vocabulary source) := by
  refine ⟨⟨_, Lexer.gives_unread source vocabulary (lex vocabulary source), rfl⟩, ?_⟩
  have hends := Pairing.program (Pairing.alike_itself (.ofSource vocabulary source))
    (Nat.lt_succ_self _)
  cases hrun : Grammar.program (TokenStream.ofSource vocabulary source) with
  | ok tree rest =>
      rw [hrun] at hends
      cases hends with
      | ok hresult =>
          rw [Pairing.parseWith_of_ok hrun]
          exact ⟨hresult.1.2.1.symm, rest, rfl, ahead_of_program hrun⟩
  | error diagnostic rest =>
      rw [hrun] at hends
      cases hends with
      | error hfails =>
          rw [Pairing.parseWith_of_error hrun]
          exact (hfails not_false).reportsOn hoperators

/-- A token that does not fit is reported although a fault follows it. -/
theorem Script.parseWith_reports_faults_twice :
    let misplaced := Diagnostic.misplaced ⟨.operator, "=", ⟨4, 1, 5⟩⟩ .unexpected
    "" ∉ Vocabulary.standard.operators ∧
      (lex .standard "x = = @").fault = some ⟨⟨6, 1, 7⟩, '@'⟩ ∧
      Script.parseWith .standard "x = = @" = .error misplaced ∧
      misplaced.ReportsOn .standard (lex .standard "x = = @") := by
  intro misplaced
  have hoperators : "" ∉ Vocabulary.standard.operators := by decide
  have hreports := (Script.parseWith_reports_faults hoperators "x = = @").2
  have hdiagnostic : (match Script.parseWith .standard "x = = @" with
      | .ok _ => none
      | .error diagnostic => some diagnostic) = some misplaced := by
    decide +kernel
  generalize Script.parseWith .standard "x = = @" = outcome at hreports hdiagnostic
  cases outcome with
  | ok tree => cases hdiagnostic
  | error diagnostic =>
      cases hdiagnostic
      exact ⟨hoperators, by decide, rfl, hreports⟩

end Workshop

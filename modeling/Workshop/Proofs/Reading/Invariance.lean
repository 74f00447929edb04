import Workshop.Compilation.Session
import Workshop.Proofs.Lexing.Spacing
import Workshop.Proofs.Reading.Rules

/-!
# Spacing means nothing

Two source texts with the same words have the same result: the same program, or
the same diagnostic up to the place that it reports.  So spacing can be inserted
wherever a token starts or the text ends.

Main definitions:

- `Diagnostic.unplaced`: a diagnostic without the place that it reports.
- `Pairing.sameWords`: tokens correspond if they are the same word.

Main results:

- Theorem `compile_eq_of_words_eq`: source texts with the same words have the
  same result.
- Theorem `compile_ignores_spacing`: the result does not depend on spacing.
-/

namespace Workshop

/-- A diagnostic without the place that it reports. -/
def Diagnostic.unplaced : Diagnostic → Diagnostic
  | lexical fault => lexical { fault with position := .start }
  | misplaced token problem => misplaced { token with position := .start } problem
  | unexpectedEnd expected => unexpectedEnd expected
  | semantic error => semantic error

namespace Pairing

/-- Tokens correspond if they are the same word, and there are no faults. -/
def sameWords : Pairing where
  token first second := second.word = first.word
  ends first second := first = none ∧ second = none
  strict := False
  word_eq hword := hword
  token_eq hstrict _ := hstrict.elim
  isSome_eq hends := by rw [hends.1, hends.2]

theorem Fails.unplaced_eq {diagnostic diagnostic' : Diagnostic}
    (hfails : sameWords.Fails diagnostic diagnostic') :
    diagnostic'.unplaced = diagnostic.unplaced := by
  cases hfails with
  | lexical hfaults => cases hfaults.1
  | @misplaced token token' problem htoken =>
      rw [Diagnostic.unplaced, Diagnostic.unplaced, sameWords.kind_eq htoken,
        sameWords.text_eq htoken]
  | unexpectedEnd => rfl

/-- The streams of source texts with the same words correspond. -/
theorem alike_of_words_eq {lexed lexed' : Lexed} (hfault : lexed.fault = none)
    (hfault' : lexed'.fault = none) (hwords : lexed'.words = lexed.words)
    (finish finish' : Position) :
    sameWords.Alike (TokenStream.ofLexed .standard lexed finish)
      (TokenStream.ofLexed .standard lexed' finish') := by
  refine ⟨?_, ⟨hfault, hfault'⟩, False.elim⟩
  have hsame : List.Forall₂ (fun token token' : Token => token.word = token'.word)
      (lexed.tokens.filter Token.isSignificant) (lexed'.tokens.filter Token.isSignificant) := by
    rw [← List.forall₂_map_right_iff, ← List.forall₂_map_left_iff, List.forall₂_eq_eq_eq]
    exact hwords.symm
  rw [TokenStream.ofLexed, TokenStream.ofLexed, TokenStream.significant, TokenStream.significant,
    List.forall₂_map_left_iff, List.forall₂_map_right_iff]
  exact hsame.imp fun _ _ hword => Token.word_classify hword.symm

end Pairing

/-- Source texts with the same words have the same result, up to the place of a diagnostic. -/
theorem compile_eq_of_words_eq {source source' : String} (options : CompileOptions)
    (hfault : (lex .standard source).fault = none)
    (hfault' : (lex .standard source').fault = none)
    (hwords : (lex .standard source').words = (lex .standard source).words) :
    (compile source' options).mapError Diagnostic.unplaced =
      (compile source options).mapError Diagnostic.unplaced := by
  have halike := Pairing.alike_of_words_eq hfault hfault' hwords (endOf source) (endOf source')
  unfold compile Script.parse
  rcases Pairing.parseWith not_false halike with
    ⟨tree, htree, htree', _⟩ | ⟨_, _, hfirst, hsecond, hfails⟩
  · rw [htree, htree']
  · rw [hfirst, hsecond]
    exact congrArg Except.error hfails.unplaced_eq

/-- The result does not depend on spacing.  Source texts with the same words have the same result,
up to the place of a diagnostic.  Spacing keeps the words, wherever a token starts or the text
ends. -/
theorem compile_ignores_spacing (options : CompileOptions) :
    (∀ source source' : String, (lex .standard source).fault = none →
      (lex .standard source').fault = none →
      (lex .standard source').words = (lex .standard source).words →
      (compile source' options).mapError Diagnostic.unplaced =
        (compile source options).mapError Diagnostic.unplaced) ∧
    ∀ (source : String) (before after gap : List Char) (c : Char),
      (lex .standard source).fault = none → IsBoundary .standard source before after →
      isSpace c = true → Spacing gap →
      let spaced := String.ofList (before ++ (c :: gap ++ after))
      (lex .standard spaced).fault = none ∧
        (lex .standard spaced).words = (lex .standard source).words ∧
        (compile spaced options).mapError Diagnostic.unplaced =
          (compile source options).mapError Diagnostic.unplaced := by
  constructor
  · intro source source' hfault hfault' hwords
    exact compile_eq_of_words_eq options hfault hfault' hwords
  · intro source before after gap c hfault hboundary hc hgap
    have hoperators : "" ∉ Vocabulary.standard.operators := by decide
    have hplain : ∀ operator ∈ Vocabulary.standard.operators, ∀ c ∈ operator.toList,
        isSpace c = false := by
      have hall : ∀ operator ∈ Vocabulary.standard.operators,
          operator.toList.all (fun c => !isSpace c) = true := by
        decide
      intro operator hmem c hc
      simpa using List.all_eq_true.1 (hall operator hmem) c hc
    rcases lex_insert_spacing hoperators hplain hfault hboundary hc hgap with ⟨hspaced, hwords⟩
    exact ⟨hspaced, hwords, compile_eq_of_words_eq options hfault hspaced hwords⟩

theorem compile_ignores_spacing_comment :
    (lex .standard "usevar//x\nglobal B").fault = none ∧
    IsBoundary .standard "usevar//x\nglobal B" "usevar//x".toList "\nglobal B".toList ∧
    (lex .standard "usevar//x\t//y\r\nglobal B").words =
      (lex .standard "usevar//x\nglobal B").words ∧
    (compile "usevar//x\t//y\r\nglobal B" ⟨false⟩).mapError Diagnostic.unplaced =
      (compile "usevar//x\nglobal B" ⟨false⟩).mapError Diagnostic.unplaced := by
  have hfault : (lex .standard "usevar//x\nglobal B").fault = none := by decide
  have hboundary : IsBoundary .standard "usevar//x\nglobal B" "usevar//x".toList
      "\nglobal B".toList :=
    ⟨by decide, .inr (by decide)⟩
  have hbody : ∀ c ∈ ['y'], isLineBreak c = false := List.forall_mem_singleton.2 (by decide)
  have hgap : Spacing "//y\r".toList := .comment hbody (by decide) .nil
  have hspaced := (compile_ignores_spacing ⟨false⟩).2 _ _ _ _ '\t' hfault hboundary (by decide) hgap
  exact ⟨hfault, hboundary, hspaced.2⟩

end Workshop

import Workshop.Compilation.Session
import Workshop.Proofs.Reading.Exchange
import Workshop.Proofs.Reading.Sequences

/-!
# Bare conditions

A condition of a rule that is not an operation is compared with `true`.  This
module proves it of source texts: wherever a condition can stand in a script, its
text can be replaced by the comparison of the same text, in parentheses, with
`true`.  The condition is any text that is a script of one expression, so it may end
with a comment; the line break behind it closes the comment.

Main definitions:

- `EndsInComment`: a text that ends in the middle of a comment.
- `IsConditionPlace`: the texts in front of a condition of a rule and behind it.

Main results:

- Theorem `Segmented.spacing`: blanks and comments at the end of a text are spacing,
  unless the text ends in a comment.
- Theorem `exists_lexesTo_behind`: a text that ends with a separating operator keeps
  its words, whatever follows.
- Theorem `IsConditionPlace.exchange`: another condition in the same place.
- Theorem `parse_bareCondition`: a bare condition is a comparison with `true`.
-/

namespace Workshop

variable {vocabulary : Vocabulary} {source text : String} {lexemes : List Lexeme}
  {rest input : List Char} {words : List Word} {node : Node}

/-! ## The end of a text -/

/-- A text that ends in the middle of a comment. -/
def EndsInComment (source : String) : Prop :=
  ∃ token ∈ (lex .standard source).tokens.getLast?,
    token.kind = .blank ∧ ['/', '/'] <+: token.text.toList

/-- The kinds and texts of tokens are those of the lexemes. -/
theorem map_word_tokensFrom (position : Position) (lexemes : List Lexeme) :
    (tokensFrom position lexemes).map Token.word =
      lexemes.map fun lexeme => ⟨lexeme.kind, lexeme.text⟩ := by
  induction lexemes generalizing position with
  | nil => rfl
  | cons lexeme lexemes ih => rw [tokensFrom, List.map_cons, List.map_cons, ih, Token.word]

/-- The last lexeme of a text that does not end in a comment is no comment. -/
theorem Segmented.last_no_comment (hsegmented : Segmented .standard source.toList lexemes [])
    (hend : ¬ EndsInComment source) :
    ∀ lexeme ∈ lexemes.getLast?, lexeme.kind = .blank → ¬ ['/', '/'] <+: lexeme.chars := by
  intro lexeme hlast hblank hcomment
  have htokens := (hsegmented.lex_eq standard_operators_ne).1
  have hwords := congrArg List.getLast? (map_word_tokensFrom .start lexemes)
  rw [← htokens, List.getLast?_map, List.getLast?_map, Option.mem_def.1 hlast, Option.map_some]
    at hwords
  rcases Option.map_eq_some_iff.1 hwords with ⟨token, htoken, hword⟩
  refine hend ⟨token, htoken, (Token.kind_eq hword).trans hblank, ?_⟩
  rw [Token.text_eq hword]
  simpa [Lexeme.text, hblank] using hcomment

/-- Behind a line break at the start of spacing there is spacing again. -/
theorem Spacing.tail {stop : Char} (hspacing : Spacing (stop :: rest))
    (hstop : isLineBreak stop = true) : Spacing rest := by
  cases hspacing with
  | space _ hrest => exact hrest
  | comment => simp [isLineBreak] at hstop

/-- Blanks and comments are spacing if the last of them is no comment. -/
theorem Segmented.spacing (hoperators : "" ∉ vocabulary.operators)
    (hsegmented : Segmented vocabulary input lexemes [])
    (hblank : ∀ lexeme ∈ lexemes, lexeme.kind = .blank)
    (hlast : ∀ lexeme ∈ lexemes.getLast?, ¬ ['/', '/'] <+: lexeme.chars) : Spacing input := by
  generalize hend : ([] : List Char) = rest at hsegmented
  induction hsegmented with
  | stop rest =>
      rw [← hend]
      exact .nil
  | @cons lexeme lexemes following rest hmaximal hothers ih =>
      rw [List.forall_mem_cons] at hblank
      have hfollowing : Spacing following := by
        refine ih hblank.2 (fun other hother => hlast other ?_) hend
        rw [List.getLast?_cons, Option.mem_def.1 hother]
        rfl
      cases hmaximal with
      | @lineBreaks chars _ _ hchars _ =>
          have hspaces : Spacing chars := .of_forall fun c hc => by simp [isSpace, hchars c hc]
          exact hspaces.append hfollowing
      | @blanks chars _ _ hchars _ =>
          have hspaces : Spacing chars := .of_forall fun c hc => by simp [isSpace, hchars c hc]
          exact hspaces.append hfollowing
      | @comment body _ hbody hstop =>
          -- A comment is not the last lexeme, so a line break follows it.
          cases lexemes with
          | nil => exact absurd ⟨body, rfl⟩ (hlast _ rfl)
          | cons other others =>
              cases following with
              | nil =>
                  have hnil := List.append_eq_nil_iff.1 hothers.text_eq.symm
                  cases hothers.eq_nil_of_chars hoperators hnil.1
              | cons stop more =>
                  exact .comment hbody (hstop stop rfl) (hfollowing.tail (hstop stop rfl))
      | _ => cases hblank.1

/-! ## Words behind a separating operator -/

/-- Lexemes in front of a text that is lexed. -/
theorem Segmented.lexesTo_append (hoperators : "" ∉ vocabulary.operators)
    (hsegmented : Segmented vocabulary input lexemes rest) (hrest : LexesTo vocabulary rest words) :
    LexesTo vocabulary input (lexemes.flatMap Lexeme.words ++ words) := by
  induction hsegmented with
  | stop => exact hrest
  | cons hmaximal _ ih =>
      rw [List.flatMap_cons, List.append_assoc]
      exact (ih hrest).cons (Lexeme.scan?_of_maximal hoperators hmaximal) rfl

/-- An operator of one character that separates is a word, whatever follows. -/
theorem LexesTo.separator {c : Char} (hc : Separates .standard c)
    (hmem : String.singleton c ∈ Vocabulary.standard.operators)
    (hstarts : startsOperator c = true) {input : List Char} {words : List Word}
    (hinput : LexesTo .standard input words) :
    LexesTo .standard (c :: input) (.operator (String.singleton c) :: words) := by
  have hmaximal := Lexeme.Maximal.ofSeparates hc hmem hstarts input
  exact hinput.cons (Lexeme.scan?_of_maximal standard_operators_ne hmaximal) rfl

/-- What is an operator once keywords are told from identifiers was one before. -/
theorem Word.eq_of_classified {word : Word} (hword : word.classified = .operator text) :
    word = .operator text := by
  unfold Word.classified TokenStream.classify at hword
  split at hword
  · cases congrArg Word.kind hword
  · exact hword

/-- A lexeme that is read as an operator of one character is this character. -/
theorem Lexeme.eq_of_classified {lexeme : Lexeme} {c : Char}
    (hword : lexeme.words.map Word.classified = [.operator (String.singleton c)]) :
    lexeme = ⟨.operator, [c]⟩ := by
  rcases lexeme with ⟨kind, chars⟩
  by_cases hblank : kind = .blank
  · simp [Lexeme.words, hblank] at hword
  rw [Lexeme.words, if_neg hblank, List.map_singleton] at hword
  have hoperator := Word.eq_of_classified (List.cons.inj hword).1
  have hkind : kind = .operator := congrArg Word.kind hoperator
  have htext : Lexeme.text ⟨kind, chars⟩ = String.singleton c := congrArg Word.text hoperator
  subst hkind
  have hchars : chars = (String.singleton c).toList := by
    rw [← htext]
    simp [Lexeme.text]
  rw [hchars]
  simp

/-- Lexemes without words are blanks and comments. -/
theorem kind_of_readWords (hwords : readWords lexemes = []) :
    ∀ lexeme ∈ lexemes, lexeme.kind = .blank := by
  intro lexeme hmem
  by_contra hkind
  have hnone := List.flatMap_eq_nil_iff.1 (List.map_eq_nil_iff.1 hwords) lexeme hmem
  rw [Lexeme.words, if_neg hkind] at hnone
  cases hnone

/-- A text that ends with a separating operator, spacing apart, keeps its words, whatever
follows. -/
theorem exists_lexesTo_behind {c : Char} (hc : Separates .standard c)
    (hmem : String.singleton c ∈ Vocabulary.standard.operators)
    (hstarts : startsOperator c = true) (hspace : isSpace c = false)
    (hfault : (TokenStream.ofSource .standard source).fault = none)
    (hlast : (Script.words source).getLast? = some (.operator (String.singleton c)))
    (hend : ¬ EndsInComment source) :
    ∃ lexed, Script.words source = lexed.map Word.classified ∧
      ∀ {input words}, LexesTo .standard input words →
        LexesTo .standard (source.toList ++ input) (lexed ++ words) := by
  rcases exists_segmented hfault with ⟨lexemes, hsegmented⟩
  rcases List.getLast?_eq_some_iff.1 hlast with ⟨first, hwords⟩
  rw [hsegmented.words_eq.2] at hwords ⊢
  have hall : readWords lexemes = (first ++ [.operator (String.singleton c)]) ++ [] := by
    rw [hwords, List.append_nil]
  -- The lexemes are cut behind the operator, and the operator from those in front of it.
  rcases exists_split_behind hall with ⟨front, blanks, rfl, hfront, hblanks, hword⟩
  rcases List.eq_nil_or_concat' front with rfl | ⟨before, lexeme, rfl⟩
  · simp [readWords] at hfront
  have hkind : lexeme.kind ≠ .blank := hword lexeme (by simp)
  have hlexeme : lexeme = ⟨.operator, [c]⟩ := by
    apply Lexeme.eq_of_classified
    rw [readWords_append] at hfront
    have hlength : (readWords [lexeme]).length = 1 := by
      simp [readWords, Lexeme.words, hkind]
    have hsecond := (List.append_inj' hfront (by simpa using hlength)).2
    simpa [readWords] using hsecond
  subst hlexeme
  rw [List.append_assoc, List.singleton_append] at hsegmented
  rcases hsegmented.split with ⟨hbefore, hbehind⟩
  rw [List.append_nil] at hbefore hbehind
  have hspacing : Spacing (blanks.flatMap Lexeme.chars) := by
    rw [← List.singleton_append] at hbehind
    have hrest := hbehind.split.2
    rw [List.append_nil] at hrest
    refine hrest.spacing standard_operators_ne (kind_of_readWords hblanks) fun other hother => ?_
    refine hsegmented.last_no_comment hend other ?_
      (kind_of_readWords hblanks other (List.mem_of_mem_getLast? hother))
    rw [List.getLast?_append_cons, List.getLast?_cons, Option.mem_def.1 hother]
    rfl
  have hseparator : isLineBreak c = false := (Bool.or_eq_false_iff.1 hspace).2
  refine ⟨(before ++ [Lexeme.mk .operator [c]]).flatMap Lexeme.words, ?_, ?_⟩
  · rw [readWords_append, hblanks, List.append_nil]
    rfl
  · intro input words hinput
    have hkept := hbefore.insert standard_operators_ne hc
      (fun _ _ _ => ⟨hspace, c, rfl, hseparator⟩) (blanks.flatMap Lexeme.chars ++ input)
    have hlexes := hkept.lexesTo_append standard_operators_ne
      ((hinput.spacing standard_operators_ne hspacing).separator hc hmem hstarts)
    rw [hbefore.text_eq]
    simpa [Lexeme.words, Lexeme.text] using hlexes

/-- A maximal lexeme that is spacing or an operator does not start with a character of a word. -/
theorem Lexeme.Maximal.head?_chars {lexeme : Lexeme} {following : List Char}
    (hmaximal : lexeme.Maximal vocabulary following)
    (hkind : lexeme.kind = .blank ∨ lexeme.kind = .operator) :
    ∀ c ∈ lexeme.chars.head?, isWordChar c = false := by
  have hspace {c : Char} (hc : isSpace c = true) : isWordChar c = false := by
    rcases isSpace_iff.1 hc with (rfl | rfl) | rfl | rfl <;> decide
  intro c hc
  have hmem := List.mem_of_mem_head? hc
  cases hmaximal with
  | lineBreaks _ hchars _ => exact hspace (by simp [isSpace, hchars c hmem])
  | blanks _ hchars _ => exact hspace (by simp [isSpace, hchars c hmem])
  | comment _ _ =>
      cases hc
      decide
  | operator _ hstarts _ _ =>
      have hoperator := hstarts c (by
        rw [List.head?_append, Option.mem_def.1 hc]
        rfl)
      simp only [startsOperator, Bool.and_eq_true, Bool.not_eq_true'] at hoperator
      simp [isWordChar, hoperator]
  | _ => simp at hkind

/-- A text whose first word is an operator does not start with a character of a word. -/
theorem head?_of_words {rest : List Word}
    (hfault : (TokenStream.ofSource .standard source).fault = none)
    (hwords : Script.words source = .operator text :: rest) :
    ∀ c ∈ source.toList.head?, isWordChar c = false := by
  rcases exists_segmented hfault with ⟨lexemes, hsegmented⟩
  rw [hsegmented.words_eq.2] at hwords
  rw [hsegmented.text_eq, List.append_nil]
  cases hsegmented' : lexemes with
  | nil => simp [readWords, hsegmented'] at hwords
  | cons lexeme others =>
      subst hsegmented'
      have hkind : lexeme.kind = .blank ∨ lexeme.kind = .operator := by
        by_cases hblank : lexeme.kind = .blank
        · exact .inl hblank
        · rw [readWords_cons, Lexeme.words, if_neg hblank] at hwords
          exact .inr (congrArg Word.kind (Word.eq_of_classified (List.cons.inj hwords).1))
      intro c hc
      generalize source.toList = input at hsegmented
      cases hsegmented with
      | cons hmaximal _ =>
          refine hmaximal.head?_chars hkind c ?_
          rwa [List.flatMap_cons, List.head?_append_of_ne_nil _
            (hmaximal.chars_ne_nil standard_operators_ne)] at hc

/-! ## Places of conditions -/

/-- How such words end. -/
theorem Terminated.getLast? (hwords : Terminated words) :
    words = [] ∨ words.getLast? = some (.operator ";") := by
  induction hwords with
  | nil => exact .inl rfl
  | cons _ _ ih =>
      right
      rw [List.getLast?_append_cons]
      rcases ih with rfl | hlast
      · rfl
      · rw [List.getLast?_cons, hlast]
        rfl

/-- A condition comes behind an opening parenthesis or behind a semicolon. -/
theorem UpToCondition.getLast? (hwords : UpToCondition words) :
    words.getLast? = some (.operator "(") ∨ words.getLast? = some (.operator ";") := by
  induction hwords with
  | condition _ hearlier =>
      rw [List.getLast?_append_of_ne_nil _ (by simp), List.getLast?_append_cons,
        List.getLast?_cons_cons]
      rcases hearlier.getLast? with rfl | hlast
      · exact .inl rfl
      · right
        rw [List.getLast?_cons, hlast]
        rfl
  | action _ _ _ hinner ih =>
      rwa [List.getLast?_append_of_ne_nil _ (by simp), List.getLast?_append_of_ne_nil _ (by simp),
        List.getLast?_append_cons, ← List.cons_append,
        List.getLast?_append_of_ne_nil _ hinner.starts.ne_nil]
  | block _ hinner ih =>
      rwa [← List.cons_append, List.getLast?_append_of_ne_nil _ hinner.starts.ne_nil]

/-- How words in front of a condition end. -/
theorem AwaitsCondition.getLast? (hwords : AwaitsCondition words) :
    words.getLast? = some (.operator "(") ∨ words.getLast? = some (.operator ";") := by
  rcases hwords with ⟨_, hstatement⟩
  rw [List.getLast?_append_of_ne_nil _ hstatement.starts.ne_nil]
  exact hstatement.getLast?

/-- The texts in front of a condition of a rule and behind it.  The first one ends where a condition
is awaited, and not in a comment; the second one starts with the semicolon or with the parenthesis
that ends the condition. -/
structure IsConditionPlace (before after : String) : Prop where
  fault_before : (TokenStream.ofSource .standard before).fault = none
  awaits : AwaitsCondition (Script.words before)
  closed : ¬ EndsInComment before
  fault_after : (TokenStream.ofSource .standard after).fault = none
  ends : ∃ mark rest, Script.words after = mark :: rest ∧
    (mark = .operator ";" ∨ mark = .operator ")")

/-- A text that is read as a condition between two texts. -/
structure FillsPlace (before after piece : String) (node : Node) : Prop where
  fault : (TokenStream.ofSource .standard (before ++ piece ++ after)).fault = none
  words : ∃ phrase, Script.words (before ++ piece ++ after) =
    Script.words before ++ (phrase ++ Script.words after) ∧ Derivable (.expression node) phrase none

namespace IsConditionPlace

variable {before after piece piece' : String} {node node' : Node}

/-- Where one condition is read, another one is read too.  The tree stays the same if both are the
same as comparisons. -/
theorem exchange (hplace : IsConditionPlace before after)
    (hfills : FillsPlace before after piece node) (hfills' : FillsPlace before after piece' node')
    {tree : Node} (hparse : Script.parse (before ++ piece ++ after) = .ok tree) :
    ∃ tree', Script.parse (before ++ piece' ++ after) = .ok tree' ∧
      (node'.asCondition = node.asCondition → tree' = tree) := by
  rcases hplace.ends with ⟨mark, rest, hafter, hmark⟩
  rcases hfills.words with ⟨phrase, hwords, _, hphrase⟩
  rcases hfills'.words with ⟨phrase', hwords', _, hphrase'⟩
  have hend : mark.EndsPhrase := by
    rcases hmark with rfl | rfl
    · exact Word.endsPhrase_semicolon
    · exact Word.endsPhrase_closing
  rcases derivesScript_of_parse hparse with ⟨nodes, sites, rfl, hderives⟩
  rw [hwords, hafter] at hderives
  rcases hplace.awaits.exchange ⟨_, hphrase.beforeEnd hend⟩ ⟨_, hphrase'.beforeEnd hend⟩
    hderives with ⟨nodes', sites', hderives', hsame⟩
  rw [← hafter, ← hwords'] at hderives'
  refine ⟨.block nodes', hderives'.parse_eq hfills'.fault, fun h => ?_⟩
  rw [hsame h]

/-- The words of a text that is put in the place. -/
theorem fillsPlace (hplace : IsConditionPlace before after) {inner : List Word}
    (hpiece : ∀ {words}, LexesTo .standard after.toList words →
      LexesTo .standard (piece.toList ++ after.toList) (inner ++ words))
    (hphrase : Derivable (.expression node) (inner.map Word.classified) none) :
    FillsPlace before after piece node := by
  have hbehind : ∃ lexed, Script.words before = lexed.map Word.classified ∧
      ∀ {input words}, LexesTo .standard input words →
        LexesTo .standard (before.toList ++ input) (lexed ++ words) := by
    rcases hplace.awaits.getLast? with hlast | hlast
    · exact exists_lexesTo_behind separates_parentheses.1 (by decide) (by decide) (by decide)
        hplace.fault_before hlast hplace.closed
    · exact exists_lexesTo_behind separates_semicolon (by decide) (by decide) (by decide)
        hplace.fault_before hlast hplace.closed
  rcases hbehind with ⟨lexed, hbefore, hbehind⟩
  have hafter := lexesTo_of_fault_eq_none standard_operators_ne hplace.fault_after
  have hall := hbehind (hpiece hafter)
  rw [← String.toList_append, ← String.toList_append, ← String.append_assoc] at hall
  rcases hall.words_eq with ⟨hfault, hwords⟩
  refine ⟨hfault, inner.map Word.classified, ?_, hphrase⟩
  rw [hwords, List.map_append, List.map_append, ← hbefore, hafter.words_eq.2]

end IsConditionPlace

/-! ## Bare conditions and comparisons -/

/-- A script of one statement without a semicolon at its end is an expression. -/
theorem DerivesScript.single {sites : List Site} (hderives : DerivesScript [node] words sites)
    (hlast : words.getLast? ≠ some (.operator ";")) : Derivable (.expression node) words none := by
  cases hderives with
  | last hexpression => exact ⟨_, hexpression⟩
  | cons _ hothers =>
      cases hothers with
      | nil => simp at hlast

/-- An expression in parentheses, compared with `true`. -/
theorem Derivable.comparedWithTrue {phrase : List Word}
    (hphrase : Derivable (.expression node) phrase none) :
    Derivable (.expression (.binary .eq node (.boolean true)))
      (.operator "(" :: (phrase ++ [.operator ")", .operator "==", .keyword "true"])) none := by
  rcases hphrase with ⟨_, hphrase⟩
  have hleft : Derives (.primary node) _ (some (.operator BinaryOperator.eq.symbol)) _ :=
    .parenthesised (hphrase.beforeEnd Word.endsPhrase_closing)
  have hright : Derives (.primary (.boolean true)) _ none _ := @Derives.boolean true none
  have htree := Derives.binary (.single (hleft.withoutArguments (by simp [BinaryOperator.symbol])))
    (.single (hright.withoutArguments (by simp))) (by simp) (by simp)
  have hcomparison := (Derives.operation htree (by simp)).withoutCall (by simp)
  refine hcomparison.of_words ?_
  simp [BinaryOperator.symbol]

/-- Blanks separate words. -/
theorem separates_blank : Separates .standard ' ' :=
  ⟨by decide, by decide, by decide, by decide, by decide⟩

/-- The comparison with `true`, in front of a text that does not continue the last word. -/
theorem LexesTo.comparedWithTrue (hhead : ∀ c ∈ input.head?, isWordChar c = false)
    (hinput : LexesTo .standard input words) :
    LexesTo .standard (") == true".toList ++ input)
      (.operator ")" :: .operator "==" :: .name "true" :: words) := by
  have htrue : Lexeme.Maximal .standard ⟨.identifier, ['t', 'r', 'u', 'e']⟩ input :=
    .word (by decide) (List.all_eq_true.1 (by decide)) hhead
  have hvalue := hinput.cons (Lexeme.scan?_of_maximal standard_operators_ne htrue) rfl
  have hspaced := hvalue.space standard_operators_ne (c := ' ') (by decide)
  have hoperator : ∀ rest, Lexeme.Maximal .standard ⟨.operator, ['=', '=']⟩ (' ' :: rest) := by
    intro rest
    have hscan : Lexeme.scan? .standard ['=', '='] = some ⟨.operator, ['=', '=']⟩ := by decide
    rcases Lexeme.maximal_of_scan? hscan with ⟨following, hfollowing, hmaximal⟩
    cases hfollowing
    exact @Lexeme.Maximal.insert _ standard_operators_ne _ [] [] rest _ hmaximal separates_blank
      (by simp)
  have hcompared := hspaced.cons
    (Lexeme.scan?_of_maximal standard_operators_ne (hoperator _)) rfl
  have hall := (hcompared.space standard_operators_ne (c := ' ') (by decide)).separator
    separates_parentheses.2 (by decide) (by decide)
  exact hall

namespace IsConditionPlace

variable {before after condition : String} {node : Node}

/-- A script of one expression is lexed as its words in front of a line break. -/
theorem exists_condition (hcondition : Script.parse condition = .ok (.block [node]))
    (hlast : (Script.words condition).getLast? ≠ some (.operator ";")) :
    ∃ lexed, Derivable (.expression node) (lexed.map Word.classified) none ∧
      ∀ {rest words}, LexesTo .standard rest words →
        LexesTo .standard (condition.toList ++ '\n' :: rest) (lexed ++ words) := by
  have hfault := Script.fault_eq_none_of_parse hcondition
  rcases exists_segmented hfault with ⟨lexemes, hsegmented⟩
  rcases derivesScript_of_parse hcondition with ⟨_, _, ⟨⟩, hderives⟩
  have hphrase := hderives.single hlast
  rw [hsegmented.words_eq.2] at hphrase
  refine ⟨lexemes.flatMap Lexeme.words, hphrase, fun hrest => ?_⟩
  have hline := hsegmented.lexesTo_line standard_operators_ne (by decide) separates_lineFeed hrest
  have htext := hsegmented.text_eq
  rw [List.append_nil] at htext
  rwa [← htext] at hline

/-- A script of one expression, with a line break behind it, is a condition. -/
theorem fillsPlace_line (hplace : IsConditionPlace before after)
    (hcondition : Script.parse condition = .ok (.block [node]))
    (hlast : (Script.words condition).getLast? ≠ some (.operator ";")) :
    FillsPlace before after (condition ++ "\n") node := by
  rcases exists_condition hcondition hlast with ⟨lexed, hphrase, hlexes⟩
  refine hplace.fillsPlace (fun hafter => ?_) hphrase
  simpa using hlexes hafter

/-- In parentheses it can be compared with `true`. -/
theorem fillsPlace_comparison (hplace : IsConditionPlace before after)
    (hcondition : Script.parse condition = .ok (.block [node]))
    (hlast : (Script.words condition).getLast? ≠ some (.operator ";")) :
    FillsPlace before after ("(" ++ condition ++ "\n) == true")
      (.binary .eq node (.boolean true)) := by
  rcases exists_condition hcondition hlast with ⟨lexed, hphrase, hlexes⟩
  have hhead : ∀ c ∈ after.toList.head?, isWordChar c = false := by
    rcases hplace.ends with ⟨_, rest, hwords, rfl | rfl⟩
    · exact head?_of_words hplace.fault_after hwords
    · exact head?_of_words hplace.fault_after hwords
  have htext : ("(" ++ condition ++ "\n) == true").toList ++ after.toList =
      '(' :: (condition.toList ++ '\n' :: (") == true".toList ++ after.toList)) := by
    simp
  have hpiece {words : List Word} (hafter : LexesTo .standard after.toList words) :
      LexesTo .standard (("(" ++ condition ++ "\n) == true").toList ++ after.toList)
        (.operator "(" :: (lexed ++ [.operator ")", .operator "==", .name "true"]) ++ words) := by
    have hcompared := (hlexes (hafter.comparedWithTrue hhead)).separator separates_parentheses.1
      (by decide) (by decide)
    rw [htext]
    simpa using hcompared
  have hopening : Word.classified (.operator "(") = .operator "(" := by decide
  have hcomparison : [.operator ")", .operator "==", .name "true"].map Word.classified =
      [.operator ")", .operator "==", .keyword "true"] := by decide
  refine hplace.fillsPlace hpiece ?_
  rw [List.map_cons, List.map_append, hopening, hcomparison]
  exact hphrase.comparedWithTrue

end IsConditionPlace

/-- The condition `true` can be parsed. -/
theorem parse_true : Script.parse "true" = .ok (.block [.boolean true]) := by
  have hsegmented : Segmented .standard "true".toList
      [⟨.identifier, ['t', 'r', 'u', 'e']⟩] [] := .ofScan (by decide) (.stop _)
  have hderives : DerivesScript [_] [.keyword "true"] _ :=
    .last ((@Derives.boolean true none).alone (by simp) (by simp))
  have hwords : Script.words "true" = [.keyword "true"] := hsegmented.words_eq.2.trans (by decide)
  rw [← hwords] at hderives
  exact hderives.parse_eq hsegmented.words_eq.1

/-- Other nodes are compared with `true`. -/
theorem Node.asCondition_of_ne
    (hplain : ∀ operator left right, node ≠ .binary operator left right) :
    node.asCondition = .binary .eq node (.boolean true) := by
  cases node with
  | binary operator left right => exact absurd rfl (hplain operator left right)
  | _ => rfl

/-- A bare condition of a rule is a comparison with `true`.  Let a text be a script of one
expression that is not an operation, without a semicolon at its end.  Wherever a condition can stand
in the list of a rule, be the rule a statement or inside blocks and other rules, this text with a
line break behind it can stand there if `true` can, and the script is parsed as the same tree with
the comparison of the text in parentheses with `true` in its place.  So both scripts compile to the
same text, or both fail in the same way. -/
theorem parse_bareCondition {condition before after : String} {node : Node}
    (hcondition : Script.parse condition = .ok (.block [node]))
    (hplain : ∀ operator left right, node ≠ .binary operator left right)
    (hlast : (Script.words condition).getLast? ≠ some (.operator ";"))
    (hplace : IsConditionPlace before after) :
    ((∃ tree, Script.parse (before ++ (condition ++ "\n") ++ after) = .ok tree) ↔
      ∃ tree, Script.parse (before ++ "true\n" ++ after) = .ok tree) ∧
    (∀ tree, Script.parse (before ++ (condition ++ "\n") ++ after) = .ok tree ↔
      Script.parse (before ++ ("(" ++ condition ++ "\n) == true") ++ after) = .ok tree) ∧
    ∀ options tree, Script.parse (before ++ (condition ++ "\n") ++ after) = .ok tree →
      compile (before ++ (condition ++ "\n") ++ after) options =
        compile (before ++ ("(" ++ condition ++ "\n) == true") ++ after) options := by
  have hline := hplace.fillsPlace_line hcondition hlast
  have hcomparison := hplace.fillsPlace_comparison hcondition hlast
  have hsame := Node.asCondition_of_ne hplain
  have htree : ∀ tree, Script.parse (before ++ (condition ++ "\n") ++ after) = .ok tree ↔
      Script.parse (before ++ ("(" ++ condition ++ "\n) == true") ++ after) = .ok tree := by
    intro tree
    constructor
    · intro hparse
      rcases hplace.exchange hline hcomparison hparse with ⟨tree', hparse', htrees⟩
      rw [hparse', htrees hsame.symm]
    · intro hparse
      rcases hplace.exchange hcomparison hline hparse with ⟨tree', hparse', htrees⟩
      rw [hparse', htrees hsame]
  refine ⟨?_, htree, ?_⟩
  · have htrue : FillsPlace before after ("true" ++ "\n") (.boolean true) :=
      hplace.fillsPlace_line parse_true (by decide)
    constructor
    · rintro ⟨tree, hparse⟩
      rcases hplace.exchange hline htrue hparse with ⟨tree', hparse', _⟩
      exact ⟨tree', hparse'⟩
    · rintro ⟨tree, hparse⟩
      rcases hplace.exchange htrue hline hparse with ⟨tree', hparse', _⟩
      exact ⟨tree', hparse'⟩
  · intro options tree hparse
    rw [compile, compile, hparse, (htree tree).1 hparse]

/-- A negation with a comment behind it, in a rule of a block.  A declaration and another condition
stand in front of it. -/
theorem parse_bareCondition_negation :
    Script.parse "!y//;" = .ok (.block [.negation (.identifier "y" none)]) ∧
    (Script.words "!y//;").getLast? ≠ some (.operator ";") ∧
    IsConditionPlace "\x7bvar y; rule \"R\": Event.player(all) if (y; " ") \x7b\x7d\x7d" ∧
    ∃ tree,
      Script.parse "\x7bvar y; rule \"R\": Event.player(all) if (y; !y//;\n) \x7b\x7d\x7d" =
        .ok tree ∧
      Script.parse
        "\x7bvar y; rule \"R\": Event.player(all) if (y; (!y//;\n) == true) \x7b\x7d\x7d" =
        .ok tree := by
  have hname {next : Option Word} (hnext : ∀ other ∈ next, other.EndsPhrase) :
      Derives (.expression (.identifier "y" none)) [.name "y"] next [] :=
    (Derives.name (.name "y") fun other hother => (hnext other hother).endsName).alone
      (fun hother => (hnext _ hother).notOpening rfl)
      fun other hother => (hnext other hother).isNoOperator
  have hsemicolon : ∀ other ∈ some (Word.operator ";"), other.EndsPhrase := by
    rintro _ ⟨⟩
    exact Word.endsPhrase_semicolon
  have hcondition : Script.parse "!y//;" = .ok (.block [.negation (.identifier "y" none)]) := by
    have hderives : DerivesScript [.negation (.identifier "y" none)]
        [.operator "!", .name "y"] _ :=
      .last ((Derives.negation (hname (by simp))).alone (by simp) (by simp))
    have hwords : Script.words "!y//;" = [.operator "!", .name "y"] := by decide +kernel
    rw [← hwords] at hderives
    exact hderives.parse_eq (by decide +kernel)
  have hlast : (Script.words "!y//;").getLast? ≠ some (.operator ";") := by decide +kernel
  have hplace :
      IsConditionPlace "\x7bvar y; rule \"R\": Event.player(all) if (y; " ") \x7b\x7d\x7d" := by
    refine ⟨by decide +kernel, ?_, ?_, by decide +kernel, _,
      [.operator "\x7b", .operator "\x7d", .operator "\x7d"], by decide +kernel, .inr rfl⟩
    · have hwords : Script.words "\x7bvar y; rule \"R\": Event.player(all) if (y; " =
          [] ++ .operator "\x7b" :: ([.keyword "var", .name "y", .operator ";"] ++
            (ruleHeader "R" (.keyword "player") ++ ([.name "all", .operator ")"] ++
              .keyword "if" :: .operator "(" :: [.name "y", .operator ";"]))) := by decide +kernel
      have hdeclaration : Derives (.expression (.declare "var" "y" false none))
          [.keyword "var", .name "y"] (some (.operator ";")) [] :=
        (Derives.declare (.inr (.inr rfl)) (by simp)).alone (by simp)
          fun other hother => (hsemicolon other hother).isNoOperator
      rw [hwords]
      exact .intro .nil (.block (.cons ⟨_, hdeclaration⟩ .nil)
        (.condition (.first (by simp) (.closed false)) (.cons ⟨_, hname hsemicolon⟩ .nil)))
    · rintro ⟨token, hlast, _, hcomment⟩
      have hblank :
          (lex .standard "\x7bvar y; rule \"R\": Event.player(all) if (y; ").tokens.getLast?.map
            Token.text = some " " := by decide +kernel
      rw [Option.mem_def.1 hlast, Option.map_some, Option.some.injEq] at hblank
      rw [hblank] at hcomment
      revert hcomment
      decide
  rcases parse_bareCondition hcondition (by simp) hlast hplace with ⟨hread, hsame, _⟩
  have htrue : ∃ tree, Script.parse
      "\x7bvar y; rule \"R\": Event.player(all) if (y; true\n) \x7b\x7d\x7d" = .ok tree := by
    have hok : (Script.parse
        "\x7bvar y; rule \"R\": Event.player(all) if (y; true\n) \x7b\x7d\x7d").isOk = true := by
      decide +kernel
    generalize Script.parse _ = outcome at hok
    cases outcome with
    | ok tree => exact ⟨tree, rfl⟩
    | error diagnostic => cases hok
  rcases hread.2 htrue with ⟨tree, hparse⟩
  exact ⟨hcondition, hlast, hplace, tree, hparse, (hsame tree).1 hparse⟩

end Workshop

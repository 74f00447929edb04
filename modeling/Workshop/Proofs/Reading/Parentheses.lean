import Workshop.Proofs.Reading.Completeness
import Workshop.Proofs.Reading.Enclosing
import Workshop.Proofs.Reading.Invariance
import Workshop.Proofs.Reading.Soundness
import Workshop.Proofs.Tree

/-!
# Parentheses in source texts

An expression of a source text can be put in parentheses, and the text is parsed
as the same tree.  What the parentheses are put around is the text of the
expression, from its first word to its last one: the spacing around it stays
outside, since a parenthesis behind a comment would belong to the comment.

Main definitions:

- `readWords`: the words of lexemes, with keywords told from identifiers.
- `Site.StandsIn`: where an expression stands in a source text.
- `parenthesisedText`: the text with parentheses around the expression.

Main results:

- Theorem `Segmented.insert`: lexemes stay what they are in front of a separating
  character.
- Theorem `Site.exists_standsIn`: every expression stands somewhere.
- Theorem `Site.StandsIn.segmented_enclosed`: the parentheses are lexemes, and the
  others stay.
- Theorem `parse_parenthesised`: parentheses keep the tree.
-/

namespace Workshop

variable {vocabulary : Vocabulary} {source : String} {first second : List Word}
  {lexemes : List Lexeme}

/-! ## Parentheses between lexemes -/

namespace Segmented

variable {input middle rest : List Char} {first second : List Lexeme}

theorem append (hfirst : Segmented vocabulary input first middle)
    (hsecond : Segmented vocabulary middle second rest) :
    Segmented vocabulary input (first ++ second) rest := by
  induction hfirst with
  | stop => exact hsecond
  | cons hmaximal _ ih => exact .cons hmaximal (ih hsecond)

/-- The lexeme that is found comes first. -/
theorem ofScan {lexeme : Lexeme} (hscan : Lexeme.scan? vocabulary input = some lexeme)
    (hfirst : Segmented vocabulary (input.drop lexeme.chars.length) first rest) :
    Segmented vocabulary input (lexeme :: first) rest := by
  rcases Lexeme.maximal_of_scan? hscan with ⟨following, rfl, hmaximal⟩
  rw [List.drop_left] at hfirst
  exact .cons hmaximal hfirst

/-- Lexemes stay what they are in front of a separating character.  Spacing at their end must not
go on with that character, and a comment there must have ended. -/
theorem insert (hoperators : "" ∉ vocabulary.operators)
    (hfirst : Segmented vocabulary input first middle) {c : Char} (hc : Separates vocabulary c)
    (hapart : ∀ lexeme ∈ first.getLast?, lexeme.kind = .blank →
      isSpace c = false ∧ ∃ d ∈ middle.head?, isLineBreak d = false) (rest : List Char) :
    Segmented vocabulary (first.flatMap Lexeme.chars ++ c :: rest) first (c :: rest) := by
  induction hfirst with
  | stop => exact .stop _
  | @cons lexeme others following middle hmaximal hothers ih =>
      have hlater : ∀ other ∈ others.getLast?, other.kind = .blank →
          isSpace c = false ∧ ∃ d ∈ middle.head?, isLineBreak d = false := by
        intro other hlast
        apply hapart other
        rw [List.getLast?_cons, Option.mem_def.1 hlast]
        rfl
      rw [hothers.text_eq] at hmaximal
      rw [List.flatMap_cons, List.append_assoc]
      refine .cons (hmaximal.insert hoperators hc fun hnone hblank => ?_) (ih hlater)
      rw [hothers.eq_nil_of_chars hoperators hnone] at hapart
      exact hapart lexeme rfl hblank

/-- A text whose first lexeme is not spacing does not start with a line break. -/
theorem head?_of_word (hoperators : "" ∉ vocabulary.operators) {lexeme : Lexeme}
    (hsegmented : Segmented vocabulary input (lexeme :: first) rest)
    (hword : lexeme.kind ≠ .blank) : ∃ d ∈ input.head?, isLineBreak d = false := by
  cases hsegmented with
  | cons hmaximal _ =>
      have hscan := Lexeme.scan?_of_maximal hoperators hmaximal
      cases hchars : lexeme.chars with
      | nil => exact absurd hchars (hmaximal.chars_ne_nil hoperators)
      | cons d others =>
          refine ⟨d, rfl, ?_⟩
          by_contra hbreak
          rw [Bool.not_eq_false] at hbreak
          rw [hchars, List.cons_append, Lexeme.scan?_lineBreak hbreak] at hscan
          cases hscan
          exact hword rfl

end Segmented

/-- An operator of one character that separates is a lexeme wherever it stands. -/
theorem Lexeme.Maximal.ofSeparates {c : Char} (hc : Separates vocabulary c)
    (hmem : String.singleton c ∈ vocabulary.operators) (hstarts : startsOperator c = true)
    (following : List Char) : Maximal vocabulary ⟨.operator, [c]⟩ following := by
  have hchars : (String.singleton c).toList = [c] := by simp
  have hlength : (String.singleton c).length = 1 := by simp
  rw [← hchars]
  refine .operator hmem ?_ ?_ ?_
  · intro d hd
    rw [hchars] at hd
    cases hd
    exact hstarts
  · intro hcomment
    rw [hchars, List.singleton_append, List.cons_prefix_cons] at hcomment
    exact hc.notSlash hcomment.1.symm
  · intro other hother hbegins
    rw [hlength]
    rw [hchars, List.singleton_append] at hbegins
    cases hspelling : other.toList with
    | nil =>
        rw [← String.length_toList, hspelling]
        exact Nat.zero_le 1
    | cons d others =>
        rw [hspelling, List.cons_prefix_cons] at hbegins
        apply hc.alone other hother
        rw [hspelling, hbegins.1]
        exact List.mem_cons_self

/-- Parentheses belong to no longer operator. -/
theorem separates_parentheses : Separates .standard '(' ∧ Separates .standard ')' := by
  constructor
  · exact ⟨by decide, by decide, by decide, by decide, by decide⟩
  · exact ⟨by decide, by decide, by decide, by decide, by decide⟩

/-! ## Words of lexemes -/

/-- The words of lexemes, with keywords told from identifiers. -/
def readWords (lexemes : List Lexeme) : List Word :=
  (lexemes.flatMap Lexeme.words).map Word.classified

@[simp]
theorem readWords_append (first second : List Lexeme) :
    readWords (first ++ second) = readWords first ++ readWords second := by
  simp [readWords]

theorem readWords_cons (lexeme : Lexeme) (lexemes : List Lexeme) :
    readWords (lexeme :: lexemes) = lexeme.words.map Word.classified ++ readWords lexemes := by
  simp [readWords]

theorem readWords_cons_blank {lexeme : Lexeme} (hblank : lexeme.kind = .blank)
    (lexemes : List Lexeme) : readWords (lexeme :: lexemes) = readWords lexemes := by
  rw [readWords_cons, Lexeme.words, if_pos hblank]
  rfl

/-- The words that a source text is lexed into. -/
theorem LexesTo.words_eq {words : List Word} (hlexes : LexesTo .standard source.toList words) :
    (TokenStream.ofSource .standard source).fault = none ∧
      Script.words source = words.map Word.classified :=
  hlexes.significant .start

/-- A source text is cut into lexemes without a fault, and its words are theirs. -/
theorem Segmented.words_eq (hsegmented : Segmented .standard source.toList lexemes []) :
    (TokenStream.ofSource .standard source).fault = none ∧
      Script.words source = readWords lexemes :=
  (hsegmented.lexesTo standard_operators_ne).words_eq

/-- Words are cut behind a lexeme that is a word, so spacing there belongs to the second part. -/
theorem exists_split_behind (hwords : readWords lexemes = first ++ second) :
    ∃ before behind, lexemes = before ++ behind ∧ readWords before = first ∧
      readWords behind = second ∧ ∀ lexeme ∈ before.getLast?, lexeme.kind ≠ .blank := by
  induction lexemes generalizing first with
  | nil =>
      rcases List.append_eq_nil_iff.1 hwords.symm with ⟨rfl, rfl⟩
      exact ⟨[], [], rfl, rfl, rfl, by simp⟩
  | cons lexeme lexemes ih =>
      cases first with
      | nil => exact ⟨[], lexeme :: lexemes, rfl, rfl, hwords, by simp⟩
      | cons word words =>
          by_cases hblank : lexeme.kind = .blank
          · rw [readWords_cons_blank hblank] at hwords
            rcases ih hwords with ⟨before, behind, rfl, hbefore, hbehind, hlast⟩
            refine ⟨lexeme :: before, behind, rfl, ?_, hbehind, ?_⟩
            · rw [readWords_cons_blank hblank, hbefore]
            · -- The words of the first part are not all in the spacing.
              cases before with
              | nil => cases hbefore
              | cons other others => exact hlast
          · rw [readWords_cons, Lexeme.words, if_neg hblank] at hwords
            rcases List.cons.inj hwords with ⟨hword, hrest⟩
            rcases ih hrest with ⟨before, behind, rfl, hbefore, hbehind, hlast⟩
            refine ⟨lexeme :: before, behind, rfl, ?_, hbehind, ?_⟩
            · rw [readWords_cons, Lexeme.words, if_neg hblank, hbefore, ← hword]
              rfl
            · intro other hother
              cases before with
              | nil =>
                  cases hother
                  exact hblank
              | cons next others => exact hlast other hother

/-- Words are cut in front of a lexeme that is a word, so spacing there belongs to the first
part. -/
theorem exists_split_before (hwords : readWords lexemes = first ++ second) :
    ∃ before behind, lexemes = before ++ behind ∧ readWords before = first ∧
      readWords behind = second ∧ ∀ lexeme ∈ behind.head?, lexeme.kind ≠ .blank := by
  rcases exists_split_behind hwords with ⟨before, behind, rfl, hbefore, hbehind, -⟩
  induction behind generalizing before with
  | nil => exact ⟨before, [], rfl, hbefore, hbehind, by simp⟩
  | cons lexeme behind ih =>
      by_cases hblank : lexeme.kind = .blank
      · have hspacing : readWords (before ++ [lexeme]) = first := by
          rw [readWords_append, readWords_cons_blank hblank, hbefore]
          exact List.append_nil first
        rw [readWords_cons_blank hblank] at hbehind
        rcases ih (before ++ [lexeme]) (by simpa using hwords) hspacing hbehind with
          ⟨before', behind', hcut, hparts⟩
        exact ⟨before', behind', by simpa using hcut, hparts⟩
      · refine ⟨before, lexeme :: behind, rfl, hbefore, hbehind, ?_⟩
        intro other hother
        cases hother
        exact hblank

/-! ## Expressions in a source text -/

/-- Where an expression stands in a source text: the lexemes in front of it, its own and those
behind it.  Its text starts and ends with a word. -/
structure Site.StandsIn (site : Site) (source : String) (before phrase behind : List Lexeme) :
    Prop where
  segmented : Segmented .standard source.toList (before ++ phrase ++ behind) []
  before_eq : readWords before = site.before
  phrase_eq : readWords phrase = site.phrase
  behind_eq : readWords behind = site.behind
  starts : ∀ lexeme ∈ phrase.head?, lexeme.kind ≠ .blank
  ends : ∀ lexeme ∈ phrase.getLast?, lexeme.kind ≠ .blank

/-- The text of lexemes with parentheses around some of them. -/
def parenthesisedText (before phrase behind : List Lexeme) : String :=
  String.ofList (before.flatMap Lexeme.chars ++ '(' :: phrase.flatMap Lexeme.chars ++
    ')' :: behind.flatMap Lexeme.chars)

namespace Site

variable {site : Site} {source : String} {before phrase behind : List Lexeme}

/-- Every expression among the words of a source text stands somewhere in the text. -/
theorem exists_standsIn (hfault : (TokenStream.ofSource .standard source).fault = none)
    (hwords : site.words = Script.words source) :
    ∃ before phrase behind, site.StandsIn source before phrase behind := by
  rcases exists_segmented hfault with ⟨lexemes, hsegmented⟩
  rw [hsegmented.words_eq.2] at hwords
  rcases exists_split_behind hwords.symm with ⟨front, behind, rfl, hfront, hbehind, hlast⟩
  rcases exists_split_before hfront with ⟨before, phrase, rfl, hbefore, hown, hfirst⟩
  refine ⟨before, phrase, behind, hsegmented, hbefore, hown, hbehind, hfirst, ?_⟩
  intro lexeme hmem
  apply hlast
  rw [List.getLast?_append, Option.mem_def.1 hmem]
  rfl

namespace StandsIn

/-- The parentheses are lexemes, and the other lexemes stay what they are. -/
theorem segmented_enclosed (hstands : site.StandsIn source before phrase behind)
    (hphrase : site.phrase ≠ []) :
    Segmented .standard (parenthesisedText before phrase behind).toList
      (before ++ ⟨.operator, ['(']⟩ :: (phrase ++ ⟨.operator, [')']⟩ :: behind)) [] := by
  rcases hstands.segmented.split with ⟨hfront, hbehind⟩
  rcases hfront.split with ⟨hbefore, hown⟩
  rw [List.append_nil] at hbefore hown hbehind
  have hopening := Lexeme.Maximal.ofSeparates separates_parentheses.1 (by decide) (by decide)
    (phrase.flatMap Lexeme.chars ++ ')' :: behind.flatMap Lexeme.chars)
  have hclosing := Lexeme.Maximal.ofSeparates separates_parentheses.2 (by decide) (by decide)
    (behind.flatMap Lexeme.chars)
  have hfirst : ∃ d ∈ (phrase.flatMap Lexeme.chars ++ behind.flatMap Lexeme.chars).head?,
      isLineBreak d = false := by
    cases phrase with
    | nil => exact absurd hstands.phrase_eq.symm hphrase
    | cons lexeme others =>
        exact hown.head?_of_word standard_operators_ne (hstands.starts lexeme rfl)
  have hbefore' := hbefore.insert standard_operators_ne separates_parentheses.1
    (fun lexeme _ _ => ⟨by decide, hfirst⟩)
    (phrase.flatMap Lexeme.chars ++ ')' :: behind.flatMap Lexeme.chars)
  have hown' := hown.insert standard_operators_ne separates_parentheses.2
    (fun lexeme hlast hblank => absurd hblank (hstands.ends lexeme hlast))
    (behind.flatMap Lexeme.chars)
  have hall := hbefore'.append (.cons hopening (hown'.append (.cons hclosing hbehind)))
  simpa [parenthesisedText] using hall

/-- The words of the text with parentheses. -/
theorem words_enclosed (hstands : site.StandsIn source before phrase behind)
    (hphrase : site.phrase ≠ []) :
    (TokenStream.ofSource .standard (parenthesisedText before phrase behind)).fault = none ∧
      Script.words (parenthesisedText before phrase behind) = site.enclosed := by
  rcases (hstands.segmented_enclosed hphrase).words_eq with ⟨hfault, hwords⟩
  have hopening : (Lexeme.mk .operator ['(']).words.map Word.classified = [.operator "("] := by
    decide
  have hclosing : (Lexeme.mk .operator [')']).words.map Word.classified = [.operator ")"] := by
    decide
  refine ⟨hfault, ?_⟩
  rw [hwords, readWords_append, readWords_cons, readWords_append, readWords_cons, hopening,
    hclosing, hstands.before_eq, hstands.phrase_eq, hstands.behind_eq, enclosed]
  simp only [List.append_assoc, List.cons_append, List.nil_append]

end StandsIn

/-- The second source text is the first one with parentheses around the text of an expression. -/
inductive Parenthesises (site : Site) (source : String) : String → Prop
  | intro {nodes : List Node} {sites : List Site} {before phrase behind : List Lexeme} :
      DerivesScript nodes (Script.words source) sites → site ∈ sites →
      site.StandsIn source before phrase behind →
      Parenthesises site source (parenthesisedText before phrase behind)

end Site

/-- Parentheses around an expression keep the tree that a source text is parsed as.  The text has
a derivation, which lists its expressions, and each of them has a text that parentheses can be put
around.  Whichever derivation it is, the tree stays the same, unless the parentheses would be taken
for the arguments of a call, would be called themselves, or would be taken for an operand of the
operator behind them. -/
theorem parse_parenthesised {source : String} {tree : Node}
    (hparse : Script.parse source = .ok tree) :
    (∃ nodes sites, tree = .block nodes ∧ DerivesScript nodes (Script.words source) sites ∧
      ∀ site ∈ sites, ∃ source', site.Parenthesises source source') ∧
    ∀ (site : Site) source', site.Parenthesises source source' → site.MayBeEnclosed none →
      Script.parse source' = .ok tree := by
  have hfault := Script.fault_eq_none_of_parse hparse
  constructor
  · rcases derivesScript_of_parse hparse with ⟨nodes, sites, rfl, hderives⟩
    refine ⟨nodes, sites, rfl, hderives, ?_⟩
    intro site hmem
    rcases Site.exists_standsIn hfault (hderives.lieIn site hmem).1 with
      ⟨before, phrase, behind, hstands⟩
    exact ⟨_, .intro hderives hmem hstands⟩
  · rintro site _ ⟨hderives, hmem, hstands⟩ hallowed
    rw [hderives.parse_eq hfault] at hparse
    cases hparse
    rcases hstands.words_enclosed (hderives.lieIn site hmem).2 with ⟨hfault', hwords⟩
    rcases hderives.enclose hmem hallowed with ⟨inner, henclosed⟩
    rw [← hwords] at henclosed
    exact henclosed.parse_eq hfault'

/-- Parentheses around an operand behind a comment. -/
theorem parse_parenthesised_operand :
    Script.parse "!a*//(\nb" =
      .ok (.block [.negation (.binary .mul (.identifier "a" none) (.identifier "b" none))]) ∧
    ∃ site : Site, site.role = .operand ∧ site.Parenthesises "!a*//(\nb" "!a*//(\n(b)" ∧
      site.MayBeEnclosed none ∧ Script.parse "!a*//(\n(b)" =
        .ok (.block [.negation (.binary .mul (.identifier "a" none) (.identifier "b" none))]) := by
  have hsegmented : Segmented .standard "!a*//(\nb".toList
      ([⟨.operator, ['!']⟩, ⟨.identifier, ['a']⟩, ⟨.operator, ['*']⟩, ⟨.blank, ['/', '/', '(']⟩,
        ⟨.blank, ['\n']⟩] ++ [⟨.identifier, ['b']⟩] ++ []) [] :=
    .ofScan (by decide) (.ofScan (by decide) (.ofScan (by decide) (.ofScan (by decide)
      (.ofScan (by decide) (.ofScan (by decide) (.stop _))))))
  have hwords : Script.words "!a*//(\nb" =
      [.operator "!", .name "a", .operator "*", .name "b"] :=
    hsegmented.words_eq.2.trans (by decide)
  have hproduct : Derives (.tree (some .mul) _) _ none _ :=
    .binary (.single ((Derives.name (.name "a") (by simp [Word.EndsName, BinaryOperator.symbol]))
        |>.withoutArguments (by decide)))
      (.single ((Derives.name (.name "b") (by simp)).withoutArguments (by simp)))
      (by simp) (by simp)
  have hoperand := (Derives.operation hproduct (by simp)).withoutCall (by simp)
  have hderives : DerivesScript [_] [.operator "!", .name "a", .operator "*", .name "b"] _ :=
    .last ((Derives.negation hoperand).alone (by simp) (by simp))
  rw [← hwords] at hderives
  have hparse := hderives.parse_eq hsegmented.words_eq.1
  have hparenthesises : Site.Parenthesises
      ⟨.operand, [.operator "!", .name "a", .operator "*"], [.name "b"], [], []⟩
      "!a*//(\nb" "!a*//(\n(b)" :=
    .intro hderives (by simp [inside, Site.within, Site.whole, BinaryOperator.symbol])
      ⟨hsegmented, by decide, by decide, by decide, by simp, by simp⟩
  have hallowed : Site.MayBeEnclosed
      ⟨.operand, [.operator "!", .name "a", .operator "*"], [.name "b"], [], []⟩ none :=
    ⟨by simp, by simp, by simp⟩
  exact ⟨hparse, _, rfl, hparenthesises, hallowed,
    (parse_parenthesised hparse).2 _ _ hparenthesises hallowed⟩

/-- How many parts the parts of the statements of a tree have. -/
def Node.partSizes (tree : Node) : List Nat :=
  (tree.parts.flatMap Node.parts).map fun part => part.parts.length

/-- Source texts that are parsed as trees with parts of different sizes. -/
theorem Script.exists_ne_of_partSizes {source' : String} {sizes sizes' : List Nat}
    (hsizes : (Script.parse source).toOption.map Node.partSizes = some sizes)
    (hsizes' : (Script.parse source').toOption.map Node.partSizes = some sizes')
    (hdifferent : sizes ≠ sizes') :
    ∃ tree tree', Script.parse source = .ok tree ∧ Script.parse source' = .ok tree' ∧
      tree ≠ tree' := by
  cases hparse : Script.parse source with
  | error diagnostic =>
      rw [hparse] at hsizes
      cases hsizes
  | ok tree =>
      cases hparse' : Script.parse source' with
      | error diagnostic =>
          rw [hparse'] at hsizes'
          cases hsizes'
      | ok tree' =>
          rw [hparse] at hsizes
          rw [hparse'] at hsizes'
          cases hsizes
          cases hsizes'
          refine ⟨tree, tree', rfl, rfl, ?_⟩
          rintro rfl
          exact hdifferent rfl

/-- Parentheses around the branch of a choice can be taken for the arguments of a call of the
condition, and then the text is not parsed any more.  In front of arguments, and in front of an
operator, parentheses can change the tree. -/
theorem parse_parenthesised_branch_fails :
    (∃ site : Site, site.role = .branch ∧ site.Parenthesises "if true b" "if true (b)") ∧
    Script.parse "if true b" =
      .ok (.block [.choice (.boolean true) (.identifier "b" none) none]) ∧
    (Script.parse "if true (b)").isOk = false ∧
    (∃ tree tree', Script.parse "a + f(1)(2)" = .ok tree ∧
      Script.parse "a + (f(1))(2)" = .ok tree' ∧ tree ≠ tree') ∧
    ∃ tree tree', Script.parse "!f(1)(2) * 3" = .ok tree ∧
      Script.parse "!(f(1)(2)) * 3" = .ok tree' ∧ tree ≠ tree' := by
  have hsegmented : Segmented .standard "if true b".toList
      ([⟨.identifier, ['i', 'f']⟩, ⟨.blank, [' ']⟩, ⟨.identifier, ['t', 'r', 'u', 'e']⟩,
        ⟨.blank, [' ']⟩] ++ [⟨.identifier, ['b']⟩] ++ []) [] :=
    .ofScan (by decide) (.ofScan (by decide) (.ofScan (by decide) (.ofScan (by decide)
      (.ofScan (by decide) (.stop _)))))
  have hwords : Script.words "if true b" = [.keyword "if", .keyword "true", .name "b"] :=
    hsegmented.words_eq.2.trans (by decide)
  have hcondition : Derives (.expression _) _ (some (.name "b")) _ :=
    (@Derives.boolean true _).alone (by simp) (by simp [Word.IsNoOperator])
  have hbranch : Derives (.expression _) _ none _ :=
    (Derives.name (.name "b") (by simp)).alone (by simp) (by simp)
  have hderives : DerivesScript [_] [.keyword "if", .keyword "true", .name "b"] _ :=
    .last ((Derives.choice hcondition hbranch (by simp)).alone (by simp) (by simp))
  rw [← hwords] at hderives
  have hparenthesises : Site.Parenthesises
      ⟨.branch, [.keyword "if", .keyword "true"], [.name "b"], [],
        [([.keyword "true"], .boolean true)]⟩
      "if true b" "if true (b)" :=
    .intro hderives (by simp [inside, Site.within, Site.whole, Site.behindCondition])
      ⟨hsegmented, by decide, by decide, by decide, by simp, by simp⟩
  have hcalled := @Script.exists_ne_of_partSizes "a + f(1)(2)" "a + (f(1))(2)" [2, 0] [0, 2]
    (by decide +kernel) (by decide +kernel) (by decide)
  have hoperated := @Script.exists_ne_of_partSizes "!f(1)(2) * 3" "!(f(1)(2)) * 3" [1, 0] [2]
    (by decide +kernel) (by decide +kernel) (by decide)
  exact ⟨⟨_, rfl, hparenthesises⟩, hderives.parse_eq hsegmented.words_eq.1, by decide +kernel,
    hcalled, hoperated⟩

end Workshop

import Workshop.Proofs.Reading.Parentheses

/-!
# Scripts one behind the other

Two scripts with a semicolon between them are one script with the statements of
both.  Nothing of the first one is read in another way because more follows: a line
break ends its last lexeme, and a semicolon continues none of its phrases.

Main definitions:

- `joinedScripts`: two source texts with a semicolon on a line of its own between
  them.

Main results:

- Theorem `Segmented.lexesTo_line`: lexemes stay what they are in front of a line
  break.
- Theorem `words_joinedScripts`: the words of two source texts are joined.
- Theorem `DerivesScript.append`: and so are their statements.
- Theorem `parse_joinedScripts`: parsing is compositional over statements.
-/

namespace Workshop

variable {vocabulary : Vocabulary}

/-! ## Lines -/

/-- A blank lexeme or a comment is spacing, once a line break closes it. -/
theorem Lexeme.Maximal.spacing_line {lexeme : Lexeme} {following : List Char} {stop : Char}
    (hmaximal : lexeme.Maximal vocabulary following) (hblank : lexeme.kind = .blank)
    (hstop : isLineBreak stop = true) : Spacing (lexeme.chars ++ [stop]) := by
  have hend : Spacing [stop] := .space (by simp [isSpace, hstop]) .nil
  cases hmaximal with
  | @lineBreaks chars _ _ hchars _ =>
      have hspacing : Spacing chars := .of_forall fun c hc => by simp [isSpace, hchars c hc]
      exact hspacing.append hend
  | @blanks chars _ _ hchars _ =>
      have hspacing : Spacing chars := .of_forall fun c hc => by simp [isSpace, hchars c hc]
      exact hspacing.append hend
  | comment hbody _ => exact .comment hbody hstop .nil
  | _ => cases hblank

/-- Lexemes stay what they are in front of a line break, whatever follows it. -/
theorem Segmented.lexesTo_line (hoperators : "" ∉ vocabulary.operators) {stop : Char}
    (hstop : isLineBreak stop = true) (hseparates : Separates vocabulary stop)
    {input after rest : List Char} {lexemes : List Lexeme} {words : List Word}
    (hsegmented : Segmented vocabulary input lexemes after)
    (hrest : LexesTo vocabulary rest words) :
    LexesTo vocabulary (lexemes.flatMap Lexeme.chars ++ stop :: rest)
      (lexemes.flatMap Lexeme.words ++ words) := by
  induction hsegmented with
  | stop after => exact hrest.space hoperators (by simp [isSpace, hstop])
  | @cons lexeme lexemes following after hmaximal hothers ih =>
      rw [List.flatMap_cons, List.flatMap_cons, List.append_assoc, List.append_assoc]
      by_cases hat : lexemes.flatMap Lexeme.chars = [] ∧ lexeme.kind = .blank
      · -- The line break follows a blank lexeme or a comment at once.
        rcases hat with ⟨hnone, hblank⟩
        have hspaced := hrest.spacing hoperators (hmaximal.spacing_line hblank hstop)
        rw [hothers.eq_nil_of_chars hoperators hnone, Lexeme.words, if_pos hblank]
        simpa using hspaced
      · rw [hothers.text_eq] at hmaximal
        have hkept : lexeme.Maximal vocabulary
            (lexemes.flatMap Lexeme.chars ++ stop :: rest) :=
          hmaximal.insert hoperators hseparates fun hnone hblank => absurd ⟨hnone, hblank⟩ hat
        exact ih.cons (Lexeme.scan?_of_maximal hoperators hkept) rfl

theorem separates_lineFeed : Separates .standard '\n' :=
  ⟨by decide, by decide, by decide, by decide, by decide⟩

theorem separates_semicolon : Separates .standard ';' :=
  ⟨by decide, by decide, by decide, by decide, by decide⟩

/-! ## Words of both texts -/

/-- Two source texts with a semicolon on a line of its own between them. -/
def joinedScripts (first second : String) : String :=
  first ++ "\n;\n" ++ second

/-- A semicolon in front of a text is a word of its own. -/
theorem LexesTo.semicolon {input : List Char} {words : List Word}
    (hinput : LexesTo .standard input words) :
    LexesTo .standard (';' :: input) (.operator ";" :: words) := by
  have hmaximal := Lexeme.Maximal.ofSeparates separates_semicolon (by decide) (by decide) input
  exact hinput.cons (Lexeme.scan?_of_maximal standard_operators_ne hmaximal) rfl

/-- The words of the first text, a semicolon, and the words of the second text. -/
theorem words_joinedScripts {first second : String}
    (hfirst : (TokenStream.ofSource .standard first).fault = none)
    (hsecond : (TokenStream.ofSource .standard second).fault = none) :
    (TokenStream.ofSource .standard (joinedScripts first second)).fault = none ∧
      Script.words (joinedScripts first second) =
        Script.words first ++ .operator ";" :: Script.words second := by
  rcases exists_segmented hfirst with ⟨lexemes, hsegmented⟩
  have hlexes := lexesTo_of_fault_eq_none standard_operators_ne hsecond
  have hbehind := (hlexes.space standard_operators_ne (c := '\n') (by decide)).semicolon
  have hjoined := hsegmented.lexesTo_line standard_operators_ne (by decide) separates_lineFeed
    hbehind
  have htext : (joinedScripts first second).toList =
      lexemes.flatMap Lexeme.chars ++ '\n' :: ';' :: '\n' :: second.toList := by
    have hchars := hsegmented.text_eq
    rw [List.append_nil] at hchars
    rw [← hchars]
    simp [joinedScripts]
  rw [← htext] at hjoined
  have hsemicolon : Word.classified (.operator ";") = .operator ";" := by decide
  rcases hjoined.words_eq with ⟨hfault, hwords⟩
  refine ⟨hfault, ?_⟩
  rw [hwords, List.map_append, List.map_cons, hsemicolon, hsegmented.words_eq.2,
    hlexes.words_eq.2]
  rfl

/-! ## Statements of both texts -/

namespace DerivesScript

variable {nodes others : List Node} {words words' : List Word} {sites sites' : List Site}

/-- Where there are words, there are statements. -/
theorem ne_nil (hderives : DerivesScript nodes words sites) (hwords : words ≠ []) :
    nodes ≠ [] := by
  cases hderives with
  | nil => exact absurd rfl hwords
  | last h => exact List.cons_ne_nil _ _
  | cons h hrest => exact List.cons_ne_nil _ _

/-- Two scripts with a semicolon between them, unless the first one has one at its end already. -/
theorem append (hfirst : DerivesScript nodes words sites) (hnodes : nodes ≠ [])
    (hlast : words.getLast? ≠ some (.operator ";"))
    (hsecond : DerivesScript others words' sites') :
    ∃ joined, DerivesScript (nodes ++ others) (words ++ .operator ";" :: words') joined := by
  induction hfirst with
  | nil => exact absurd rfl hnodes
  | last h => exact ⟨_, .cons (h.beforeEnd Word.endsPhrase_semicolon) hsecond⟩
  | @cons node nodes words behind _ _ h hrest ih =>
      -- The semicolon behind the first statement is not the last word.
      have hbehind : behind ≠ [] := by
        rintro rfl
        simp at hlast
      rw [List.getLast?_append_cons, List.getLast?_cons_of_ne_nil hbehind] at hlast
      rcases ih (hrest.ne_nil hbehind) hlast with ⟨joined, hjoined⟩
      rw [List.append_assoc, List.cons_append]
      exact ⟨_, .cons h hjoined⟩

end DerivesScript

/-- Parsing is compositional over statements.  A script that has statements and does not end with a
semicolon, a semicolon on a line of its own, and another script are parsed together as the
statements of the first and those of the second. -/
theorem parse_joinedScripts {first second : String} {nodes others : List Node}
    (hfirst : Script.parse first = .ok (.block nodes)) (hnodes : nodes ≠ [])
    (hlast : (Script.words first).getLast? ≠ some (.operator ";"))
    (hsecond : Script.parse second = .ok (.block others)) :
    Script.parse (first ++ "\n;\n" ++ second) = .ok (.block (nodes ++ others)) := by
  rcases derivesScript_of_parse hfirst with ⟨_, sites, ⟨⟩, hderives⟩
  rcases derivesScript_of_parse hsecond with ⟨_, sites', ⟨⟩, hderives'⟩
  rcases words_joinedScripts (Script.fault_eq_none_of_parse hfirst)
    (Script.fault_eq_none_of_parse hsecond) with ⟨hfault, hwords⟩
  rcases hderives.append hnodes hlast hderives' with ⟨joined, hjoined⟩
  rw [← hwords] at hjoined
  exact hjoined.parse_eq hfault

/-- The first script ends with a comment, and the second one with a semicolon. -/
theorem parse_joinedScripts_comment :
    Script.parse "if true b//;" =
      .ok (.block [.choice (.boolean true) (.identifier "b" none) none]) ∧
    (Script.words "if true b//;").getLast? ≠ some (.operator ";") ∧
    Script.parse "c;" = .ok (.block [.identifier "c" none]) ∧
    Script.parse "if true b//;\n;\nc;" =
      .ok (.block [.choice (.boolean true) (.identifier "b" none) none, .identifier "c" none]) := by
  have hfirst : Segmented .standard "if true b//;".toList
      [⟨.identifier, ['i', 'f']⟩, ⟨.blank, [' ']⟩, ⟨.identifier, ['t', 'r', 'u', 'e']⟩,
        ⟨.blank, [' ']⟩, ⟨.identifier, ['b']⟩, ⟨.blank, ['/', '/', ';']⟩] [] :=
    .ofScan (by decide) (.ofScan (by decide) (.ofScan (by decide) (.ofScan (by decide)
      (.ofScan (by decide) (.ofScan (by decide) (.stop _))))))
  have hsecond : Segmented .standard "c;".toList [⟨.identifier, ['c']⟩, ⟨.operator, [';']⟩] [] :=
    .ofScan (by decide) (.ofScan (by decide) (.stop _))
  have hwords : Script.words "if true b//;" = [.keyword "if", .keyword "true", .name "b"] :=
    hfirst.words_eq.2.trans (by decide)
  have hwords' : Script.words "c;" = [.name "c"] ++ [.operator ";"] :=
    hsecond.words_eq.2.trans (by decide)
  have hcondition : Derives (.expression _) _ (some (.name "b")) _ :=
    (@Derives.boolean true _).alone (by simp) (by simp [Word.IsNoOperator])
  have hbranch : Derives (.expression _) _ none _ :=
    (Derives.name (.name "b") (by simp)).alone (by simp) (by simp)
  have hderives : DerivesScript [_] [.keyword "if", .keyword "true", .name "b"] _ :=
    .last ((Derives.choice hcondition hbranch (by simp)).alone (by simp) (by simp))
  have hname : Derives (.expression _) _ none _ :=
    (Derives.name (.name "c") (by simp)).alone (by simp) (by simp)
  have hderives' : DerivesScript [_] ([.name "c"] ++ [.operator ";"]) _ :=
    .cons (hname.beforeEnd Word.endsPhrase_semicolon) .nil
  rw [← hwords] at hderives
  rw [← hwords'] at hderives'
  have hparse := hderives.parse_eq hfirst.words_eq.1
  have hparse' := hderives'.parse_eq hsecond.words_eq.1
  have hlast : (Script.words "if true b//;").getLast? ≠ some (.operator ";") := by
    rw [hwords]
    simp
  have hjoined := parse_joinedScripts hparse (List.cons_ne_nil _ _) hlast hparse'
  have htext : "if true b//;" ++ "\n;\n" ++ "c;" = "if true b//;\n;\nc;" := by decide
  rw [htext] at hjoined
  exact ⟨hparse, hlast, hparse', hjoined⟩

end Workshop

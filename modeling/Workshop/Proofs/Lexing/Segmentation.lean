import Workshop.Script.TokenStream
import Mathlib.Data.List.TakeWhile

/-!
# Maximal lexemes

Lexing cuts a text into lexemes, each of which is as long as it can be.  This
module says what the lexemes of a text are without saying how they are found,
and proves that there is at most one such cut of a text, which is the one that
lexing finds.

Main definitions:

- `Lexeme.Maximal`: a lexeme that is as long as it can be before the text that
  follows it.
- `Segmented`: a text that is made of maximal lexemes, up to a rest.
- `tokensFrom`: the tokens of lexemes that stand one after the other.

Main results:

- Theorem `Lexeme.scan?_eq_some_iff`: the lexeme at the start of a text is the
  maximal one.
- Theorem `Segmented.unique`: a text is cut into lexemes in one way only.
- Theorem `lexFrom_segmented`: lexing cuts a text into maximal lexemes, up to
  the first character at which none starts.
- Theorem `lex_eq_segmentation`: a text is lexed without a fault exactly if it
  can be cut into maximal lexemes, and then into these.
-/

namespace Workshop

variable {vocabulary : Vocabulary}

/-! ## Classes of characters -/

/-- Whether characters can stand between two of the given quotes.  A backslash protects the
character after it, and there is no line break. -/
def isLiteralBody (quote : Char) : List Char → Bool
  | [] => true
  | c :: rest =>
    if c = '\\' then
      match rest with
      | [] => false
      | d :: rest => !isLineBreak d && isLiteralBody quote rest
    else !isLineBreak c && c != quote && isLiteralBody quote rest

/-- Whether nothing but an operator or a comment starts with a character. -/
def startsOperator (c : Char) : Bool :=
  !isWordStart c && !c.isDigit && !isQuote c && !isLineBreak c && !isBlank c

/-- Digits do not start a word. -/
theorem isWordStart_of_isDigit {c : Char} (hdigit : c.isDigit = true) : isWordStart c = false := by
  have hnine : c.val ≤ '9'.val := of_decide_eq_true (Bool.and_eq_true_iff.1 hdigit).2
  rw [Bool.eq_false_iff]
  intro hstart
  rw [isWordStart, Bool.or_eq_true] at hstart
  rcases hstart with hletter | hunderscore
  · rcases Bool.or_eq_true_iff.1 hletter with hupper | hlower
    · have hfirst : 'A'.val ≤ c.val := (of_decide_eq_true hupper).1
      exact absurd (UInt32.le_trans hfirst hnine) (by decide)
    · have hfirst : 'a'.val ≤ c.val := of_decide_eq_true (Bool.and_eq_true_iff.1 hlower).1
      exact absurd (UInt32.le_trans hfirst hnine) (by decide)
  · rw [beq_iff_eq] at hunderscore
    rw [hunderscore] at hnine
    exact absurd hnine (by decide)

/-! ## Maximal lexemes -/

namespace Lexeme

/-- A lexeme that is as long as it can be before the text that follows it. -/
inductive Maximal (vocabulary : Vocabulary) : Lexeme → List Char → Prop
  | word {first : Char} {others following : List Char} :
      isWordStart first = true → (∀ c ∈ others, isWordChar c = true) →
      (∀ c ∈ following.head?, isWordChar c = false) →
      Maximal vocabulary ⟨.identifier, first :: others⟩ following
  /-- Digits alone.  A point and a digit after them would be a fraction. -/
  | digits {digits following : List Char} :
      digits ≠ [] → (∀ c ∈ digits, c.isDigit = true) →
      (∀ c ∈ following.head?, c.isDigit = false) →
      (∀ c rest, following = '.' :: c :: rest → c.isDigit = false) →
      Maximal vocabulary ⟨.number, digits⟩ following
  | fraction {digits fraction following : List Char} :
      digits ≠ [] → (∀ c ∈ digits, c.isDigit = true) →
      fraction ≠ [] → (∀ c ∈ fraction, c.isDigit = true) →
      (∀ c ∈ following.head?, c.isDigit = false) →
      Maximal vocabulary ⟨.number, digits ++ '.' :: fraction⟩ following
  | literal {quote : Char} {body : List Char} (following : List Char) :
      isQuote quote = true → isLiteralBody quote body = true →
      Maximal vocabulary ⟨.string, quote :: (body ++ [quote])⟩ following
  | lineBreaks {chars following : List Char} :
      chars ≠ [] → (∀ c ∈ chars, isLineBreak c = true) →
      (∀ c ∈ following.head?, isLineBreak c = false) →
      Maximal vocabulary ⟨.blank, chars⟩ following
  | blanks {chars following : List Char} :
      chars ≠ [] → (∀ c ∈ chars, isBlank c = true) →
      (∀ c ∈ following.head?, isBlank c = false) →
      Maximal vocabulary ⟨.blank, chars⟩ following
  | comment {body following : List Char} :
      (∀ c ∈ body, isLineBreak c = false) →
      (∀ c ∈ following.head?, isLineBreak c = true) →
      Maximal vocabulary ⟨.blank, '/' :: '/' :: body⟩ following
  /-- The longest operator, where no other lexeme starts. -/
  | operator {operator : String} {following : List Char} :
      operator ∈ vocabulary.operators →
      (∀ c ∈ (operator.toList ++ following).head?, startsOperator c = true) →
      ¬ ['/', '/'] <+: operator.toList ++ following →
      (∀ other ∈ vocabulary.operators, other.toList <+: operator.toList ++ following →
        other.length ≤ operator.length) →
      Maximal vocabulary ⟨.operator, operator.toList⟩ following

/-! ## The lexeme that is found is maximal -/

variable {p : Char → Bool} {c quote : Char} {input digits following : List Char} {lexeme : Lexeme}

/-- A text is cut behind the longest run of a class that it starts with. -/
theorem takeWhile_cut (p : Char → Bool) (chars : List Char) :
    chars = chars.takeWhile p ++ chars.dropWhile p ∧ (∀ c ∈ chars.takeWhile p, p c = true) ∧
      ∀ c ∈ (chars.dropWhile p).head?, p c = false := by
  refine ⟨List.takeWhile_append_dropWhile.symm, fun _ => List.mem_takeWhile_imp, fun c hc => ?_⟩
  have hstop := List.head?_dropWhile_not p chars
  rwa [Option.mem_def.1 hc] at hstop

/-- The longest run of a class is not empty if the text starts with that class. -/
theorem takeWhile_ne_nil (hc : p c = true) (rest : List Char) : (c :: rest).takeWhile p ≠ [] := by
  rw [List.takeWhile_cons_of_pos hc]
  exact List.cons_ne_nil _ _

/-- The number that is found is maximal. -/
theorem maximal_numberAt (hc : c.isDigit = true) (rest : List Char) :
    ∃ following, c :: rest = numberAt (c :: rest) ++ following ∧
      Maximal vocabulary ⟨.number, numberAt (c :: rest)⟩ following := by
  have hdigits := takeWhile_ne_nil (p := Char.isDigit) hc rest
  obtain ⟨hcut, hrun, hstop⟩ := takeWhile_cut Char.isDigit (c :: rest)
  generalize hinput : c :: rest = input at *
  unfold numberAt
  cases hdropped : input.dropWhile Char.isDigit with
  | nil =>
      rw [hdropped] at hcut
      refine ⟨[], hcut, .digits hdigits hrun (by simp) ?_⟩
      intro d others hfollowing
      cases hfollowing
  | cons point others =>
      rw [hdropped] at hcut hstop
      simp only
      split
      · rename_i hfraction
        rw [Bool.and_eq_true, decide_eq_true_eq, Bool.not_eq_true',
          List.isEmpty_eq_false_iff] at hfraction
        rcases hfraction with ⟨rfl, hnonempty⟩
        obtain ⟨hothers, hmore, hend⟩ := takeWhile_cut Char.isDigit others
        refine ⟨others.dropWhile Char.isDigit, ?_,
          .fraction hdigits hrun hnonempty hmore hend⟩
        rw [List.append_assoc, List.cons_append, ← hothers]
        exact hcut
      · rename_i hfraction
        refine ⟨point :: others, hcut, .digits hdigits hrun hstop ?_⟩
        intro d more hfollowing
        rcases List.cons.inj hfollowing with ⟨rfl, rfl⟩
        by_contra hdigit
        rw [Bool.not_eq_false] at hdigit
        simp [List.takeWhile_cons_of_pos hdigit] at hfraction

/-- What is found is the body of a text. -/
theorem isLiteralBody_of_literalBody? {body : List Char}
    (hbody : literalBody? quote input = some body) : isLiteralBody quote body = true := by
  fun_induction literalBody? quote input generalizing body with
  | case1 => cases hbody
  | case2 => cases hbody
  | case3 => cases hbody
  | case4 d rest hbreak ih =>
      rcases Option.map_eq_some_iff.1 hbody with ⟨inner, hinner, rfl⟩
      simp [isLiteralBody, hbreak, ih hinner]
  | case5 => cases hbody
  | case6 =>
      cases hbody
      rfl
  | case7 c rest hplain hbreak hother ih =>
      rcases Option.map_eq_some_iff.1 hbody with ⟨inner, hinner, rfl⟩
      rw [isLiteralBody.eq_def]
      simp [hplain, hbreak, hother, ih hinner]

/-- The lexeme that is found at the start of a text is maximal. -/
theorem maximal_of_scan? (hscan : scan? vocabulary input = some lexeme) :
    ∃ following, input = lexeme.chars ++ following ∧ Maximal vocabulary lexeme following := by
  cases input with
  | nil => cases hscan
  | cons c rest =>
      rw [scan?] at hscan
      split at hscan
      · rename_i hstart
        cases hscan
        obtain ⟨hcut, hrun, hstop⟩ := takeWhile_cut isWordChar (c :: rest)
        refine ⟨_, hcut, ?_⟩
        have hfirst : isWordChar c = true := by simp [isWordChar, hstart]
        rw [List.takeWhile_cons_of_pos hfirst] at hrun ⊢
        exact .word hstart (List.forall_mem_cons.1 hrun).2 hstop
      split at hscan
      · rename_i hdigit
        cases hscan
        exact maximal_numberAt hdigit rest
      split at hscan
      · rename_i hquote
        rcases Option.map_eq_some_iff.1 hscan with ⟨body, hbody, rfl⟩
        rcases literalBody?_prefix hbody with ⟨following, hfollowing⟩
        refine ⟨following, ?_, .literal following hquote (isLiteralBody_of_literalBody? hbody)⟩
        rw [List.cons_append, hfollowing]
      split at hscan
      · rename_i hbreak
        cases hscan
        obtain ⟨hcut, hrun, hstop⟩ := takeWhile_cut isLineBreak (c :: rest)
        exact ⟨_, hcut, .lineBreaks (takeWhile_ne_nil hbreak rest) hrun hstop⟩
      split at hscan
      · rename_i hblank
        cases hscan
        obtain ⟨hcut, hrun, hstop⟩ := takeWhile_cut isBlank (c :: rest)
        exact ⟨_, hcut, .blanks (takeWhile_ne_nil hblank rest) hrun hstop⟩
      split at hscan
      · rename_i hcomment
        cases hscan
        obtain ⟨hcut, hrun, hstop⟩ := takeWhile_cut (fun d => !isLineBreak d) (c :: rest)
        refine ⟨_, hcut, ?_⟩
        rcases List.isPrefixOf_iff_prefix.1 hcomment with ⟨body, hbody⟩
        rw [← hbody] at hrun hstop ⊢
        have hslash : (!isLineBreak '/') = true := by decide
        rw [List.cons_append, List.cons_append, List.nil_append,
          List.takeWhile_cons_of_pos (p := fun d => !isLineBreak d) hslash,
          List.takeWhile_cons_of_pos (p := fun d => !isLineBreak d) hslash] at hrun ⊢
        refine .comment ?_ ?_
        · intro d hd
          simpa using hrun d (List.mem_cons_of_mem _ (List.mem_cons_of_mem _ hd))
        · intro d hd
          simpa using hstop d hd
      · rename_i hstart hdigit hquote hbreak hblank hcomment
        rcases Option.map_eq_some_iff.1 hscan with ⟨operator, hoperator, rfl⟩
        rcases Vocabulary.longest?_eq_some hoperator with ⟨hmem, hstarts, hlongest⟩
        rcases (Vocabulary.starts_iff.1 hstarts).2 with ⟨following, hfollowing⟩
        refine ⟨following, hfollowing.symm, .operator hmem ?_ ?_ ?_⟩
        · rw [hfollowing]
          intro d hd
          cases hd
          simp [startsOperator, hstart, hdigit, hquote, hbreak, hblank]
        · rw [hfollowing]
          intro hprefix
          exact hcomment (List.isPrefixOf_iff_prefix.2 hprefix)
        · intro other hother hprefix
          rw [hfollowing] at hprefix
          by_cases hempty : other.toList = []
          · have hlength : other.length = 0 := by
              rw [← String.length_toList, hempty, List.length_nil]
            omega
          · exact hlongest other hother (Vocabulary.starts_iff.2 ⟨hempty, hprefix⟩)

/-! ## A maximal lexeme is found -/

/-- What follows a word is not taken for a part of it. -/
theorem takeWhile_append_of_head? {p : Char → Bool} {chars : List Char}
    (hchars : ∀ c ∈ chars, p c = true) (hfollowing : ∀ c ∈ following.head?, p c = false) :
    (chars ++ following).takeWhile p = chars ∧ (chars ++ following).dropWhile p = following := by
  have hnone : following.takeWhile p = [] ∧ following.dropWhile p = following := by
    cases following with
    | nil => exact ⟨rfl, rfl⟩
    | cons c rest =>
        have hc := hfollowing c rfl
        simp [hc]
  rw [List.takeWhile_append_of_pos hchars, List.dropWhile_append_of_pos hchars, hnone.1, hnone.2]
  simp

/-- The body of a text is found. -/
theorem literalBody?_append {quote : Char} {body following : List Char}
    (hbody : isLiteralBody quote body = true) (hquote : quote ≠ '\\' ∧ isLineBreak quote = false) :
    literalBody? quote (body ++ quote :: following) = some body := by
  fun_induction isLiteralBody quote body with
  | case1 =>
      rw [List.nil_append, literalBody?.eq_def]
      simp [hquote]
  | case2 => cases hbody
  | case3 d rest ih =>
      simp only [Bool.and_eq_true, Bool.not_eq_true'] at hbody
      simp [literalBody?, hbody.1, ih hbody.2]
  | case4 c rest hplain ih =>
      simp only [Bool.and_eq_true, Bool.not_eq_true', bne_iff_ne] at hbody
      obtain ⟨⟨hbreak, hother⟩, hrest⟩ := hbody
      rw [List.cons_append, literalBody?.eq_def]
      simp [hplain, hbreak, hother, ih hrest]

/-- A number without a fraction is found. -/
theorem numberAt_digits (hdigits : ∀ c ∈ digits, c.isDigit = true)
    (hstop : ∀ c ∈ following.head?, c.isDigit = false)
    (hpoint : ∀ c rest, following = '.' :: c :: rest → c.isDigit = false) :
    numberAt (digits ++ following) = digits := by
  have hcut := takeWhile_append_of_head? hdigits hstop
  unfold numberAt
  simp only [hcut.1, hcut.2]
  cases following with
  | nil => rfl
  | cons point rest =>
      simp only
      rw [if_neg]
      rw [Bool.and_eq_true, decide_eq_true_eq, not_and]
      rintro rfl
      cases rest with
      | nil => simp
      | cons c others =>
          have hc := hpoint c others rfl
          simp [hc]

/-- A number with a fraction is found. -/
theorem numberAt_fraction {fraction : List Char} (hdigits : ∀ c ∈ digits, c.isDigit = true)
    (hfraction : fraction ≠ []) (hfractionDigits : ∀ c ∈ fraction, c.isDigit = true)
    (hstop : ∀ c ∈ following.head?, c.isDigit = false) :
    numberAt (digits ++ '.' :: (fraction ++ following)) = digits ++ '.' :: fraction := by
  have hpoint : ∀ c ∈ ('.' :: (fraction ++ following)).head?, c.isDigit = false := by
    intro c hc
    cases hc
    decide
  have hcut := takeWhile_append_of_head? hdigits hpoint
  have hmore := takeWhile_append_of_head? hfractionDigits hstop
  unfold numberAt
  simp only [hcut.1, hcut.2, hmore.1]
  simp [hfraction]

/-- A line break starts no other lexeme. -/
theorem scan?_lineBreak (hbreak : isLineBreak c = true) (rest : List Char) :
    scan? vocabulary (c :: rest) = some ⟨.blank, (c :: rest).takeWhile isLineBreak⟩ := by
  have hother : isWordStart c = false ∧ c.isDigit = false ∧ isQuote c = false := by
    rw [isLineBreak, Bool.or_eq_true, beq_iff_eq, beq_iff_eq] at hbreak
    rcases hbreak with rfl | rfl
    · decide
    · decide
  simp [scan?, hother, hbreak]

/-- A blank starts no other lexeme. -/
theorem scan?_blank (hblank : isBlank c = true) (rest : List Char) :
    scan? vocabulary (c :: rest) = some ⟨.blank, (c :: rest).takeWhile isBlank⟩ := by
  have hother : isWordStart c = false ∧ c.isDigit = false ∧ isQuote c = false ∧
      isLineBreak c = false := by
    rw [isBlank, Bool.or_eq_true, beq_iff_eq, beq_iff_eq] at hblank
    rcases hblank with rfl | rfl
    · decide
    · decide
  simp [scan?, hother, hblank]

/-- Two slashes start a comment. -/
theorem scan?_comment (rest : List Char) :
    scan? vocabulary ('/' :: '/' :: rest) =
      some ⟨.blank, ('/' :: '/' :: rest).takeWhile fun c => !isLineBreak c⟩ := by
  have hother : isWordStart '/' = false ∧ '/'.isDigit = false ∧ isQuote '/' = false ∧
      isLineBreak '/' = false ∧ isBlank '/' = false := by
    decide
  simp [scan?, hother]

/-- A quote starts a string literal. -/
theorem scan?_quote (hquote : isQuote quote = true) (rest : List Char) :
    scan? vocabulary (quote :: rest) =
      (literalBody? quote rest).map fun body => ⟨.string, quote :: (body ++ [quote])⟩ := by
  have hother : isWordStart quote = false ∧ quote.isDigit = false := by
    rw [isQuote, Bool.or_eq_true, beq_iff_eq, beq_iff_eq] at hquote
    rcases hquote with rfl | rfl
    · decide
    · decide
  simp [scan?, hother, hquote]

/-- A digit starts a number. -/
theorem scan?_digit (hdigit : c.isDigit = true) (rest : List Char) :
    scan? vocabulary (c :: rest) = some ⟨.number, numberAt (c :: rest)⟩ := by
  have hletter := isWordStart_of_isDigit hdigit
  simp [scan?, hletter, hdigit]

/-- Where no other lexeme starts, there is an operator or nothing. -/
theorem scan?_startsOperator {rest : List Char} (hstarts : startsOperator c = true)
    (hcomment : ¬ ['/', '/'] <+: c :: rest) :
    scan? vocabulary (c :: rest) =
      (vocabulary.operatorAt? (c :: rest)).map fun operator => ⟨.operator, operator.toList⟩ := by
  have hslashes : ['/', '/'].isPrefixOf (c :: rest) = false := by
    rw [Bool.eq_false_iff]
    intro hprefix
    exact hcomment (List.isPrefixOf_iff_prefix.1 hprefix)
  simp only [startsOperator, Bool.and_eq_true, Bool.not_eq_true'] at hstarts
  simp only [scan?, hstarts, hslashes]
  simp

/-- Of the operators that start a text, the longest is found. -/
theorem operatorAt?_eq_some {operator : String} (hmem : operator ∈ vocabulary.operators)
    (hstarts : Vocabulary.starts input operator = true)
    (hlongest : ∀ other ∈ vocabulary.operators, other.toList <+: input →
      other.length ≤ operator.length) : vocabulary.operatorAt? input = some operator := by
  unfold Vocabulary.operatorAt?
  cases hfound : Vocabulary.longest? input vocabulary.operators with
  | none =>
      have hno := Vocabulary.longest?_eq_none_iff.1 hfound operator hmem
      rw [hstarts] at hno
      cases hno
  | some best =>
      rcases Vocabulary.longest?_eq_some hfound with ⟨hbest, hbestStarts, hlong⟩
      have hbestPrefix := (Vocabulary.starts_iff.1 hbestStarts).2
      have hprefix := (Vocabulary.starts_iff.1 hstarts).2
      have hlength : best.toList.length = operator.toList.length := by
        have hle := hlong operator hmem hstarts
        have hge := hlongest best hbest hbestPrefix
        rw [String.length_toList, String.length_toList]
        omega
      have hchars : best.toList = operator.toList :=
        (List.prefix_of_prefix_length_le hbestPrefix hprefix (by omega)).eq_of_length hlength
      rw [String.toList_inj.1 hchars]

/-- A maximal lexeme is the one that is found. -/
theorem scan?_of_maximal (hoperators : "" ∉ vocabulary.operators)
    (hmaximal : Maximal vocabulary lexeme following) :
    scan? vocabulary (lexeme.chars ++ following) = some lexeme := by
  cases hmaximal with
  | @word first others following hstart hothers hstop =>
      have hchars : ∀ c ∈ first :: others, isWordChar c = true := by
        intro c hc
        rcases List.mem_cons.1 hc with rfl | hc
        · simp [isWordChar, hstart]
        · exact hothers c hc
      have htake := (takeWhile_append_of_head? hchars hstop).1
      rw [List.cons_append] at htake ⊢
      rw [scan?, if_pos hstart, htake]
  | @digits digits following hnonempty hdigits hstop hpoint =>
      have hnumber := numberAt_digits hdigits hstop hpoint
      cases digits with
      | nil => exact absurd rfl hnonempty
      | cons c rest =>
          rw [List.cons_append] at hnumber ⊢
          rw [scan?_digit (hdigits c List.mem_cons_self), hnumber]
  | @fraction digits fraction following hnonempty hdigits hfraction hfractionDigits hstop =>
      have hnumber := numberAt_fraction hdigits hfraction hfractionDigits hstop
      rw [List.append_assoc, List.cons_append]
      cases digits with
      | nil => exact absurd rfl hnonempty
      | cons c rest =>
          rw [List.cons_append] at hnumber ⊢
          rw [scan?_digit (hdigits c List.mem_cons_self), hnumber]
  | @literal quote body following hquote hbody =>
      have hplain : quote ≠ '\\' ∧ isLineBreak quote = false := by
        rw [isQuote, Bool.or_eq_true, beq_iff_eq, beq_iff_eq] at hquote
        rcases hquote with rfl | rfl
        · decide
        · decide
      have hfound := @literalBody?_append quote body following hbody hplain
      rw [List.cons_append, List.append_assoc, List.singleton_append, scan?_quote hquote, hfound]
      rfl
  | @lineBreaks chars following hnonempty hchars hstop =>
      have htake := (takeWhile_append_of_head? hchars hstop).1
      cases chars with
      | nil => exact absurd rfl hnonempty
      | cons c rest =>
          rw [List.cons_append] at htake ⊢
          rw [scan?_lineBreak (hchars c List.mem_cons_self), htake]
  | @blanks chars following hnonempty hchars hstop =>
      have htake := (takeWhile_append_of_head? hchars hstop).1
      cases chars with
      | nil => exact absurd rfl hnonempty
      | cons c rest =>
          rw [List.cons_append] at htake ⊢
          rw [scan?_blank (hchars c List.mem_cons_self), htake]
  | @comment body following hbody hstop =>
      have hchars : ∀ c ∈ '/' :: '/' :: body, (!isLineBreak c) = true := by
        intro c hc
        rcases List.mem_cons.1 hc with rfl | hc
        · decide
        rcases List.mem_cons.1 hc with rfl | hc
        · decide
        · simp [hbody c hc]
      have hnext : ∀ c ∈ following.head?, (!isLineBreak c) = false := by
        intro c hc
        simp [hstop c hc]
      have htake := (takeWhile_append_of_head? hchars hnext).1
      rw [List.cons_append, List.cons_append] at htake ⊢
      rw [scan?_comment, htake]
  | @operator operator following hmem hstarts hcomment hlongest =>
      have hnonempty : operator.toList ≠ [] := by
        intro hnil
        rw [String.toList_eq_nil_iff] at hnil
        rw [hnil] at hmem
        exact hoperators hmem
      have hfound := operatorAt?_eq_some hmem
        (Vocabulary.starts_iff.2 ⟨hnonempty, List.prefix_append _ _⟩) hlongest
      cases hchars : operator.toList with
      | nil => exact absurd hchars hnonempty
      | cons c rest =>
          rw [hchars, List.cons_append] at hfound hstarts hcomment
          rw [List.cons_append, scan?_startsOperator (hstarts c rfl) hcomment, hfound,
            Option.map_some, hchars]

/-- Lexemes have characters. -/
theorem Maximal.chars_ne_nil (hoperators : "" ∉ vocabulary.operators)
    (hmaximal : Maximal vocabulary lexeme following) : lexeme.chars ≠ [] :=
  chars_ne_nil_of_scan? (scan?_of_maximal hoperators hmaximal)

/-- The lexeme at the start of a text is the maximal one. -/
theorem scan?_eq_some_iff (hoperators : "" ∉ vocabulary.operators) :
    scan? vocabulary input = some lexeme ↔
      ∃ following, input = lexeme.chars ++ following ∧ Maximal vocabulary lexeme following := by
  constructor
  · exact maximal_of_scan?
  · rintro ⟨following, rfl, hmaximal⟩
    exact scan?_of_maximal hoperators hmaximal

end Lexeme

/-! ## Cutting a text into lexemes -/

/-- A text that is made of maximal lexemes, up to a rest. -/
inductive Segmented (vocabulary : Vocabulary) : List Char → List Lexeme → List Char → Prop
  | stop (rest : List Char) : Segmented vocabulary rest [] rest
  | cons {lexeme : Lexeme} {lexemes : List Lexeme} {following rest : List Char} :
      lexeme.Maximal vocabulary following → Segmented vocabulary following lexemes rest →
      Segmented vocabulary (lexeme.chars ++ following) (lexeme :: lexemes) rest

/-- The tokens of lexemes that stand one after the other from a place on. -/
def tokensFrom (position : Position) : List Lexeme → List Token
  | [] => []
  | lexeme :: lexemes =>
    ⟨lexeme.kind, lexeme.text, position⟩ :: tokensFrom (position.advance lexeme.chars) lexemes

namespace Segmented

/-- A text is its lexemes and the rest. -/
theorem text_eq {input rest : List Char} {lexemes : List Lexeme}
    (hsegmented : Segmented vocabulary input lexemes rest) :
    input = lexemes.flatMap Lexeme.chars ++ rest := by
  induction hsegmented with
  | stop rest => rfl
  | cons _ _ ih => rw [List.flatMap_cons, List.append_assoc, ← ih]

/-- Up to a rest at which no lexeme starts, a text is cut into lexemes in one way only. -/
theorem unique (hoperators : "" ∉ vocabulary.operators) {input rest rest' : List Char}
    {lexemes lexemes' : List Lexeme} (hsegmented : Segmented vocabulary input lexemes rest)
    (hsegmented' : Segmented vocabulary input lexemes' rest')
    (hrest : Lexeme.scan? vocabulary rest = none)
    (hrest' : Lexeme.scan? vocabulary rest' = none) : lexemes = lexemes' := by
  induction hsegmented generalizing lexemes' with
  | stop rest =>
      cases hsegmented' with
      | stop => rfl
      | cons hmaximal =>
          rw [Lexeme.scan?_of_maximal hoperators hmaximal] at hrest
          cases hrest
  | @cons lexeme lexemes following rest hmaximal _ ih =>
      have hscan := Lexeme.scan?_of_maximal hoperators hmaximal
      generalize hinput : lexeme.chars ++ following = input at *
      cases hsegmented' with
      | stop =>
          rw [hscan] at hrest'
          cases hrest'
      | @cons lexeme' lexemes' following' _ hmaximal' hfollowing' =>
          rw [Lexeme.scan?_of_maximal hoperators hmaximal'] at hscan
          cases hscan
          rw [List.append_cancel_left hinput] at ih
          rw [ih hfollowing' hrest]

end Segmented

/-- Where no lexeme starts, lexing ends: with a fault, unless the text is at its end. -/
theorem lexFrom_of_scan?_eq_none {input : List Char} (position : Position)
    (hscan : Lexeme.scan? vocabulary input = none) :
    lexFrom vocabulary input position 0 = ⟨[], input.head?.map fun c => ⟨position, c⟩⟩ := by
  cases input with
  | nil => rfl
  | cons c rest =>
      rw [lexFrom]
      simp [hscan]

/-- Lexing cuts a text into maximal lexemes, up to the first character at which none starts. -/
theorem lexFrom_segmented (vocabulary : Vocabulary) (input : List Char) (position : Position) :
    ∃ lexemes rest, Segmented vocabulary input lexemes rest ∧
      Lexeme.scan? vocabulary rest = none ∧
      lexFrom vocabulary input position 0 =
        ⟨tokensFrom position lexemes,
          rest.head?.map fun c => ⟨position.advance (lexemes.flatMap Lexeme.chars), c⟩⟩ := by
  induction hlength : input.length using Nat.strong_induction_on
    generalizing input position with
  | _ length ih =>
      cases hscan : Lexeme.scan? vocabulary input with
      | none => exact ⟨[], input, .stop input, hscan, lexFrom_of_scan?_eq_none position hscan⟩
      | some lexeme =>
          have hlexed := lexFrom_eq vocabulary input position hscan
          have hnonempty := Lexeme.chars_ne_nil_of_scan? hscan
          rcases Lexeme.maximal_of_scan? hscan with ⟨following, rfl, hmaximal⟩
          have hshorter : following.length < length := by
            have hpos := List.length_pos_iff.2 hnonempty
            rw [List.length_append] at hlength
            omega
          rcases ih following.length hshorter following (position.advance lexeme.chars) rfl with
            ⟨lexemes, rest, hsegmented, hrest, hfollowing⟩
          refine ⟨lexeme :: lexemes, rest, .cons hmaximal hsegmented, hrest, ?_⟩
          rw [hlexed, List.drop_left, hfollowing, List.flatMap_cons, Position.advance_append]
          rfl

/-- However a text has been cut into maximal lexemes, they are the ones that lexing finds. -/
theorem Segmented.lexFrom_eq (hoperators : "" ∉ vocabulary.operators) {input rest : List Char}
    {lexemes : List Lexeme} (hsegmented : Segmented vocabulary input lexemes rest)
    (hrest : Lexeme.scan? vocabulary rest = none) (position : Position) :
    lexFrom vocabulary input position 0 =
      ⟨tokensFrom position lexemes,
        rest.head?.map fun c => ⟨position.advance (lexemes.flatMap Lexeme.chars), c⟩⟩ := by
  rcases lexFrom_segmented vocabulary input position with
    ⟨found, left, hfound, hleft, hlexed⟩
  have hsame := hfound.unique hoperators hsegmented hleft hrest
  have hinput := hfound.text_eq
  rw [hsegmented.text_eq, hsame] at hinput
  rw [hlexed, hsame, List.append_cancel_left hinput]

/-- A text without a fault can be cut into maximal lexemes. -/
theorem exists_segmented {source : String} (hfault : (lex vocabulary source).fault = none) :
    ∃ lexemes, Segmented vocabulary source.toList lexemes [] := by
  rcases lexFrom_segmented vocabulary source.toList .start with
    ⟨lexemes, rest, hsegmented, _, hlexed⟩
  rw [lex, hlexed] at hfault
  cases rest with
  | nil => exact ⟨lexemes, hsegmented⟩
  | cons c others => cases hfault

/-- The tokens of a text are those of its lexemes, and there is no fault. -/
theorem Segmented.lex_eq (hoperators : "" ∉ vocabulary.operators) {source : String}
    {lexemes : List Lexeme} (hsegmented : Segmented vocabulary source.toList lexemes []) :
    (lex vocabulary source).tokens = tokensFrom .start lexemes ∧
      (lex vocabulary source).fault = none := by
  rw [lex, hsegmented.lexFrom_eq hoperators rfl]
  exact ⟨rfl, rfl⟩

/-- A text is lexed without a fault exactly if it can be cut into maximal lexemes.  There is only
one such cut, and the tokens are those of its lexemes. -/
theorem lex_eq_segmentation (hoperators : "" ∉ vocabulary.operators) (source : String) :
    ((lex vocabulary source).fault = none ↔
      ∃ lexemes, Segmented vocabulary source.toList lexemes []) ∧
    ∀ lexemes, Segmented vocabulary source.toList lexemes [] →
      (∀ others, Segmented vocabulary source.toList others [] → others = lexemes) ∧
      (lex vocabulary source).tokens = tokensFrom .start lexemes := by
  refine ⟨⟨exists_segmented, ?_⟩, fun lexemes hsegmented => ⟨?_, ?_⟩⟩
  · rintro ⟨lexemes, hsegmented⟩
    exact (hsegmented.lex_eq hoperators).2
  · intro others hothers
    exact hothers.unique hoperators hsegmented rfl rfl
  · exact (hsegmented.lex_eq hoperators).1

theorem lex_eq_segmentation_standard :
    "" ∉ Vocabulary.standard.operators ∧
      (lex .standard "x>=1.5.y//'\n").tokens.map Token.text =
        ["x", ">=", "1.5", ".", "y", "//'", "\n"] ∧
      ∃ lexemes, Segmented .standard "x>=1.5.y//'\n".toList lexemes [] ∧
        (lex .standard "x>=1.5.y//'\n").tokens = tokensFrom .start lexemes := by
  have hoperators : "" ∉ Vocabulary.standard.operators := by decide
  have hlexed := lex_eq_segmentation hoperators "x>=1.5.y//'\n"
  rcases hlexed.1.1 (by decide) with ⟨lexemes, hsegmented⟩
  exact ⟨hoperators, by decide, lexemes, hsegmented, (hlexed.2 lexemes hsegmented).2⟩

end Workshop

import Workshop.Proofs.Lexing.Places
import Workshop.Proofs.Printing.Words

/-!
# Spacing between words

Blanks, line breaks and comments separate the words of a text and mean nothing
else.  At a boundary between two lexemes, more of them can be inserted, and the
words stay the same.

Main definitions:

- `Spacing`: characters between words, where every comment is closed.
- `Separates`: a character that ends every lexeme in front of it.
- `IsBoundary`: a place at which a token starts, or the end of the text.

Main results:

- Theorem `LexesTo.spacing`: spacing in front of a text.
- Theorem `Lexeme.Maximal.insert`: a lexeme stays maximal when a separating
  character is inserted behind it.
- Theorem `Segmented.lexesTo_insert`: spacing between two lexemes.
- Theorem `lex_insert_spacing`: spacing at a boundary of a source text.
-/

namespace Workshop

variable {vocabulary : Vocabulary} {input gap before rest after first second : List Char}
  {lexemes : List Lexeme} {c : Char}

/-! ## Words from every place -/

/-- Words that are found from one place are found from every place. -/
theorem lexesTo_of_fault_eq_none (hoperators : "" ∉ vocabulary.operators) {position : Position}
    (hfault : (lexFrom vocabulary input position 0).fault = none) :
    LexesTo vocabulary input (lexFrom vocabulary input position 0).words := by
  rcases lexFrom_segmented vocabulary input position with
    ⟨lexemes, rest, hsegmented, _, hlexed⟩
  rw [hlexed] at hfault ⊢
  cases rest with
  | nil =>
      rw [words_tokensFrom]
      exact hsegmented.lexesTo hoperators
  | cons c rest => cases hfault

namespace LexesTo

variable {input : List Char} {words : List Word}

/-- A text without the blanks or the line breaks that it starts with. -/
theorem dropWhile (hoperators : "" ∉ vocabulary.operators) {p : Char → Bool}
    (hrun : ∀ c rest, p c = true →
      Lexeme.scan? vocabulary (c :: rest) = some ⟨.blank, (c :: rest).takeWhile p⟩)
    (hinput : LexesTo vocabulary input words) : LexesTo vocabulary (input.dropWhile p) words := by
  cases input with
  | nil => exact hinput
  | cons c rest =>
      by_cases hc : p c = true
      · rcases hinput .start with ⟨hfault, hwords⟩
        have hcut : (c :: rest).takeWhile p ++ (c :: rest).dropWhile p = c :: rest :=
          List.takeWhile_append_dropWhile
        have hdrop : (c :: rest).drop ((c :: rest).takeWhile p).length = (c :: rest).dropWhile p :=
          calc (c :: rest).drop ((c :: rest).takeWhile p).length
              = ((c :: rest).takeWhile p ++ (c :: rest).dropWhile p).drop
                  ((c :: rest).takeWhile p).length := by rw [hcut]
            _ = (c :: rest).dropWhile p := List.drop_left
        rw [lexFrom_eq vocabulary _ .start (hrun c rest hc), hdrop] at hfault hwords
        rw [← hwords]
        exact lexesTo_of_fault_eq_none hoperators hfault
      · rwa [List.dropWhile_cons_of_neg hc]

/-- One more character in front of a text, of a class whose runs are lexemes. -/
theorem prepend (hoperators : "" ∉ vocabulary.operators) {p : Char → Bool} {c : Char}
    (hrun : ∀ c rest, p c = true →
      Lexeme.scan? vocabulary (c :: rest) = some ⟨.blank, (c :: rest).takeWhile p⟩)
    (hc : p c = true) (hinput : LexesTo vocabulary input words) :
    LexesTo vocabulary (c :: input) words := by
  have hcut : c :: input = (c :: input).takeWhile p ++ input.dropWhile p := by
    rw [List.takeWhile_cons_of_pos hc, List.cons_append, List.takeWhile_append_dropWhile]
  exact (hinput.dropWhile hoperators hrun).cons (hrun c input hc) hcut

end LexesTo

/-! ## Spacing -/

/-- Whether a character is a blank or a line break. -/
def isSpace (c : Char) : Bool :=
  isBlank c || isLineBreak c

/-- Blanks, line breaks and comments.  A line break closes every comment. -/
inductive Spacing : List Char → Prop
  | nil : Spacing []
  | space {c : Char} {rest : List Char} : isSpace c = true → Spacing rest → Spacing (c :: rest)
  | comment {body : List Char} {stop : Char} {rest : List Char} :
      (∀ c ∈ body, isLineBreak c = false) → isLineBreak stop = true → Spacing rest →
      Spacing ('/' :: '/' :: (body ++ stop :: rest))

namespace LexesTo

variable {input : List Char} {words : List Word}

/-- A blank in front changes no words. -/
theorem space (hoperators : "" ∉ vocabulary.operators) {c : Char} (hc : isSpace c = true)
    (hinput : LexesTo vocabulary input words) : LexesTo vocabulary (c :: input) words := by
  rcases Bool.or_eq_true_iff.1 hc with hblank | hbreak
  · exact hinput.prepend hoperators (fun _ rest hc => Lexeme.scan?_blank hc rest) hblank
  · exact hinput.prepend hoperators (fun _ rest hc => Lexeme.scan?_lineBreak hc rest) hbreak

/-- A comment in front of a text that starts with a line break or is empty. -/
theorem comment (hoperators : "" ∉ vocabulary.operators) {body : List Char}
    (hbody : ∀ c ∈ body, isLineBreak c = false) (hstop : ∀ c ∈ input.head?, isLineBreak c = true)
    (hinput : LexesTo vocabulary input words) :
    LexesTo vocabulary ('/' :: '/' :: (body ++ input)) words := by
  have hmaximal : Lexeme.Maximal vocabulary ⟨.blank, '/' :: '/' :: body⟩ input :=
    .comment hbody hstop
  exact hinput.cons (Lexeme.scan?_of_maximal hoperators hmaximal) rfl

/-- Spacing in front of a text does not change its words. -/
theorem spacing (hoperators : "" ∉ vocabulary.operators) {gap : List Char} (hgap : Spacing gap)
    (hinput : LexesTo vocabulary input words) : LexesTo vocabulary (gap ++ input) words := by
  induction hgap with
  | nil => exact hinput
  | space hc _ ih => exact ih.space hoperators hc
  | @comment body stop rest hbody hstop _ ih =>
      have hline : LexesTo vocabulary (stop :: (rest ++ input)) words :=
        ih.space hoperators (by simp [isSpace, hstop])
      have hcomment := hline.comment hoperators hbody (by simpa using hstop)
      simpa using hcomment

end LexesTo

/-- Spacing goes on for the rest of a line.  What follows the line break is spacing again. -/
theorem Spacing.line (hgap : Spacing gap) :
    (∀ c ∈ gap, isLineBreak c = false) ∨
      ∃ line stop rest, gap = line ++ stop :: rest ∧ (∀ c ∈ line, isLineBreak c = false) ∧
        isLineBreak stop = true ∧ Spacing rest := by
  induction hgap with
  | nil => exact .inl (by simp)
  | @space c rest hc hrest ih =>
      by_cases hbreak : isLineBreak c = true
      · exact .inr ⟨[], c, rest, rfl, by simp, hbreak, hrest⟩
      · rw [Bool.not_eq_true] at hbreak
        rcases ih with hnone | ⟨line, stop, later, rfl, hline, hstop, hlater⟩
        · exact .inl (List.forall_mem_cons.2 ⟨hbreak, hnone⟩)
        · exact .inr ⟨c :: line, stop, later, rfl, List.forall_mem_cons.2 ⟨hbreak, hline⟩, hstop,
            hlater⟩
  | @comment body stop rest hbody hstop hrest _ =>
      refine .inr ⟨'/' :: '/' :: body, stop, rest, by simp, ?_, hstop, hrest⟩
      rw [List.forall_mem_cons, List.forall_mem_cons]
      exact ⟨by decide, by decide, hbody⟩

/-- Spacing behind spacing. -/
theorem Spacing.append {gap' : List Char} (hgap : Spacing gap) (hgap' : Spacing gap') :
    Spacing (gap ++ gap') := by
  induction hgap with
  | nil => exact hgap'
  | space hc _ ih => exact .space hc ih
  | comment hbody hstop _ ih => simpa using Spacing.comment hbody hstop ih

/-- Blanks are spacing. -/
theorem Spacing.of_forall {chars : List Char} (hchars : ∀ c ∈ chars, isSpace c = true) :
    Spacing chars := by
  induction chars with
  | nil => exact .nil
  | cons c rest ih =>
      rw [List.forall_mem_cons] at hchars
      exact .space hchars.1 (ih hchars.2)

/-! ## Spacing between lexemes -/

/-- The four blanks. -/
theorem isSpace_iff : isSpace c = true ↔ (c = ' ' ∨ c = '\t') ∨ c = '\n' ∨ c = '\r' := by
  simp [isSpace, isBlank, isLineBreak]

/-- A character that belongs to no lexeme which starts in front of it, spacing and literals
apart. -/
structure Separates (vocabulary : Vocabulary) (c : Char) : Prop where
  notWord : isWordChar c = false
  notDigit : c.isDigit = false
  notPoint : c ≠ '.'
  notSlash : c ≠ '/'
  /-- An operator with this character has no others. -/
  alone : ∀ operator ∈ vocabulary.operators, c ∈ operator.toList → operator.length ≤ 1

/-- A space separates what stands in front of it, if there is none in an operator. -/
theorem Separates.of_isSpace
    (hplain : ∀ operator ∈ vocabulary.operators, ∀ c ∈ operator.toList, isSpace c = false)
    (hc : isSpace c = true) : Separates vocabulary c := by
  have halone : ∀ operator ∈ vocabulary.operators, c ∈ operator.toList → operator.length ≤ 1 := by
    intro operator hmem hinside
    rw [hplain operator hmem c hinside] at hc
    cases hc
  rcases isSpace_iff.1 hc with (rfl | rfl) | rfl | rfl
  all_goals exact ⟨by decide, by decide, by decide, by decide, halone⟩

/-- A word that starts a text stands in front of a character that it does not contain. -/
theorem prefix_of_not_mem {word : List Char} (hbegins : word <+: before ++ c :: rest)
    (hc : c ∉ word) : word <+: before := by
  by_cases hlength : word.length ≤ before.length
  · exact List.prefix_of_prefix_length_le hbegins (List.prefix_append _ _) hlength
  · have hlonger : before ++ [c] <+: before ++ c :: rest := by
      rw [List.prefix_append_right_inj]
      exact ⟨rest, rfl⟩
    have hcontains : before ++ [c] <+: word := by
      refine List.prefix_of_prefix_length_le hlonger hbegins ?_
      rw [List.length_append, List.length_singleton]
      omega
    exact absurd (hcontains.subset (by simp)) hc

/-- What is known of the next character stays true when a character is inserted. -/
theorem head?_insert {p : Char → Prop} (hhead : ∀ d ∈ (before ++ after).head?, p d)
    (hc : before = [] → p c) : ∀ d ∈ (before ++ c :: rest).head?, p d := by
  intro d hd
  cases before with
  | nil =>
      cases hd
      exact hc rfl
  | cons b others =>
      exact hhead d hd

namespace Lexeme

/-- A maximal lexeme is still maximal when a character is inserted somewhere behind it, unless the
character would become a part of it.  That can happen to spacing only, and behind a comment. -/
theorem Maximal.insert (hoperators : "" ∉ vocabulary.operators) {lexeme : Lexeme}
    {before after rest : List Char} {c : Char}
    (hmaximal : lexeme.Maximal vocabulary (before ++ after)) (hc : Separates vocabulary c)
    (hapart : before = [] → lexeme.kind = .blank →
      isSpace c = false ∧ ∃ d ∈ after.head?, isLineBreak d = false) :
    lexeme.Maximal vocabulary (before ++ c :: rest) := by
  have hspace : before = [] → lexeme.kind = .blank → isBlank c = false ∧ isLineBreak c = false :=
    fun hnil hblank => Bool.or_eq_false_iff.1 (hapart hnil hblank).1
  generalize hfollowing : before ++ after = following at hmaximal
  cases hmaximal with
  | word hstart hothers hstop =>
      rw [← hfollowing] at hstop
      exact .word hstart hothers (head?_insert hstop fun _ => hc.notWord)
  | digits hnonempty hdigits hstop hpoint =>
      rw [← hfollowing] at hstop
      refine .digits hnonempty hdigits (head?_insert hstop fun _ => hc.notDigit) ?_
      intro d more hmore
      rw [← hfollowing] at hpoint
      match before with
      | [] =>
          cases hmore
          exact absurd rfl hc.notPoint
      | [point] =>
          cases hmore
          exact hc.notDigit
      | point :: next :: others =>
          cases hmore
          exact hpoint d _ rfl
  | fraction hnonempty hdigits hfraction hfractionDigits hstop =>
      rw [← hfollowing] at hstop
      exact .fraction hnonempty hdigits hfraction hfractionDigits
        (head?_insert hstop fun _ => hc.notDigit)
  | literal _ hquote hbody => exact .literal _ hquote hbody
  | lineBreaks hnonempty hchars hstop =>
      rw [← hfollowing] at hstop
      exact .lineBreaks hnonempty hchars (head?_insert hstop fun hnil => (hspace hnil rfl).2)
  | blanks hnonempty hchars hstop =>
      rw [← hfollowing] at hstop
      exact .blanks hnonempty hchars (head?_insert hstop fun hnil => (hspace hnil rfl).1)
  | comment hbody hstop =>
      rw [← hfollowing] at hstop
      refine .comment hbody (head?_insert hstop fun hnil => ?_)
      -- The comment goes up to a line break, but something else comes next.
      rcases (hapart hnil rfl).2 with ⟨d, hd, hother⟩
      rw [hnil, List.nil_append] at hstop
      rw [hstop d hd] at hother
      cases hother
  | @operator operator _ hmem hstarts hcomment hlongest =>
      rw [← hfollowing, ← List.append_assoc] at hcomment hlongest hstarts
      have hnonempty : operator.toList ≠ [] := by
        rw [ne_eq, String.toList_eq_nil_iff]
        rintro rfl
        exact hoperators hmem
      refine .operator hmem ?_ ?_ ?_
      · rw [← List.append_assoc]
        refine head?_insert hstarts fun hnil => ?_
        exact absurd (List.append_eq_nil_iff.1 hnil).1 hnonempty
      · intro hbegins
        rw [← List.append_assoc] at hbegins
        have hslashes : c ∉ ['/', '/'] := by simp [hc.notSlash]
        exact hcomment ((prefix_of_not_mem hbegins hslashes).trans (List.prefix_append _ _))
      · intro other hother hbegins
        rw [← List.append_assoc] at hbegins
        by_cases hinside : c ∈ other.toList
        · have hshort := hc.alone other hother hinside
          have hlong := List.length_pos_iff.2 hnonempty
          rw [String.length_toList] at hlong
          omega
        · exact hlongest other hother
            ((prefix_of_not_mem hbegins hinside).trans (List.prefix_append _ _))

end Lexeme

/-- Spacing behind a blank lexeme or a comment is taken for a part of it, or stands behind it. -/
theorem LexesTo.after_blank (hoperators : "" ∉ vocabulary.operators) {lexeme : Lexeme}
    {words : List Word} (hmaximal : lexeme.Maximal vocabulary after) (hblank : lexeme.kind = .blank)
    (hgap : Spacing gap) (hafter : LexesTo vocabulary after words) :
    LexesTo vocabulary (lexeme.chars ++ (gap ++ after)) words := by
  cases hmaximal with
  | @lineBreaks chars _ _ hchars _ =>
      have hspacing : Spacing chars := .of_forall fun c hc => by simp [isSpace, hchars c hc]
      rw [← List.append_assoc]
      exact hafter.spacing hoperators (hspacing.append hgap)
  | @blanks chars _ _ hchars _ =>
      have hspacing : Spacing chars := .of_forall fun c hc => by simp [isSpace, hchars c hc]
      rw [← List.append_assoc]
      exact hafter.spacing hoperators (hspacing.append hgap)
  | @comment body _ hbody hstop =>
      rcases hgap.line with hline | ⟨line, stop, rest, rfl, hline, hbreak, hrest⟩
      · have hwhole : ∀ c ∈ body ++ gap, isLineBreak c = false := by
          rw [List.forall_mem_append]
          exact ⟨hbody, hline⟩
        simpa using hafter.comment hoperators hwhole hstop
      · have hwhole : ∀ c ∈ body ++ line, isLineBreak c = false := by
          rw [List.forall_mem_append]
          exact ⟨hbody, hline⟩
        have hspacing := Spacing.comment hwhole hbreak hrest
        simpa using hafter.spacing hoperators hspacing
  | _ => cases hblank

/-- Without characters there are no lexemes. -/
theorem Segmented.eq_nil_of_chars (hoperators : "" ∉ vocabulary.operators)
    (hsegmented : Segmented vocabulary input lexemes rest)
    (hchars : lexemes.flatMap Lexeme.chars = []) : lexemes = [] := by
  cases hsegmented with
  | stop => rfl
  | cons hmaximal _ =>
      rw [List.flatMap_cons, List.append_eq_nil_iff] at hchars
      exact absurd hchars.1 (hmaximal.chars_ne_nil hoperators)

/-- Spacing between two lexemes does not change the words of a text. -/
theorem Segmented.lexesTo_insert (hoperators : "" ∉ vocabulary.operators)
    (hplain : ∀ operator ∈ vocabulary.operators, ∀ c ∈ operator.toList, isSpace c = false)
    {words : List Word} (hsegmented : Segmented vocabulary input lexemes after)
    (hc : isSpace c = true) (hgap : Spacing gap) (hafter : LexesTo vocabulary after words) :
    LexesTo vocabulary (lexemes.flatMap Lexeme.chars ++ (c :: gap ++ after))
      (lexemes.flatMap Lexeme.words ++ words) := by
  induction hsegmented with
  | stop after =>
      have hspacing : Spacing (c :: gap) := .space hc hgap
      rw [List.flatMap_nil, List.nil_append, List.flatMap_nil, List.nil_append]
      exact hafter.spacing hoperators hspacing
  | @cons lexeme lexemes following after hmaximal hrest ih =>
      have hinner := ih hafter
      rw [hrest.text_eq] at hmaximal
      rw [List.flatMap_cons, List.flatMap_cons, List.append_assoc, List.append_assoc]
      by_cases hat : lexemes.flatMap Lexeme.chars = [] ∧ lexeme.kind = .blank
      · -- The spacing follows a blank lexeme or a comment at once.
        rcases hat with ⟨hnone, hblank⟩
        have hlast : lexemes = [] := hrest.eq_nil_of_chars hoperators hnone
        rw [hnone, List.nil_append] at hmaximal ⊢
        rw [hlast, List.flatMap_nil, List.nil_append, Lexeme.words, if_pos hblank,
          List.nil_append]
        exact hafter.after_blank hoperators hmaximal hblank (.space hc hgap)
      · have hspaced : lexeme.Maximal vocabulary
            (lexemes.flatMap Lexeme.chars ++ c :: (gap ++ after)) :=
          hmaximal.insert hoperators (.of_isSpace hplain hc)
            fun hnone hblank => absurd ⟨hnone, hblank⟩ hat
        exact hinner.cons (Lexeme.scan?_of_maximal hoperators hspaced) rfl

/-! ## Boundaries of a source text -/

/-- A token starts behind the first part of a source text, or the text ends there. -/
def IsBoundary (vocabulary : Vocabulary) (source : String) (before after : List Char) : Prop :=
  source.toList = before ++ after ∧
    (after = [] ∨ ∃ token ∈ (lex vocabulary source).tokens,
      token.position.offset = (String.ofList before).utf8ByteSize)

/-- The first lexemes of a text, and the others. -/
theorem Segmented.split {first second : List Lexeme}
    (hsegmented : Segmented vocabulary input (first ++ second) rest) :
    Segmented vocabulary input first (second.flatMap Lexeme.chars ++ rest) ∧
      Segmented vocabulary (second.flatMap Lexeme.chars ++ rest) second rest := by
  induction first generalizing input with
  | nil =>
      rw [List.nil_append] at hsegmented
      rw [← hsegmented.text_eq]
      exact ⟨.stop _, hsegmented⟩
  | cons lexeme first ih =>
      cases hsegmented with
      | cons hmaximal hrest => exact ⟨.cons hmaximal (ih hrest).1, (ih hrest).2⟩

/-- A token stands behind the lexemes before it. -/
theorem exists_split_of_mem_tokensFrom {position : Position} {token : Token}
    (hmem : token ∈ tokensFrom position lexemes) :
    ∃ first second, lexemes = first ++ second ∧
      token.position = position.advance (first.flatMap Lexeme.chars) := by
  induction lexemes generalizing position with
  | nil => cases hmem
  | cons lexeme lexemes ih =>
      rcases List.mem_cons.1 hmem with rfl | hmem
      · exact ⟨[], lexeme :: lexemes, rfl, rfl⟩
      · rcases ih hmem with ⟨first, second, rfl, hposition⟩
        refine ⟨lexeme :: first, second, rfl, ?_⟩
        rw [hposition, List.flatMap_cons, Position.advance_append]

/-- A text of the same size has no more characters. -/
theorem eq_nil_of_utf8ByteSize_eq
    (hsize : (String.ofList (first ++ second)).utf8ByteSize = (String.ofList first).utf8ByteSize) :
    second = [] := by
  rw [String.ofList_append, String.utf8ByteSize_append] at hsize
  have hzero : (String.ofList second).utf8ByteSize = 0 := by omega
  simpa using hzero

/-- Two beginnings of a text with the same number of bytes are the same. -/
theorem eq_of_utf8ByteSize_eq {text : List Char} (hfirst : first <+: text)
    (hsecond : second <+: text)
    (hsize : (String.ofList first).utf8ByteSize = (String.ofList second).utf8ByteSize) :
    first = second := by
  rcases List.prefix_or_prefix_of_prefix hfirst hsecond with ⟨rest, rfl⟩ | ⟨rest, rfl⟩
  · rw [eq_nil_of_utf8ByteSize_eq hsize.symm, List.append_nil]
  · rw [eq_nil_of_utf8ByteSize_eq hsize, List.append_nil]

/-- A boundary lies between the first lexemes of a text and the others. -/
theorem IsBoundary.exists_segmented {source : String}
    (hboundary : IsBoundary vocabulary source before after)
    (hfault : (lex vocabulary source).fault = none) :
    ∃ first second, first.flatMap Lexeme.chars = before ∧ second.flatMap Lexeme.chars = after ∧
      Segmented vocabulary source.toList (first ++ second) [] := by
  rcases lexFrom_segmented vocabulary source.toList .start with
    ⟨lexemes, rest, hsegmented, _, hlexed⟩
  rcases hboundary with ⟨hsource, hplace⟩
  rw [lex, hlexed] at hfault
  cases rest with
  | cons c rest => cases hfault
  | nil =>
      have htext := hsegmented.text_eq
      rw [List.append_nil] at htext
      rcases hplace with rfl | ⟨token, hmem, hoffset⟩
      · rw [List.append_nil] at hsource
        refine ⟨lexemes, [], by rw [← htext, hsource], rfl, ?_⟩
        rwa [List.append_nil]
      · rw [lex, hlexed] at hmem
        rcases exists_split_of_mem_tokensFrom hmem with ⟨first, second, rfl, hposition⟩
        rw [List.flatMap_append] at htext
        rw [hposition, Position.advance_start] at hoffset
        have hstart : first.flatMap Lexeme.chars <+: source.toList := ⟨_, htext.symm⟩
        have hbefore := eq_of_utf8ByteSize_eq hstart ⟨after, hsource.symm⟩ hoffset
        rw [hsource, hbefore] at htext
        exact ⟨first, second, hbefore, (List.append_cancel_left htext).symm, hsegmented⟩

/-- Spacing at a boundary of a source text does not change its words. -/
theorem lex_insert_spacing (hoperators : "" ∉ vocabulary.operators)
    (hplain : ∀ operator ∈ vocabulary.operators, ∀ c ∈ operator.toList, isSpace c = false)
    {source : String} (hfault : (lex vocabulary source).fault = none)
    (hboundary : IsBoundary vocabulary source before after) (hc : isSpace c = true)
    (hgap : Spacing gap) :
    (lex vocabulary (String.ofList (before ++ (c :: gap ++ after)))).fault = none ∧
      (lex vocabulary (String.ofList (before ++ (c :: gap ++ after)))).words =
        (lex vocabulary source).words := by
  rcases hboundary.exists_segmented hfault with ⟨first, second, rfl, rfl, hsegmented⟩
  rcases hsegmented.split with ⟨hfirst, hsecond⟩
  rw [List.append_nil] at hfirst hsecond
  have hwords := (hsegmented.lexesTo hoperators .start).2
  have hspaced :=
    hfirst.lexesTo_insert hoperators hplain hc hgap (hsecond.lexesTo hoperators) .start
  rw [lex, lex, String.toList_ofList, hwords, List.flatMap_append]
  exact hspaced

end Workshop

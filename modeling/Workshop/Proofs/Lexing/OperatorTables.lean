import Workshop.Proofs.Lexing.Spacing
import Workshop.Script.TokenStream
import Mathlib.Data.List.Destutter

/-!
# Tables of operators

The operators of a vocabulary are listed in any order and perhaps more than
once.  Of those that stand at the start of a text, the longest is found.  A
table in which the operators stand by their sizes, the largest first, serves for
this as well: the first entry that fits is the longest.

Main definitions:

- `Vocabulary.LongestAt`: the longest of the listed operators at the start of a
  text.
- `Vocabulary.FindsLongest`: a way to find it.
- `Vocabulary.longestFirst`, `Vocabulary.firstAt?`: the table of operators, and
  the first entry that fits.

Main results:

- Theorem `Vocabulary.FindsLongest.eq`: there is one way to find the longest
  operator, for all lists with the same members.
- Theorem `Vocabulary.findsLongest_operatorAt?`,
  `Vocabulary.findsLongest_firstAt?`: the operators of a vocabulary, and those
  of a table.
- Theorem `operators_match_longest`: neither the order of the operators nor
  repetitions matter to a match or to the tokens of a text.
-/

namespace Workshop

namespace Vocabulary

/-! ## Longest operators -/

/-- A listed operator that stands at the start of a text.  All others that do so are shorter, in
characters and in bytes. -/
structure LongestAt (operators : List String) (input : List Char) (operator : String) : Prop where
  mem : operator ∈ operators
  starts : operator.toList <+: input
  longest : ∀ other ∈ operators, other.toList <+: input → other ≠ operator →
    other.length < operator.length ∧ other.utf8ByteSize < operator.utf8ByteSize

/-- A proper beginning has fewer characters and fewer bytes. -/
theorem shorter_of_begins {first second : String} (hfits : first.toList <+: second.toList)
    (hne : first ≠ second) :
    first.length < second.length ∧ first.utf8ByteSize < second.utf8ByteSize := by
  rcases hfits with ⟨rest, hrest⟩
  have hsecond : second = first ++ String.ofList rest := by
    rw [← String.toList_inj, String.toList_append, String.toList_ofList, hrest]
  have hpos : rest ≠ [] := by
    rintro rfl
    exact hne (String.toList_inj.1 (by simpa using hrest))
  constructor
  · have hlength := congrArg List.length hrest
    rw [List.length_append, String.length_toList, String.length_toList] at hlength
    have := List.length_pos_iff.2 hpos
    omega
  · have hsize : (String.ofList rest).utf8ByteSize ≠ 0 := by simpa using hpos
    rw [hsecond, String.utf8ByteSize_append]
    omega

namespace LongestAt

variable {operators operators' : List String} {input : List Char} {operator other : String}

/-- Two operators at the start of one text are comparable, so that it is enough if none is a
continuation of the given one. -/
theorem of_not_longer (hmem : operator ∈ operators) (hstarts : operator.toList <+: input)
    (hlongest : ∀ other ∈ operators, other.toList <+: input → operator.toList <+: other.toList →
      other = operator) : LongestAt operators input operator where
  mem := hmem
  starts := hstarts
  longest other hother hfits hne := by
    rcases List.prefix_or_prefix_of_prefix hfits hstarts with hshorter | hlonger
    · exact shorter_of_begins hshorter hne
    · exact absurd (hlongest other hother hfits hlonger) hne

/-- There is one longest operator. -/
theorem unique (hoperator : LongestAt operators input operator)
    (hother : LongestAt operators input other) : operator = other := by
  by_contra hne
  have hshorter := hoperator.longest other hother.mem hother.starts (Ne.symm hne)
  have hlonger := hother.longest operator hoperator.mem hoperator.starts hne
  omega

/-- The order of the table does not matter. -/
theorem congr (hmembers : ∀ operator, operator ∈ operators' ↔ operator ∈ operators)
    (hoperator : LongestAt operators' input operator) : LongestAt operators input operator where
  mem := (hmembers operator).1 hoperator.mem
  starts := hoperator.starts
  longest other hother := hoperator.longest other ((hmembers other).2 hother)

end LongestAt

/-- A way to find the longest operator at the start of a text, which gives up only if no operator
stands there. -/
structure FindsLongest (operators : List String) (find : List Char → Option String) : Prop where
  none : ∀ input, find input = none → ∀ operator ∈ operators, ¬ operator.toList <+: input
  some : ∀ input operator, find input = some operator → LongestAt operators input operator

namespace FindsLongest

variable {operators operators' : List String} {find find' : List Char → Option String}
  {input : List Char} {operator : String}

/-- Nothing is found where no operator fits. -/
theorem eq_none_iff (hfind : FindsLongest operators find) :
    find input = Option.none ↔ ∀ operator ∈ operators, ¬ operator.toList <+: input := by
  constructor
  · exact hfind.none input
  · intro hno
    cases hfound : find input with
    | none => rfl
    | some operator =>
        have hlongest := hfind.some input operator hfound
        exact absurd hlongest.starts (hno operator hlongest.mem)

/-- The longest operator is found. -/
theorem eq_some_iff (hfind : FindsLongest operators find) :
    find input = Option.some operator ↔ LongestAt operators input operator := by
  constructor
  · exact hfind.some input operator
  · intro hlongest
    cases hfound : find input with
    | none => exact absurd hlongest.starts (hfind.none input hfound operator hlongest.mem)
    | some other => rw [(hfind.some input other hfound).unique hlongest]

/-- There is one way to find the longest operator, for all lists with the same members. -/
theorem eq (hmembers : ∀ operator, operator ∈ operators' ↔ operator ∈ operators)
    (hfind : FindsLongest operators find) (hfind' : FindsLongest operators' find')
    (input : List Char) : find' input = find input := by
  cases hfound : find' input with
  | none =>
      symm
      rw [hfind.eq_none_iff]
      intro operator hmem
      exact hfind'.none input hfound operator ((hmembers operator).2 hmem)
  | some operator =>
      symm
      rw [hfind.eq_some_iff]
      exact (hfind'.some input operator hfound).congr hmembers

end FindsLongest

/-- The lexer finds the longest operator. -/
theorem findsLongest_operatorAt? {vocabulary : Vocabulary}
    (hoperators : "" ∉ vocabulary.operators) :
    FindsLongest vocabulary.operators vocabulary.operatorAt? where
  none input hnone operator hmem hfits := by
    have hstarts := longest?_eq_none_iff.1 hnone operator hmem
    have hempty : operator.toList ≠ [] := by
      intro hnil
      rw [String.toList_eq_nil_iff.1 hnil] at hmem
      exact hoperators hmem
    rw [starts_iff.2 ⟨hempty, hfits⟩] at hstarts
    cases hstarts
  some input operator hsome := by
    rcases longest?_eq_some hsome with ⟨hmem, hstarts, hlongest⟩
    rcases starts_iff.1 hstarts with ⟨hempty, hfits⟩
    apply LongestAt.of_not_longer hmem hfits
    intro other hother hotherFits hlonger
    by_contra hne
    have hshorter := (shorter_of_begins hlonger (Ne.symm hne)).1
    have hnonempty : other.toList ≠ [] := fun hnil => hempty (List.prefix_nil.1 (hnil ▸ hlonger))
    have hle := hlongest other hother (starts_iff.2 ⟨hnonempty, hotherFits⟩)
    omega

/-! ## Tables -/

/-- The table of operators.  They stand by their numbers of bytes, the largest first, and in the
order of the list where these are the same.  An entry that repeats the one before it is left out. -/
def longestFirst (operators : List String) : List String :=
  (operators.mergeSort fun first second =>
    decide (second.utf8ByteSize ≤ first.utf8ByteSize)).destutter (· ≠ ·)

/-- The first entry of a table that stands at the start of a text. -/
def firstAt? (table : List String) (input : List Char) : Option String :=
  table.find? fun operator => operator.toList.isPrefixOf input

/-- Leaving out repetitions leaves every entry once. -/
theorem mem_destutter_ne {entry : String} {table : List String} :
    entry ∈ table.destutter (· ≠ ·) ↔ entry ∈ table := by
  have hrunning (first : String) (others : List String) (hmem : entry ∈ first :: others) :
      entry ∈ others.destutter' (· ≠ ·) first := by
    induction others generalizing first with
    | nil => simpa using hmem
    | cons second others ih =>
        by_cases hne : first ≠ second
        · rw [List.destutter'_cons_pos _ hne, List.mem_cons]
          exact (List.mem_cons.1 hmem).imp id (ih second)
        · rw [List.destutter'_cons_neg _ hne]
          obtain rfl : first = second := not_not.1 hne
          exact ih first (by simpa using hmem)
  constructor
  · intro hmem
    exact (List.destutter_sublist _ table).subset hmem
  · intro hmem
    cases table with
    | nil => exact hmem
    | cons first others => exact hrunning first others hmem

/-- Sorting keeps the operators. -/
theorem mem_longestFirst {operators : List String} {operator : String} :
    operator ∈ longestFirst operators ↔ operator ∈ operators := by
  rw [longestFirst, mem_destutter_ne, List.mem_mergeSort]

/-- No entry of the table is larger than one before it. -/
theorem pairwise_longestFirst (operators : List String) :
    (longestFirst operators).Pairwise fun first second =>
      second.utf8ByteSize ≤ first.utf8ByteSize := by
  apply List.Pairwise.sublist (List.destutter_sublist _ _)
  apply (List.pairwise_mergeSort ?_ ?_ operators).imp
  · intro first second hle
    exact of_decide_eq_true hle
  · intro first second third hfirst hsecond
    have hfirst := of_decide_eq_true hfirst
    have hsecond := of_decide_eq_true hsecond
    exact decide_eq_true (hsecond.trans hfirst)
  · intro first second
    rcases Nat.le_total second.utf8ByteSize first.utf8ByteSize with hle | hle <;> simp [hle]

/-- The first of the sorted operators is the longest. -/
theorem findsLongest_firstAt? (operators : List String) :
    FindsLongest operators (firstAt? (longestFirst operators)) where
  none input hnone operator hmem hfits :=
    List.find?_eq_none.1 hnone operator (mem_longestFirst.2 hmem)
      (List.isPrefixOf_iff_prefix.2 hfits)
  some input operator hsome := by
    rcases List.find?_eq_some_iff_append.1 hsome with ⟨hstarts, before, after, htable, hbefore⟩
    have hfits := List.isPrefixOf_iff_prefix.1 hstarts
    have hpairwise := pairwise_longestFirst operators
    rw [htable, List.pairwise_append, List.pairwise_cons] at hpairwise
    have hmem {other : String} : other ∈ operators ↔ other ∈ before ++ operator :: after := by
      rw [← htable, mem_longestFirst]
    apply LongestAt.of_not_longer (hmem.2 (by simp)) hfits
    intro other hother hotherFits hlonger
    -- An entry in front does not fit, and an entry behind is not larger.
    rcases List.mem_append.1 (hmem.1 hother) with hfront | hbehind
    · have hno := hbefore other hfront
      rw [List.isPrefixOf_iff_prefix.2 hotherFits] at hno
      cases hno
    · rcases List.mem_cons.1 hbehind with rfl | hbehind
      · rfl
      · by_contra hne
        have hle := hpairwise.2.1.1 other hbehind
        have hshorter := (shorter_of_begins hlonger (Ne.symm hne)).2
        omega

end Vocabulary

/-! ## Tokens -/

section Lexing

variable {vocabulary other : Vocabulary}

/-- Operators enter a lexeme only through their match. -/
theorem Lexeme.scan?_congr
    (hmatch : ∀ input, other.operatorAt? input = vocabulary.operatorAt? input)
    (input : List Char) : Lexeme.scan? other input = Lexeme.scan? vocabulary input := by
  cases input with
  | nil => rfl
  | cons c rest => simp only [Lexeme.scan?, hmatch]

/-- Only what is found matters to the lexer. -/
theorem lexFrom_congr (hmatch : ∀ input, other.operatorAt? input = vocabulary.operatorAt? input)
    (input : List Char) (position : Position) (skip : Nat) :
    lexFrom other input position skip = lexFrom vocabulary input position skip := by
  induction input generalizing position skip with
  | nil => cases skip <;> rfl
  | cons c rest ih =>
      cases skip with
      | zero => simp only [lexFrom, Lexeme.scan?_congr hmatch, ih]
      | succ skip => exact ih _ _

end Lexing

/-- For every list of operators, none of which is empty, in any order and with any repetitions.

No operator is found exactly if none of the list stands at the start of the text.  An operator is
found exactly if it is the longest of the list that does; all others are shorter.  The same operator
is found as the first that fits in the table of the operators by their sizes.  And every list with
the same members gives the same match for every text, the same tokens, and the same stream. -/
theorem operators_match_longest {vocabulary : Vocabulary}
    (hoperators : "" ∉ vocabulary.operators) :
    (∀ input, vocabulary.operatorAt? input = none ↔
      ∀ operator ∈ vocabulary.operators, ¬ operator.toList <+: input) ∧
    (∀ input operator, vocabulary.operatorAt? input = some operator ↔
      Vocabulary.LongestAt vocabulary.operators input operator) ∧
    (∀ input, Vocabulary.firstAt? (Vocabulary.longestFirst vocabulary.operators) input =
      vocabulary.operatorAt? input) ∧
    ∀ operators : List String,
      (∀ operator, operator ∈ operators ↔ operator ∈ vocabulary.operators) →
      (∀ input, Vocabulary.operatorAt? ⟨vocabulary.keywords, operators⟩ input =
        vocabulary.operatorAt? input) ∧
      ∀ source, lex ⟨vocabulary.keywords, operators⟩ source = lex vocabulary source ∧
        TokenStream.ofSource ⟨vocabulary.keywords, operators⟩ source =
          TokenStream.ofSource vocabulary source := by
  have hfinds := Vocabulary.findsLongest_operatorAt? hoperators
  refine ⟨fun input => hfinds.eq_none_iff, fun input operator => hfinds.eq_some_iff,
    hfinds.eq (fun _ => Iff.rfl) (Vocabulary.findsLongest_firstAt? _), ?_⟩
  intro operators hmembers
  let other : Vocabulary := ⟨vocabulary.keywords, operators⟩
  have hother : "" ∉ other.operators := fun hmem => hoperators ((hmembers "").1 hmem)
  have hmatch : ∀ input, other.operatorAt? input = vocabulary.operatorAt? input :=
    hfinds.eq hmembers (Vocabulary.findsLongest_operatorAt? hother)
  have hlex (source : String) : lex other source = lex vocabulary source :=
    lexFrom_congr hmatch _ _ _
  refine ⟨hmatch, fun source => ⟨hlex source, ?_⟩⟩
  rw [TokenStream.ofSource, hlex]
  rfl

/-- Operators of one and of two characters.  One of them is listed twice. -/
def arrows : Vocabulary := ⟨["if"], ["<", "→", "<=", "→<", "<"]⟩

/-- At the start of `→<=` two operators stand, and the longer one is found, also if the operators
are listed the other way round and once. -/
theorem operators_match_longest_arrows :
    "" ∉ arrows.operators ∧
      arrows.operatorAt? ['→', '<', '='] = some "→<" ∧
      Vocabulary.LongestAt arrows.operators ['→', '<', '='] "→<" ∧
      Vocabulary.firstAt? (Vocabulary.longestFirst arrows.operators) ['→', '<', '='] =
        some "→<" ∧
      arrows.operatorAt? ['=', '<'] = none ∧
      (∀ operator, operator ∈ ["→<", "<=", "→", "<"] ↔ operator ∈ arrows.operators) ∧
      ∀ source, lex ⟨["if"], ["→<", "<=", "→", "<"]⟩ source = lex arrows source := by
  have hoperators : "" ∉ arrows.operators := by decide
  have hmembers : ∀ operator, operator ∈ ["→<", "<=", "→", "<"] ↔ operator ∈ arrows.operators := by
    intro operator
    simp only [arrows, List.mem_cons, List.not_mem_nil, or_false]
    tauto
  have hfound : arrows.operatorAt? ['→', '<', '='] = some "→<" := by decide
  rcases operators_match_longest hoperators with ⟨hnone, hsome, htable, hother⟩
  refine ⟨hoperators, hfound, (hsome _ _).1 hfound, (htable _).trans hfound, (hnone _).2 ?_,
    hmembers, fun source => ((hother _ hmembers).2 source).1⟩
  decide

end Workshop

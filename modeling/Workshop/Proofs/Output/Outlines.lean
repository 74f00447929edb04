import Workshop.Output.RuleLayout
import Workshop.Proofs.Printing.Words

/-!
# Outlines

Actions are statements and choices between further actions.  In the text of a rule
the choices are rows of their own, with the rows of their branches between them and
one level deeper.  This module has both forms, the nested one and the rows, and
reads the first from the second.

Main definitions:

- `Outline`: statements and choices, nested in each other.
- `Outline.rows`: the same as rows, each with the number of branches around it.
- `Outline.lines`: the same as lines between marks.
- `readOutline`: the outline that rows stand for, if they are nested properly.
- `Line.MarksNest`: marks that are nested properly.
- `Line.physical`: the lines of a text, with their indentation.
- `physicalLines`, `indentation`, `unindented`: the lines of a text, the number of
  tabulators before a line, and the line without them.

Main results:

- Theorem `readOutline_rows`: an outline is read back from its rows.
- Theorem `Line.Closes.marksNest`: marks are nested if they can be counted.
- Theorem `Line.physicalLines_render`: the lines of a text are those it was written
  from.
- Theorem `Outline.physical_lines`: the indentation of an outline.
- Theorem `Outline.readOutline_indented`: an outline and the indentation of its rows
  are read back from its lines.
-/

namespace Workshop

/-! ## Statements and choices -/

/-- Actions one after the other: statements, and choices with one branch or two. -/
inductive Outline (α : Type) where
  | done
  | statement (content : α) (rest : Outline α)
  | choice (condition : α) (thenPart rest : Outline α)
  | choiceElse (condition : α) (thenPart elsePart rest : Outline α)
deriving DecidableEq, Repr

/-- A row of an outline: a statement, or one of the rows around the branches of a choice. -/
inductive Row (α : Type) where
  | statement (content : α)
  | opening (condition : α)
  | otherwise
  | closing
deriving DecidableEq, Repr

namespace Outline

variable {α β : Type} {content condition : α → β → Prop} {first : Outline α}

/-- The actions of one outline, and behind them those of another. -/
def append : Outline α → Outline α → Outline α
  | done, other => other
  | statement content rest, other => statement content (rest.append other)
  | choice condition thenPart rest, other => choice condition thenPart (rest.append other)
  | choiceElse condition thenPart elsePart rest, other =>
    choiceElse condition thenPart elsePart (rest.append other)

/-- Nothing is added at the end. -/
@[simp]
theorem append_done (outline : Outline α) : outline.append done = outline := by
  induction outline with
  | done => rfl
  | statement content rest ih => rw [append, ih]
  | choice condition thenPart rest _ ih => rw [append, ih]
  | choiceElse condition thenPart elsePart rest _ _ ih => rw [append, ih]

/-- The rows of an outline, each with the number of branches around it.  There are already as many
as the given depth says. -/
def rows (depth : Nat) : Outline α → List (Nat × Row α)
  | done => []
  | statement content rest => (depth, .statement content) :: rest.rows depth
  | choice condition thenPart rest =>
    (depth, .opening condition) :: (thenPart.rows (depth + 1) ++
      (depth, .closing) :: rest.rows depth)
  | choiceElse condition thenPart elsePart rest =>
    (depth, .opening condition) :: (thenPart.rows (depth + 1) ++
      (depth, .otherwise) :: (elsePart.rows (depth + 1) ++ (depth, .closing) :: rest.rows depth))

/-- Outlines of one structure, with related contents and related conditions. -/
inductive Rel (content condition : α → β → Prop) : Outline α → Outline β → Prop
  | done : Rel content condition done done
  | statement {a : α} {b : β} {rest : Outline α} {rest' : Outline β} : content a b →
      Rel content condition rest rest' →
      Rel content condition (statement a rest) (statement b rest')
  | choice {a : α} {b : β} {thenPart rest : Outline α} {thenPart' rest' : Outline β} :
      condition a b → Rel content condition thenPart thenPart' →
      Rel content condition rest rest' →
      Rel content condition (choice a thenPart rest) (choice b thenPart' rest')
  | choiceElse {a : α} {b : β} {thenPart elsePart rest : Outline α}
      {thenPart' elsePart' rest' : Outline β} : condition a b →
      Rel content condition thenPart thenPart' → Rel content condition elsePart elsePart' →
      Rel content condition rest rest' →
      Rel content condition (choiceElse a thenPart elsePart rest)
        (choiceElse b thenPart' elsePart' rest')

/-- Outlines are related piece by piece. -/
theorem Rel.append {second : Outline α} {first' second' : Outline β}
    (hfirst : Rel content condition first first') (hsecond : Rel content condition second second') :
    Rel content condition (first.append second) (first'.append second') := by
  induction hfirst with
  | done => exact hsecond
  | statement hcontent _ ih => exact .statement hcontent ih
  | choice hcondition hthen _ _ ih => exact .choice hcondition hthen ih
  | choiceElse hcondition hthen helse _ _ _ ih => exact .choiceElse hcondition hthen helse ih

/-- Rows that are related stand under the same number of branches. -/
theorem Rel.map_fst_rows {second : Outline β} (hrel : Rel content condition first second)
    (depth : Nat) : (first.rows depth).map Prod.fst = (second.rows depth).map Prod.fst := by
  induction hrel generalizing depth with
  | done => rfl
  | statement _ _ ih => simp [rows, ih]
  | choice _ _ _ ihthen ih => simp [rows, ihthen, ih]
  | choiceElse _ _ _ _ ihthen ihelse ih => simp [rows, ihthen, ihelse, ih]

/-- The given number of branches is around all rows. -/
theorem map_fst_rows_add (outer depth : Nat) (outline : Outline α) :
    (outline.rows (outer + depth)).map Prod.fst =
      (outline.rows depth).map fun row => outer + row.1 := by
  induction outline generalizing depth with
  | done => rfl
  | statement content rest ih => simp [rows, ih]
  | choice condition thenPart rest ihthen ih => simp [rows, ihthen, ih, Nat.add_assoc]
  | choiceElse condition thenPart elsePart rest ihthen ihelse ih =>
      simp [rows, ihthen, ihelse, ih, Nat.add_assoc]

/-- What is true of the contents of an outline is true of its statements. -/
theorem Rel.forall_statement {p : β → Prop} (hcontent : ∀ a b, content a b → p b)
    {second : Outline β} (hrel : Rel content condition first second) (depth : Nat) :
    ∀ row ∈ second.rows depth, ∀ b, row.2 = .statement b → p b := by
  induction hrel generalizing depth with
  | done => exact List.forall_mem_nil _
  | statement hab _ ih =>
      refine List.forall_mem_cons.2 ⟨?_, ih depth⟩
      rintro b ⟨⟩
      exact hcontent _ _ hab
  | choice _ _ _ ihthen ih =>
      simp only [rows, List.forall_mem_cons, List.forall_mem_append]
      exact ⟨by simp, ihthen (depth + 1), by simp, ih depth⟩
  | choiceElse _ _ _ _ ihthen ihelse ih =>
      simp only [rows, List.forall_mem_cons, List.forall_mem_append]
      exact ⟨by simp, ihthen (depth + 1), by simp, ihelse (depth + 1), by simp, ih depth⟩

end Outline

/-! ## Reading rows -/

/-- A branch that is being read from its end: what has been read of it, and the other branch of its
choice if that stands behind it. -/
structure OpenBranch (α : Type) where
  below : Outline α
  elsePart : Option (Outline α)

namespace OpenBranch

variable {α : Type}

/-- A branch of which nothing has been read. -/
def empty : OpenBranch α := ⟨.done, none⟩

/-- A choice, of which this is the first branch, in front of other actions. -/
def close (branch : OpenBranch α) (condition : α) (rest : Outline α) : Outline α :=
  match branch.elsePart with
  | none => .choice condition branch.below rest
  | some elsePart => .choiceElse condition branch.below elsePart rest

end OpenBranch

section Reading

variable {α : Type}

/-- Reads one row, given what has been read behind it: the branches around it from the inside out,
of which the outermost is no branch of a choice. -/
def readRow : Row α → List (OpenBranch α) → Option (List (OpenBranch α))
  | .statement content, branch :: outer =>
    some ({ branch with below := .statement content branch.below } :: outer)
  | .closing, branch :: outer => some (.empty :: branch :: outer)
  | .otherwise, ⟨below, none⟩ :: branch :: outer => some (⟨.done, some below⟩ :: branch :: outer)
  | .opening condition, inner :: branch :: outer =>
    some ({ branch with below := inner.close condition branch.below } :: outer)
  | _, _ => none

/-- Reads rows from the last one to the first one. -/
def readRows (rows : List (Row α)) (branches : List (OpenBranch α)) :
    Option (List (OpenBranch α)) :=
  rows.foldr (fun row read => read.bind (readRow row)) (some branches)

/-- The outline that rows stand for.  There is none if a choice is not closed, is closed twice, or
has two rows for its other branch. -/
def readOutline (rows : List (Row α)) : Option (Outline α) :=
  match readRows rows [.empty] with
  | some [⟨outline, none⟩] => some outline
  | _ => none

theorem readRows_cons (row : Row α) (rows : List (Row α)) (branches : List (OpenBranch α)) :
    readRows (row :: rows) branches = (readRows rows branches).bind (readRow row) :=
  rfl

/-- Rows are read from the last one on. -/
theorem readRows_append (first second : List (Row α)) (branches : List (OpenBranch α)) :
    readRows (first ++ second) branches = (readRows second branches).bind (readRows first) := by
  induction first with
  | nil => exact (Option.bind_fun_some _).symm
  | cons row first ih =>
      rw [List.cons_append, readRows_cons, ih, Option.bind_assoc]
      rfl

/-- The rows of an outline are read into the branch in which they stand, whatever is around it. -/
theorem readRows_rows (outline : Outline α) (depth : Nat) (branch : OpenBranch α)
    (outer : List (OpenBranch α)) :
    readRows ((outline.rows depth).map Prod.snd) (branch :: outer) =
      some ({ branch with below := outline.append branch.below } :: outer) := by
  induction outline generalizing depth branch outer with
  | done => rfl
  | statement content rest ih =>
      rw [Outline.rows, List.map_cons, readRows_cons, ih, Option.bind_some]
      rfl
  | choice condition thenPart rest ihthen ih =>
      rw [Outline.rows, List.map_cons, List.map_append, List.map_cons, readRows_cons,
        readRows_append, readRows_cons, ih, Option.bind_some, readRow, Option.bind_some, ihthen,
        OpenBranch.empty, Outline.append_done]
      rfl
  | choiceElse condition thenPart elsePart rest ihthen ihelse ih =>
      rw [Outline.rows, List.map_cons, List.map_append, List.map_cons, List.map_append,
        List.map_cons, readRows_cons, readRows_append, readRows_cons, readRows_append,
        readRows_cons, ih, Option.bind_some, readRow, Option.bind_some, ihelse, OpenBranch.empty,
        Outline.append_done, Option.bind_some, readRow, Option.bind_some, ihthen,
        Outline.append_done]
      rfl

/-- An outline is read back from its rows. -/
theorem readOutline_rows (outline : Outline α) (depth : Nat) :
    readOutline ((outline.rows depth).map Prod.snd) = some outline := by
  rw [readOutline, readRows_rows, OpenBranch.empty, Outline.append_done]

end Reading

/-! ## Rows as texts -/

namespace Row

/-- The text of a row. -/
def text : Row String → String
  | statement content => content
  | opening condition => "If(" ++ condition ++ ")" ++ ";"
  | otherwise => "Else;"
  | closing => "End;"

/-- The condition of a choice, if a text is the row that opens it. -/
def condition? (text : String) : Option String :=
  if "If(".toList.isPrefixOf text.toList && ");".toList.isSuffixOf text.toList then
    some (String.ofList (text.toList.drop 3).dropLast.dropLast)
  else none

/-- The row with the given text. -/
def ofText (text : String) : Row String :=
  if text = "Else;" then otherwise
  else if text = "End;" then closing
  else
    match condition? text with
    | some condition => opening condition
    | none => statement text

/-- Whether a text can be taken neither for a row around the branches of a choice, nor for
indentation. -/
def isPlain (text : String) : Bool :=
  text.toList.head?.any fun c => c != 'E' && c != 'I' && c != '\t'

/-- A row whose text can be told from its indentation, and from rows of other kinds. -/
def IsLegible (row : Row String) : Prop :=
  ∀ content, row = statement content → isPlain content = true

/-- How a plain text starts. -/
theorem isPlain_iff {text : String} :
    isPlain text = true ↔ ∃ c rest, text.toList = c :: rest ∧ c ≠ 'E' ∧ c ≠ 'I' ∧ c ≠ '\t' := by
  rw [isPlain]
  cases text.toList with
  | nil => simp
  | cons c rest => simp [and_assoc]

/-- More text behind a plain text. -/
theorem isPlain_append {first : String} (hfirst : isPlain first = true) (rest : String) :
    isPlain (first ++ rest) = true := by
  rcases isPlain_iff.1 hfirst with ⟨c, others, hchars, hc⟩
  exact isPlain_iff.2 ⟨c, others ++ rest.toList, by simp [hchars], hc⟩

/-- The condition of a branch is found again. -/
theorem condition?_opening (condition : String) :
    condition? ("If(" ++ condition ++ ")" ++ ";") = some condition := by
  have hchars : ("If(" ++ condition ++ ")" ++ ";").toList =
      ['I', 'f', '('] ++ (condition.toList ++ [')', ';']) := by
    simp
  have hsuffix : [')', ';'] <:+ ['I', 'f', '('] ++ (condition.toList ++ [')', ';']) :=
    ⟨'I' :: 'f' :: '(' :: condition.toList, by simp⟩
  rw [condition?, hchars, if_pos]
  · simp
  · rw [Bool.and_eq_true, List.isPrefixOf_iff_prefix, List.isSuffixOf_iff_suffix]
    exact ⟨List.prefix_append _ _, hsuffix⟩

/-- A plain text is a statement. -/
theorem ofText_of_isPlain {text : String} (hplain : isPlain text = true) :
    ofText text = statement text := by
  rcases isPlain_iff.1 hplain with ⟨c, rest, hchars, hE, hI, _⟩
  have hcondition : condition? text = none := by
    rw [condition?, if_neg]
    rw [Bool.and_eq_true, List.isPrefixOf_iff_prefix, hchars]
    rintro ⟨hstarts, _⟩
    exact hI (List.cons_prefix_cons.1 hstarts).1.symm
  have hword {word : List Char} (hhead : 'E' :: word = text.toList) : False := by
    rw [hchars] at hhead
    exact hE (List.cons.inj hhead).1.symm
  rw [ofText, if_neg, if_neg, hcondition]
  · rintro rfl
    exact hword rfl
  · rintro rfl
    exact hword rfl

/-- A legible row is recovered from its text. -/
theorem ofText_text {row : Row String} (hrow : row.IsLegible) : ofText row.text = row := by
  cases row with
  | statement content => exact ofText_of_isPlain (hrow content rfl)
  | opening condition =>
      have hword {word : List Char} (hhead : 'E' :: word =
          ("If(" ++ condition ++ ")" ++ ";").toList) : False := by
        simp at hhead
      rw [text, ofText, if_neg, if_neg, condition?_opening]
      · intro heq
        exact hword (congrArg String.toList heq).symm
      · intro heq
        exact hword (congrArg String.toList heq).symm
  | otherwise => decide
  | closing => decide

/-- The text of a legible row does not begin with a tabulator. -/
theorem head?_text {row : Row String} (hrow : row.IsLegible) :
    ∀ c ∈ row.text.toList.head?, (c == '\t') = false := by
  cases row with
  | statement content =>
      rcases isPlain_iff.1 (hrow content rfl) with ⟨c, rest, hchars, _, _, htab⟩
      simpa [text, hchars] using htab
  | opening condition => simp [text]
  | otherwise =>
      rintro c ⟨⟩
      rfl
  | closing =>
      rintro c ⟨⟩
      rfl

end Row

/-! ## Marks between lines -/

namespace Line

/-- The level after lines that start at the given level.  It does not fall below zero. -/
def levelAfter : Nat → List Line → Nat
  | level, [] => level
  | level, text _ :: rest => levelAfter level rest
  | level, indent :: rest => levelAfter (level + 1) rest
  | level, dedent :: rest => levelAfter (level - 1) rest
  | level, blank :: rest => levelAfter level rest

/-- How many marks are open after lines, if no more of them are closed than are open. -/
def depthAfter? : Nat → List Line → Option Nat
  | depth, [] => some depth
  | depth, text _ :: rest => depthAfter? depth rest
  | depth, indent :: rest => depthAfter? (depth + 1) rest
  | 0, dedent :: _ => none
  | depth + 1, dedent :: rest => depthAfter? depth rest
  | depth, blank :: rest => depthAfter? depth rest

/-- Marks that are nested properly.  No beginning of the lines closes more of them than it opens,
all of them are closed in the end, and every mark that closes one finds a level to go back from. -/
structure MarksNest (lines : List Line) : Prop where
  prefixes : ∀ before, before <+: lines → before.count .dedent ≤ before.count .indent
  total : lines.count .dedent = lines.count .indent
  above : ∀ level before, before ++ [.dedent] <+: lines → level < levelAfter level before

/-- Lines that close the marks they open, and no others. -/
def Closes (lines : List Line) : Prop :=
  ∀ depth, depthAfter? depth lines = some depth

variable {lines : List Line} {depth after : Nat}

/-- Lines go on where others end. -/
theorem depthAfter?_append (depth : Nat) (first second : List Line) :
    depthAfter? depth (first ++ second) =
      (depthAfter? depth first).bind (depthAfter? · second) := by
  fun_induction depthAfter? depth first with
  | case1 depth => rfl
  | case2 depth content rest ih => rw [List.cons_append, depthAfter?, ih]
  | case3 depth rest ih => rw [List.cons_append, depthAfter?, ih]
  | case4 rest => rfl
  | case5 depth rest ih => rw [List.cons_append, depthAfter?, ih]
  | case6 depth rest ih => rw [List.cons_append, depthAfter?, ih]

/-- Indents and dedents are counted. -/
theorem depthAfter?_count (hafter : depthAfter? depth lines = some after) :
    depth + lines.count .indent = after + lines.count .dedent := by
  fun_induction depthAfter? depth lines with
  | case1 depth =>
      cases hafter
      rfl
  | case2 depth content rest ih => simpa using ih hafter
  | case3 depth rest ih =>
      have hrest := ih hafter
      simp
      omega
  | case4 rest => cases hafter
  | case5 depth rest ih =>
      have hrest := ih hafter
      simp
      omega
  | case6 depth rest ih => simpa using ih hafter

/-- Where the open marks are counted without a failure, the level never stops falling. -/
theorem levelAfter_add (level : Nat) (hafter : depthAfter? depth lines = some after) :
    levelAfter (level + depth) lines = level + after := by
  fun_induction depthAfter? depth lines with
  | case1 depth =>
      cases hafter
      rfl
  | case2 depth content rest ih => exact ih hafter
  | case3 depth rest ih => exact ih hafter
  | case4 rest => cases hafter
  | case5 depth rest ih => exact ih hafter
  | case6 depth rest ih => exact ih hafter

/-- Closed lines come back to their level. -/
theorem Closes.levelAfter_eq (hlines : Closes lines) (level : Nat) :
    levelAfter level lines = level :=
  levelAfter_add level (hlines 0)

/-- Closed lines behind closed lines. -/
theorem Closes.append {first second : List Line} (hfirst : Closes first) (hsecond : Closes second) :
    Closes (first ++ second) := by
  intro depth
  rw [depthAfter?_append, hfirst, Option.bind_some, hsecond]

/-- Statements are closed. -/
theorem closes_map_statement (texts : List String) : Closes (texts.map statement) := by
  intro depth
  induction texts with
  | nil => rfl
  | cons text rest ih => exact ih

/-- A section of closed lines is closed. -/
theorem closes_inSection (hlines : Closes lines) (name : String) :
    Closes (inSection name lines) := by
  intro depth
  simp [inSection, depthAfter?, depthAfter?_append, hlines (depth + 1)]

/-- The first lines close nothing that is not open. -/
theorem exists_depthAfter?_of_prefix {before : List Line} (hbefore : before <+: lines)
    (hafter : depthAfter? depth lines = some after) :
    ∃ middle, depthAfter? depth before = some middle := by
  rcases hbefore with ⟨rest, rfl⟩
  rw [depthAfter?_append] at hafter
  rcases Option.bind_eq_some_iff.1 hafter with ⟨middle, hmiddle, _⟩
  exact ⟨middle, hmiddle⟩

/-- Marks are nested if they can be counted and none is open in the end. -/
theorem Closes.marksNest (hlines : Closes lines) : MarksNest lines where
  prefixes before hbefore := by
    rcases exists_depthAfter?_of_prefix hbefore (hlines 0) with ⟨middle, hmiddle⟩
    have hcount := depthAfter?_count hmiddle
    omega
  total := by
    have hcount := depthAfter?_count (hlines 0)
    omega
  above level before hbefore := by
    rcases exists_depthAfter?_of_prefix hbefore (hlines 0) with ⟨later, hlater⟩
    rw [depthAfter?_append] at hlater
    rcases Option.bind_eq_some_iff.1 hlater with ⟨middle, hmiddle, hdedent⟩
    have hlevel : levelAfter level before = level + middle := levelAfter_add level hmiddle
    -- The mark would not be counted if none were open.
    cases middle with
    | zero => cases hdedent
    | succ middle => omega

end Line

/-! ## Physical lines -/

/-- The lines of a text. -/
def physicalLines (text : String) : List String :=
  (text.toList.splitOn '\n').map String.ofList

/-- How many tabulators a line begins with. -/
def indentation (line : String) : Nat :=
  (line.toList.takeWhile (· == '\t')).length

/-- A line without the tabulators that it begins with. -/
def unindented (line : String) : String :=
  String.ofList (line.toList.dropWhile (· == '\t'))

namespace Line

variable {lines : List Line}

/-- The lines of a text with their indentation, from the given level on. -/
def physical : Nat → List Line → List (List Char)
  | _, [] => []
  | level, text content :: rest =>
    (List.replicate level '\t' ++ content.toList) :: physical level rest
  | level, indent :: rest => physical (level + 1) rest
  | level, dedent :: rest => physical (level - 1) rest
  | level, blank :: rest => [] :: physical level rest

/-- Lines are written one after the other. -/
theorem physical_append (level : Nat) (first second : List Line) :
    physical level (first ++ second) =
      physical level first ++ physical (levelAfter level first) second := by
  fun_induction levelAfter level first with
  | case1 level => rfl
  | case2 level content rest ih => rw [List.cons_append, physical, physical, ih, List.cons_append]
  | case3 level rest ih => rw [List.cons_append, physical, physical, ih]
  | case4 level rest ih => rw [List.cons_append, physical, physical, ih]
  | case5 level rest ih => rw [List.cons_append, physical, physical, ih, List.cons_append]

/-- Statements are written as lines of one level. -/
theorem physical_map_statement (level : Nat) (texts : List String) :
    physical level (texts.map statement) =
      texts.map fun text => List.replicate level '\t' ++ (text ++ ";").toList := by
  induction texts with
  | nil => rfl
  | cons text rest ih =>
      rw [List.map_cons, List.map_cons, statement, physical]
      exact congrArg _ ih

/-- A section is its name, and below it the lines of its body, one level deeper and between
braces. -/
theorem physical_inSection (hlines : Closes lines) (name : String) (level : Nat) :
    physical level (inSection name lines) =
      (List.replicate level '\t' ++ name.toList) :: (List.replicate level '\t' ++ ['\x7b']) ::
        (physical (level + 1) lines ++ [List.replicate level '\t' ++ ['\x7d']]) := by
  simp [inSection, physical, physical_append, hlines.levelAfter_eq]

/-- No line break stands in a line. -/
def Unbroken (lines : List Line) : Prop :=
  ∀ content, text content ∈ lines → '\n' ∉ content.toList

theorem unbroken_cons {line : Line} :
    Unbroken (line :: lines) ↔
      (∀ content, line = text content → '\n' ∉ content.toList) ∧ Unbroken lines := by
  simp [Unbroken, or_imp, forall_and, eq_comm]

/-- No line of either part is broken. -/
theorem unbroken_append {first second : List Line} :
    Unbroken (first ++ second) ↔ Unbroken first ∧ Unbroken second := by
  simp [Unbroken, or_imp, forall_and]

/-- Statements of one line each. -/
theorem unbroken_map_statement {texts : List String}
    (htexts : ∀ text ∈ texts, '\n' ∉ text.toList) : Unbroken (texts.map statement) := by
  intro content hmem
  rcases List.mem_map.1 hmem with ⟨text, htext, hstatement⟩
  cases hstatement
  simpa using htexts text htext

/-- A section with a name of one line. -/
theorem unbroken_inSection {name : String} (hname : '\n' ∉ name.toList)
    (hlines : Unbroken lines) : Unbroken (inSection name lines) := by
  rw [inSection, unbroken_append, unbroken_append]
  simpa [unbroken_cons, Unbroken] using ⟨hname, hlines⟩

/-- Then none stands in a line with its indentation. -/
theorem not_mem_physical (level : Nat) (hlines : Unbroken lines) :
    ∀ line ∈ physical level lines, '\n' ∉ line := by
  fun_induction physical level lines with
  | case1 level => exact List.forall_mem_nil _
  | case2 level content rest ih =>
      rw [unbroken_cons] at hlines
      have hcontent := hlines.1 content rfl
      exact List.forall_mem_cons.2 ⟨by simp [hcontent], ih hlines.2⟩
  | case3 level rest ih => exact ih (unbroken_cons.1 hlines).2
  | case4 level rest ih => exact ih (unbroken_cons.1 hlines).2
  | case5 level rest ih =>
      exact List.forall_mem_cons.2 ⟨List.not_mem_nil, ih (unbroken_cons.1 hlines).2⟩

/-- Every line but the first stands behind a line break. -/
theorem write_eq_flatMap (level : Nat) (lines : List Line) :
    write level false lines = (physical level lines).flatMap ('\n' :: ·) := by
  fun_induction physical level lines with
  | case1 level => rfl
  | case2 level content rest ih => simp [write, ih]
  | case3 level rest ih => rw [write, ih]
  | case4 level rest ih => rw [write, ih]
  | case5 level rest ih => simp [write, ih]

/-- The separators go to the later lines. -/
theorem intercalate_cons_eq (c : Char) (first : List Char) (others : List (List Char)) :
    [c].intercalate (first :: others) = first ++ others.flatMap (c :: ·) := by
  induction others generalizing first with
  | nil => simp
  | cons second others ih => simp [List.intercalate_cons_cons, ih]

/-- A text that starts with a line of text is its lines with line breaks between them. -/
theorem toList_render (content : String) (rest : List Line) (level : Nat) :
    (render (text content :: rest) level).toList =
      ['\n'].intercalate (physical level (text content :: rest)) := by
  rw [render, String.toList_ofList, write, physical, intercalate_cons_eq, write_eq_flatMap]
  simp

/-- The lines of a text are those it was written from, if no line break stands in them. -/
theorem physicalLines_render {content : String} {rest : List Line} (level : Nat)
    (hlines : Unbroken (text content :: rest)) :
    physicalLines (render (text content :: rest) level) =
      (physical level (text content :: rest)).map String.ofList := by
  rw [physicalLines, toList_render, List.splitOn_intercalate '\n' (not_mem_physical level hlines)]
  simp [physical]

end Line

namespace Row

/-- A row as a line, with one tabulator for every branch around it. -/
def indented (row : Nat × Row String) : String :=
  String.ofList (List.replicate row.1 '\t' ++ row.2.text.toList)

variable {row : Nat × Row String}

/-- Before a legible row all tabulators are indentation, and no others are. -/
theorem cut_indented (hrow : row.2.IsLegible) :
    (indented row).toList.takeWhile (· == '\t') = List.replicate row.1 '\t' ∧
      (indented row).toList.dropWhile (· == '\t') = row.2.text.toList := by
  rw [indented, String.toList_ofList]
  exact Lexeme.takeWhile_append_of_head? (by simp) (head?_text hrow)

/-- The level of a row is found again. -/
theorem indentation_indented (hrow : row.2.IsLegible) : indentation (indented row) = row.1 := by
  rw [indentation, (cut_indented hrow).1, List.length_replicate]

/-- The content of a row is found again. -/
theorem ofText_indented (hrow : row.2.IsLegible) : ofText (unindented (indented row)) = row.2 := by
  rw [unindented, (cut_indented hrow).2, String.ofList_toList, ofText_text hrow]

end Row

/-! ## Outlines as lines -/

namespace Outline

/-- The lines of an outline, with marks around the branches of choices. -/
def lines : Outline String → List Line
  | done => []
  | statement content rest => .text content :: rest.lines
  | choice condition thenPart rest =>
    .statement ("If(" ++ condition ++ ")") :: .indent :: (thenPart.lines ++
      .dedent :: .statement "End" :: rest.lines)
  | choiceElse condition thenPart elsePart rest =>
    .statement ("If(" ++ condition ++ ")") :: .indent :: (thenPart.lines ++
      .dedent :: .statement "Else" :: .indent :: (elsePart.lines ++
        .dedent :: .statement "End" :: rest.lines))

/-- The lines of two outlines. -/
theorem lines_append (first second : Outline String) :
    (first.append second).lines = first.lines ++ second.lines := by
  induction first with
  | done => rfl
  | statement content rest ih => simp [append, lines, ih]
  | choice condition thenPart rest _ ih => simp [append, lines, ih]
  | choiceElse condition thenPart elsePart rest _ _ ih => simp [append, lines, ih]

/-- An outline closes the marks that it opens, and no others. -/
theorem closes_lines (outline : Outline String) : Line.Closes outline.lines := by
  intro depth
  induction outline generalizing depth with
  | done => rfl
  | statement content rest ih => exact ih depth
  | choice condition thenPart rest ihthen ih =>
      simp [lines, Line.statement, Line.depthAfter?, Line.depthAfter?_append, ihthen, ih]
  | choiceElse condition thenPart elsePart rest ihthen ihelse ih =>
      simp [lines, Line.statement, Line.depthAfter?, Line.depthAfter?_append, ihthen, ihelse, ih]

/-- Every row of an outline is a line, indented by the number of branches around it. -/
theorem physical_lines (outline : Outline String) (level : Nat) :
    Line.physical level outline.lines =
      (outline.rows level).map fun row => List.replicate row.1 '\t' ++ row.2.text.toList := by
  have hend : "End" ++ ";" = "End;" := by decide
  have helse : "Else" ++ ";" = "Else;" := by decide
  induction outline generalizing level with
  | done => rfl
  | statement content rest ih => simp [lines, rows, Line.physical, Row.text, ih]
  | choice condition thenPart rest ihthen ih =>
      simp [lines, rows, Line.statement, Line.physical, Line.physical_append,
        (closes_lines _).levelAfter_eq, Row.text, hend, ihthen, ih]
  | choiceElse condition thenPart elsePart rest ihthen ihelse ih =>
      simp [lines, rows, Line.statement, Line.physical, Line.physical_append,
        (closes_lines _).levelAfter_eq, Row.text, hend, helse, ihthen, ihelse, ih]

/-- The lines of an outline are its rows. -/
theorem map_physical_lines (outline : Outline String) (level : Nat) :
    (Line.physical level outline.lines).map String.ofList =
      (outline.rows level).map Row.indented := by
  rw [physical_lines, List.map_map]
  rfl

/-- The indentation of legible rows, and the rows themselves, are read back from the lines. -/
theorem readOutline_indented {outline : Outline String} {level : Nat}
    (hrows : ∀ row ∈ outline.rows level, row.2.IsLegible) :
    ((outline.rows level).map Row.indented).map indentation = (outline.rows level).map Prod.fst ∧
      readOutline (((outline.rows level).map Row.indented).map fun line =>
        Row.ofText (unindented line)) = some outline := by
  refine ⟨?_, ?_⟩
  · rw [List.map_map]
    refine List.map_congr_left fun row hmem => ?_
    rw [Function.comp_apply, Row.indentation_indented (hrows row hmem)]
  · have hsame : ((outline.rows level).map Row.indented).map (fun line =>
        Row.ofText (unindented line)) = (outline.rows level).map Prod.snd := by
      rw [List.map_map]
      refine List.map_congr_left fun row hmem => ?_
      rw [Function.comp_apply, Row.ofText_indented (hrows row hmem)]
    rw [hsame, readOutline_rows]

end Outline

end Workshop

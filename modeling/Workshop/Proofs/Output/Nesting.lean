import Workshop.Catalog.Standard
import Workshop.Output.Term
import Workshop.Proofs.Printing.Words

/-!
# Balanced texts

A reader of the output goes through a text from left to right.  It counts the
open parentheses and knows whether it is inside of a string literal, where
parentheses do not count and a backslash protects the next character.

Main definitions:

- `Nesting.read`: what is open after some characters.
- `IsBalanced`: a text on one line that leaves nothing open and closes nothing
  that it did not open.
- `IsArgument`: a balanced text that also has no separator of its own.
- `KeepsPlace`: a text that fills one place between separators, and no more.
- `Template.IsClosed`: a template that is balanced whatever arguments it is
  filled with.

Main results:

- Theorem `IsArgument.read_eq`: an argument leaves the reader as it was, at any
  depth.
- Theorem `IsArgument.keepsPlace`: an argument keeps to its place.
- Theorem `isArgument_customString`: the body of a string literal cannot end the
  literal in which it is written.
- Theorem `Template.IsClosed.isArgument_fill`: a closed template filled with
  arguments is an argument.
-/

namespace Workshop

/-! ## Reading a text -/

/-- Whether a reader is outside of string literals, inside of one, or inside of one behind a
backslash. -/
inductive Quoting where
  | outside
  | inside
  | escaped
deriving DecidableEq, Repr

/-- How many parentheses are open, and whether a string literal is. -/
structure Nesting where
  depth : Nat
  quoting : Quoting
deriving DecidableEq, Repr

namespace Nesting

/-- Nothing is open. -/
def closed : Nesting := ⟨0, .outside⟩

/-- Reads one more character.  This is not possible at a line break, at a parenthesis that closes
nothing, and where nothing is open, at a character that stops the reader. -/
def step (stops : Char → Bool) (nesting : Nesting) (c : Char) : Option Nesting :=
  if isLineBreak c then none
  else
    match nesting.quoting with
    | .outside =>
      if c = '"' then some ⟨nesting.depth, .inside⟩
      else if c = '(' then some ⟨nesting.depth + 1, .outside⟩
      else if c = ')' then
        if nesting.depth = 0 then none else some ⟨nesting.depth - 1, .outside⟩
      else if nesting.depth = 0 ∧ stops c = true then none
      else some nesting
    | .inside =>
      if c = '\\' then some ⟨nesting.depth, .escaped⟩
      else if c = '"' then some ⟨nesting.depth, .outside⟩
      else some nesting
    | .escaped => some ⟨nesting.depth, .inside⟩

/-- Reads characters one after the other. -/
def read (stops : Char → Bool) (nesting : Nesting) (chars : List Char) : Option Nesting :=
  chars.foldlM (step stops) nesting

variable {stops stops' : Char → Bool} {nesting after : Nesting} {chars : List Char}

@[simp]
theorem read_nil : nesting.read stops [] = some nesting := rfl

@[simp]
theorem read_cons {c : Char} :
    nesting.read stops (c :: chars) = (nesting.step stops c).bind (·.read stops chars) := rfl

/-- A text is read piece by piece. -/
@[simp]
theorem read_append {first second : List Char} :
    nesting.read stops (first ++ second) =
      (nesting.read stops first).bind (·.read stops second) := by
  rw [read, List.foldlM_append]
  rfl

/-- What can be read can also be read deeper, and with fewer stops. -/
theorem step_deeper {c : Char} (hstops : ∀ c, stops' c = true → stops c = true) (depth : Nat)
    (hstep : nesting.step stops c = some after) :
    step stops' ⟨nesting.depth + depth, nesting.quoting⟩ c =
      some ⟨after.depth + depth, after.quoting⟩ := by
  rcases nesting with ⟨outer, quoting⟩
  unfold step at hstep ⊢
  cases quoting with
  | outside => grind
  | inside => grind
  | escaped => grind

/-- A text is read alike at greater depth. -/
theorem read_deeper (hstops : ∀ c, stops' c = true → stops c = true) (depth : Nat)
    (hread : nesting.read stops chars = some after) :
    read stops' ⟨nesting.depth + depth, nesting.quoting⟩ chars =
      some ⟨after.depth + depth, after.quoting⟩ := by
  induction chars generalizing nesting with
  | nil =>
      cases hread
      rfl
  | cons c chars ih =>
      rw [read_cons] at hread ⊢
      rcases Option.bind_eq_some_iff.1 hread with ⟨middle, hstep, hrest⟩
      rw [step_deeper hstops depth hstep]
      exact ih hrest

/-- What is read has no line break. -/
theorem isLineBreak_of_read (hread : nesting.read stops chars = some after) :
    ∀ c ∈ chars, isLineBreak c = false := by
  induction chars generalizing nesting with
  | nil => simp
  | cons c chars ih =>
      rcases Option.bind_eq_some_iff.1 hread with ⟨middle, hstep, hrest⟩
      have hc : isLineBreak c = false := by
        by_contra hbreak
        rw [step, if_pos (Bool.not_eq_false _ ▸ hbreak)] at hstep
        cases hstep
      exact List.forall_mem_cons.2 ⟨hc, ih hrest⟩

end Nesting

/-- A text on one line that can be read from its start, and leaves nothing open. -/
def IsBalanced (text : String) : Prop :=
  Nesting.closed.read (fun _ => false) text.toList = some .closed
deriving Decidable

/-- Whether a character separates the arguments of a call or ends a statement. -/
def isSeparator (c : Char) : Bool :=
  c == ',' || c == ';'

/-- A balanced text in which all separators are within parentheses or string literals. -/
def IsArgument (text : String) : Prop :=
  Nesting.closed.read isSeparator text.toList = some .closed
deriving Decidable

namespace IsArgument

variable {text : String}

/-- An argument can be read at any depth, and leaves the reader as it was. -/
theorem read_eq (hargument : IsArgument text) (depth : Nat) :
    Nesting.read isSeparator ⟨depth, .outside⟩ text.toList = some ⟨depth, .outside⟩ := by
  have hread := Nesting.read_deeper (fun _ hstop => hstop) depth hargument
  simpa [Nesting.closed] using hread

/-- Arguments are balanced. -/
theorem isBalanced (hargument : IsArgument text) : IsBalanced text :=
  Nesting.read_deeper (fun _ hstop => by cases hstop) 0 hargument

/-- Arguments have no line break. -/
theorem isLineBreak (hargument : IsArgument text) : ∀ c ∈ text.toList, isLineBreak c = false :=
  Nesting.isLineBreak_of_read hargument

end IsArgument

/-! ## Places of arguments -/

/-- Whether an argument ends before a character: a separator, the parenthesis that closes a call, or
a line break. -/
def endsArgument (c : Char) : Bool :=
  isSeparator c || c == ')' || isLineBreak c

/-- A text that keeps to its place.  When a character that ends an argument follows, no other
argument can be read in its place, be it shorter or longer. -/
def KeepsPlace (text : String) : Prop :=
  ∀ (other : String) (c d : Char) (rest rest' : List Char), IsArgument other →
    endsArgument c = true → endsArgument d = true →
    text.toList ++ c :: rest = other.toList ++ d :: rest' → other = text

variable {c : Char} {text : String}

/-- The end of an argument is not part of it. -/
theorem Nesting.step_endsArgument (hends : endsArgument c = true) :
    closed.step isSeparator c = none := by
  simp only [endsArgument, Bool.or_eq_true, beq_iff_eq] at hends
  rcases hends with (hseparator | rfl) | hbreak
  · simp only [isSeparator, Bool.or_eq_true, beq_iff_eq] at hseparator
    rcases hseparator with rfl | rfl <;> decide
  · decide
  · rw [step, if_pos hbreak]

/-- An argument does not go on behind the end of another one. -/
theorem IsArgument.toList_ne {other : String} {rest : List Char} (htext : IsArgument text)
    (hother : IsArgument other) (hends : endsArgument c = true) :
    other.toList ≠ text.toList ++ c :: rest := by
  intro hlonger
  rw [IsArgument, hlonger, Nesting.read_append, htext, Option.bind_some, Nesting.read_cons,
    Nesting.step_endsArgument hends] at hother
  cases hother

/-- An argument can stand at any depth. -/
theorem IsArgument.keepsPlace (htext : IsArgument text) : KeepsPlace text := by
  intro other c d rest rest' hother hc hd hsame
  -- If one of the two were longer, it would go on behind the end of the other.
  rcases List.append_eq_append_iff.1 hsame with ⟨more, hlonger, hmore⟩ | ⟨more, hlonger, hmore⟩
  · cases more with
    | nil => exact String.toList_inj.1 (by simpa using hlonger)
    | cons e more =>
        cases hmore
        exact (htext.toList_ne hother hc hlonger).elim
  · cases more with
    | nil => exact String.toList_inj.1 (by simpa using hlonger.symm)
    | cons e more =>
        cases hmore
        exact (hother.toList_ne htext hd hlonger).elim

/-! ## Plain texts -/

/-- Whether a character means something to the reader of the output outside of string literals. -/
def isSpecial (c : Char) : Bool :=
  ['\n', '\r', '"', '(', ')', ',', ';'].contains c

/-- Plain characters change nothing. -/
theorem Nesting.step_plain (hplain : isSpecial c = false) (depth : Nat) :
    step isSeparator ⟨depth, .outside⟩ c = some ⟨depth, .outside⟩ := by
  simp only [isSpecial, List.contains_eq_mem, decide_eq_false_iff_not, List.mem_cons,
    List.not_mem_nil, or_false, not_or] at hplain
  simp [step, isLineBreak, isSeparator, hplain]

/-- Plain texts are arguments. -/
theorem isArgument_of_plain (hplain : ∀ c ∈ text.toList, isSpecial c = false) :
    IsArgument text := by
  unfold IsArgument
  generalize text.toList = chars at hplain
  induction chars with
  | nil => rfl
  | cons c chars ih =>
      rw [List.forall_mem_cons] at hplain
      rw [Nesting.read_cons, Nesting.closed, Nesting.step_plain hplain.1]
      exact ih hplain.2

/-- Digits are plain. -/
theorem isSpecial_of_isDigit (hdigit : c.isDigit = true) : isSpecial c = false := by
  have hspecial : ['\n', '\r', '"', '(', ')', ',', ';'].all (fun c => !c.isDigit) = true := by
    decide
  by_contra hno
  have hmem := List.contains_iff_mem.1 (Bool.not_eq_false _ ▸ hno)
  have hother := List.all_eq_true.1 hspecial c hmem
  rw [hdigit] at hother
  cases hother

/-- Numbers are arguments. -/
theorem isArgument_of_isNumeral (hnumeral : isNumeral text = true) : IsArgument text := by
  apply isArgument_of_plain
  intro c hmem
  rcases isDigit_of_isNumeral hnumeral c hmem with hdigit | rfl
  · exact isSpecial_of_isDigit hdigit
  · decide

/-- So are indices. -/
theorem isArgument_toString (index : Nat) : IsArgument (toString index) := by
  apply isArgument_of_plain
  intro c hmem
  rw [Nat.toString_eq_ofList_toDigits, String.toList_ofList] at hmem
  exact isSpecial_of_isDigit (Nat.isDigit_of_mem_toDigits (by decide) (by decide) hmem)

/-- So are banks. -/
theorem isArgument_bank (bank : Bank) : IsArgument bank.text := by
  have hletters : ∀ index : Fin 26, isSpecial (Bank.letter ⟨index⟩) = false := by decide
  apply isArgument_of_plain
  intro c hmem
  rw [Bank.text, String.toList_ofList, List.mem_singleton] at hmem
  rw [hmem]
  exact hletters bank.index

/-! ## String literals -/

/-- Within a string literal, the escaped body of a literal leaves the literal open. -/
theorem Nesting.read_escapeQuotes {quote : Char} {body : List Char}
    (hbody : isLiteralBody quote body = true) (depth : Nat) :
    read isSeparator ⟨depth, .inside⟩ (Term.escapeQuotes body) = some ⟨depth, .inside⟩ := by
  fun_induction isLiteralBody quote body with
  | case1 => rfl
  | case2 => cases hbody
  | case3 d rest ih =>
      simp only [Bool.and_eq_true, Bool.not_eq_true'] at hbody
      have hbackslash : isLineBreak '\\' = false := by decide
      simp [Term.escapeQuotes, step, hbackslash, hbody.1, ih hbody.2]
  | case4 c rest hplain ih =>
      simp only [Bool.and_eq_true, Bool.not_eq_true', bne_iff_ne] at hbody
      have hbackslash : isLineBreak '\\' = false := by decide
      rw [Term.escapeQuotes.eq_def]
      -- A double quote stands bare only between single quotes.  It has been escaped.
      by_cases hquote : c = '"'
      · subst hquote
        simp [step, hbackslash, hbody.1.1, ih hbody.2]
      · simp [step, hplain, hquote, hbody.1.1, ih hbody.2]

/-- So is a text between brackets. -/
theorem isArgument_between {before inner behind : String} {nesting : Nesting}
    (hbefore : Nesting.closed.read isSeparator before.toList = some nesting)
    (hinner : nesting.read isSeparator inner.toList = some nesting)
    (hbehind : nesting.read isSeparator behind.toList = some .closed) :
    IsArgument (before ++ inner ++ behind) := by
  rw [IsArgument, String.toList_append, String.toList_append, Nesting.read_append,
    Nesting.read_append, hbefore, Option.bind_some, hinner, Option.bind_some, hbehind]

/-- The body of a literal cannot end the literal in which it is written. -/
theorem isArgument_customString {body : String} (hliteral : isLiteral body = true) :
    IsArgument (Term.customString body) := by
  have hbefore : Nesting.closed.read isSeparator "Custom String(\"".toList =
      some ⟨1, .inside⟩ := by
    decide
  have hbody : Nesting.read isSeparator ⟨1, .inside⟩
      (String.ofList (Term.escapeQuotes body.toList)).toList = some ⟨1, .inside⟩ := by
    rw [String.toList_ofList]
    rw [isLiteral, Bool.or_eq_true] at hliteral
    rcases hliteral with hdouble | hsingle
    · exact Nesting.read_escapeQuotes hdouble 1
    · exact Nesting.read_escapeQuotes hsingle 1
  have hbehind : Nesting.read isSeparator ⟨1, .inside⟩ "\")".toList = some .closed := by decide
  exact isArgument_between hbefore hbody hbehind

/-! ## Templates -/

/-- How a piece of a template changes what is open, whatever arguments it is filled with. -/
def TemplatePiece.nest (nesting : Nesting) : TemplatePiece → Option Nesting
  | literal text => nesting.read isSeparator text.toList
  | argument _ => if nesting.quoting = .outside then some nesting else none
  | allArguments separator =>
    if nesting.quoting = .outside ∧ nesting.read isSeparator separator.toList = some nesting then
      some nesting
    else none
  | option _ ifTrue otherwise =>
    if nesting.read isSeparator ifTrue.toList = nesting.read isSeparator otherwise.toList then
      nesting.read isSeparator otherwise.toList
    else none

/-- A template that leaves nothing open, whatever arguments it is filled with. -/
def Template.IsClosed (template : Template) : Prop :=
  template.pieces.foldlM TemplatePiece.nest .closed = some .closed
deriving Decidable

section Filling

variable {arguments : List String} (harguments : ∀ argument ∈ arguments, IsArgument argument)
include harguments

/-- Arguments with separators are read. -/
theorem read_intercalate {separator : String} {depth : Nat}
    (hseparator : Nesting.read isSeparator ⟨depth, .outside⟩ separator.toList =
      some ⟨depth, .outside⟩) :
    Nesting.read isSeparator ⟨depth, .outside⟩ (separator.intercalate arguments).toList =
      some ⟨depth, .outside⟩ := by
  induction arguments with
  | nil => simp
  | cons first rest ih =>
      rw [List.forall_mem_cons] at harguments
      cases rest with
      | nil => simpa using harguments.1.read_eq depth
      | cons second rest =>
          rw [String.intercalate_cons_cons, String.toList_append, String.toList_append,
            Nesting.read_append, Nesting.read_append, harguments.1.read_eq, Option.bind_some,
            hseparator]
          exact ih harguments.2

/-- A filled piece nests as the piece does. -/
theorem TemplatePiece.read_fill {piece : TemplatePiece} {nesting after : Nesting}
    (hnest : piece.nest nesting = some after) :
    nesting.read isSeparator (piece.fill arguments).toList = some after := by
  rcases nesting with ⟨depth, quoting⟩
  cases piece with
  | literal text => exact hnest
  | argument index =>
      simp only [nest, Option.ite_none_right_eq_some] at hnest
      rcases hnest with ⟨rfl, hafter⟩
      cases hafter
      rw [fill, List.getD_eq_getElem?_getD]
      cases hfound : arguments[index]? with
      | none => rfl
      | some found => exact (harguments found (List.mem_of_getElem? hfound)).read_eq depth
  | allArguments separator =>
      simp only [nest, Option.ite_none_right_eq_some] at hnest
      rcases hnest with ⟨⟨rfl, hseparator⟩, hafter⟩
      cases hafter
      exact read_intercalate harguments hseparator
  | option index ifTrue otherwise =>
      simp only [nest, Option.ite_none_right_eq_some] at hnest
      rcases hnest with ⟨hsame, hafter⟩
      rw [fill]
      split
      · rw [hsame, hafter]
      · exact hafter

/-- The same for several pieces. -/
theorem Template.read_fill {pieces : List TemplatePiece} {nesting after : Nesting}
    (hnest : pieces.foldlM TemplatePiece.nest nesting = some after) :
    nesting.read isSeparator (String.join (pieces.map (·.fill arguments))).toList =
      some after := by
  induction pieces generalizing nesting with
  | nil =>
      cases hnest
      simp
  | cons piece pieces ih =>
      rw [List.foldlM_cons] at hnest
      rcases Option.bind_eq_some_iff.1 hnest with ⟨middle, hpiece, hrest⟩
      rw [List.map_cons, String.join_cons, String.toList_append, Nesting.read_append,
        TemplatePiece.read_fill harguments hpiece]
      exact ih hrest

/-- A closed template that is filled with arguments is an argument. -/
theorem Template.IsClosed.isArgument_fill {template : Template} (hclosed : template.IsClosed) :
    IsArgument (template.fill arguments) :=
  read_fill harguments hclosed

end Filling

end Workshop

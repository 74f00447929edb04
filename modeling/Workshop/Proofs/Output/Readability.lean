import Workshop.Proofs.Printing.Words
import Workshop.Proofs.Storage

/-!
# Phrases of the output

The text of an expression is a phrase: a word, or a function with its arguments
in parentheses.  Words and names of functions have no delimiters of their own,
so a text can be read as a phrase in one way only, and a phrase shows for which
expression it was written.

Main definitions:

- `Phrase`: words, and functions with arguments.
- `Phrase.source?`: the expression that a phrase was written for.
- `Shows`: a text is that of a phrase written for an expression.

Main results:

- Theorem `Phrase.render_append_injective`: a text determines the phrase at its
  beginning and where it ends.
- Theorem `Shows.unique`: a text shows one expression at most.
- Theorem `Shows.as`: a text shows the same expression after a conversion.
-/

namespace Workshop

/-! ## Phrases -/

/-- Whether a character separates the parts of a phrase. -/
def isDelimiter (c : Char) : Bool :=
  c == '(' || c == ')' || c == ','

/-- Whether a text has no delimiters. -/
def isPlain (text : String) : Bool :=
  text.toList.all fun c => !isDelimiter c

/-- Plain texts have no delimiters. -/
theorem isPlain_iff {text : String} :
    isPlain text = true ↔ ∀ c ∈ text.toList, isDelimiter c = false := by
  simp [isPlain]

/-- A text without delimiters. -/
structure PlainText where
  text : String
  isPlain : isPlain text = true

/-- A phrase of the output: a word, or a function with one or more arguments. -/
inductive Phrase where
  | word (text : PlainText)
  | apply (function : PlainText) (first : Phrase) (others : List Phrase)

namespace Phrase

mutual

/-- The characters of a phrase. -/
def render : Phrase → List Char
  | .word text => text.text.toList
  | .apply function first others =>
    function.text.toList ++ '(' :: (first.render ++ renderOthers others)
termination_by structural phrase => phrase

/-- The characters behind the first argument of a function. -/
def renderOthers : List Phrase → List Char
  | [] => [')']
  | phrase :: rest => ',' :: ' ' :: (phrase.render ++ renderOthers rest)
termination_by structural phrases => phrases

end

end Phrase

/-- What stands behind a text without delimiters begins with one, if there is anything. -/
def BeginsDelimited (rest : List Char) : Prop :=
  ∀ c ∈ rest.head?, isDelimiter c = true

/-- What stands behind a phrase ends its place: it is a separator, a closing parenthesis or
nothing. -/
def EndsPlace (rest : List Char) : Prop :=
  ∀ c ∈ rest.head?, c = ',' ∨ c = ')'

/-- A place ends in front of a delimiter. -/
theorem EndsPlace.beginsDelimited {rest : List Char} (hends : EndsPlace rest) :
    BeginsDelimited rest := by
  intro c hc
  rcases hends c hc with rfl | rfl <;> rfl

/-- Parentheses are delimiters. -/
theorem beginsDelimited_open (rest : List Char) : BeginsDelimited ('(' :: rest) := by
  intro c hc
  cases hc
  rfl

/-- Places end in front of other phrases. -/
theorem Phrase.endsPlace_renderOthers (others : List Phrase) (rest : List Char) :
    EndsPlace (renderOthers others ++ rest) := by
  intro c hc
  cases others with
  | nil =>
      cases hc
      exact .inr rfl
  | cons phrase others =>
      cases hc
      exact .inl rfl

namespace PlainText

variable {first second : PlainText}

/-- A plain text is known by its characters. -/
theorem ext_text (htext : first.text.toList = second.text.toList) : first = second := by
  rcases first with ⟨text, hplain⟩
  rcases second with ⟨other, hother⟩
  obtain rfl : text = other := String.toList_inj.1 htext
  rfl

/-- A plain text is read up to a delimiter. -/
theorem takeWhile_append (plain : PlainText) {rest : List Char} (hrest : BeginsDelimited rest) :
    (plain.text.toList ++ rest).takeWhile (fun c => !isDelimiter c) = plain.text.toList := by
  rw [List.takeWhile_append_of_pos (List.all_eq_true.1 plain.isPlain)]
  cases rest with
  | nil => simp
  | cons c rest =>
      have hdelimiter : isDelimiter c = true := hrest c rfl
      simp [hdelimiter]

/-- A text without delimiters reaches to the next delimiter. -/
theorem append_injective {rest other : List Char} (hrest : BeginsDelimited rest)
    (hother : BeginsDelimited other)
    (htext : first.text.toList ++ rest = second.text.toList ++ other) :
    first = second ∧ rest = other := by
  have hsame : first.text.toList = second.text.toList := by
    rw [← first.takeWhile_append hrest, htext, second.takeWhile_append hother]
  rw [hsame] at htext
  exact ⟨ext_text hsame, List.append_cancel_left htext⟩

end PlainText

namespace Phrase

mutual

/-- A text determines the phrase at its beginning and where the phrase ends. -/
theorem render_append_injective : ∀ (first second : Phrase) {rest other : List Char},
    EndsPlace rest → EndsPlace other → first.render ++ rest = second.render ++ other →
    first = second ∧ rest = other
  | .word text, .word text', rest, other, hrest, hother, htext => by
      rcases PlainText.append_injective hrest.beginsDelimited hother.beginsDelimited htext with
        ⟨rfl, hsame⟩
      exact ⟨rfl, hsame⟩
  | .word text, .apply function first others, rest, other, hrest, hother, htext => by
      rw [render, render, List.append_assoc, List.cons_append] at htext
      rcases PlainText.append_injective hrest.beginsDelimited (beginsDelimited_open _) htext with
        ⟨_, rfl⟩
      rcases hrest '(' rfl with hopen | hopen <;> cases hopen
  | .apply function first others, .word text, rest, other, hrest, hother, htext => by
      rw [render, render, List.append_assoc, List.cons_append] at htext
      rcases PlainText.append_injective (beginsDelimited_open _) hother.beginsDelimited htext with
        ⟨_, hsame⟩
      rcases hother '(' (by rw [← hsame]; rfl) with hopen | hopen <;> cases hopen
  | .apply function first others, .apply function' first' others', rest, other, hrest, hother,
      htext => by
      simp only [render, List.append_assoc, List.cons_append] at htext
      rcases PlainText.append_injective (beginsDelimited_open _) (beginsDelimited_open _) htext with
        ⟨rfl, hbehind⟩
      rcases render_append_injective first first' (endsPlace_renderOthers others rest)
        (endsPlace_renderOthers others' other) (List.cons.inj hbehind).2 with ⟨rfl, hothers⟩
      rcases renderOthers_append_injective others others' hothers with ⟨rfl, hsame⟩
      exact ⟨rfl, hsame⟩
termination_by structural first => first

/-- The closing parenthesis shows where the arguments end. -/
theorem renderOthers_append_injective : ∀ (first second : List Phrase) {rest other : List Char},
    renderOthers first ++ rest = renderOthers second ++ other → first = second ∧ rest = other
  | [], [], rest, other, htext => ⟨rfl, (List.cons.inj htext).2⟩
  | [], phrase :: phrases, rest, other, htext => by
      cases (List.cons.inj htext).1
  | phrase :: phrases, [], rest, other, htext => by
      cases (List.cons.inj htext).1
  | phrase :: phrases, phrase' :: phrases', rest, other, htext => by
      simp only [renderOthers, List.cons_append, List.append_assoc, List.cons.injEq,
        true_and] at htext
      rcases render_append_injective phrase phrase' (endsPlace_renderOthers phrases rest)
        (endsPlace_renderOthers phrases' other) htext with ⟨rfl, hothers⟩
      rcases renderOthers_append_injective phrases phrases' hothers with ⟨rfl, hsame⟩
      exact ⟨rfl, hsame⟩
termination_by structural first => first

end

/-- A phrase is known by its text. -/
theorem render_injective {first second : Phrase} (htext : first.render = second.render) :
    first = second := by
  have hnothing : EndsPlace [] := fun c hc => nomatch hc
  have hsame : first.render ++ [] = second.render ++ [] := by rw [htext]
  exact (render_append_injective first second hnothing hnothing hsame).1

end Phrase

/-! ## What a phrase was written for -/

/-- The operator that becomes a function of the given name. -/
def BinaryOperator.ofFunction? (name : String) : Option BinaryOperator :=
  all.find? fun operator => !operator.isComparison && operator.function == name

/-- An operator is known by its function. -/
theorem BinaryOperator.ofFunction?_function {operator : BinaryOperator}
    (hfunction : operator.isComparison = false) :
    ofFunction? operator.function = some operator := by
  revert hfunction
  cases operator <;> decide

/-- The global variable in sight whose slot is written in this way. -/
def Bindings.globalAt? (bindings : Bindings) (bank index : String) : Option Node :=
  ((bindings.entries .global).find? fun entry =>
    entry.2.slot.bank.text == bank && toString entry.2.slot.index == index).map
    fun entry => .identifier entry.1 none

namespace Phrase

/-- The formula that a word was written for. -/
def wordSource (text : String) : Node :=
  if text = "True" then .boolean true
  else if text = "False" then .boolean false
  else .number text

/-- The formula that a phrase was written for.  A conversion is passed over. -/
def source? (bindings : Bindings) : Phrase → Option Node
  | .word text => some (wordSource text.text)
  | .apply function argument [] =>
    if function.text = "Not" then (argument.source? bindings).map .negation
    else if function.text = "Position Of" then argument.source? bindings
    else none
  | .apply function first [second] =>
    if function.text = "Value In Array" then
      match first, second with
      | .apply _ (.word bank) _, .word index => bindings.globalAt? bank.text index.text
      | _, _ => none
    else do
      let operator ← BinaryOperator.ofFunction? function.text
      let left ← first.source? bindings
      let right ← second.source? bindings
      some (.binary operator left right)
  | .apply function first [second, third] =>
    if function.text = "Compare" then
      match second with
      | .word symbol => do
        let operator ← BinaryOperator.ofSymbol? symbol.text
        let left ← first.source? bindings
        let right ← third.source? bindings
        some (.binary operator left right)
      | _ => none
    else if function.text = "If-Then-Else" then do
      let condition ← first.source? bindings
      let thenBranch ← second.source? bindings
      let elseBranch ← third.source? bindings
      some (.choice condition thenBranch (some elseBranch))
    else none
  | .apply _ _ _ => none
termination_by structural phrase => phrase

end Phrase

/-- Digits and points are not delimiters. -/
theorem isDelimiter_of_isDigit {c : Char} (hdigit : c.isDigit = true ∨ c = '.') :
    isDelimiter c = false := by
  rcases hdigit with hdigit | rfl
  · simp only [isDelimiter, Bool.or_eq_false_iff, beq_eq_false_iff_ne]
    refine ⟨⟨?_, ?_⟩, ?_⟩ <;> rintro rfl <;> cases hdigit
  · rfl

/-- A text shows a formula if it is that of a phrase written for it. -/
def Shows (bindings : Bindings) (text : String) (node : Node) : Prop :=
  ∃ phrase : Phrase, text.toList = phrase.render ∧ phrase.source? bindings = some node

namespace Shows

variable {bindings : Bindings} {text first second third : String} {node left right : Node}

/-- A text shows one formula at most. -/
theorem unique {other : Node} (hshows : Shows bindings text node)
    (hother : Shows bindings text other) : node = other := by
  rcases hshows with ⟨phrase, hrender, hsource⟩
  rcases hother with ⟨phrase', hrender', hsource'⟩
  obtain rfl : phrase = phrase' := Phrase.render_injective (hrender.symm.trans hrender')
  exact Option.some.inj (hsource.symm.trans hsource')

/-- Plain texts show words. -/
theorem word (hplain : isPlain text = true) :
    Shows bindings text (Phrase.wordSource text) :=
  ⟨.word ⟨text, hplain⟩, rfl, rfl⟩

/-- Truth values are shown. -/
theorem boolean (truth : Bool) : Shows bindings (Term.boolean truth) (.boolean truth) := by
  cases truth
  · exact word (by decide)
  · exact word (by decide)

/-- The position of a value shows the value. -/
theorem positionOf (hshows : Shows bindings text node) :
    Shows bindings ("Position Of(" ++ text ++ ")") node := by
  rcases hshows with ⟨phrase, hrender, hsource⟩
  refine ⟨.apply ⟨"Position Of", by decide⟩ phrase [], ?_, ?_⟩
  · simp [Phrase.render, Phrase.renderOthers, hrender]
  · simp [Phrase.source?, hsource]

/-- Negations are shown. -/
theorem negation (hshows : Shows bindings text node) :
    Shows bindings ("Not(" ++ text ++ ")") (.negation node) := by
  rcases hshows with ⟨phrase, hrender, hsource⟩
  refine ⟨.apply ⟨"Not", by decide⟩ phrase [], ?_, ?_⟩
  · simp [Phrase.render, Phrase.renderOthers, hrender]
  · simp [Phrase.source?, hsource]

/-- Operations are shown. -/
theorem binary {operator : BinaryOperator} (hfunction : operator.isComparison = false)
    (hleft : Shows bindings first left) (hright : Shows bindings second right) :
    Shows bindings (operator.function ++ "(" ++ first ++ ", " ++ second ++ ")")
      (.binary operator left right) := by
  rcases hleft with ⟨phrase, hrender, hsource⟩
  rcases hright with ⟨phrase', hrender', hsource'⟩
  have hplain : isPlain operator.function = true := by
    cases operator <;> decide
  have hname : operator.function ≠ "Value In Array" := by
    cases operator <;> decide
  refine ⟨.apply ⟨operator.function, hplain⟩ phrase [phrase'], ?_, ?_⟩
  · simp [Phrase.render, Phrase.renderOthers, hrender, hrender']
  · simp [Phrase.source?, hname, BinaryOperator.ofFunction?_function hfunction, hsource, hsource']

/-- Comparisons are shown. -/
theorem comparison (operator : BinaryOperator) (hleft : Shows bindings first left)
    (hright : Shows bindings second right) :
    Shows bindings ("Compare(" ++ first ++ ", " ++ operator.symbol ++ ", " ++ second ++ ")")
      (.binary operator left right) := by
  rcases hleft with ⟨phrase, hrender, hsource⟩
  rcases hright with ⟨phrase', hrender', hsource'⟩
  have hplain : isPlain operator.symbol = true := by
    cases operator <;> decide
  refine ⟨.apply ⟨"Compare", by decide⟩ phrase [.word ⟨operator.symbol, hplain⟩, phrase'], ?_, ?_⟩
  · simp [Phrase.render, Phrase.renderOthers, hrender, hrender']
  · simp [Phrase.source?, BinaryOperator.ofSymbol?_symbol, hsource, hsource']

/-- Choices are shown. -/
theorem choice {condition : Node} (hcondition : Shows bindings first condition)
    (hthen : Shows bindings second left) (helse : Shows bindings third right) :
    Shows bindings ("If-Then-Else(" ++ first ++ ", " ++ second ++ ", " ++ third ++ ")")
      (.choice condition left (some right)) := by
  rcases hcondition with ⟨phrase, hrender, hsource⟩
  rcases hthen with ⟨phrase', hrender', hsource'⟩
  rcases helse with ⟨phrase'', hrender'', hsource''⟩
  refine ⟨.apply ⟨"If-Then-Else", by decide⟩ phrase [phrase', phrase''], ?_, ?_⟩
  · simp [Phrase.render, Phrase.renderOthers, hrender, hrender', hrender'']
  · simp [Phrase.source?, hsource, hsource', hsource'']

/-- Numbers are shown. -/
theorem number {digits : String} (hnumeral : isNumeral digits = true) :
    Shows bindings digits (.number digits) := by
  have hplain : isPlain digits = true := isPlain_iff.2 fun c hc =>
    isDelimiter_of_isDigit (isDigit_of_isNumeral hnumeral c hc)
  have hsource : Phrase.wordSource digits = .number digits := by
    have htrue : digits ≠ "True" := by
      rintro rfl
      cases hnumeral
    have hfalse : digits ≠ "False" := by
      rintro rfl
      cases hnumeral
    simp [Phrase.wordSource, htrue, hfalse]
  rw [← hsource]
  exact word hplain

/-- A value as a value of another type: all that can happen to its text is that a position is
taken. -/
theorem as {value : Typed} {target : ValueType}
    (hconversions : ∀ conversion ∈ target.conversions, conversion ∈ ValueType.vector.conversions)
    (hshows : Shows bindings value.text node) (has : value.as target = .ok text) :
    Shows bindings text node := by
  unfold Typed.as ValueType.adapt at has
  split at has
  · split at has
    · cases has
      exact hshows
    · split at has
      · rename_i conversion hfound
        cases has
        have hmem := hconversions conversion (List.mem_of_find?_eq_some hfound)
        rw [List.mem_singleton.1 hmem]
        exact hshows.positionOf
      · cases has
        exact hshows
  · cases has

end Shows

end Workshop

/-!
# Vocabulary

The reserved words and the operator spellings of a language.  Operators are matched by the
longest spelling, whatever the order of the table.

Main results:

- Theorem `Vocabulary.longest?_eq_none_iff`: no operator is found exactly when none starts the
  input.
- Theorem `Vocabulary.longest?_eq_some`: the operator found is listed, starts the input, and no
  listed operator that starts the input is longer.
-/

namespace Workshop

/-- The reserved words and operator spellings of a language. -/
structure Vocabulary where
  keywords : List String
  operators : List String
deriving DecidableEq, Repr

namespace Vocabulary

/-- The vocabulary of scripts. -/
def standard : Vocabulary where
  keywords := ["usevar", "global", "player", "var", "const", "rule", "if", "else", "in", "true",
    "false", "null"]
  operators := ["==", "!=", "!", "<", ">", ">=", "<=", "&&", "||", ":", "=", "+", "-", "*", "/",
    "%", "^", "+=", "-=", "*=", "/=", "^=", "(", ")", "[", "]", "\x7b", "\x7d", ".", ",", ";"]

/-- Whether a word is reserved. -/
def isKeyword (vocabulary : Vocabulary) (word : String) : Bool :=
  vocabulary.keywords.contains word

/-- Whether an operator spelling stands at the start of the input.  The empty spelling never
does. -/
def starts (input : List Char) (operator : String) : Bool :=
  !operator.toList.isEmpty && operator.toList.isPrefixOf input

/-- The longest of the spellings that stand at the start of the input. -/
def longest? (input : List Char) : List String → Option String
  | [] => none
  | operator :: rest =>
    match longest? input rest with
    | none => if starts input operator then some operator else none
    | some best =>
      if starts input operator && best.length < operator.length then some operator else some best

/-- The longest operator at the start of the input. -/
def operatorAt? (vocabulary : Vocabulary) (input : List Char) : Option String :=
  longest? input vocabulary.operators

theorem starts_iff {input : List Char} {operator : String} :
    starts input operator = true ↔ operator.toList ≠ [] ∧ operator.toList <+: input := by
  simp [starts]

theorem longest?_eq_none_iff {input : List Char} {operators : List String} :
    longest? input operators = none ↔ ∀ operator ∈ operators, starts input operator = false := by
  induction operators with
  | nil => simp [longest?]
  | cons operator rest ih =>
    rw [longest?]
    split
    · rename_i h
      by_cases hs : starts input operator <;> simp_all
    · rename_i best h
      have notNone : longest? input rest ≠ none := by simp [h]
      have : ¬ ∀ operator ∈ rest, starts input operator = false := fun all =>
        notNone (ih.2 all)
      constructor
      · intro contra
        split at contra <;> cases contra
      · intro all
        exact absurd (fun other mem => all other (List.mem_cons_of_mem _ mem)) this

theorem longest?_eq_some {input : List Char} {operators : List String} {best : String}
    (h : longest? input operators = some best) :
    best ∈ operators ∧ starts input best = true ∧
      ∀ operator ∈ operators, starts input operator = true → operator.length ≤ best.length := by
  induction operators generalizing best with
  | nil => cases h
  | cons operator rest ih =>
    rw [longest?] at h
    split at h
    · rename_i none_
      split at h
      · rename_i hs
        cases h
        refine ⟨List.mem_cons_self, hs, fun other mem starts => ?_⟩
        rcases List.mem_cons.1 mem with rfl | mem
        · exact Nat.le_refl _
        · simp [longest?_eq_none_iff.1 none_ other mem] at starts
      · cases h
    · rename_i other found
      obtain ⟨mem, hs, longest⟩ := ih found
      split at h
      · rename_i wins
        cases h
        simp only [Bool.and_eq_true, decide_eq_true_eq] at wins
        refine ⟨List.mem_cons_self, wins.1, fun third mem starts => ?_⟩
        rcases List.mem_cons.1 mem with rfl | mem
        · exact Nat.le_refl _
        · exact Nat.le_trans (longest third mem starts) (Nat.le_of_lt wins.2)
      · rename_i loses
        cases h
        simp only [Bool.and_eq_true, decide_eq_true_eq, not_and, Nat.not_lt] at loses
        refine ⟨List.mem_cons_of_mem _ mem, hs, fun third mem starts => ?_⟩
        rcases List.mem_cons.1 mem with rfl | mem
        · exact loses starts
        · exact longest third mem starts

end Vocabulary
end Workshop

/-!
# Banks and slots

Variables live in numbered slots.  Slots are grouped into 26 banks, one for each capital letter,
and a slot is named by its bank and its number, as in `A[0]`.

Main results:

- Theorem `Bank.ofLetter?_letter`: a bank is recovered from its letter.
- Theorem `Bank.letter_of_ofLetter?`: a bank read from a letter has that letter.
-/

namespace Workshop

/-- One of the 26 lettered banks. -/
structure Bank where
  index : Fin 26
deriving DecidableEq, Repr

namespace Bank

/-- The bank in use before any other is selected. -/
def first : Bank := ⟨0⟩

instance : Inhabited Bank := ⟨first⟩

/-- The capital letter of a bank. -/
def letter (bank : Bank) : Char :=
  Char.ofNat (65 + bank.index.val)

/-- The bank of a capital letter. -/
def ofLetter? (c : Char) : Option Bank :=
  if h : 65 ≤ c.toNat ∧ c.toNat ≤ 90 then some ⟨⟨c.toNat - 65, by omega⟩⟩ else none

/-- The letter of a bank as text. -/
def text (bank : Bank) : String :=
  String.ofList [bank.letter]

theorem ofLetter?_letter (bank : Bank) : ofLetter? bank.letter = some bank := by
  obtain ⟨index⟩ := bank
  revert index
  decide

theorem letter_of_ofLetter? {c : Char} {bank : Bank} (h : ofLetter? c = some bank) :
    bank.letter = c := by
  unfold ofLetter? at h
  split at h
  · rename_i range
    cases h
    have sum : 65 + (c.toNat - 65) = c.toNat := by omega
    simp only [letter, sum, Char.ofNat_toNat]
  · cases h

theorem letter_injective {a b : Bank} (h : a.letter = b.letter) : a = b := by
  have := ofLetter?_letter a
  rw [h, ofLetter?_letter b] at this
  exact (Option.some.inj this).symm

theorem text_injective {first second : Bank} (htext : first.text = second.text) :
    first = second := by
  have hletters := congrArg String.toList htext
  rw [text, text, String.toList_ofList, String.toList_ofList] at hletters
  exact letter_injective (List.cons.inj hletters).1

end Bank

/-- A numbered place in a bank. -/
structure Slot where
  bank : Bank
  index : Nat
deriving DecidableEq, Repr

namespace Slot

/-- A slot as text, such as `A[0]`. -/
def text (slot : Slot) : String :=
  slot.bank.text ++ "[" ++ toString slot.index ++ "]"

end Slot
end Workshop

import Workshop.Storage.Bank
import Workshop.Storage.Table
import Workshop.ValueType

/-!
# Slots and frames

A bank gives out its slots in increasing order and never takes one back.  A frame is a table of
variables together with the bank in which new ones are placed.
-/

namespace Workshop

/-- How many slots a bank has. -/
def slotsPerBank : Nat := 1000

/-- How many slots every bank has given out. -/
structure SlotCounters where
  next : Vector Nat 26
deriving DecidableEq, Repr

namespace SlotCounters

/-- No bank has given out a slot. -/
def zero : SlotCounters := ⟨Vector.replicate 26 0⟩

/-- How many slots a bank has given out. -/
def count (counters : SlotCounters) (bank : Bank) : Nat :=
  counters.next[bank.index]

/-- Takes the next slot of a bank. -/
def allocate (counters : SlotCounters) (bank : Bank) : Except SemanticError (Slot × SlotCounters) :=
  if slotsPerBank ≤ counters.count bank then .error (.bankFull bank)
  else .ok (⟨bank, counters.count bank⟩,
    ⟨counters.next.set bank.index (counters.count bank + 1)⟩)

@[simp]
theorem count_zero (bank : Bank) : zero.count bank = 0 := by
  simp [zero, count]

theorem count_of_allocate {counters counters' : SlotCounters} {bank : Bank} {slot : Slot}
    (h : counters.allocate bank = .ok (slot, counters')) (other : Bank) :
    counters'.count other = counters.count other + if bank = other then 1 else 0 := by
  unfold allocate at h
  split at h
  · cases h
  · cases h
    by_cases same : bank = other
    · subst same
      simp [count]
    · have : bank.index ≠ other.index := fun eq => same (by cases bank; cases other; simp_all)
      have : bank.index.val ≠ other.index.val := fun eq => this (Fin.ext eq)
      simp [count, same, Vector.getElem_set_ne, this]

end SlotCounters

/-- A variable: its slot, and its type as far as it is known. -/
structure Variable where
  slot : Slot
  type : ValueType
deriving DecidableEq, Repr

/-- Variables of one scope, and the bank for new ones. -/
structure Frame where
  table : Table Variable
  bank : Bank
deriving DecidableEq, Repr

namespace Frame

/-- A frame without variables. -/
def empty (bank : Bank) : Frame := ⟨.empty, bank⟩

/-- The variable with the given name. -/
def find? (frame : Frame) (name : String) : Option Variable :=
  frame.table.find? name

/-- Whether there is a variable with the given name. -/
def contains (frame : Frame) (name : String) : Bool :=
  (frame.find? name).isSome

/-- Declares a variable in the bank of the frame.  A name that is present keeps its slot. -/
def declare (frame : Frame) (counters : SlotCounters) (name : String) (type : ValueType) :
    Except SemanticError (Slot × Frame × SlotCounters) :=
  match frame.find? name with
  | some present => .ok (present.slot, frame, counters)
  | none => do
    let (slot, counters) ← counters.allocate frame.bank
    pure (slot, { frame with table := frame.table.insert name ⟨slot, type⟩ }, counters)

/-- Gives a variable another type. -/
def retype (frame : Frame) (name : String) (type : ValueType) : Frame :=
  { frame with table := frame.table.modify name fun entry => { entry with type := type } }

/-- Selects the bank for new variables. -/
def useBank (frame : Frame) (bank : Bank) : Frame :=
  { frame with bank := bank }

end Frame
end Workshop

import Workshop.Storage.Frame

/-!
# Scopes

Global variables live in nested scopes, and names are looked up from the inside out.  Variables of
players live in one frame.  Slots are counted for the whole program, so that leaving a scope frees
none of them.
-/

namespace Workshop

/-- The nested scopes of the global variables. -/
structure ScopeStack where
  /-- The innermost scope. -/
  inner : Frame
  /-- The scopes around it, from the inside out. -/
  outer : List Frame
  slots : SlotCounters
deriving DecidableEq, Repr

namespace ScopeStack

/-- The scope of a whole program. -/
def initial : ScopeStack := ⟨.empty .first, [], .zero⟩

/-- All scopes, from the inside out. -/
def frames (scopes : ScopeStack) : List Frame :=
  scopes.inner :: scopes.outer

/-- How many scopes are open. -/
def depth (scopes : ScopeStack) : Nat :=
  scopes.outer.length + 1

/-- Opens a scope.  It starts with the bank of the scope around it. -/
def enter (scopes : ScopeStack) : ScopeStack :=
  { scopes with inner := .empty scopes.inner.bank, outer := scopes.inner :: scopes.outer }

/-- Closes the innermost scope.  The scope of the program stays open. -/
def leave (scopes : ScopeStack) : ScopeStack :=
  match scopes.outer with
  | [] => scopes
  | frame :: outer => { scopes with inner := frame, outer := outer }

/-- The innermost scope that has a variable of the given name. -/
def frameOf? (scopes : ScopeStack) (name : String) : Option Frame :=
  scopes.frames.find? (·.contains name)

/-- The variable with the given name, of the innermost scope that has one. -/
def find? (scopes : ScopeStack) (name : String) : Option Variable :=
  (scopes.frameOf? name).bind (·.find? name)

/-- Declares a variable in the innermost scope. -/
def declare (scopes : ScopeStack) (name : String) (type : ValueType) :
    Except SemanticError (Slot × ScopeStack) := do
  let (slot, inner, slots) ← scopes.inner.declare scopes.slots name type
  pure (slot, { scopes with inner := inner, slots := slots })

/-- Gives another type to the variable in the first of the frames that has it. -/
def retypeIn (name : String) (type : ValueType) : List Frame → List Frame
  | [] => []
  | frame :: rest =>
    if frame.contains name then frame.retype name type :: rest
    else frame :: retypeIn name type rest

/-- Gives a variable another type, in the innermost scope that has it. -/
def retype (scopes : ScopeStack) (name : String) (type : ValueType) : ScopeStack :=
  if scopes.inner.contains name then { scopes with inner := scopes.inner.retype name type }
  else { scopes with outer := retypeIn name type scopes.outer }

/-- Selects the bank for new variables of the innermost scope. -/
def useBank (scopes : ScopeStack) (bank : Bank) : ScopeStack :=
  { scopes with inner := scopes.inner.useBank bank }

@[simp]
theorem leave_enter (scopes : ScopeStack) : scopes.enter.leave = scopes := rfl

@[simp]
theorem depth_enter (scopes : ScopeStack) : scopes.enter.depth = scopes.depth + 1 := rfl

theorem frames_retype (scopes : ScopeStack) (name : String) (type : ValueType) :
    (scopes.retype name type).frames = retypeIn name type scopes.frames := by
  by_cases h : scopes.inner.contains name <;> simp [retype, frames, retypeIn, h]

end ScopeStack

/-- The variables of players. -/
structure PlayerVariables where
  frame : Frame
  slots : SlotCounters
deriving DecidableEq, Repr

namespace PlayerVariables

/-- No variables. -/
def initial : PlayerVariables := ⟨.empty .first, .zero⟩

/-- The variable with the given name. -/
def find? (players : PlayerVariables) (name : String) : Option Variable :=
  players.frame.find? name

/-- Whether there is a variable with the given name. -/
def contains (players : PlayerVariables) (name : String) : Bool :=
  players.frame.contains name

/-- Declares a variable. -/
def declare (players : PlayerVariables) (name : String) (type : ValueType) :
    Except SemanticError (Slot × PlayerVariables) := do
  let (slot, frame, slots) ← players.frame.declare players.slots name type
  pure (slot, ⟨frame, slots⟩)

/-- Gives a variable another type. -/
def retype (players : PlayerVariables) (name : String) (type : ValueType) : PlayerVariables :=
  { players with frame := players.frame.retype name type }

/-- Selects the bank for new variables. -/
def useBank (players : PlayerVariables) (bank : Bank) : PlayerVariables :=
  { players with frame := players.frame.useBank bank }

end PlayerVariables
end Workshop

import Workshop.Proofs.Storage

/-!
# Guarded accesses

Compiling reads the arguments of calls, the counters of a bank and the innermost
scope.  All of them are there by the types of the bindings.  This module has a
storage without such types, whose operations fault if there is nothing to access.

Main definitions:

- `Fault`: an access to something that is not there.
- `Stop`: why guarded compiling stops, which is an error or a fault.
- `Guarded.Bindings`: a storage in which banks are numbers, counters are a list of
  any length, and there may be no scope.
- `Bindings.guarded`: bindings without what is known by their types.

Main results:

- Theorem `Builtin.guardedRender_of_length`: a call with one text for each parameter does not fault.
- Theorem `Guarded.Counters.allocate_guarded`, `Guarded.Scopes.declare_guarded` and the
  like: an access to guarded data that comes from other data does not fault, and has
  the same result.
-/

namespace Workshop

/-- An access to something that is not there. -/
inductive Fault where
  /-- A call is written with more or fewer texts than its builtin has parameters. -/
  | argumentCount (expected found : Nat)
  /-- An argument is read that is not there. -/
  | missingArgument
  /-- A bank has no counter. -/
  | missingCounter (bank : Nat)
  /-- There is no innermost scope. -/
  | missingScope
deriving DecidableEq, Repr

/-- Why guarded compiling stops. -/
inductive Stop where
  | error (error : SemanticError)
  | fault (fault : Fault)
deriving DecidableEq, Repr

/-- The text of a call, if there is a text for each parameter and no other, and if all arguments
that are read are there. -/
def Builtin.guardedRender (builtin : Builtin) (texts : List String) : Except Stop String :=
  if texts.length = builtin.parameters.length then
    match builtin.render? texts with
    | some text => .ok text
    | none => .error (.fault .missingArgument)
  else .error (.fault (.argumentCount builtin.parameters.length texts.length))

instance : Reason Stop where
  lift := Except.mapError .error
  render := Builtin.guardedRender

/-- With one text for each parameter, nothing is missing. -/
theorem Builtin.guardedRender_of_length {builtin : Builtin} {texts : List String}
    (hlength : texts.length = builtin.parameters.length) :
    builtin.guardedRender texts = .ok (builtin.render texts) := by
  rw [guardedRender, if_pos hlength, render?_eq_some hlength]

/-! ## Counters and frames -/

namespace Guarded

/-- How many slots every bank has given out, for as many banks as there are in the list. -/
abbrev Counters := List Nat

/-- Takes the next slot of the bank with the given number. -/
def Counters.allocate (counters : Counters) (bank : Nat) : Except Stop (Slot × Counters) :=
  match counters[bank]? with
  | none => .error (.fault (.missingCounter bank))
  | some count =>
    if hbank : bank < 26 then
      if slotsPerBank ≤ count then .error (.error (.bankFull ⟨⟨bank, hbank⟩⟩))
      else .ok (⟨⟨⟨bank, hbank⟩⟩, count⟩, counters.set bank (count + 1))
    else .error (.fault (.missingCounter bank))

/-- Variables of one scope, and the number of the bank for new ones. -/
structure Frame where
  table : Table Variable
  bank : Nat

namespace Frame

/-- The variable with the given name. -/
def find? (frame : Frame) (name : String) : Option Variable :=
  frame.table.find? name

/-- Whether there is a variable with the given name. -/
def contains (frame : Frame) (name : String) : Bool :=
  (frame.find? name).isSome

/-- Declares a variable in the bank of the frame.  A name that is present keeps its slot. -/
def declare (frame : Frame) (counters : Counters) (name : String) (type : ValueType) :
    Except Stop (Slot × Frame × Counters) :=
  match frame.find? name with
  | some present => .ok (present.slot, frame, counters)
  | none => do
    let (slot, counters) ← counters.allocate frame.bank
    pure (slot, { frame with table := frame.table.insert name ⟨slot, type⟩ }, counters)

/-- Gives a variable another type. -/
def retype (frame : Frame) (name : String) (type : ValueType) : Frame :=
  { frame with table := frame.table.modify name fun entry => { entry with type := type } }

end Frame

end Guarded

/-- The counters as a list. -/
def SlotCounters.guarded (counters : SlotCounters) : Guarded.Counters :=
  counters.next.toList

/-- Counters start at zero. -/
theorem SlotCounters.guarded_zero : zero.guarded = List.replicate 26 0 := by
  decide

/-- A frame with the number of its bank. -/
def Frame.guarded (frame : Frame) : Guarded.Frame :=
  ⟨frame.table, frame.bank.index⟩

namespace Guarded

/-- Every bank has a counter. -/
theorem Counters.allocate_guarded (counters : SlotCounters) (bank : Bank) :
    Counters.allocate counters.guarded bank.index =
      Except.mapError Stop.error
        ((counters.allocate bank).map (Prod.map id SlotCounters.guarded)) := by
  have hcount : counters.guarded[bank.index.val]? = some (counters.count bank) := by
    simp [SlotCounters.guarded, SlotCounters.count]
  have hset (count : Nat) : counters.guarded.set bank.index count =
      SlotCounters.guarded ⟨counters.next.set bank.index count⟩ := by
    simp [SlotCounters.guarded, Vector.toList_set]
  simp only [allocate, hcount, dif_pos bank.index.isLt, hset]
  unfold SlotCounters.allocate
  split
  · rfl
  · rfl

/-- A frame is declared in without a fault. -/
theorem Frame.declare_guarded (frame : Workshop.Frame) (counters : SlotCounters) (name : String)
    (type : ValueType) :
    frame.guarded.declare counters.guarded name type =
      Except.mapError Stop.error ((frame.declare counters name type).map
        (Prod.map id (Prod.map Workshop.Frame.guarded SlotCounters.guarded))) := by
  have hfind : frame.guarded.find? name = frame.find? name := rfl
  rw [declare, Workshop.Frame.declare, hfind]
  cases frame.find? name with
  | some present => rfl
  | none =>
      simp only
      have hallocate := Counters.allocate_guarded counters frame.bank
      rw [Workshop.Frame.guarded, hallocate]
      cases counters.allocate frame.bank with
      | error error => rfl
      | ok result => rfl

end Guarded

/-! ## Scopes -/

namespace Guarded

/-- The nested scopes of the global variables, from the inside out.  There may be none. -/
structure Scopes where
  frames : List Frame
  counters : Counters

namespace Scopes

/-- The innermost scope. -/
def innermost (scopes : Scopes) : Except Stop Frame :=
  match scopes.frames with
  | [] => .error (.fault .missingScope)
  | inner :: _ => .ok inner

/-- The scopes with another innermost one. -/
def withInnermost (scopes : Scopes) (inner : Frame) : Scopes :=
  { scopes with frames := inner :: scopes.frames.tail }

/-- Opens a scope.  It starts with the bank of the scope around it. -/
def enter (scopes : Scopes) : Except Stop Scopes := do
  let inner ← scopes.innermost
  pure { scopes with frames := ⟨.empty, inner.bank⟩ :: scopes.frames }

/-- Closes the innermost scope, unless it is the only one. -/
def leave (scopes : Scopes) : Scopes :=
  if 1 < scopes.frames.length then { scopes with frames := scopes.frames.tail } else scopes

/-- The variable with the given name, of the innermost scope that has one. -/
def find? (scopes : Scopes) (name : String) : Option Variable :=
  (scopes.frames.find? (·.contains name)).bind (·.find? name)

/-- Declares a variable in the innermost scope. -/
def declare (scopes : Scopes) (name : String) (type : ValueType) :
    Except Stop (Slot × Scopes) := do
  let inner ← scopes.innermost
  let (slot, inner, counters) ← inner.declare scopes.counters name type
  pure (slot, { scopes.withInnermost inner with counters := counters })

/-- Gives another type to the variable in the first of the frames that has it. -/
def retypeIn (name : String) (type : ValueType) : List Frame → List Frame
  | [] => []
  | frame :: rest =>
    if frame.contains name then frame.retype name type :: rest
    else frame :: retypeIn name type rest

/-- Gives a variable another type, in the innermost scope that has it. -/
def retype (scopes : Scopes) (name : String) (type : ValueType) : Scopes :=
  { scopes with frames := retypeIn name type scopes.frames }

/-- Selects the bank for new variables of the innermost scope. -/
def useBank (scopes : Scopes) (bank : Nat) : Except Stop Scopes := do
  let inner ← scopes.innermost
  pure (scopes.withInnermost { inner with bank := bank })

end Scopes

end Guarded

/-- The scopes as a list. -/
def ScopeStack.guarded (scopes : ScopeStack) : Guarded.Scopes :=
  ⟨scopes.frames.map Frame.guarded, scopes.slots.guarded⟩

namespace Guarded.Scopes

variable (scopes : ScopeStack) (name : String) (type : ValueType)

/-- A scope is left. -/
theorem leave_guarded : scopes.guarded.leave = scopes.leave.guarded := by
  rcases scopes with ⟨inner, outer, slots⟩
  cases outer with
  | nil => rfl
  | cons frame outer => rfl

/-- A name is found alike. -/
theorem find?_guarded : scopes.guarded.find? name = scopes.find? name := by
  rw [find?, ScopeStack.find?, ScopeStack.frameOf?, ScopeStack.guarded, List.find?_map,
    Option.bind_map]
  rfl

/-- Scopes are declared in without a fault. -/
theorem declare_guarded :
    scopes.guarded.declare name type =
      Except.mapError Stop.error
        ((scopes.declare name type).map (Prod.map id ScopeStack.guarded)) := by
  have hinner := Frame.declare_guarded scopes.inner scopes.slots name type
  have hinnermost : scopes.guarded.innermost = .ok scopes.inner.guarded := rfl
  rw [declare, hinnermost, ScopeStack.declare]
  change scopes.inner.guarded.declare scopes.slots.guarded name type >>= _ = _
  rw [hinner]
  cases scopes.inner.declare scopes.slots name type with
  | error error => rfl
  | ok result => rfl

/-- Frames get a new type alike. -/
theorem retypeIn_guarded (frames : List Workshop.Frame) :
    retypeIn name type (frames.map Workshop.Frame.guarded) =
      (ScopeStack.retypeIn name type frames).map Workshop.Frame.guarded := by
  induction frames with
  | nil => rfl
  | cons frame rest ih =>
      have hcontains : frame.guarded.contains name = frame.contains name := rfl
      rw [List.map_cons, retypeIn, ScopeStack.retypeIn, hcontains, ih]
      split
      · rfl
      · rfl

/-- So do scopes. -/
theorem retype_guarded : scopes.guarded.retype name type = (scopes.retype name type).guarded := by
  have hslots : (scopes.retype name type).slots = scopes.slots := by
    rw [ScopeStack.retype]
    split
    · rfl
    · rfl
  rw [retype, ScopeStack.guarded, ScopeStack.guarded, ScopeStack.frames_retype, hslots,
    retypeIn_guarded]

example : (Scopes.mk [] [0]).useBank 0 = .error (.fault .missingScope) := rfl

end Guarded.Scopes

/-! ## Bindings -/

namespace Guarded

/-- The variables of players. -/
structure Players where
  frame : Frame
  counters : Counters

/-- What the names of a program stand for. -/
structure Bindings where
  constants : Table Typed
  players : Players
  globals : Scopes

namespace Bindings

/-- The variable of a domain with the given name. -/
def find? (bindings : Bindings) (domain : Domain) (name : String) : Option Variable :=
  match domain with
  | .global => bindings.globals.find? name
  | .player => bindings.players.frame.find? name

/-- Opens a scope. -/
def enter (bindings : Bindings) : Except Stop Bindings := do
  let globals ← bindings.globals.enter
  pure { bindings with globals := globals }

/-- Closes the innermost scope. -/
def leave (bindings : Bindings) : Bindings :=
  { bindings with globals := bindings.globals.leave }

/-- Gives a variable another type. -/
def retype (bindings : Bindings) (domain : Domain) (name : String) (type : ValueType) :
    Bindings :=
  match domain with
  | .global => { bindings with globals := bindings.globals.retype name type }
  | .player => { bindings with players.frame := bindings.players.frame.retype name type }

/-- Selects the bank for new variables of a domain. -/
def useBank (bindings : Bindings) (domain : Domain) (bank : Nat) : Except Stop Bindings :=
  match domain with
  | .global => do
    let globals ← bindings.globals.useBank bank
    pure { bindings with globals := globals }
  | .player => .ok { bindings with players.frame.bank := bank }

/-- Declares a variable of a domain. -/
def declare (bindings : Bindings) (domain : Domain) (name : String) (type : ValueType) :
    Except Stop (Slot × Bindings) :=
  match domain with
  | .global => do
    let (slot, globals) ← bindings.globals.declare name type
    pure (slot, { bindings with globals := globals })
  | .player => do
    let (slot, frame, counters) ← bindings.players.frame.declare bindings.players.counters name type
    pure (slot, { bindings with players := ⟨frame, counters⟩ })

end Bindings

instance : Storage Bindings Stop where
  constants := Bindings.constants
  define bindings name value :=
    { bindings with constants := bindings.constants.insert name value }
  find? := Bindings.find?
  declare := Bindings.declare
  retype := Bindings.retype
  useBank bindings domain bank := bindings.useBank domain bank.index
  enter := Bindings.enter
  leave := Bindings.leave

end Guarded

/-- The variables of players, with the counters as a list. -/
def PlayerVariables.guarded (players : PlayerVariables) : Guarded.Players :=
  ⟨players.frame.guarded, players.slots.guarded⟩

/-- Bindings without what is known by their types. -/
def Bindings.guarded (bindings : Bindings) : Guarded.Bindings :=
  ⟨bindings.constants, bindings.players.guarded, bindings.globals.guarded⟩

namespace Guarded.Bindings

variable (bindings : Workshop.Bindings) (domain : Domain) (name : String) (type : ValueType)

/-- A name of a domain is found alike. -/
theorem find?_guarded : bindings.guarded.find? domain name = bindings.find? domain name := by
  cases domain with
  | global => exact Scopes.find?_guarded bindings.globals name
  | player => rfl

/-- Bindings enter a scope without a fault. -/
theorem enter_guarded : bindings.guarded.enter = .ok bindings.enter.guarded :=
  rfl

/-- Bindings leave a scope alike. -/
theorem leave_guarded : bindings.guarded.leave = bindings.leave.guarded := by
  have hglobals := Scopes.leave_guarded bindings.globals
  exact congrArg (Bindings.mk bindings.constants bindings.players.guarded) hglobals

/-- Bindings get a new type alike. -/
theorem retype_guarded :
    bindings.guarded.retype domain name type = (bindings.retype domain name type).guarded := by
  cases domain with
  | global =>
      have hglobals := Scopes.retype_guarded bindings.globals name type
      exact congrArg (Bindings.mk bindings.constants bindings.players.guarded) hglobals
  | player => rfl

/-- There is a scope to choose a bank for. -/
theorem useBank_guarded (bank : Bank) :
    bindings.guarded.useBank domain bank.index = .ok (bindings.useBank domain bank).guarded := by
  cases domain with
  | global => rfl
  | player => rfl

/-- Bindings are declared in without a fault. -/
theorem declare_guarded :
    bindings.guarded.declare domain name type =
      Except.mapError Stop.error ((bindings.declare domain name type).map
        (Prod.map id Workshop.Bindings.guarded)) := by
  cases domain with
  | global =>
      have hglobals := Scopes.declare_guarded bindings.globals name type
      change bindings.globals.guarded.declare name type >>= _ = _
      rw [hglobals, Workshop.Bindings.declare]
      cases bindings.globals.declare name type with
      | error error => rfl
      | ok result => rfl
  | player =>
      have hframe := Frame.declare_guarded bindings.players.frame bindings.players.slots name type
      change bindings.players.frame.guarded.declare bindings.players.slots.guarded name type >>= _ =
        _
      rw [hframe, Workshop.Bindings.declare, PlayerVariables.declare]
      cases bindings.players.frame.declare bindings.players.slots name type with
      | error error => rfl
      | ok result => rfl

end Guarded.Bindings

end Workshop

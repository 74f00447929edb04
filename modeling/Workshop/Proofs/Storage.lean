import Workshop.Proofs.Success
import Mathlib.Data.List.Nodup

/-!
# The variables in sight

The nested scopes are seen as one list of named variables, those of inner
scopes first, and the frame of the players is such a list already.  Looking up
a name, declaring a variable and changing its type are operations on these
lists.

Main results:

- Theorem `Bindings.find?_eq_lookup`: a name is looked up in the list of
  variables in sight.
- Theorem `Bindings.entries_retype`: changing a type changes one entry.
- Theorem `Bindings.declare_of_find?_none`: the declaration of a new name takes
  the next slot of the selected bank.
-/

namespace Workshop

/-! ## Scopes -/

namespace ScopeStack

/-- All global variables in sight with their names, those of inner scopes first. -/
def entries (scopes : ScopeStack) : List (String × Variable) :=
  scopes.frames.flatMap fun frame => frame.table.entries

/-- A name is looked up in all entries. -/
theorem find?_eq_lookup (scopes : ScopeStack) (name : String) :
    scopes.find? name = Table.lookup name scopes.entries := by
  unfold find? frameOf? entries
  induction scopes.frames with
  | nil => rfl
  | cons frame rest ih =>
      rw [List.flatMap_cons, Table.lookup_append, ← ih, List.find?_cons]
      have hcontains : frame.contains name = (Table.lookup name frame.table.entries).isSome := rfl
      cases hfound : Table.lookup name frame.table.entries with
      | none =>
          rw [hcontains, hfound]
          rfl
      | some found =>
          rw [hcontains, hfound]
          exact hfound

/-- A new type changes one entry. -/
theorem flatMap_retypeIn (name : String) (type : ValueType) (frames : List Frame) :
    (retypeIn name type frames).flatMap (fun frame => frame.table.entries) =
      Table.change name (fun entry => { entry with type := type })
        (frames.flatMap fun frame => frame.table.entries) := by
  induction frames with
  | nil => rfl
  | cons frame rest ih =>
      have hcontains : frame.contains name = (Table.lookup name frame.table.entries).isSome := rfl
      rw [List.flatMap_cons, Table.change_append, ← hcontains, retypeIn]
      split
      · rfl
      · rw [List.flatMap_cons, ih]

/-- The same for all scopes. -/
theorem entries_retype (scopes : ScopeStack) (name : String) (type : ValueType) :
    (scopes.retype name type).entries =
      Table.change name (fun entry => { entry with type := type }) scopes.entries := by
  rw [entries, frames_retype, flatMap_retypeIn]
  rfl

/-- Closing a scope only takes variables out of sight. -/
theorem entries_leave_sublist (scopes : ScopeStack) :
    scopes.leave.entries.Sublist scopes.entries := by
  obtain ⟨inner, outer, slots⟩ := scopes
  cases outer with
  | nil => exact List.Sublist.refl _
  | cons frame outer => exact List.sublist_append_right _ _

/-- New types keep the slots. -/
@[simp]
theorem slots_retype (scopes : ScopeStack) (name : String) (type : ValueType) :
    (scopes.retype name type).slots = scopes.slots := by
  unfold retype
  split <;> rfl

/-- Slots are never given back. -/
@[simp]
theorem slots_leave (scopes : ScopeStack) : scopes.leave.slots = scopes.slots := by
  obtain ⟨inner, outer, slots⟩ := scopes
  cases outer <;> rfl

end ScopeStack

/-! ## Declarations -/

variable {counters' : SlotCounters}

/-- The next slot of a bank. -/
theorem SlotCounters.slot_of_allocate {counters : SlotCounters} {bank : Bank} {slot : Slot}
    (hallocate : counters.allocate bank = .ok (slot, counters')) :
    slot = ⟨bank, counters.count bank⟩ := by
  unfold allocate at hallocate
  split at hallocate
  · cases hallocate
  · cases hallocate
    rfl

/-- A new name is added to a frame in the next slot of the bank of the frame. -/
theorem Frame.declare_of_find?_none {frame frame' : Frame} {counters : SlotCounters} {name : String}
    {type : ValueType} {slot : Slot} (hnew : frame.find? name = none)
    (hdeclare : frame.declare counters name type = .ok (slot, frame', counters')) :
    counters.allocate frame.bank = .ok (slot, counters') ∧
      frame' = { frame with table := frame.table.insert name ⟨slot, type⟩ } := by
  unfold declare at hdeclare
  rw [hnew] at hdeclare
  obtain ⟨⟨_, _⟩, hallocate, hresult⟩ := Except.bind_eq_ok.1 hdeclare
  cases hresult
  exact ⟨hallocate, rfl⟩

namespace Bindings

/-- The variables of a domain that are in sight, with their names. -/
def entries (bindings : Bindings) : Domain → List (String × Variable)
  | .global => bindings.globals.entries
  | .player => bindings.players.frame.table.entries

/-- How many slots of every bank are in use by variables of a domain. -/
def counters (bindings : Bindings) : Domain → SlotCounters
  | .global => bindings.globals.slots
  | .player => bindings.players.slots

/-- The frame in which a domain gets its next variable. -/
def frame (bindings : Bindings) : Domain → Frame
  | .global => bindings.globals.inner
  | .player => bindings.players.frame

/-- A name is looked up in the entries of its domain. -/
theorem find?_eq_lookup (bindings : Bindings) (domain : Domain) (name : String) :
    bindings.find? domain name = Table.lookup name (bindings.entries domain) := by
  cases domain with
  | global => exact bindings.globals.find?_eq_lookup name
  | player => rfl

/-- A new type changes one entry of its domain. -/
theorem entries_retype (bindings : Bindings) (domain other : Domain) (name : String)
    (type : ValueType) :
    (bindings.retype domain name type).entries other =
      if domain = other then
        Table.change name (fun entry => { entry with type := type }) (bindings.entries other)
      else bindings.entries other := by
  cases domain with
  | global =>
      cases other with
      | global => exact bindings.globals.entries_retype name type
      | player => rfl
  | player => cases other <;> rfl

/-- New types keep the counters. -/
theorem counters_retype (bindings : Bindings) (domain other : Domain) (name : String)
    (type : ValueType) :
    (bindings.retype domain name type).counters other = bindings.counters other := by
  cases domain with
  | global => cases other <;> simp [retype, counters]
  | player => cases other <;> rfl

/-- A new scope adds no entries. -/
theorem entries_enter (bindings : Bindings) (domain : Domain) :
    bindings.enter.entries domain = bindings.entries domain := by
  cases domain <;> rfl

/-- New scopes keep the counters. -/
theorem counters_enter (bindings : Bindings) (domain : Domain) :
    bindings.enter.counters domain = bindings.counters domain := by
  cases domain <;> rfl

/-- Leaving a scope removes entries. -/
theorem entries_leave_sublist (bindings : Bindings) (domain : Domain) :
    (bindings.leave.entries domain).Sublist (bindings.entries domain) := by
  cases domain with
  | global => exact bindings.globals.entries_leave_sublist
  | player => exact List.Sublist.refl _

/-- Leaving a scope keeps the counters. -/
theorem counters_leave (bindings : Bindings) (domain : Domain) :
    bindings.leave.counters domain = bindings.counters domain := by
  cases domain with
  | global => exact bindings.globals.slots_leave
  | player => rfl

/-- Another bank keeps the entries. -/
theorem entries_useBank (bindings : Bindings) (domain other : Domain) (bank : Bank) :
    (bindings.useBank domain bank).entries other = bindings.entries other := by
  cases domain <;> cases other <;> rfl

/-- Another bank keeps the counters. -/
theorem counters_useBank (bindings : Bindings) (domain other : Domain) (bank : Bank) :
    (bindings.useBank domain bank).counters other = bindings.counters other := by
  cases domain <;> cases other <;> rfl

/-- The bindings after a variable has been added to the next frame of its domain. -/
def extend (bindings : Bindings) (domain : Domain) (name : String) (added : Variable)
    (counters : SlotCounters) : Bindings :=
  match domain with
  | .global =>
    { bindings with
      globals.inner.table := bindings.globals.inner.table.insert name added
      globals.slots := counters }
  | .player =>
    { bindings with
      players.frame.table := bindings.players.frame.table.insert name added
      players.slots := counters }

/-- A new variable is one more entry. -/
theorem entries_extend (bindings : Bindings) (domain other : Domain) (name : String)
    (added : Variable) (counters : SlotCounters) :
    (bindings.extend domain name added counters).entries other =
      if domain = other then (name, added) :: bindings.entries other
      else bindings.entries other := by
  cases domain <;> cases other <;> rfl

/-- A new variable changes its counters. -/
theorem counters_extend (bindings : Bindings) (domain other : Domain) (name : String)
    (added : Variable) (counters : SlotCounters) :
    (bindings.extend domain name added counters).counters other =
      if domain = other then counters else bindings.counters other := by
  cases domain <;> cases other <;> rfl

/-- A name that is not in sight is not in the frame that gets the next variable. -/
theorem find?_frame_of_find?_none {bindings : Bindings} {domain : Domain} {name : String}
    (hnew : bindings.find? domain name = none) : (bindings.frame domain).find? name = none := by
  cases domain with
  | global =>
      rw [find?_eq_lookup, Table.lookup_eq_none_iff] at hnew
      refine Table.lookup_eq_none_iff.2 fun hmem => hnew ?_
      simp only [entries, ScopeStack.entries, ScopeStack.frames, List.flatMap_cons,
        List.map_append, List.mem_append]
      exact .inl hmem
  | player => exact hnew

/-- The declaration of a new name takes the next slot of the bank selected for its domain. -/
theorem declare_of_find?_none {bindings final : Bindings} {domain : Domain} {name : String}
    {type : ValueType} {slot : Slot} (hnew : bindings.find? domain name = none)
    (hdeclare : bindings.declare domain name type = .ok (slot, final)) :
    ∃ counters, (bindings.counters domain).allocate (bindings.frame domain).bank =
        .ok (slot, counters) ∧
      final = bindings.extend domain name ⟨slot, type⟩ counters := by
  cases domain with
  | global =>
      obtain ⟨⟨_, globals⟩, hglobals, hfinal⟩ := Except.bind_eq_ok.1 hdeclare
      cases hfinal
      obtain ⟨⟨_, inner, slots⟩, hinner, hresult⟩ := Except.bind_eq_ok.1 hglobals
      cases hresult
      obtain ⟨hallocate, rfl⟩ := Frame.declare_of_find?_none (find?_frame_of_find?_none hnew) hinner
      exact ⟨slots, hallocate, rfl⟩
  | player =>
      obtain ⟨⟨_, players⟩, hplayers, hfinal⟩ := Except.bind_eq_ok.1 hdeclare
      cases hfinal
      obtain ⟨⟨_, frame, slots⟩, hframe, hresult⟩ := Except.bind_eq_ok.1 hplayers
      cases hresult
      obtain ⟨hallocate, rfl⟩ := Frame.declare_of_find?_none hnew hframe
      exact ⟨slots, hallocate, rfl⟩

end Bindings
end Workshop

import Workshop.Proofs.Resolution.Emission
import Workshop.Proofs.Storage
import Mathlib.Data.List.Induction

/-!
# Bindings beside a walk

The walk that resolves names sees the bindings of the compiler without the
types, and instead of counters it has the list of all declarations so far.
This module compares both, statement by statement.

Main results:

- Theorem `Numbered.nodup`: declarations that are numbered by counting have
  different slots.
- Theorem `Agrees.slotOf?`: a name stands for the slot of the one declaration
  in sight.
- Theorems `Agrees.declare`, `Agrees.settle`, `Agrees.define`, `Agrees.enter`
  and `Agrees.leave`: bindings and walk agree after every step.
-/

namespace Workshop
namespace Resolution

/-! ## Numbers of slots -/

/-- Every slot has the number of earlier declarations of its domain in its bank. -/
def Numbered (history : List Declared) : Prop :=
  ∀ earlier declared later, history = earlier ++ declared :: later →
    declared.slot.index = countIn earlier declared.domain declared.slot.bank

/-- Declarations are counted part by part. -/
theorem countIn_append (first second : List Declared) (domain : Domain) (bank : Bank) :
    countIn (first ++ second) domain bank =
      countIn first domain bank + countIn second domain bank :=
  List.countP_append

/-- One declaration counts in its own bank. -/
theorem countIn_singleton (declared : Declared) (domain : Domain) (bank : Bank) :
    countIn [declared] domain bank =
      if declared.domain = domain ∧ declared.slot.bank = bank then 1 else 0 := by
  simp [countIn, List.countP_cons]

namespace Numbered

variable {history : List Declared}

/-- The next declaration takes the next index. -/
theorem append_singleton {declared : Declared} (hnumbered : Numbered history)
    (hindex : declared.slot.index = countIn history declared.domain declared.slot.bank) :
    Numbered (history ++ [declared]) := by
  intro earlier other later heq
  rcases List.eq_nil_or_concat later with rfl | ⟨later, last, rfl⟩
  · obtain ⟨rfl, hlast⟩ := List.append_inj' heq rfl
    cases hlast
    exact hindex
  · rw [List.concat_eq_append, ← List.cons_append, ← List.append_assoc] at heq
    obtain ⟨rfl, _⟩ := List.append_inj' heq rfl
    exact hnumbered earlier other later rfl

/-- Earlier declarations are numbered. -/
theorem of_append {first second : List Declared} (hnumbered : Numbered (first ++ second)) :
    Numbered first := by
  intro earlier declared later heq
  apply hnumbered earlier declared (later ++ second)
  rw [heq, List.append_assoc, List.cons_append]

/-- The number of a slot in use is below the count of its bank. -/
theorem index_lt {declared : Declared} (hnumbered : Numbered history) (hmem : declared ∈ history) :
    declared.slot.index < countIn history declared.domain declared.slot.bank := by
  obtain ⟨earlier, later, heq⟩ := List.append_of_mem hmem
  have hindex := hnumbered earlier declared later heq
  have hsplit : countIn history declared.domain declared.slot.bank =
      countIn earlier declared.domain declared.slot.bank +
        countIn (declared :: later) declared.domain declared.slot.bank := by
    rw [heq, countIn_append]
  have hself : 0 < countIn (declared :: later) declared.domain declared.slot.bank := by
    simp [countIn]
  omega

/-- No two declarations of a domain have the same slot. -/
theorem nodup (hnumbered : Numbered history) :
    (history.map fun declared => (declared.domain, declared.slot)).Nodup := by
  induction history using List.reverseRecOn with
  | nil => simp
  | append_singleton history declared ih =>
      have hearlier := hnumbered.of_append
      have hindex := hnumbered history declared [] rfl
      rw [List.map_append, List.map_singleton, List.nodup_append]
      refine ⟨ih hearlier, List.nodup_singleton _, ?_⟩
      rintro _ hmem _ hlast rfl
      obtain ⟨other, hother, heq⟩ := List.mem_map.1 hmem
      have hpair := heq.trans (List.mem_singleton.1 hlast)
      simp only [Prod.mk.injEq] at hpair
      have hlt := hearlier.index_lt hother
      rw [hpair.1, hpair.2] at hlt
      omega

end Numbered

/-! ## What the walk sees of the bindings -/

/-- A frame without the types of its variables. -/
def Scope.ofFrame (frame : Frame) : Scope :=
  ⟨frame.bank, frame.table.entries.map fun entry => (entry.1, entry.2.slot)⟩

/-- What a walk sees of bindings, beside the declarations so far. -/
def Scoping.ofBindings (bindings : Bindings) (history : List Declared) : Scoping where
  inner := .ofFrame bindings.globals.inner
  outer := bindings.globals.outer.map .ofFrame
  players := .ofFrame bindings.players.frame
  constants := bindings.constants.entries.map Prod.fst
  history := history

namespace Scoping

variable (bindings : Bindings) (history : List Declared)

/-- What can be seen are the entries. -/
theorem visible_ofBindings (domain : Domain) :
    (ofBindings bindings history).visible domain =
      (bindings.entries domain).map fun entry => (entry.1, entry.2.slot) := by
  cases domain with
  | global =>
      simp only [visible, ofBindings, Bindings.entries, ScopeStack.entries, ScopeStack.frames,
        ← List.map_cons, List.flatMap_map, List.map_flatMap]
      rfl
  | player => rfl

/-- The bank in use is that of the frame. -/
theorem bank_ofBindings (domain : Domain) :
    (ofBindings bindings history).bank domain = (bindings.frame domain).bank := by
  cases domain <;> rfl

/-- The constants are the same. -/
theorem contains_constants_ofBindings (name : String) :
    (ofBindings bindings history).constants.contains name = bindings.constants.contains name := by
  unfold Table.contains Table.find?
  cases hfound : Table.lookup name bindings.constants.entries with
  | none => simpa [ofBindings] using Table.lookup_eq_none_iff.1 hfound
  | some value =>
      have hmem := List.mem_map_of_mem (f := Prod.fst) (Table.mem_of_lookup hfound)
      simpa [ofBindings] using hmem

/-- Both leave a scope alike. -/
theorem ofBindings_leave :
    ofBindings bindings.leave history = (ofBindings bindings history).leave := by
  obtain ⟨constants, players, inner, outer, slots⟩ := bindings
  cases outer <;> rfl

/-- Both choose a bank alike. -/
theorem ofBindings_useBank (domain : Domain) (bank : Bank) :
    ofBindings (bindings.useBank domain bank) history =
      (ofBindings bindings history).useBank domain bank := by
  cases domain <;> rfl

/-- Both define a constant alike. -/
theorem ofBindings_define (name : String) (value : Typed) :
    ofBindings { bindings with constants := bindings.constants.insert name value } history =
      (ofBindings bindings history).define name :=
  rfl

end Scoping

/-- Types are not part of a scope. -/
theorem Scope.ofFrame_retype (frame : Frame) (name : String) (type : ValueType) :
    Scope.ofFrame (frame.retype name type) = Scope.ofFrame frame := by
  have hentries : (frame.retype name type).table.entries.map
      (fun entry => (entry.1, entry.2.slot)) =
      frame.table.entries.map fun entry => (entry.1, entry.2.slot) :=
    Table.map_change (fun entry : Variable => { entry with type := type }) _ (fun _ _ => rfl)
      name frame.table.entries
  unfold Scope.ofFrame
  rw [hentries]
  rfl

/-- The walk does not see the types of variables. -/
theorem Scoping.ofBindings_retype (bindings : Bindings) (history : List Declared)
    (domain : Domain) (name : String) (type : ValueType) :
    ofBindings (bindings.retype domain name type) history = ofBindings bindings history := by
  have hframes (frames : List Frame) :
      (ScopeStack.retypeIn name type frames).map Scope.ofFrame = frames.map Scope.ofFrame := by
    induction frames with
    | nil => rfl
    | cons frame rest ih =>
        simp only [ScopeStack.retypeIn]
        split
        · rw [List.map_cons, Scope.ofFrame_retype, List.map_cons]
        · rw [List.map_cons, ih, List.map_cons]
  cases domain with
  | global =>
      simp only [ofBindings, Bindings.retype, ScopeStack.retype]
      split
      · rw [Scope.ofFrame_retype]
      · rw [hframes]
  | player => simp [ofBindings, Bindings.retype, PlayerVariables.retype, Scope.ofFrame_retype]

/-! ## Agreement -/

/-- Bindings agree with the declarations so far, and with the types and constants that are known
without names. -/
structure Agrees (bindings : Bindings) (history : List Declared) (emission : Emission) : Prop where
  /-- No name is in sight twice. -/
  names : ∀ domain, ((bindings.entries domain).map Prod.fst).Nodup
  /-- No slot is in sight twice. -/
  slots : ∀ domain, ((bindings.entries domain).map fun entry => entry.2.slot).Nodup
  /-- Every variable in sight has been declared. -/
  recorded : ∀ domain, ∀ entry ∈ bindings.entries domain,
    ∃ declared ∈ history, declared.domain = domain ∧ declared.slot = entry.2.slot
  /-- The counters count the declarations. -/
  counted : ∀ domain bank, (bindings.counters domain).count bank = countIn history domain bank
  numbered : Numbered history
  constants : emission.constants = bindings.constants
  /-- The types of variables in sight are those of their slots. -/
  types : ∀ domain, ∀ entry ∈ bindings.entries domain,
    emission.types domain entry.2.slot = entry.2.type

namespace Agrees

variable {bindings final : Bindings} {history : List Declared} {emission : Emission}
  {domain : Domain} {name : String} {found : Variable}

/-- Both agree at the start. -/
theorem initial : Agrees Session.initial.bindings [] .initial where
  names domain := by cases domain <;> exact List.nodup_nil
  slots domain := by cases domain <;> exact List.nodup_nil
  recorded domain := by cases domain <;> exact fun _ hmem => (List.not_mem_nil hmem).elim
  counted domain bank := by cases domain <;> exact SlotCounters.count_zero bank
  numbered earlier declared later heq := by simp at heq
  constants := rfl
  types domain := by cases domain <;> exact fun _ hmem => (List.not_mem_nil hmem).elim

variable (hagrees : Agrees bindings history emission)

include hagrees

/-- A name in sight stands for the slot of its one declaration. -/
theorem slotOf? (hfound : bindings.find? domain name = some found) :
    (Scoping.ofBindings bindings history).slotOf? domain name = some found.slot := by
  rw [Bindings.find?_eq_lookup] at hfound
  have honly := Table.filter_of_lookup (hagrees.names domain) hfound
  have hvisible : ((Scoping.ofBindings bindings history).visible domain).filter
      (fun entry => entry.1 == name) = [(name, found.slot)] := by
    rw [Scoping.visible_ofBindings, List.filter_map]
    have hsame : (fun entry : String × Slot => entry.1 == name) ∘
        (fun entry : String × Variable => (entry.1, entry.2.slot)) =
          fun entry => entry.1 == name := rfl
    rw [hsame, honly, List.map_singleton]
  unfold Scoping.slotOf?
  rw [hvisible]

/-- Both know the same types. -/
theorem types_of_find? (hfound : bindings.find? domain name = some found) :
    emission.types domain found.slot = found.type := by
  rw [Bindings.find?_eq_lookup] at hfound
  exact hagrees.types domain _ (Table.mem_of_lookup hfound)

/-- The next declaration takes the slot that the walk gives it. -/
theorem nextSlot {slot : Slot} {counters : SlotCounters}
    (hallocate : (bindings.counters domain).allocate (bindings.frame domain).bank =
      .ok (slot, counters)) : slot = (Scoping.ofBindings bindings history).nextSlot domain := by
  have hslot := SlotCounters.slot_of_allocate hallocate
  rw [hagrees.counted] at hslot
  rw [hslot, Scoping.nextSlot, Scoping.bank_ofBindings]
  rfl

/-- A slot that is given out is not the slot of a variable in sight. -/
theorem slot_ne {entry : String × Variable} (hmem : entry ∈ bindings.entries domain) :
    entry.2.slot ≠ (Scoping.ofBindings bindings history).nextSlot domain := by
  intro hslot
  obtain ⟨declared, hdeclared, rfl, hsame⟩ := hagrees.recorded domain entry hmem
  have hlt := hagrees.numbered.index_lt hdeclared
  rw [hsame, hslot] at hlt
  exact Nat.lt_irrefl _ hlt

/-- A new declaration keeps the agreement, and it is the declaration of the walk. -/
theorem declare {typeName : String} {type : ValueType} {slot : Slot}
    (hnew : bindings.find? domain name = none)
    (hdeclare : bindings.declare domain name type = .ok (slot, final)) :
    slot = (Scoping.ofBindings bindings history).nextSlot domain ∧
      Scoping.ofBindings final (history ++ [⟨domain, name, typeName, slot⟩]) =
        (Scoping.ofBindings bindings history).declare domain name typeName ∧
      Agrees final (history ++ [⟨domain, name, typeName, slot⟩])
        (emission.setType domain slot type) := by
  obtain ⟨counters, hallocate, rfl⟩ := Bindings.declare_of_find?_none hnew hdeclare
  have hslot := hagrees.nextSlot hallocate
  have hfresh : ∀ entry ∈ bindings.entries domain, entry.2.slot ≠ slot := by
    intro entry hmem
    rw [hslot]
    exact hagrees.slot_ne hmem
  have hname : name ∉ (bindings.entries domain).map Prod.fst := by
    rw [Bindings.find?_eq_lookup] at hnew
    exact Table.lookup_eq_none_iff.1 hnew
  refine ⟨hslot, ?walk, ?names, ?slots, ?recorded, ?counted, ?numbered, ?constants, ?types⟩
  case walk =>
    rw [hslot]
    cases domain <;> rfl
  case names =>
    intro other
    rw [Bindings.entries_extend]
    split
    · rename_i hdomain
      subst hdomain
      exact List.nodup_cons.2 ⟨hname, hagrees.names domain⟩
    · exact hagrees.names other
  case slots =>
    intro other
    rw [Bindings.entries_extend]
    split
    · rename_i hdomain
      subst hdomain
      refine List.nodup_cons.2 ⟨?_, hagrees.slots domain⟩
      intro hmem
      obtain ⟨entry, hentry, hsame⟩ := List.mem_map.1 hmem
      exact hfresh entry hentry hsame
    · exact hagrees.slots other
  case recorded =>
    intro other entry hmem
    rw [Bindings.entries_extend] at hmem
    have hold (hmem : entry ∈ bindings.entries other) :
        ∃ declared ∈ history ++ [⟨domain, name, typeName, slot⟩],
          declared.domain = other ∧ declared.slot = entry.2.slot := by
      obtain ⟨declared, hdeclared, hsame⟩ := hagrees.recorded other entry hmem
      exact ⟨declared, List.mem_append_left _ hdeclared, hsame⟩
    split at hmem
    · rename_i hdomain
      rcases List.mem_cons.1 hmem with rfl | hmem
      · exact ⟨⟨domain, name, typeName, slot⟩, by simp, hdomain, rfl⟩
      · exact hold hmem
    · exact hold hmem
  case counted =>
    intro other bank
    rw [Bindings.counters_extend, countIn_append, countIn_singleton, ← hagrees.counted]
    have hbank : slot.bank = (bindings.frame domain).bank := by
      rw [SlotCounters.slot_of_allocate hallocate]
    by_cases hdomain : domain = other
    · subst hdomain
      simp [SlotCounters.count_of_allocate hallocate, hbank]
    · simp [hdomain]
  case numbered =>
    apply hagrees.numbered.append_singleton
    rw [hslot]
    rfl
  case constants =>
    cases domain <;> exact hagrees.constants
  case types =>
    intro other entry hmem
    rw [Bindings.entries_extend] at hmem
    rw [Emission.setType_types]
    split at hmem
    · rename_i hdomain
      subst hdomain
      rcases List.mem_cons.1 hmem with rfl | hmem
      · simp
      · rw [if_neg (fun hsame => hfresh entry hmem hsame.2)]
        exact hagrees.types domain entry hmem
    · rename_i hdomain
      rw [if_neg (fun hsame => hdomain hsame.1.symm)]
      exact hagrees.types other entry hmem

/-- Fixing the type of a variable is fixing the type of its slot. -/
theorem retype (hfound : bindings.find? domain name = some found) (type : ValueType) :
    Agrees (bindings.retype domain name type) history
      (emission.setType domain found.slot type) := by
  rw [Bindings.find?_eq_lookup] at hfound
  -- An entry after the change has the slot of an entry before it.
  have hbefore {other : Domain} {entry : String × Variable}
      (hmem : entry ∈ (bindings.retype domain name type).entries other) :
      (other = domain ∧ entry = (name, { found with type := type })) ∨
        (¬(other = domain ∧ entry.1 = name) ∧ entry ∈ bindings.entries other) := by
    rw [Bindings.entries_retype] at hmem
    split at hmem
    · rename_i hdomain
      subst hdomain
      rcases Table.mem_change (hagrees.names domain) hmem with ⟨value, hvalue, rfl⟩ | ⟨hne, hmem⟩
      · rw [hfound] at hvalue
        cases hvalue
        exact .inl ⟨rfl, rfl⟩
      · exact .inr ⟨fun hsame => hne hsame.2, hmem⟩
    · rename_i hdomain
      exact .inr ⟨fun hsame => hdomain hsame.1.symm, hmem⟩
  have hin := Table.mem_of_lookup hfound
  refine ⟨?names, ?slots, ?recorded, ?counted, hagrees.numbered, ?constants, ?types⟩
  case names =>
    intro other
    rw [Bindings.entries_retype]
    split
    · rw [Table.map_fst_change]
      exact hagrees.names other
    · exact hagrees.names other
  case slots =>
    intro other
    have hvisible := congrArg (fun scoping => (scoping.visible other).map Prod.snd)
      (Scoping.ofBindings_retype bindings history domain name type)
    simp only [Scoping.visible_ofBindings, List.map_map] at hvisible
    have hslots := hagrees.slots other
    exact hvisible ▸ hslots
  case recorded =>
    intro other entry hmem
    rcases hbefore hmem with ⟨rfl, rfl⟩ | ⟨_, hmem⟩
    · exact hagrees.recorded other (name, found) hin
    · exact hagrees.recorded other entry hmem
  case counted =>
    intro other bank
    rw [Bindings.counters_retype]
    exact hagrees.counted other bank
  case constants =>
    cases domain <;> exact hagrees.constants
  case types =>
    intro other entry hmem
    rw [Emission.setType_types]
    rcases hbefore hmem with ⟨rfl, rfl⟩ | ⟨hne, hold⟩
    · simp
    · rw [if_neg ?_]
      · exact hagrees.types other entry hold
      · rintro ⟨rfl, hslot⟩
        have hsame := List.inj_on_of_nodup_map (hagrees.slots other) hold hin hslot
        exact hne ⟨rfl, congrArg Prod.fst hsame⟩

/-- Storing a value in a variable keeps the agreement. -/
theorem settle (hfound : bindings.find? domain name = some found) (inferred : Option ValueType)
    (journal : Array LogEvent) :
    Agrees (StateOn.settled ⟨bindings, journal⟩ domain name inferred).bindings history
      (emission.settle domain found.slot inferred) := by
  cases inferred with
  | none => exact hagrees
  | some type => exact hagrees.retype hfound type

/-- Both agree behind a constant. -/
theorem define (value : Typed) :
    Agrees { bindings with constants := bindings.constants.insert name value } history
      { emission with constants := emission.constants.insert name value } :=
  ⟨hagrees.names, hagrees.slots, hagrees.recorded, hagrees.counted, hagrees.numbered,
    by rw [hagrees.constants], hagrees.types⟩

/-- The agreement is about nothing but the constants, the variables in sight and the counters. -/
theorem of_sublist (hconstants : final.constants = bindings.constants)
    (hentries : ∀ domain, (final.entries domain).Sublist (bindings.entries domain))
    (hcounters : ∀ domain, final.counters domain = bindings.counters domain) :
    Agrees final history emission where
  names domain := (hagrees.names domain).sublist ((hentries domain).map _)
  slots domain := (hagrees.slots domain).sublist ((hentries domain).map _)
  recorded domain entry hmem := hagrees.recorded domain entry ((hentries domain).subset hmem)
  counted domain bank := by rw [hcounters, hagrees.counted]
  numbered := hagrees.numbered
  constants := by rw [hconstants, hagrees.constants]
  types domain entry hmem := hagrees.types domain entry ((hentries domain).subset hmem)

/-- Both agree in a new scope. -/
theorem enter : Agrees bindings.enter history emission := by
  refine hagrees.of_sublist rfl ?_ bindings.counters_enter
  intro domain
  exact bindings.entries_enter domain ▸ List.Sublist.refl _

/-- Both agree behind a scope. -/
theorem leave : Agrees bindings.leave history emission :=
  hagrees.of_sublist rfl bindings.entries_leave_sublist bindings.counters_leave

/-- Both agree behind a choice of a bank. -/
theorem useBank (domain : Domain) (bank : Bank) :
    Agrees (bindings.useBank domain bank) history emission := by
  refine hagrees.of_sublist ?_ ?_ ?_
  · cases domain <;> rfl
  · intro other
    exact bindings.entries_useBank domain other bank ▸ List.Sublist.refl _
  · intro other
    exact bindings.counters_useBank domain other bank

end Agrees
end Resolution
end Workshop

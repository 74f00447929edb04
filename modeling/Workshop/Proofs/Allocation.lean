import Workshop.Proofs.Moves
import Mathlib.Data.List.Count
import Mathlib.Data.List.Range

/-!
# Slots are given out once

Scopes come and go, names hide each other and banks are selected in any order,
but the counters of the slots outlive the scopes.  This module looks at storage
alone, without any script: whatever is done to it and in whatever order, no
slot is given out a second time.

Main definitions:

- `Ledger.step`: storage after a move, with the answers to all declarations.
- `Ledger.Sound`: the answers account for the counters and for all variables.

Main results:

- Theorem `Ledger.Sound.step`: every move keeps the ledger sound.
- Theorem `Ledger.Sound.foldl_step`: so does every list of moves.
- Theorem `slots_issued_once`: no slot is given out twice, and what the next
  declaration answers.
-/

namespace Workshop

/-! ## Ledgers -/

/-- A declaration and what came of it. -/
structure Answer where
  domain : Domain
  name : String
  /-- Whether the name was in its frame before. -/
  isRepeat : Bool
  result : Except SemanticError Slot

/-- The slot that a declaration took in a domain, if it took one. -/
def Answer.taken? (domain : Domain) (answer : Answer) : Option Slot :=
  if answer.domain = domain ∧ answer.isRepeat = false then answer.result.toOption else none

/-- The answer to a move, if it is a declaration. -/
def Move.answer? (bindings : Bindings) : Move → Option Answer
  | declare domain name type =>
    some ⟨domain, name, (bindings.frame domain).contains name,
      (bindings.declare domain name type).map Prod.fst⟩
  | _ => none

/-- Storage, and the answers to all declarations so far, the earliest first. -/
structure Ledger where
  bindings : Bindings
  answers : List Answer

namespace Ledger

/-- Storage before its first variable. -/
def start (constants : Table Typed) : Ledger := ⟨⟨constants, .initial, .initial⟩, []⟩

/-- The slots of a domain that have been given out, the earliest first. -/
def issued (ledger : Ledger) (domain : Domain) : List Slot :=
  ledger.answers.filterMap (Answer.taken? domain)

/-- The numbers of the slots that have been given out in a bank, the earliest first. -/
def indices (ledger : Ledger) (domain : Domain) (bank : Bank) : List Nat :=
  ((ledger.issued domain).filter (·.bank = bank)).map Slot.index

/-- Makes a move and writes down its answer. -/
def step (ledger : Ledger) (move : Move) : Ledger :=
  ⟨move.apply ledger.bindings, ledger.answers ++ (move.answer? ledger.bindings).toList⟩

end Ledger

/-! ## What a declaration answers -/

namespace SlotCounters

variable {counters : SlotCounters} {bank : Bank}

/-- A full bank gives no slot. -/
theorem allocate_of_full (hfull : slotsPerBank ≤ counters.count bank) :
    counters.allocate bank = .error (.bankFull bank) := by
  rw [allocate, if_pos hfull]

/-- A bank with room gives its next slot. -/
theorem allocate_of_room (hroom : counters.count bank < slotsPerBank) :
    ∃ later, counters.allocate bank = .ok (⟨bank, counters.count bank⟩, later) := by
  rw [allocate, if_neg (Nat.not_le.2 hroom)]
  exact ⟨_, rfl⟩

/-- Only a bank with room gives a slot. -/
theorem room_of_allocate {slot : Slot} {later : SlotCounters}
    (hallocate : counters.allocate bank = .ok (slot, later)) :
    counters.count bank < slotsPerBank := by
  by_contra hfull
  rw [allocate_of_full (Nat.le_of_not_lt hfull)] at hallocate
  cases hallocate

end SlotCounters

namespace Bindings

variable {bindings : Bindings} {domain : Domain} {name : String}

/-- The bindings with another next frame and other counters for a domain. -/
def replace (bindings : Bindings) (domain : Domain) (frame : Frame) (counters : SlotCounters) :
    Bindings :=
  match domain with
  | .global => { bindings with globals.inner := frame, globals.slots := counters }
  | .player => { bindings with players := ⟨frame, counters⟩ }

/-- Both domains declare a variable in their next frame. -/
theorem declare_eq_map (bindings : Bindings) (domain : Domain) (name : String)
    (type : ValueType) :
    bindings.declare domain name type =
      ((bindings.frame domain).declare (bindings.counters domain) name type).map
        fun (slot, frame, counters) => (slot, bindings.replace domain frame counters) := by
  cases domain with
  | global =>
      simp only [declare, ScopeStack.declare, frame, counters]
      cases bindings.globals.inner.declare bindings.globals.slots name type <;> rfl
  | player =>
      simp only [declare, PlayerVariables.declare, frame, counters]
      cases bindings.players.frame.declare bindings.players.slots name type <;> rfl

/-- A name that is in its frame already keeps its slot, and nothing changes. -/
theorem declare_of_find?_frame {found : Variable}
    (hfound : (bindings.frame domain).find? name = some found) (type : ValueType) :
    bindings.declare domain name type = .ok (found.slot, bindings) := by
  have hframe : (bindings.frame domain).declare (bindings.counters domain) name type =
      .ok (found.slot, bindings.frame domain, bindings.counters domain) := by
    simp only [Frame.declare, hfound]
  rw [declare_eq_map, hframe]
  cases domain <;> rfl

/-- A new name gets no slot in a bank that has none left. -/
theorem declare_of_full (hnew : (bindings.frame domain).find? name = none)
    (hfull : slotsPerBank ≤ (bindings.counters domain).count (bindings.frame domain).bank)
    (type : ValueType) :
    bindings.declare domain name type = .error (.bankFull (bindings.frame domain).bank) := by
  have hframe : (bindings.frame domain).declare (bindings.counters domain) name type =
      .error (.bankFull (bindings.frame domain).bank) := by
    simp only [Frame.declare, hnew, SlotCounters.allocate_of_full hfull]
    rfl
  rw [declare_eq_map, hframe]
  rfl

/-- Otherwise a new name gets the next slot of the bank. -/
theorem declare_of_room (hnew : (bindings.frame domain).find? name = none)
    (hroom : (bindings.counters domain).count (bindings.frame domain).bank < slotsPerBank)
    (type : ValueType) :
    let bank := (bindings.frame domain).bank
    let slot : Slot := ⟨bank, (bindings.counters domain).count bank⟩
    ∃ later, (bindings.counters domain).allocate bank = .ok (slot, later) ∧
      bindings.declare domain name type =
        .ok (slot, bindings.extend domain name ⟨slot, type⟩ later) := by
  intro bank slot
  obtain ⟨later, hallocate⟩ := SlotCounters.allocate_of_room hroom
  have hframe : (bindings.frame domain).declare (bindings.counters domain) name type =
      .ok (slot, { bindings.frame domain with
        table := (bindings.frame domain).table.insert name ⟨slot, type⟩ }, later) := by
    simp only [Frame.declare, hnew, hallocate]
    rfl
  refine ⟨later, hallocate, ?_⟩
  rw [declare_eq_map, hframe]
  cases domain <;> rfl

end Bindings

namespace Ledger

variable {ledger : Ledger} {domain : Domain} {name : String}

/-- The declaration of a name that is in its frame answers with the old slot. -/
theorem step_declare_of_repeat {found : Variable}
    (hfound : (ledger.bindings.frame domain).find? name = some found) (type : ValueType) :
    ledger.step (.declare domain name type) =
      ⟨ledger.bindings, ledger.answers ++ [⟨domain, name, true, .ok found.slot⟩]⟩ := by
  simp only [step, Move.apply, Move.answer?, Bindings.declare_of_find?_frame hfound,
    Frame.contains, hfound, Option.isSome_some, Except.map, Option.toList_some]

/-- A declaration fails if the bank is full. -/
theorem step_declare_of_full (hnew : (ledger.bindings.frame domain).find? name = none)
    (hfull : slotsPerBank ≤
      (ledger.bindings.counters domain).count (ledger.bindings.frame domain).bank)
    (type : ValueType) :
    ledger.step (.declare domain name type) =
      ⟨ledger.bindings, ledger.answers ++
        [⟨domain, name, false, .error (.bankFull (ledger.bindings.frame domain).bank)⟩]⟩ := by
  simp only [step, Move.apply, Move.answer?, Bindings.declare_of_full hnew hfull, Frame.contains,
    hnew, Option.isSome_none, Except.map, Option.toList_some]

/-- Otherwise it takes the next slot. -/
theorem step_declare_of_room (hnew : (ledger.bindings.frame domain).find? name = none)
    (hroom : (ledger.bindings.counters domain).count (ledger.bindings.frame domain).bank <
      slotsPerBank)
    (type : ValueType) :
    let bank := (ledger.bindings.frame domain).bank
    let slot : Slot := ⟨bank, (ledger.bindings.counters domain).count bank⟩
    ∃ later, (ledger.bindings.counters domain).allocate bank = .ok (slot, later) ∧
      ledger.step (.declare domain name type) =
        ⟨ledger.bindings.extend domain name ⟨slot, type⟩ later,
          ledger.answers ++ [⟨domain, name, false, .ok slot⟩]⟩ := by
  intro bank slot
  obtain ⟨later, hallocate, hdeclare⟩ := Bindings.declare_of_room hnew hroom type
  refine ⟨later, hallocate, ?_⟩
  simp only [step, Move.apply, Move.answer?, hdeclare, Frame.contains, hnew, Option.isSome_none,
    Except.map, Option.toList_some, slot, bank]

end Ledger

/-! ## Sound ledgers -/

namespace Ledger

variable {ledger : Ledger}

/-- The answers account for the counters and for all variables in sight. -/
structure Sound (ledger : Ledger) : Prop where
  /-- The slots of a bank were given out in order. -/
  inOrder : ∀ domain bank,
    ledger.indices domain bank = List.range ((ledger.bindings.counters domain).count bank)
  bounded : ∀ domain bank, (ledger.bindings.counters domain).count bank ≤ slotsPerBank
  /-- No two variables share a slot, also if one hides the other. -/
  distinct : ∀ domain, ((ledger.bindings.entries domain).map (·.2.slot)).Nodup
  /-- Every variable has the slot that its declaration got. -/
  recorded : ∀ domain, ∀ entry ∈ ledger.bindings.entries domain,
    ⟨domain, entry.1, false, .ok entry.2.slot⟩ ∈ ledger.answers

/-- A slot in an answer is issued. -/
theorem mem_issued {domain : Domain} {slot : Slot} {name : String}
    (hmem : ⟨domain, name, false, .ok slot⟩ ∈ ledger.answers) : slot ∈ ledger.issued domain :=
  List.mem_filterMap.2 ⟨_, hmem, by simp [Answer.taken?, Except.toOption]⟩

/-- One more answer may issue a slot. -/
theorem issued_append (bindings : Bindings) (answers : List Answer) (answer : Answer)
    (domain : Domain) :
    issued ⟨bindings, answers ++ [answer]⟩ domain =
      issued ⟨bindings, answers⟩ domain ++ (answer.taken? domain).toList := by
  unfold issued
  rw [List.filterMap_append]
  cases htaken : answer.taken? domain <;> simp [htaken]

namespace Sound

/-- The ledger is sound at the start. -/
theorem start (constants : Table Typed) : (Ledger.start constants).Sound where
  inOrder domain bank := by
    cases domain <;>
      simp [indices, issued, Ledger.start, Bindings.counters, ScopeStack.initial,
        PlayerVariables.initial]
  bounded domain bank := by
    cases domain <;>
      simp [Ledger.start, Bindings.counters, ScopeStack.initial, PlayerVariables.initial]
  distinct domain := by
    cases domain <;> exact List.nodup_nil
  recorded domain entry hmem := by
    cases domain <;> cases hmem

section Steps

variable (hsound : ledger.Sound)

include hsound

/-- Every number that was given out is below the counter. -/
theorem index_lt {domain : Domain} {slot : Slot} (hmem : slot ∈ ledger.issued domain) :
    slot.index < (ledger.bindings.counters domain).count slot.bank := by
  have hindex : slot.index ∈ ledger.indices domain slot.bank :=
    List.mem_map_of_mem (List.mem_filter.2 ⟨hmem, by simp⟩)
  rw [hsound.inOrder] at hindex
  exact List.mem_range.1 hindex

/-- In every bank the numbers are those below the counter, so no slot stands in the list twice. -/
theorem nodup_issued (domain : Domain) : (ledger.issued domain).Nodup := by
  rw [List.nodup_iff_count_le_one]
  intro slot
  have hrange : (ledger.indices domain slot.bank).Nodup := by
    rw [hsound.inOrder]
    exact List.nodup_range
  calc (ledger.issued domain).count slot
      = ((ledger.issued domain).filter (·.bank = slot.bank)).count slot :=
        (List.count_filter (by simp)).symm
    _ ≤ (ledger.indices domain slot.bank).count slot.index := List.count_le_count_map
    _ ≤ 1 := List.nodup_iff_count_le_one.1 hrange _

/-! ### Steps -/

/-- A move that gives out no slot and moves no variable keeps the ledger sound. -/
theorem unanswered {move : Move} (hanswer : move.answer? ledger.bindings = none)
    (hcounters : ∀ domain,
      (move.apply ledger.bindings).counters domain = ledger.bindings.counters domain)
    (hentries : ∀ domain,
      (((move.apply ledger.bindings).entries domain).map fun entry =>
        (entry.1, entry.2.slot)).Sublist
        ((ledger.bindings.entries domain).map fun entry => (entry.1, entry.2.slot))) :
    (ledger.step move).Sound := by
  have hstep : ledger.step move = ⟨move.apply ledger.bindings, ledger.answers⟩ := by
    rw [Ledger.step, hanswer, Option.toList_none, List.append_nil]
  rw [hstep]
  refine ⟨fun domain bank => ?_, fun domain bank => ?_, fun domain => ?_, fun domain => ?_⟩
  · rw [hcounters domain]
    exact hsound.inOrder domain bank
  · rw [hcounters domain]
    exact hsound.bounded domain bank
  · have hslots := (hentries domain).map Prod.snd
    rw [List.map_map, List.map_map] at hslots
    exact (hsound.distinct domain).sublist hslots
  · intro entry hmem
    have hplaced := (hentries domain).subset (List.mem_map_of_mem hmem)
    obtain ⟨earlier, hearlier, hsame⟩ := List.mem_map.1 hplaced
    rw [Prod.mk.injEq] at hsame
    have hrecorded := hsound.recorded domain earlier hearlier
    rw [hsame.1, hsame.2] at hrecorded
    exact hrecorded

/-- An answer that gives out no slot keeps the ledger sound. -/
theorem untaken {answer : Answer} (huntaken : ∀ domain, answer.taken? domain = none) :
    Sound ⟨ledger.bindings, ledger.answers ++ [answer]⟩ where
  inOrder domain bank := by
    rw [indices, issued_append, huntaken, Option.toList_none, List.append_nil]
    exact hsound.inOrder domain bank
  bounded := hsound.bounded
  distinct := hsound.distinct
  recorded domain entry hmem := List.mem_append_left _ (hsound.recorded domain entry hmem)

/-- The next slot of a bank goes to a new variable.  It was not given out before, because all
numbers given out in its bank are smaller. -/
theorem taken {domain : Domain} {bank : Bank} {slot : Slot} {later : SlotCounters}
    (hallocate : (ledger.bindings.counters domain).allocate bank = .ok (slot, later))
    (name : String) (type : ValueType) :
    Sound ⟨ledger.bindings.extend domain name ⟨slot, type⟩ later,
      ledger.answers ++ [⟨domain, name, false, .ok slot⟩]⟩ where
  inOrder other counted := by
    have hearlier := hsound.inOrder other counted
    rw [indices, issued_append, Bindings.counters_extend, List.filter_append, List.map_append]
    by_cases hdomain : domain = other
    · subst hdomain
      have hslot := SlotCounters.slot_of_allocate hallocate
      rw [if_pos rfl, SlotCounters.count_of_allocate hallocate]
      by_cases hbank : bank = counted
      · subst hbank
        rw [if_pos rfl, List.range_succ, ← hearlier]
        simp [Answer.taken?, Except.toOption, hslot, indices, issued]
      · rw [if_neg hbank, Nat.add_zero, ← hearlier]
        simp [Answer.taken?, Except.toOption, hslot, indices, issued, hbank]
    · rw [if_neg hdomain, ← hearlier]
      simp [Answer.taken?, hdomain, indices, issued]
  bounded other counted := by
    rw [Bindings.counters_extend]
    by_cases hdomain : domain = other
    · subst hdomain
      rw [if_pos rfl, SlotCounters.count_of_allocate hallocate]
      by_cases hbank : bank = counted
      · subst hbank
        rw [if_pos rfl]
        exact SlotCounters.room_of_allocate hallocate
      · rw [if_neg hbank]
        exact hsound.bounded domain counted
    · rw [if_neg hdomain]
      exact hsound.bounded other counted
  distinct other := by
    rw [Bindings.entries_extend]
    by_cases hdomain : domain = other
    · subst hdomain
      rw [if_pos rfl, List.map_cons, List.nodup_cons]
      refine ⟨?_, hsound.distinct domain⟩
      intro hmem
      obtain ⟨entry, hentry, hsame⟩ := List.mem_map.1 hmem
      have hlt := hsound.index_lt (mem_issued (hsound.recorded domain entry hentry))
      rw [hsame, SlotCounters.slot_of_allocate hallocate] at hlt
      exact Nat.lt_irrefl _ hlt
    · rw [if_neg hdomain]
      exact hsound.distinct other
  recorded other entry hmem := by
    rw [Bindings.entries_extend] at hmem
    by_cases hdomain : domain = other
    · subst hdomain
      rw [if_pos rfl, List.mem_cons] at hmem
      rcases hmem with rfl | hmem
      · exact List.mem_append_right _ (List.mem_singleton.2 rfl)
      · exact List.mem_append_left _ (hsound.recorded domain entry hmem)
    · rw [if_neg hdomain] at hmem
      exact List.mem_append_left _ (hsound.recorded other entry hmem)

/-- It is sound behind a declaration. -/
theorem declare (domain : Domain) (name : String) (type : ValueType) :
    (ledger.step (.declare domain name type)).Sound := by
  cases hfound : (ledger.bindings.frame domain).find? name with
  | some found =>
      rw [step_declare_of_repeat hfound]
      exact hsound.untaken fun other => by simp [Answer.taken?]
  | none =>
      by_cases hfull : slotsPerBank ≤
          (ledger.bindings.counters domain).count (ledger.bindings.frame domain).bank
      · rw [step_declare_of_full hfound hfull]
        exact hsound.untaken fun other => by simp [Answer.taken?, Except.toOption]
      · obtain ⟨later, hallocate, hdeclare⟩ :=
          step_declare_of_room hfound (Nat.lt_of_not_le hfull) type
        rw [hdeclare]
        exact hsound.taken hallocate name type

/-- It is sound behind a new type. -/
theorem retype (domain : Domain) (name : String) (type : ValueType) :
    (ledger.step (.retype domain name type)).Sound := by
  refine hsound.unanswered rfl (ledger.bindings.counters_retype domain · name type) fun other => ?_
  simp only [Move.apply, Bindings.entries_retype]
  split
  · rw [Table.map_change]
    intro key value
    rfl
  · exact List.Sublist.refl _

/-- Every move keeps a ledger sound. -/
theorem step (move : Move) : (ledger.step move).Sound := by
  cases move with
  | enter =>
      refine hsound.unanswered rfl ledger.bindings.counters_enter fun domain => ?_
      rw [Move.apply, Bindings.entries_enter]
  | leave =>
      exact hsound.unanswered rfl ledger.bindings.counters_leave fun domain =>
        (ledger.bindings.entries_leave_sublist domain).map _
  | declare domain name type => exact hsound.declare domain name type
  | useBank domain bank =>
      refine hsound.unanswered rfl (ledger.bindings.counters_useBank domain · bank) fun other => ?_
      rw [Move.apply, Bindings.entries_useBank]
  | retype domain name type => exact hsound.retype domain name type

end Steps

/-- So does every list of moves. -/
theorem foldl_step (hsound : ledger.Sound) (moves : List Move) :
    (moves.foldl Ledger.step ledger).Sound := by
  induction moves generalizing ledger with
  | nil => exact hsound
  | cons move rest ih => exact ih (hsound.step move)

end Sound
end Ledger

/-- Whatever is done to storage: no slot is given out twice, the numbers given out in a bank are
0, 1, 2 and so on in this order and stay below the number of slots, and all variables, hidden ones
included, are in slots of their own.  The next declaration of a name that is in its frame answers
with the old slot and changes nothing.  That of another name fails without changing anything if all
slots of the bank have been given out, and otherwise takes the next one. -/
theorem slots_issued_once (constants : Table Typed) (operations : List Operation)
    (domain : Domain) :
    let ledger := Operation.performAll Ledger.step (.start constants) operations
    let counters := ledger.bindings.counters domain
    (ledger.issued domain).Nodup ∧
      (∀ bank, ledger.indices domain bank = List.range (counters.count bank)) ∧
      (∀ bank, counters.count bank ≤ 1000) ∧
      (∀ slot ∈ ledger.issued domain, slot.index < 1000) ∧
      ((ledger.bindings.entries domain).map (·.2.slot)).Nodup ∧
      (∀ entry ∈ ledger.bindings.entries domain,
        ⟨domain, entry.1, false, .ok entry.2.slot⟩ ∈ ledger.answers) ∧
      ∀ name type,
        let frame := ledger.bindings.frame domain
        let next := ledger.step (.declare domain name type)
        (∀ found, frame.find? name = some found →
          next = ⟨ledger.bindings, ledger.answers ++ [⟨domain, name, true, .ok found.slot⟩]⟩) ∧
        (frame.find? name = none → counters.count frame.bank = 1000 →
          next = ⟨ledger.bindings,
            ledger.answers ++ [⟨domain, name, false, .error (.bankFull frame.bank)⟩]⟩) ∧
        (frame.find? name = none → counters.count frame.bank ≠ 1000 →
          let slot : Slot := ⟨frame.bank, counters.count frame.bank⟩
          ∃ later, next = ⟨ledger.bindings.extend domain name ⟨slot, type⟩ later,
            ledger.answers ++ [⟨domain, name, false, .ok slot⟩]⟩) := by
  intro ledger counters
  have hsound : ledger.Sound := by
    rw [show ledger = _ from Operation.performAll_eq_foldl Ledger.step _ operations]
    exact (Ledger.Sound.start constants).foldl_step _
  refine ⟨hsound.nodup_issued domain, hsound.inOrder domain, hsound.bounded domain, ?_,
    hsound.distinct domain, hsound.recorded domain, ?_⟩
  · intro slot hmem
    exact Nat.lt_of_lt_of_le (hsound.index_lt hmem) (hsound.bounded domain slot.bank)
  · intro name type frame next
    refine ⟨?_, ?_, ?_⟩
    · intro found hfound
      exact Ledger.step_declare_of_repeat hfound type
    · intro hnew hfull
      exact Ledger.step_declare_of_full hnew (Nat.le_of_eq hfull.symm) type
    · intro hnew hroom
      have hlt := Nat.lt_of_le_of_ne (hsound.bounded domain frame.bank) hroom
      obtain ⟨later, _, hdeclare⟩ := Ledger.step_declare_of_room hnew hlt type
      exact ⟨later, hdeclare⟩

end Workshop

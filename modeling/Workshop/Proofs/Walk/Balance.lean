import Workshop.Proofs.Walk.Steps

/-!
# Scopes are balanced

Compiling leaves every scope that it enters, and it takes no name out of a
scope and moves no variable to another slot.  So after a rule or a block the
open scopes are laid out as before, also if there was a failure somewhere
inside.  Only the innermost scope can get new names or another bank from a
single statement.

Main definitions:

- `Frame.layout`: what is in which slot of a frame, whatever its type.
- `Bindings.Keeps`: nothing that was there is lost.

Main results:

- Theorem `Steps.keeps`: no step loses anything.
- Theorems `Catalog.layouts_rule` and `Catalog.layouts_block`: a rule and a
  block leave all open scopes as they are.
- Theorem `compile_keeps_scopes`: this, and what single statements and whole
  sessions keep.
-/

namespace Workshop

/-! ## Layouts -/

/-- What is in which slot, and the bank for new variables. -/
structure Layout where
  slotOf? : String → Option Slot
  bank : Bank

/-- The layout of a frame.  It does not show the types of variables. -/
def Frame.layout (frame : Frame) : Layout :=
  ⟨fun name => (frame.find? name).map Variable.slot, frame.bank⟩

/-- The layouts of all open scopes, from the inside out. -/
def ScopeStack.layouts (scopes : ScopeStack) : List Layout :=
  scopes.frames.map Frame.layout

/-- Fixing the type of a variable does not move it. -/
theorem Frame.layout_retype (frame : Frame) (name : String) (type : ValueType) :
    (frame.retype name type).layout = frame.layout := by
  have hslot (other : String) : ((frame.retype name type).find? other).map Variable.slot =
      (frame.find? other).map Variable.slot := by
    unfold find? retype
    rw [Table.find?_modify]
    split
    · rw [Option.map_map]
      rfl
    · rfl
  simp only [layout, hslot]
  rfl

namespace ScopeStack

/-- New types keep the layouts. -/
theorem map_layout_retypeIn (name : String) (type : ValueType) (frames : List Frame) :
    (retypeIn name type frames).map Frame.layout = frames.map Frame.layout := by
  induction frames with
  | nil => rfl
  | cons frame rest ih =>
      simp only [retypeIn]
      split
      · rw [List.map_cons, Frame.layout_retype, List.map_cons]
      · rw [List.map_cons, ih, List.map_cons]

/-- What compiling keeps of open scopes: all scopes but the innermost are laid out as before, the
innermost one still has all its variables, and no slot that was given out is free again. -/
structure Keeps (scopes later : ScopeStack) : Prop where
  inner : ∀ name slot, scopes.inner.layout.slotOf? name = some slot →
    later.inner.layout.slotOf? name = some slot
  outer : later.outer.map Frame.layout = scopes.outer.map Frame.layout
  slots : ∀ bank, scopes.slots.count bank ≤ later.slots.count bank

namespace Keeps

variable {scopes later : ScopeStack}

/-- Scopes keep themselves. -/
theorem refl (scopes : ScopeStack) : scopes.Keeps scopes where
  inner _ _ hslot := hslot
  outer := rfl
  slots _ := Nat.le_refl _

/-- What is kept twice is kept. -/
theorem trans {last : ScopeStack} (hfirst : scopes.Keeps later) (hsecond : later.Keeps last) :
    scopes.Keeps last where
  inner name slot hslot := hsecond.inner name slot (hfirst.inner name slot hslot)
  outer := hsecond.outer.trans hfirst.outer
  slots bank := Nat.le_trans (hfirst.slots bank) (hsecond.slots bank)

/-- Scopes that are laid out as before have kept everything. -/
theorem of_layouts (hlayouts : later.layouts = scopes.layouts)
    (hslots : ∀ bank, scopes.slots.count bank ≤ later.slots.count bank) :
    scopes.Keeps later := by
  simp only [layouts, frames, List.map_cons, List.cons.injEq] at hlayouts
  refine ⟨?_, hlayouts.2, hslots⟩
  intro name slot hslot
  rw [hlayouts.1]
  exact hslot

/-- Kept scopes have the same depth. -/
theorem depth (hkeeps : scopes.Keeps later) : later.depth = scopes.depth := by
  have hlength := congrArg List.length hkeeps.outer
  rw [List.length_map, List.length_map] at hlength
  rw [ScopeStack.depth, hlength, ScopeStack.depth]

/-- When an inner scope is closed, the scopes around it are laid out as they were before it was
opened. -/
theorem layouts_leave (hkeeps : scopes.enter.Keeps later) :
    later.leave.layouts = scopes.layouts := by
  have houter : later.outer.map Frame.layout = scopes.layouts := hkeeps.outer
  cases hcases : later.outer with
  | nil =>
      rw [hcases] at houter
      cases houter
  | cons frame outer =>
      have hleave : later.leave = { later with inner := frame, outer := outer } := by
        rw [leave, hcases]
      rw [← houter, hcases, hleave]
      rfl

/-- Leaving a scope keeps the outer ones. -/
theorem leave (hkeeps : scopes.enter.Keeps later) : scopes.Keeps later.leave := by
  refine of_layouts hkeeps.layouts_leave ?_
  intro bank
  rw [slots_leave]
  exact hkeeps.slots bank

/-- New types keep the scopes. -/
theorem retype (scopes : ScopeStack) (name : String) (type : ValueType) :
    scopes.Keeps (scopes.retype name type) := by
  refine of_layouts ?_ ?_
  · rw [layouts, frames_retype, map_layout_retypeIn]
    rfl
  · intro bank
    exact Nat.le_of_eq (by rw [slots_retype])

/-- Another bank keeps the scopes. -/
theorem useBank (scopes : ScopeStack) (bank : Bank) : scopes.Keeps (scopes.useBank bank) where
  inner _ _ hslot := hslot
  outer := rfl
  slots _ := Nat.le_refl _

end Keeps
end ScopeStack

/-! ## Nothing is lost -/

/-- A later session still has all constants, with their types and texts, and all variables of
players in their slots. -/
structure Session.Keeps (session later : Session) : Prop where
  constants : ∀ name value, session.constants.find? name = some value →
    later.constants.find? name = some value
  players : ∀ name slot, session.players.frame.layout.slotOf? name = some slot →
    later.players.frame.layout.slotOf? name = some slot
  slots : ∀ bank, session.players.slots.count bank ≤ later.players.slots.count bank

/-- Sessions keep themselves. -/
theorem Session.Keeps.refl (session : Session) : session.Keeps session where
  constants _ _ hvalue := hvalue
  players _ _ hslot := hslot
  slots _ := Nat.le_refl _

/-- What is kept twice is kept. -/
theorem Session.Keeps.trans {session later last : Session} (hfirst : session.Keeps later)
    (hsecond : later.Keeps last) : session.Keeps last where
  constants name value hvalue := hsecond.constants name value (hfirst.constants name value hvalue)
  players name slot hslot := hsecond.players name slot (hfirst.players name slot hslot)
  slots bank := Nat.le_trans (hfirst.slots bank) (hsecond.slots bank)

/-- Later bindings have kept the open scopes, and all that lives on from one program to the
next. -/
structure Bindings.Keeps (bindings later : Bindings) : Prop where
  globals : bindings.globals.Keeps later.globals
  session : (Session.ofBindings bindings).Keeps (.ofBindings later)

namespace Bindings.Keeps

variable {bindings later : Bindings} {name other : String} {slot : Slot}

/-- Bindings keep themselves. -/
theorem refl (bindings : Bindings) : bindings.Keeps bindings :=
  ⟨.refl _, .refl _⟩

/-- What is kept twice is kept. -/
theorem trans {last : Bindings} (hfirst : bindings.Keeps later) (hsecond : later.Keeps last) :
    bindings.Keeps last :=
  ⟨hfirst.globals.trans hsecond.globals, hfirst.session.trans hsecond.session⟩

/-- Leaving a scope keeps the outer bindings. -/
theorem leave (hkeeps : bindings.enter.Keeps later) : bindings.Keeps later.leave :=
  ⟨hkeeps.globals.leave, hkeeps.session⟩

/-- New types keep the bindings. -/
theorem retype (bindings : Bindings) (domain : Domain) (name : String) (type : ValueType) :
    bindings.Keeps (bindings.retype domain name type) := by
  cases domain with
  | global => exact ⟨.retype _ name type, .refl _⟩
  | player =>
      refine ⟨.refl _, fun _ _ hvalue => hvalue, ?_, fun _ => Nat.le_refl _⟩
      intro other slot hslot
      have hlayout := bindings.players.frame.layout_retype name type
      exact hlayout ▸ hslot

/-- Another bank keeps the bindings. -/
theorem useBank (bindings : Bindings) (domain : Domain) (bank : Bank) :
    bindings.Keeps (bindings.useBank domain bank) := by
  cases domain with
  | global => exact ⟨.useBank _ bank, .refl _⟩
  | player =>
      exact ⟨.refl _, fun _ _ hvalue => hvalue, fun _ _ hslot => hslot, fun _ => Nat.le_refl _⟩

/-- An entry under a new name hides no other entry. -/
theorem find?_insert_of_find?_none {α : Type} {table : Table α} {entry present : α}
    (hnew : table.find? name = none) (hpresent : table.find? other = some present) :
    (table.insert name entry).find? other = some present := by
  rw [Table.find?_insert, if_neg]
  · exact hpresent
  · rintro rfl
    rw [hnew] at hpresent
    cases hpresent

/-- A new name hides no other. -/
theorem slotOf?_insert {frame : Frame} {added : Variable} (hnew : frame.find? name = none)
    (hslot : frame.layout.slotOf? other = some slot) :
    ({ frame with table := frame.table.insert name added } : Frame).layout.slotOf? other =
      some slot := by
  obtain ⟨found, hfound, rfl⟩ := Option.map_eq_some_iff.1 hslot
  exact Option.map_eq_some_iff.2 ⟨found, find?_insert_of_find?_none hnew hfound, rfl⟩

/-- Counters never go down. -/
theorem count_le_of_allocate {counters counters' : SlotCounters} {bank : Bank}
    (hallocate : counters.allocate bank = .ok (slot, counters')) (other : Bank) :
    counters.count other ≤ counters'.count other := by
  rw [SlotCounters.count_of_allocate hallocate]
  exact Nat.le_add_right _ _

/-- Declarations keep the bindings. -/
theorem declare {domain : Domain} {type : ValueType} (hnew : bindings.find? domain name = none)
    (hdeclare : bindings.declare domain name type = .ok (slot, later)) : bindings.Keeps later := by
  have hframe := find?_frame_of_find?_none hnew
  obtain ⟨counters, hallocate, rfl⟩ := declare_of_find?_none hnew hdeclare
  cases domain with
  | global =>
      exact ⟨⟨fun _ _ hslot => slotOf?_insert hframe hslot, rfl, count_le_of_allocate hallocate⟩,
        .refl _⟩
  | player =>
      exact ⟨.refl _, fun _ _ hvalue => hvalue, fun _ _ hslot => slotOf?_insert hframe hslot,
        count_le_of_allocate hallocate⟩

/-- Constants keep the bindings. -/
theorem define (value : Typed) (hnew : bindings.constants.find? name = none) :
    bindings.Keeps { bindings with constants := bindings.constants.insert name value } :=
  ⟨.refl _, fun _ _ hvalue => find?_insert_of_find?_none hnew hvalue, fun _ _ hslot => hslot,
    fun _ => Nat.le_refl _⟩

end Bindings.Keeps

/-- No step loses anything. -/
theorem Steps.keeps {catalog : Catalog} {place : Place} {bindings later : Bindings}
    (hsteps : Steps catalog place bindings later) : bindings.Keeps later := by
  induction hsteps with
  | done place bindings => exact .refl bindings
  | andThen _ _ ihfirst ihsecond => exact ihfirst.trans ihsecond
  | declare hfree _ hdeclare => exact .declare (Catalog.isTaken_eq_false.1 hfree).2.2 hdeclare
  | settle _ _ _ _ ih => exact ih.trans (.retype _ _ _ _)
  | useBank place bindings domain bank => exact .useBank bindings domain bank
  | define hfree _ => exact .define _ (Catalog.isTaken_eq_false.1 hfree).2.1
  | inScope _ ih => exact ih.leave

/-! ## Balance -/

/-- A rule leaves all open scopes laid out as they were, wherever it fails. -/
theorem Catalog.layouts_rule (catalog : Catalog) (name event : String)
    (conditions : Option (List Node)) (actions : List Node) (state : CompileState) :
    ((catalog.rule name event conditions actions).after state).bindings.globals.layouts =
      state.bindings.globals.layouts := by
  rcases rule_scope name event conditions actions state with hsame | ⟨inner, hsteps, hleave⟩
  · rw [hsame]
  · rw [hleave]
    exact hsteps.keeps.globals.layouts_leave

/-- So does a block. -/
theorem Catalog.layouts_block (catalog : Catalog) (statements : List Node) (state : CompileState) :
    ((catalog.action (.block statements)).after state).bindings.globals.layouts =
      state.bindings.globals.layouts := by
  rw [action, Compile.after_inScope]
  have hsteps : MakesSteps catalog .action (catalog.actionList statements) state.enter :=
    actionList_steps statements state.enter
  exact (Steps.keeps hsteps).globals.layouts_leave

/-- Programs lose no constant and no variable of a player, however many of them fail. -/
theorem Session.keeps_compileAll (session : Session) (catalog : Catalog) (programs : List Node) :
    session.Keeps (session.compileAll catalog programs) := by
  induction programs generalizing session with
  | nil => exact .refl session
  | cons node rest ih =>
      obtain ⟨final, hsteps, hsession⟩ := session.bindings_steps catalog node
      have hfirst : session.Keeps (session.compile catalog node).session := by
        rw [hsession]
        exact hsteps.keeps.session
      exact hfirst.trans (ih _)

/-- Scopes are balanced, and nothing is lost, whether compiling succeeds or fails.  After a rule or
a block there are as many open scopes as before, and each of them has the same names in the same
slots and the same bank.  After any single statement this holds of all scopes but the innermost,
which may have got new names or another bank.  No counter of slots goes down.  Over any programs
of a session, constants keep their types and texts, and variables of players keep their slots. -/
theorem compile_keeps_scopes (catalog : Catalog) :
    (∀ name event conditions actions state,
      let later := ((catalog.rule name event conditions actions).after state).bindings
      later.globals.layouts = state.bindings.globals.layouts ∧
        later.globals.depth = state.bindings.globals.depth ∧ state.bindings.Keeps later) ∧
    (∀ statements state,
      let later := ((catalog.action (.block statements)).after state).bindings
      later.globals.layouts = state.bindings.globals.layouts ∧
        later.globals.depth = state.bindings.globals.depth ∧ state.bindings.Keeps later) ∧
    (∀ node state,
      let later := ((catalog.action node).after state).bindings
      later.globals.depth = state.bindings.globals.depth ∧ state.bindings.Keeps later) ∧
    (∀ node state,
      let later := ((catalog.topLevel node).after state).bindings
      later.globals.depth = state.bindings.globals.depth ∧ state.bindings.Keeps later) ∧
    ∀ (session : Session) (programs : List Node),
      session.Keeps (session.compileAll catalog programs) := by
  have hsteps (place : Place) {bindings later : Bindings}
      (hsteps : Steps catalog place bindings later) :
      later.globals.depth = bindings.globals.depth ∧ bindings.Keeps later :=
    ⟨hsteps.keeps.globals.depth, hsteps.keeps⟩
  refine ⟨?rules, ?blocks, ?actions, ?statements, ?sessions⟩
  case rules =>
    intro name event conditions actions state
    exact ⟨catalog.layouts_rule name event conditions actions state,
      hsteps .topLevel (Catalog.rule_steps name event conditions actions state)⟩
  case blocks =>
    intro statements state
    exact ⟨catalog.layouts_block statements state,
      hsteps .action (Catalog.action_steps (.block statements) state)⟩
  case actions => exact fun node state => hsteps .action (Catalog.action_steps node state)
  case statements => exact fun node state => hsteps .topLevel (Catalog.topLevel_steps node state)
  case sessions => exact fun session programs => session.keeps_compileAll catalog programs

end Workshop

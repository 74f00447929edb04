import Mathlib.Data.List.Induction
import Mathlib.Data.List.Infix
import Workshop.Proofs.Moves
import Workshop.Proofs.Walk.Balance

/-!
# Leaving a scope restores the view of names

Work in a scope of its own may open and close more scopes, declare variables,
select banks and fix types.  As long as it closes only what it has opened, the
scopes around it are laid out afterwards as before, and names have their old
slots again, also those that were hidden for a while.  The type of a name can
be another one only if it was fixed while no scope inside hid the name.

During such work the frames of a stack are those above and those that were
there before.  The proof follows both parts through the moves one by one.

Main definitions:

- `Balanced`: moves that close only what they have opened, and all of it.
- `Bindings.FixedInSight`: a type was fixed while the name was not hidden.
- `Inside`: the frames during work in a scope.

Main results:

- Theorem `Inside.step`: what a single move keeps.
- Theorem `scoped_restores_view`: what operations in a scope of their own leave
  behind.
-/

namespace Workshop

/-- A new type changes one variable. -/
theorem Frame.find?_retype (frame : Frame) (name other : String) (type : ValueType) :
    (frame.retype name type).find? other =
      if name = other then (frame.find? other).map fun found => { found with type := type }
      else frame.find? other :=
  Table.find?_modify frame.table name other _

namespace ScopeStack

/-! ## Names in a list of frames -/

/-- The variable with a name in the first of the frames that has one. -/
def findIn (name : String) (frames : List Frame) : Option Variable :=
  (frames.find? (·.contains name)).bind (·.find? name)

variable {frames : List Frame} {name : String}

/-- Inner scopes come first. -/
theorem findIn_cons (name : String) (frame : Frame) (rest : List Frame) :
    findIn name (frame :: rest) = (frame.find? name).or (findIn name rest) := by
  unfold findIn
  rw [List.find?_cons, Frame.contains]
  cases hfound : frame.find? name with
  | none => rfl
  | some found => exact hfound

/-- Slots can be read off from the layouts of frames. -/
theorem slot_findIn_of_layouts {later : List Frame}
    (hlayouts : later.map Frame.layout = frames.map Frame.layout) (name : String) :
    (findIn name later).map Variable.slot = (findIn name frames).map Variable.slot := by
  induction frames generalizing later with
  | nil =>
      rw [List.map_eq_nil_iff.1 hlayouts]
  | cons frame rest ih =>
      obtain ⟨frame', rest', rfl, hframe, hrest⟩ := List.map_eq_cons_iff.1 hlayouts
      have hslot : (frame'.find? name).map Variable.slot = (frame.find? name).map Variable.slot :=
        congrFun (congrArg Layout.slotOf? hframe) name
      rw [findIn_cons, findIn_cons, Option.map_or, Option.map_or, hslot, ih hrest]

/-! ## Fixing types in a list of frames -/

/-- New types keep the depth. -/
theorem length_retypeIn (name : String) (type : ValueType) (frames : List Frame) :
    (retypeIn name type frames).length = frames.length := by
  have hlength := congrArg List.length (map_layout_retypeIn name type frames)
  rwa [List.length_map, List.length_map] at hlength

/-- A new type passes scopes without the name. -/
theorem retypeIn_of_forall_not_contains (hfree : ∀ frame ∈ frames, frame.contains name = false)
    (type : ValueType) (others : List Frame) :
    retypeIn name type (frames ++ others) = frames ++ retypeIn name type others := by
  induction frames with
  | nil => rfl
  | cons frame rest ih =>
      rw [List.forall_mem_cons] at hfree
      rw [List.cons_append, retypeIn, hfree.1, ih hfree.2]
      rfl

/-- A new type stops at the first scope with the name. -/
theorem retypeIn_of_contains (hpresent : ∃ frame ∈ frames, frame.contains name = true)
    (type : ValueType) (others : List Frame) :
    retypeIn name type (frames ++ others) = retypeIn name type frames ++ others := by
  induction frames with
  | nil =>
      obtain ⟨frame, hmem, _⟩ := hpresent
      cases hmem
  | cons frame rest ih =>
      rw [List.cons_append, retypeIn, retypeIn]
      split
      · rfl
      · rename_i hframe
        obtain ⟨present, hmem, hcontains⟩ := hpresent
        rcases List.mem_cons.1 hmem with rfl | hmem
        · exact absurd hcontains hframe
        · rw [ih ⟨present, hmem, hcontains⟩]
          rfl

/-- Fixing the type of one name says nothing about the others. -/
theorem findIn_retypeIn_of_ne {other : String} (hother : name ≠ other) (type : ValueType)
    (frames : List Frame) : findIn other (retypeIn name type frames) = findIn other frames := by
  induction frames with
  | nil => rfl
  | cons frame rest ih =>
      rw [retypeIn]
      split
      · rw [findIn_cons, findIn_cons, Frame.find?_retype, if_neg hother]
      · rw [findIn_cons, findIn_cons, ih]

theorem length_frames (scopes : ScopeStack) : scopes.frames.length = scopes.depth := rfl

/-- Where a scope is open inside the last one, leaving it leaves the others. -/
theorem frames_leave {scopes : ScopeStack} (houter : scopes.outer ≠ []) :
    scopes.leave.frames = scopes.outer := by
  obtain ⟨inner, outer, slots⟩ := scopes
  cases outer with
  | nil => exact absurd rfl houter
  | cons frame outer => rfl

/-- The frames of a stack that are not frames of the stack from which it was reached. -/
def above (now scopes : ScopeStack) : List Frame :=
  now.frames.take (now.depth - scopes.depth)

end ScopeStack

open ScopeStack

/-! ## Balanced moves -/

/-- Moves close only scopes that they have opened, and in the end all of these. -/
structure Balanced (moves : List Move) : Prop where
  within : ∀ first, first <+: moves → first.count .leave ≤ first.count .enter
  total : moves.count .leave = moves.count .enter

/-- How often a move is made. -/
theorem count_concat (moves : List Move) (move counted : Move) :
    (moves ++ [move]).count counted = moves.count counted + if move = counted then 1 else 0 := by
  rw [List.count_append, List.count_singleton]
  simp only [beq_iff_eq]

/-- Among the moves made in a scope there is one that fixed the type of a name while no frame
inside hid the name. -/
def Bindings.FixedInSight (bindings : Bindings) (moves : List Move) (name : String) : Prop :=
  ∃ first type rest, moves = first ++ .retype .global name type :: rest ∧
    ∀ frame ∈ (bindings.enter.run first).globals.above bindings.globals,
      frame.contains name = false

/-- What is fixed stays fixed. -/
theorem Bindings.FixedInSight.append {bindings : Bindings} {moves : List Move} {name : String}
    (hfixed : bindings.FixedInSight moves name) (more : List Move) :
    bindings.FixedInSight (moves ++ more) name := by
  obtain ⟨first, type, rest, rfl, hsight⟩ := hfixed
  exact ⟨first, type, rest ++ more, by simp, hsight⟩

/-! ## Frames during the work -/

/-- Storage during work in a scope: some frames above, and those that were there before, laid out as
they were. -/
structure Inside (bindings : Bindings) (moves : List Move) (upper lower : List Frame) : Prop where
  frames : (bindings.enter.run moves).globals.frames = upper ++ lower
  opened : upper.length + moves.count .leave = moves.count .enter + 1
  layouts : lower.map Frame.layout = bindings.globals.layouts
  types : ∀ name, (findIn name lower).map Variable.type ≠
    (bindings.globals.find? name).map Variable.type → bindings.FixedInSight moves name

/-- A declaration changes the innermost frame only. -/
theorem outer_declare (bindings : Bindings) (domain : Domain) (name : String) (type : ValueType) :
    (Move.apply bindings (.declare domain name type)).globals.outer = bindings.globals.outer := by
  cases hdeclare : bindings.declare domain name type with
  | error error => simp only [Move.apply, hdeclare]
  | ok result =>
      simp only [Move.apply, hdeclare]
      cases domain with
      | player => rw [(Bindings.declare_eq_ok hdeclare).2.2 rfl]
      | global =>
          obtain ⟨⟨_, _⟩, hglobals, hresult⟩ := Except.bind_eq_ok.1 hdeclare
          obtain ⟨⟨_, _, _⟩, _, hinner⟩ := Except.bind_eq_ok.1 hglobals
          cases hinner
          cases hresult
          rfl

namespace Inside

variable {bindings : Bindings} {moves : List Move} {upper lower : List Frame}

/-- The frame of the new scope stands above the others. -/
theorem start (bindings : Bindings) :
    Inside bindings [] [Frame.empty bindings.globals.inner.bank] bindings.globals.frames where
  frames := rfl
  opened := rfl
  layouts := rfl
  types _ hdiffers := absurd rfl hdiffers

variable (hinside : Inside bindings moves upper lower)

include hinside

/-- The scopes above are the upper ones. -/
theorem above_eq : (bindings.enter.run moves).globals.above bindings.globals = upper := by
  have hlength : lower.length = bindings.globals.depth := by
    have hlength := congrArg List.length hinside.layouts
    rwa [List.length_map, ScopeStack.layouts, List.length_map, length_frames] at hlength
  rw [above, ← length_frames, hinside.frames, List.length_append, hlength,
    Nat.add_sub_cancel_right, List.take_left]

/-- A move that changes the frames above only. -/
theorem above_only {move : Move} {upper' : List Frame}
    (hframes : (Move.apply (bindings.enter.run moves) move).globals.frames = upper' ++ lower)
    (hopened : upper'.length + (moves ++ [move]).count .leave =
      (moves ++ [move]).count .enter + 1) :
    Inside bindings (moves ++ [move]) upper' lower where
  frames := by
    rw [Bindings.run_concat]
    exact hframes
  opened := hopened
  layouts := hinside.layouts
  types name hdiffers := (hinside.types name hdiffers).append [move]

/-- A move that changes the innermost frame only. -/
theorem innermost_only (hupper : upper ≠ []) {move : Move} (hleave : move ≠ .leave)
    (henter : move ≠ .enter)
    (houter : (Move.apply (bindings.enter.run moves) move).globals.outer =
      (bindings.enter.run moves).globals.outer) :
    ∃ upper', Inside bindings (moves ++ [move]) upper' lower := by
  obtain ⟨frame, rest, rfl⟩ := List.exists_cons_of_ne_nil hupper
  have hrest : (bindings.enter.run moves).globals.outer = rest ++ lower :=
    (List.cons.inj hinside.frames).2
  refine ⟨(Move.apply (bindings.enter.run moves) move).globals.inner :: rest,
    hinside.above_only ?_ ?_⟩
  · rw [ScopeStack.frames, houter, hrest]
    rfl
  · rw [count_concat, count_concat, if_neg hleave, if_neg henter]
    exact hinside.opened

/-- One more scope above. -/
theorem enter : ∃ upper', Inside bindings (moves ++ [.enter]) upper' lower := by
  refine ⟨Frame.empty (bindings.enter.run moves).globals.inner.bank :: upper,
    hinside.above_only ?_ ?_⟩
  · rw [List.cons_append, ← hinside.frames]
    rfl
  · have hopened := hinside.opened
    rw [count_concat, count_concat, if_neg (by simp), if_pos rfl, List.length_cons]
    omega

/-- One scope less above. -/
theorem leave (hupper : upper ≠ [])
    (hcount : (moves ++ [Move.leave]).count .leave ≤ (moves ++ [Move.leave]).count .enter) :
    ∃ upper', Inside bindings (moves ++ [.leave]) upper' lower := by
  rw [count_concat, count_concat, if_pos rfl, if_neg (by simp)] at hcount
  have hopened := hinside.opened
  obtain ⟨frame, rest, rfl⟩ := List.exists_cons_of_ne_nil hupper
  rw [List.length_cons] at hopened
  have houter : (bindings.enter.run moves).globals.outer = rest ++ lower :=
    (List.cons.inj hinside.frames).2
  refine ⟨rest, hinside.above_only ?_ ?_⟩
  · -- The moves close no scope but their own, so the frame above is not the last one.
    have hrest : rest ≠ [] := List.ne_nil_of_length_pos (by omega)
    rw [Move.apply, Bindings.leave, frames_leave (by simp [houter, hrest]), houter]
  · rw [count_concat, count_concat, if_pos rfl, if_neg (by simp)]
    omega

/-- A new type above or below. -/
theorem retype (name : String) (type : ValueType) :
    ∃ upper' lower', Inside bindings (moves ++ [.retype .global name type]) upper' lower' := by
  have hopened (above : List Frame) (hlength : above.length = upper.length) :
      above.length + (moves ++ [Move.retype .global name type]).count .leave =
        (moves ++ [Move.retype .global name type]).count .enter + 1 := by
    rw [count_concat, count_concat, if_neg (by simp), if_neg (by simp), hlength]
    exact hinside.opened
  have hframes :
      (Move.apply (bindings.enter.run moves) (.retype .global name type)).globals.frames =
        retypeIn name type (upper ++ lower) := by
    rw [← hinside.frames]
    exact frames_retype _ name type
  by_cases hpresent : ∃ frame ∈ upper, frame.contains name = true
  · -- The name is hidden, and the frames below do not change.
    refine ⟨retypeIn name type upper, lower, hinside.above_only ?_ ?_⟩
    · rw [hframes, retypeIn_of_contains hpresent]
    · exact hopened _ (length_retypeIn name type upper)
  · have hfree : ∀ frame ∈ upper, frame.contains name = false := by simpa using hpresent
    refine ⟨upper, retypeIn name type lower, ?_, hopened upper rfl, ?_, ?_⟩
    · rw [Bindings.run_concat, ← retypeIn_of_forall_not_contains hfree]
      exact hframes
    · rw [map_layout_retypeIn]
      exact hinside.layouts
    · intro other hdiffers
      by_cases hother : name = other
      · subst hother
        refine ⟨moves, type, [], rfl, ?_⟩
        rw [hinside.above_eq]
        exact hfree
      · rw [findIn_retypeIn_of_ne hother] at hdiffers
        exact (hinside.types other hdiffers).append _

/-- Every move that closes no scope from before the work keeps the frames from before. -/
theorem step (move : Move)
    (hcount : ∀ first, first <+: moves ++ [move] → first.count .leave ≤ first.count .enter) :
    ∃ upper' lower', Inside bindings (moves ++ [move]) upper' lower' := by
  have hupper : upper ≠ [] := by
    rintro rfl
    have hopened := hinside.opened
    have hbefore := hcount moves (List.prefix_append _ _)
    rw [List.length_nil] at hopened
    omega
  cases move with
  | enter => exact hinside.enter.imp fun _ h => ⟨lower, h⟩
  | leave => exact (hinside.leave hupper (hcount _ List.prefix_rfl)).imp fun _ h => ⟨lower, h⟩
  | declare domain name type =>
      exact (hinside.innermost_only hupper (by simp) (by simp)
        (outer_declare _ domain name type)).imp fun _ h => ⟨lower, h⟩
  | useBank domain bank =>
      refine (hinside.innermost_only hupper (by simp) (by simp) ?_).imp fun _ h => ⟨lower, h⟩
      cases domain <;> rfl
  | retype domain name type =>
      cases domain with
      | global => exact hinside.retype name type
      | player =>
          exact (hinside.innermost_only hupper (by simp) (by simp) rfl).imp fun _ h => ⟨lower, h⟩

omit hinside in
/-- The frames from before are kept by all moves that close only what they have opened. -/
theorem of_within (bindings : Bindings) (moves : List Move)
    (hwithin : ∀ first, first <+: moves → first.count .leave ≤ first.count .enter) :
    ∃ upper lower, Inside bindings moves upper lower := by
  induction moves using List.reverseRecOn with
  | nil => exact ⟨_, _, start bindings⟩
  | append_singleton moves move ih =>
      obtain ⟨_, _, hinside⟩ :=
        ih fun first hfirst => hwithin first (hfirst.trans (List.prefix_append _ _))
      exact hinside.step move hwithin

/-- When the work is done and its scope is closed, only the frames from before are left. -/
theorem frames_after (htotal : moves.count .leave = moves.count .enter) :
    (bindings.enter.run moves).leave.globals.frames = lower := by
  have hopened := hinside.opened
  obtain ⟨frame, rfl⟩ := List.length_eq_one_iff.1 (show upper.length = 1 by omega)
  have houter : (bindings.enter.run moves).globals.outer = lower :=
    (List.cons.inj hinside.frames).2
  have hlower : lower ≠ [] := by
    rintro rfl
    cases hinside.layouts
  rw [Bindings.leave, frames_leave (by rwa [houter]), houter]

end Inside

/-! ## The frame of a name -/

namespace ScopeStack

/-- The frames of a stack, divided at the innermost one that has a variable of a name. -/
structure InnermostAt (scopes : ScopeStack) (name : String) (inside : List Frame) (frame : Frame)
    (around : List Frame) : Prop where
  frames : scopes.frames = inside ++ frame :: around
  inside_free : ∀ other ∈ inside, other.contains name = false
  contains : frame.contains name = true

/-- A name is in no frame, or there is an innermost one. -/
theorem exists_innermostAt (scopes : ScopeStack) (name : String) :
    (∀ frame ∈ scopes.frames, frame.contains name = false) ∨
      ∃ inside frame around, scopes.InnermostAt name inside frame around := by
  cases hframe : scopes.frames.find? (·.contains name) with
  | none =>
      left
      simpa using hframe
  | some frame =>
      obtain ⟨hcontains, inside, around, hframes, hinside⟩ := List.find?_eq_some_iff_append.1 hframe
      exact .inr ⟨inside, frame, around, hframes, by simpa using hinside, hcontains⟩

/-- A name that is unknown changes no type. -/
theorem retype_of_forall_not_contains {scopes : ScopeStack} {name : String}
    (hfree : ∀ frame ∈ scopes.frames, frame.contains name = false) (type : ValueType) :
    scopes.retype name type = scopes := by
  rw [frames, List.forall_mem_cons] at hfree
  have houter := retypeIn_of_forall_not_contains hfree.2 type []
  rw [List.append_nil, retypeIn, List.append_nil] at houter
  rw [retype, hfree.1, houter]
  rfl

namespace InnermostAt

variable {scopes : ScopeStack} {name : String} {inside around : List Frame} {frame : Frame}

variable (hat : scopes.InnermostAt name inside frame around)

include hat

/-- The first scope with the name. -/
theorem frameOf?_eq : scopes.frameOf? name = some frame := by
  refine List.find?_eq_some_iff_append.2 ⟨hat.contains, inside, around, hat.frames, ?_⟩
  simpa using hat.inside_free

/-- The variable of that scope. -/
theorem find?_eq : scopes.find? name = frame.find? name := by
  rw [find?, hat.frameOf?_eq]
  rfl

/-- A type is fixed in the frame in which the name is looked up. -/
theorem retype (type : ValueType) :
    (scopes.retype name type).frames = inside ++ frame.retype name type :: around := by
  rw [frames_retype, hat.frames, retypeIn_of_forall_not_contains hat.inside_free, retypeIn,
    if_pos hat.contains]

end InnermostAt

end ScopeStack

/-! ## The view of names -/

/-- Leaving a scope restores the view of names.  Whatever is done in a scope, as long as it closes
only what it has opened and all of it, the depth, the selected bank and the slots of all names are
afterwards as before, and a name has another type only if its type was fixed while nothing inside
hid it.  In every stack, a name without a declaration is found nowhere and has no type to be
fixed; any other name is looked up, found and given a type in the same frame, the innermost one
that has it, and in the same slot. -/
theorem scoped_restores_view (bindings : Bindings) (operations : List Operation)
    (hbalanced : Balanced (Operation.movesAll operations)) :
    let after := Operation.perform Move.apply bindings (.inScope operations)
    after.globals.depth = bindings.globals.depth ∧
    after.globals.inner.bank = bindings.globals.inner.bank ∧
    (∀ name, (after.globals.find? name).map Variable.slot =
      (bindings.globals.find? name).map Variable.slot) ∧
    (∀ name, (after.globals.find? name).map Variable.type ≠
      (bindings.globals.find? name).map Variable.type →
        bindings.FixedInSight (Operation.movesAll operations) name) ∧
    ∀ (point : ScopeStack) (name : String),
      ((∀ frame ∈ point.frames, frame.contains name = false) ∧ point.frameOf? name = none ∧
        point.find? name = none ∧ ∀ type, point.retype name type = point) ∨
      ∃ inside frame around found, point.InnermostAt name inside frame around ∧
        frame.find? name = some found ∧ point.frameOf? name = some frame ∧
        point.find? name = some found ∧
        ∀ type, (point.retype name type).frames = inside ++ frame.retype name type :: around ∧
          (frame.retype name type).find? name = some { found with type := type } := by
  intro after
  obtain ⟨upper, lower, hinside⟩ := Inside.of_within bindings _ hbalanced.within
  have hframes : after.globals.frames = lower := by
    have hafter : after = (bindings.enter.run (Operation.movesAll operations)).leave := by
      rw [Bindings.run, ← Operation.performAll_eq_foldl]
      rfl
    rw [hafter]
    exact hinside.frames_after hbalanced.total
  have hlayouts : after.globals.layouts = bindings.globals.layouts := by
    rw [layouts, hframes]
    exact hinside.layouts
  refine ⟨?_, ?_, ?_, ?_, ?_⟩
  · have hlength := congrArg List.length hlayouts
    rwa [layouts, layouts, List.length_map, List.length_map] at hlength
  · exact congrArg Layout.bank (List.cons.inj hlayouts).1
  · exact slot_findIn_of_layouts hlayouts
  · intro name hdiffers
    apply hinside.types name
    rwa [← hframes]
  · intro point name
    rcases point.exists_innermostAt name with hfree | ⟨inside, frame, around, hat⟩
    · have hframe : point.frameOf? name = none := by
        rw [frameOf?, List.find?_eq_none]
        simpa using hfree
      refine .inl ⟨hfree, hframe, ?_, retype_of_forall_not_contains hfree⟩
      rw [find?, hframe]
      rfl
    · obtain ⟨found, hfound⟩ := Option.isSome_iff_exists.1 hat.contains
      refine .inr ⟨inside, frame, around, found, hat, hfound, hat.frameOf?_eq, ?_, fun type => ?_⟩
      · rw [hat.find?_eq, hfound]
      · refine ⟨hat.retype type, ?_⟩
        rw [Frame.find?_retype, if_pos rfl, hfound]
        rfl

/-- Storage with a variable whose type is not known yet. -/
def lastBindings : Bindings :=
  Move.apply Session.initial.bindings (.declare .global "last" .dynamic)

/-- Operations that fix the type of the variable, hide it, select a bank and fix the type of the
variable that hides it. -/
def hidingOperations : List Operation :=
  [.single (.retype .global "last" (.plain "number" [])),
    .single (.declare .global "last" .dynamic),
    .inScope [.single .enter, .single (.useBank .global ⟨Fin.last 25⟩),
      .single (.retype .global "last" (.plain "text" [])), .single .leave]]

/-- The variable is in sight again, in its slot, and with the type that was fixed before it was
hidden. -/
theorem scoped_restores_view_hiding :
    let after := Operation.perform Move.apply lastBindings (.inScope hidingOperations)
    Balanced (Operation.movesAll hidingOperations) ∧
    after.globals.depth = lastBindings.globals.depth ∧
    after.globals.inner.bank = lastBindings.globals.inner.bank ∧
    (after.globals.find? "last").map Variable.slot =
      (lastBindings.globals.find? "last").map Variable.slot ∧
    (after.globals.find? "last").map Variable.type ≠
      (lastBindings.globals.find? "last").map Variable.type ∧
    lastBindings.FixedInSight (Operation.movesAll hidingOperations) "last" := by
  intro after
  have hbalanced : Balanced (Operation.movesAll hidingOperations) := by
    refine ⟨fun first hfirst => ?_, by decide⟩
    have hall : ∀ first ∈ (Operation.movesAll hidingOperations).inits,
        first.count .leave ≤ first.count .enter := by decide
    exact hall first ((List.mem_inits _ _).2 hfirst)
  obtain ⟨hdepth, hbank, hslot, htype, _⟩ :=
    scoped_restores_view lastBindings hidingOperations hbalanced
  have hdiffers : (after.globals.find? "last").map Variable.type ≠
      (lastBindings.globals.find? "last").map Variable.type := by decide
  exact ⟨hbalanced, hdepth, hbank, hslot "last", hdiffers, htype "last" hdiffers⟩

end Workshop

import Workshop.Compilation.Session
import Mathlib.Data.List.Forall2
import Mathlib.Data.Option.Basic

/-!
# Successful computations

Compiling is a sequence of steps each of which may fail.  The theorems of this
module say, for every statement, exactly when it succeeds, with which result
and in which state.  Later proofs take a successful run apart with them, and
put one together, without looking into the definitions again.

Main results:

- Theorem `Catalog.applyCall_transfers`: the success of a call only depends on
  the values of its receiver and its arguments.
- Theorems `Catalog.applyCall_eq_ok`, `Catalog.applyCall_operands`: a successful
  call is that of a builtin, and its parts have values.
- Theorems `Catalog.assign_none_eq_ok`, `Catalog.assign_some_eq_ok`,
  `Catalog.declare_none_eq_ok`, `Catalog.declare_some_eq_ok` and
  `Catalog.define_eq_ok`: what a successful statement has done.
-/

namespace Workshop

variable {ε α β : Type} {domain : Domain} {name text : String} {state final : CompileState}

/-! ## Results of expressions -/

/-- Both of two steps succeed. -/
theorem Except.bind_eq_ok {x : Except ε α} {f : α → Except ε β} {b : β} :
    (x >>= f) = .ok b ↔ ∃ a, x = .ok a ∧ f a = .ok b := by
  cases x with
  | error e => simp [bind, Except.bind]
  | ok a => simp [bind, Except.bind]

/-- A result is the only one. -/
theorem Except.pure_eq_ok {a b : α} : (pure a : Except ε α) = .ok b ↔ a = b := by
  simp [pure, Except.pure]

/-- An error is no success. -/
theorem Except.throw_eq_ok {e : ε} {b : α} : (throw e : Except ε α) = .ok b ↔ False := by
  simp [throw, throwThe, MonadExceptOf.throw]

/-- A success, without its reason. -/
theorem Except.toOption_eq_some {x : Except ε α} {a : α} : x.toOption = some a ↔ x = .ok a := by
  cases x with
  | error e => simp [Except.toOption]
  | ok b => simp [Except.toOption]

/-- Whenever one result is a success, the other is the same success. -/
def Transfers (original copy : Except ε α) : Prop :=
  ∀ ⦃a⦄, original = .ok a → copy = .ok a

namespace Transfers

/-- Nothing is lost in the same outcome. -/
theorem refl (x : Except ε α) : Transfers x x :=
  fun _ h => h

/-- Successes of two steps carry over. -/
theorem bind {x y : Except ε α} {f g : α → Except ε β} (hxy : Transfers x y)
    (hfg : ∀ a, x = .ok a → Transfers (f a) (g a)) : Transfers (x >>= f) (y >>= g) := by
  intro b hb
  obtain ⟨a, ha, hb⟩ := Except.bind_eq_ok.1 hb
  exact Except.bind_eq_ok.2 ⟨a, hxy ha, hfg a ha hb⟩

/-- Results that succeed alike are equal as far as they are successes. -/
theorem toOption_eq {x y : Except ε α} (hxy : Transfers x y) (hyx : Transfers y x) :
    x.toOption = y.toOption := by
  cases hx : x with
  | ok a => rw [hxy hx]
  | error e =>
      cases hy : y with
      | ok b =>
          have hcontra := hyx hy
          rw [hx] at hcontra
          cases hcontra
      | error e' => rfl

end Transfers

namespace Catalog

/-! ## Calls -/

/-- The builtin that the table for a mode has under a name. -/
def builtin? (catalog : Catalog) : CallMode → String → Option Builtin
  | .action, name => catalog.action? name
  | .value, name => catalog.value? name

variable {catalog : Catalog} {mode : CallMode} {name method : String} {builtin : Builtin}
  {receiver receiver' : Option ValueResult} {arguments arguments' : List ValueResult}

/-- A builtin that is called is in the catalog. -/
theorem calledBuiltin_eq_ok :
    catalog.calledBuiltin mode name = .ok builtin ↔ catalog.builtin? mode name = some builtin := by
  cases mode with
  | action =>
      rw [calledBuiltin, builtin?]
      cases catalog.action? name with
      | some found => simp
      | none => simp only; split <;> simp
  | value =>
      rw [calledBuiltin, builtin?]
      cases catalog.value? name with
      | some found => simp
      | none => simp only; split <;> simp

/-- Actions are looked up among actions. -/
theorem mem_actions_of_builtin? (hfound : catalog.builtin? .action name = some builtin) :
    builtin ∈ catalog.actions := by
  rw [builtin?, action?] at hfound
  exact List.mem_reverse.1 (List.mem_of_find?_eq_some hfound)

/-- Values are looked up among values. -/
theorem mem_values_of_builtin? (hfound : catalog.builtin? .value name = some builtin) :
    builtin ∈ catalog.values := by
  rw [builtin?, value?] at hfound
  exact List.mem_reverse.1 (List.mem_of_find?_eq_some hfound)

/-- What is looked up is in the catalog. -/
theorem mem_of_builtin? (hfound : catalog.builtin? mode name = some builtin) :
    builtin ∈ catalog.actions ++ catalog.values := by
  rw [List.mem_append]
  cases mode with
  | action => exact .inl (mem_actions_of_builtin? hfound)
  | value => exact .inr (mem_values_of_builtin? hfound)

/-- The receiver of a call carries over. -/
theorem receiverArgument_transfers (hreceiver : Option.Rel Transfers receiver receiver') :
    Transfers (catalog.receiverArgument method builtin receiver)
      (catalog.receiverArgument method builtin receiver') := by
  cases hreceiver with
  | none => exact Transfers.refl _
  | some htransfers =>
      simp only [receiverArgument]
      split
      · exact Transfers.refl _
      · exact htransfers.bind fun _ _ => Transfers.refl _

/-- The arguments of a call carry over. -/
theorem producedArguments_transfers {position : Nat}
    (harguments : List.Forall₂ Transfers arguments arguments') :
    Transfers (producedArguments method position arguments)
      (producedArguments method position arguments') := by
  induction harguments generalizing position with
  | nil => exact Transfers.refl _
  | cons hargument _ ih =>
      unfold producedArguments
      refine hargument.bind fun value _ => ?_
      split
      · exact Transfers.refl _
      · exact ih.bind fun _ _ => Transfers.refl _

/-- A call that succeeds also succeeds, with the same value, when its receiver and its arguments
are replaced by some that succeed with the same values. -/
theorem applyCall_transfers {callee : Node} (hreceiver : Option.Rel Transfers receiver receiver')
    (harguments : List.Forall₂ Transfers arguments arguments') :
    Transfers (catalog.applyCall mode callee receiver arguments)
      (catalog.applyCall mode callee receiver' arguments') := by
  unfold applyCall
  split
  · refine (Transfers.refl _).bind fun builtin _ => ?_
    refine (receiverArgument_transfers hreceiver).bind fun first _ => ?_
    exact (producedArguments_transfers harguments).bind fun _ _ => Transfers.refl _
  · exact Transfers.refl _

/-- The same for the operands of one call under two ways to find values. -/
theorem applyCall_map_transfers (mode : CallMode) (callee : Node) {f g : Node → ValueResult}
    {receiver : Option Node} {arguments : List Node}
    (hreceiver : ∀ node ∈ receiver, Transfers (f node) (g node))
    (harguments : ∀ node ∈ arguments, Transfers (f node) (g node)) :
    Transfers (catalog.applyCall mode callee (receiver.map f) (arguments.map f))
      (catalog.applyCall mode callee (receiver.map g) (arguments.map g)) := by
  apply applyCall_transfers
  · cases receiver with
    | none => exact .none
    | some receiver => exact .some (hreceiver receiver rfl)
  · rw [List.forall₂_map_left_iff, List.forall₂_map_right_iff, List.forall₂_same]
    exact harguments

/-- The receiver of a call has a value. -/
theorem receiverArgument_operand {values : List Typed}
    (hcall : catalog.receiverArgument method builtin receiver = .ok values) :
    ∀ result ∈ receiver, ∃ value, result = .ok value := by
  rintro result rfl
  simp only [receiverArgument] at hcall
  split at hcall
  · cases hcall
  · obtain ⟨value, hvalue, _⟩ := Except.bind_eq_ok.1 hcall
    exact ⟨value, hvalue⟩

/-- Every argument of a call has a value. -/
theorem producedArguments_operands {position : Nat} {values : List Typed}
    (hcall : producedArguments method position arguments = .ok values) :
    ∀ result ∈ arguments, ∃ value, result = .ok value := by
  induction arguments generalizing position values with
  | nil => simp
  | cons argument rest ih =>
      unfold producedArguments at hcall
      obtain ⟨value, hvalue, hrest⟩ := Except.bind_eq_ok.1 hcall
      split at hrest
      · exact (Except.throw_eq_ok.1 hrest).elim
      · obtain ⟨_, hothers, _⟩ := Except.bind_eq_ok.1 hrest
        intro result hmem
        rcases List.mem_cons.1 hmem with rfl | hmem
        · exact ⟨value, hvalue⟩
        · exact ih hothers result hmem

/-- Adapted arguments have one text for each parameter. -/
theorem length_of_adaptedArguments {position : Nat} {arguments : List Typed}
    {parameters texts : List String} (hlength : arguments.length = parameters.length)
    (htexts : catalog.adaptedArguments method position arguments parameters = .ok texts) :
    texts.length = parameters.length := by
  induction arguments generalizing position parameters texts with
  | nil =>
      cases htexts
      exact hlength
  | cons argument arguments ih =>
      cases parameters with
      | nil => cases hlength
      | cons parameter parameters =>
          rcases Except.bind_eq_ok.1 htexts with ⟨expected, _, hrest⟩
          split at hrest
          · rcases Except.bind_eq_ok.1 hrest with ⟨text, _, hrest⟩
            rcases Except.bind_eq_ok.1 hrest with ⟨others, hothers, hresult⟩
            cases hresult
            exact congrArg (· + 1) (ih (Nat.succ.inj hlength) hothers)
          · cases hrest

/-- When a builtin gives a value. -/
theorem applyBuiltin_eq_ok {values : List Typed} {value : Typed} :
    catalog.applyBuiltin method builtin values = .ok value ↔
      values.length = builtin.parameters.length ∧
      ∃ texts result, catalog.adaptedArguments method 1 values builtin.parameters = .ok texts ∧
        catalog.type builtin.result = .ok result ∧
        ⟨result, builtin.render texts⟩ = value := by
  unfold applyBuiltin
  split <;> simp [Except.bind_eq_ok, *]

/-- A successful call has a plain name, which is that of a builtin. -/
theorem applyCall_eq_ok {callee : Node} {value : Typed}
    (hcall : catalog.applyCall mode callee receiver arguments = .ok value) :
    ∃ name builtin first others, callee = .identifier name none ∧
      catalog.builtin? mode name = some builtin ∧
      catalog.receiverArgument name builtin receiver = .ok first ∧
      producedArguments name (first.length + 1) arguments = .ok others ∧
      catalog.applyBuiltin name builtin (first ++ others) = .ok value := by
  unfold applyCall at hcall
  split at hcall
  · simp only [Except.bind_eq_ok, Reason.lift_eq, calledBuiltin_eq_ok] at hcall
    obtain ⟨builtin, hfound, first, hfirst, others, hothers, happly⟩ := hcall
    exact ⟨_, builtin, first, others, rfl, hfound, hfirst, hothers, happly⟩
  · cases hcall

/-- A successful call has a plain name, and its receiver and all its arguments have values. -/
theorem applyCall_operands {callee : Node} {value : Typed}
    (hcall : catalog.applyCall mode callee receiver arguments = .ok value) :
    (∃ name, callee = .identifier name none) ∧ (∀ result ∈ receiver, ∃ value, result = .ok value) ∧
      ∀ result ∈ arguments, ∃ value, result = .ok value := by
  obtain ⟨name, builtin, first, others, rfl, _, hfirst, hothers, _⟩ := applyCall_eq_ok hcall
  exact ⟨⟨name, rfl⟩, receiverArgument_operand hfirst, producedArguments_operands hothers⟩

/-! ## Choices -/

/-- A successful choice: its condition and both branches have values. -/
theorem valueOf_choice_eq_ok {bindings : Bindings} {condition thenBranch elseBranch : Node}
    {value : Typed} :
    catalog.valueOf bindings (.choice condition thenBranch (some elseBranch)) = .ok value ↔
      ∃ text thenValue elseValue, catalog.condition bindings condition = .ok text ∧
        catalog.valueOf bindings thenBranch = .ok thenValue ∧
        catalog.valueOf bindings elseBranch = .ok elseValue ∧
        choose text thenValue elseValue = .ok value := by
  simp only [valueOf, Catalog.condition, Except.bind_eq_ok]
  constructor
  · rintro ⟨typed, htyped, text, htext, thenValue, hthen, elseValue, helse, hchoose⟩
    exact ⟨text, thenValue, elseValue, ⟨typed, htyped, htext⟩, hthen, helse, hchoose⟩
  · rintro ⟨text, thenValue, elseValue, ⟨typed, htyped, htext⟩, hthen, helse, hchoose⟩
    exact ⟨typed, htyped, text, htext, thenValue, hthen, elseValue, helse, hchoose⟩

/-- A condition has a value. -/
theorem valueOf_of_condition {bindings : Bindings} {node : Node}
    (htext : catalog.condition bindings node = .ok text) :
    ∃ value, catalog.valueOf bindings node = .ok value := by
  rcases Except.bind_eq_ok.1 htext with ⟨value, hvalue, _⟩
  exact ⟨value, hvalue⟩

end Catalog

/-! ## Runs of statements -/

/-- A state in a new scope. -/
def StateOn.enter (state : CompileState) : CompileState :=
  { state with bindings := state.bindings.enter }

/-- A state after the innermost scope has been closed. -/
def StateOn.leave (state : CompileState) : CompileState :=
  { state with bindings := state.bindings.leave }

namespace Compile

/-- Both of two steps succeed. -/
theorem bind_eq_ok {x : Compile α} {f : α → Compile β} {b : β} :
    (x >>= f) state = .ok b final ↔
      ∃ a middle, x state = .ok a middle ∧ f a middle = .ok b final := by
  simp only [bind, EStateM.bind]
  cases x state with
  | ok a middle =>
      constructor
      · intro h
        exact ⟨a, middle, rfl, h⟩
      · rintro ⟨_, _, hfirst, h⟩
        cases hfirst
        exact h
  | error e middle => simp

/-- The first error ends the work. -/
theorem bind_of_error {x : Compile α} {f : α → Compile β} {error : SemanticError}
    (hx : x state = .error error final) : (x >>= f) state = .error error final := by
  simp only [bind, EStateM.bind, hx]

/-- A result leaves the state as it is. -/
theorem pure_eq_ok {a b : α} :
    (pure a : Compile α) state = .ok b final ↔ a = b ∧ state = final := by
  simp [pure, EStateM.pure]

/-- A result that is changed by a function. -/
theorem bind_pure_eq_ok {x : Compile α} {f : α → β} {b : β} :
    (x >>= fun a => pure (f a)) state = .ok b final ↔ ∃ a, x state = .ok a final ∧ f a = b := by
  simp only [bind_eq_ok, pure_eq_ok]
  constructor
  · rintro ⟨a, _, hrun, rfl, rfl⟩
    exact ⟨a, hrun, rfl⟩
  · rintro ⟨a, hrun, rfl⟩
    exact ⟨a, final, hrun, rfl, rfl⟩

/-- Work whose result does not matter. -/
theorem discard_eq_ok {work : Compile α} {u : Unit} :
    (discard work : Compile Unit) state = .ok u final ↔ ∃ a, work state = .ok a final := by
  have hbind : (discard work : Compile Unit) = work >>= fun _ => pure () := rfl
  rw [hbind, bind_pure_eq_ok]
  simp only [and_true]

/-- It succeeds when the work does. -/
theorem exists_discard_eq_ok {work : Compile α} :
    (∃ final, (discard work : Compile Unit) state = .ok () final) ↔
      ∃ a final, work state = .ok a final := by
  simp only [discard_eq_ok]
  exact exists_comm

/-- Two lists that are put together. -/
theorem append_eq_ok {x y : Compile (List α)} {all : List α} :
    (do let first ← x; let others ← y; pure (first ++ others)) state = .ok all final ↔
      ∃ first middle others, x state = .ok first middle ∧ y middle = .ok others final ∧
        first ++ others = all := by
  rw [bind_eq_ok]
  constructor
  · rintro ⟨first, middle, hfirst, hrest⟩
    rcases bind_pure_eq_ok.1 hrest with ⟨others, hothers, rfl⟩
    exact ⟨first, middle, others, hfirst, hothers, rfl⟩
  · rintro ⟨first, middle, others, hfirst, hothers, rfl⟩
    exact ⟨first, middle, hfirst, bind_pure_eq_ok.2 ⟨others, hothers, rfl⟩⟩

/-- A question leaves the state as it is. -/
theorem query_eq_ok {f : Bindings → Except SemanticError α} {a : α} :
    query f state = .ok a final ↔ f state.bindings = .ok a ∧ state = final := by
  unfold query
  cases f state.bindings <;> simp

/-- A change of the bindings always succeeds. -/
theorem update_eq_ok {f : Bindings → Bindings} {u : Unit} :
    (update f : Compile Unit) state = .ok u final ↔
      { state with bindings := f state.bindings } = final := by
  have hrun : (update f : Compile Unit) state =
    .ok () { state with bindings := f state.bindings } := rfl
  simp [hrun]

/-- A note always succeeds. -/
theorem note_eq_ok {event : LogEvent} {u : Unit} :
    (note event : Compile Unit) state = .ok u final ↔
      { state with journal := state.journal.push event } = final := by
  have hrun : (note event : Compile Unit) state =
    .ok () { state with journal := state.journal.push event } := rfl
  simp [hrun]

/-- A scope is left also after an error. -/
theorem inScope_eq (work : Compile α) (state : CompileState) :
    inScope work state =
      match work state.enter with
      | .ok result after => .ok result after.leave
      | .error error after => .error error after.leave := by
  simp only [inScope, Storage.enter_eq, StateOn.enter]
  cases work ⟨state.bindings.enter, state.journal⟩ <;> rfl

/-- Work in a scope of its own. -/
theorem inScope_eq_ok {work : Compile α} {a : α} :
    inScope work state = .ok a final ↔
      ∃ middle, work state.enter = .ok a middle ∧ middle.leave = final := by
  rw [inScope_eq]
  cases work state.enter <;> simp

end Compile

/-- The state after a value has been stored in a variable.  The first value of a dynamic variable
fixes its type. -/
def StateOn.settled (state : CompileState) (domain : Domain) (name : String) :
    Option ValueType → CompileState
  | none => state
  | some type =>
    ⟨state.bindings.retype domain name type, state.journal.push (.inferred name type.name)⟩

/-- A value is stored under a type. -/
theorem store_eq_ok {type : ValueType} {value : Typed} :
    store domain name type value state = .ok text final ↔
      ∃ inferred, storedText name type value = .ok (text, inferred) ∧
        state.settled domain name inferred = final := by
  simp only [store, Compile.bind_eq_ok, Compile.query_eq_ok]
  constructor
  · rintro ⟨⟨stored, inferred⟩, middle, ⟨hstored, rfl⟩, h⟩
    cases inferred with
    | none =>
        obtain ⟨rfl, rfl⟩ := Compile.pure_eq_ok.1 h
        exact ⟨none, hstored, rfl⟩
    | some type =>
        simp only [Compile.bind_eq_ok, Compile.pure_eq_ok, Compile.note_eq_ok,
          Compile.update_eq_ok] at h
        obtain ⟨_, _, rfl, _, _, rfl, rfl, rfl⟩ := h
        exact ⟨some type, hstored, rfl⟩
  · rintro ⟨inferred, hstored, rfl⟩
    refine ⟨(text, inferred), state, ⟨hstored, rfl⟩, ?_⟩
    cases inferred with
    | none => rfl
    | some type => rfl

/-- A bank can always be chosen. -/
theorem useBank_eq_ok {bank : Bank} {u : Unit} :
    useBank domain bank state = .ok u final ↔
      ⟨state.bindings.useBank domain bank, state.journal.push (.bankSelected domain bank)⟩ =
        final := by
  have hrun : (useBank domain bank : Compile Unit) state = .ok ()
    ⟨state.bindings.useBank domain bank, state.journal.push (.bankSelected domain bank)⟩ := rfl
  simp [hrun]

/-- A variable that is found. -/
theorem Storage.get_eq_ok {bindings : Bindings} {found : Variable} :
    Storage.get bindings domain name = .ok found ↔ bindings.find? domain name = some found := by
  rw [Storage.get, Storage.find?_eq]
  cases bindings.find? domain name <;> simp

/-- A declaration changes nothing but the variables of its domain. -/
theorem Bindings.declare_eq_ok {bindings final : Bindings} {type : ValueType} {slot : Slot}
    (hdeclare : bindings.declare domain name type = .ok (slot, final)) :
    final.constants = bindings.constants ∧
      (domain = .global → final.players = bindings.players) ∧
      (domain = .player → final.globals = bindings.globals) := by
  cases domain with
  | global =>
      obtain ⟨⟨_, globals⟩, _, hfinal⟩ := Except.bind_eq_ok.1 hdeclare
      cases hfinal
      simp
  | player =>
      obtain ⟨⟨_, players⟩, _, hfinal⟩ := Except.bind_eq_ok.1 hdeclare
      cases hfinal
      simp

namespace Catalog

variable {catalog : Catalog} {state final : CompileState} {target text name typeName : String}
  {value : Node} {domain : Domain}

/-- A successful assignment to a plain name. -/
theorem assign_none_eq_ok :
    catalog.assign target none value state = .ok text final ↔
      state.bindings.constants.contains target = false ∧
      ∃ typed found stored inferred, catalog.valueOf state.bindings value = .ok typed ∧
        state.bindings.find? .global target = some found ∧
        storedText target found.type typed = .ok (stored, inferred) ∧
        text = Term.writeGlobal found.slot stored ∧
        final = state.settled .global target inferred := by
  simp only [assign, Compile.bind_eq_ok, Compile.query_eq_ok, store_eq_ok, Compile.pure_eq_ok,
    Storage.get_eq_ok]
  constructor
  · rintro ⟨_, _, ⟨hconstant, rfl⟩, typed, _, ⟨htyped, rfl⟩, found, _, ⟨hfound, rfl⟩, stored, _,
      ⟨inferred, hstored, rfl⟩, rfl, rfl⟩
    split at hconstant
    · exact (Except.throw_eq_ok.1 hconstant).elim
    · rename_i hnot
      exact ⟨by simpa using hnot, typed, found, stored, inferred, htyped, hfound, hstored, rfl, rfl⟩
  · rintro ⟨hconstant, typed, found, stored, inferred, htyped, hfound, hstored, rfl, rfl⟩
    exact ⟨(), state, ⟨by simp [hconstant, pure, Except.pure], rfl⟩, typed, state, ⟨htyped, rfl⟩,
      found, state, ⟨hfound, rfl⟩, stored, _, ⟨inferred, hstored, rfl⟩, rfl, rfl⟩

/-- A successful assignment to a variable of a player. -/
theorem assign_some_eq_ok {receiver : Node} :
    catalog.assign target (some receiver) value state = .ok text final ↔
      ∃ typed actor player found stored inferred,
        catalog.valueOf state.bindings value = .ok typed ∧
        catalog.valueOf state.bindings receiver = .ok actor ∧
        playerText target actor = .ok player ∧
        state.bindings.find? .player target = some found ∧
        storedText target found.type typed = .ok (stored, inferred) ∧
        text = Term.writePlayer player found.slot stored ∧
        final = state.settled .player target inferred := by
  simp only [assign, Compile.bind_eq_ok, Compile.query_eq_ok, store_eq_ok, Compile.pure_eq_ok,
    Storage.get_eq_ok]
  constructor
  · rintro ⟨typed, _, ⟨htyped, rfl⟩, actor, _, ⟨hactor, rfl⟩, player, _, ⟨hplayer, rfl⟩, found, _,
      ⟨hfound, rfl⟩, stored, _, ⟨inferred, hstored, rfl⟩, rfl, rfl⟩
    exact ⟨typed, actor, player, found, stored, inferred, htyped, hactor, hplayer, hfound, hstored,
      rfl, rfl⟩
  · rintro ⟨typed, actor, player, found, stored, inferred, htyped, hactor, hplayer, hfound, hstored,
      rfl, rfl⟩
    exact ⟨typed, state, ⟨htyped, rfl⟩, actor, state, ⟨hactor, rfl⟩, player, state, ⟨hplayer, rfl⟩,
      found, state, ⟨hfound, rfl⟩, stored, _, ⟨inferred, hstored, rfl⟩, rfl, rfl⟩

/-- A name that is not taken. -/
theorem requireFree_eq_ok {u : Unit} :
    catalog.requireFree domain name state = .ok u final ↔
      catalog.isTaken state.bindings domain name = false ∧ state = final := by
  simp only [requireFree, Compile.query_eq_ok]
  refine and_congr_left fun _ => ?_
  cases catalog.isTaken state.bindings domain name
  · simp [pure, Except.pure]
  · simp

/-- The type that a declaration gives a variable, whatever the name of the variable. -/
theorem declaredType_eq_ok {type : ValueType} :
    catalog.declaredType typeName name = .ok type ↔
      (if typeName == "var" then .ok .dynamic else catalog.type typeName) = .ok type ∧
        (type.isEnum || type.isVoid) = false := by
  have hcheck (found : ValueType) :
      (if (found.isEnum || found.isVoid) = true then
        (throw (.notDeclarable name typeName) : Except SemanticError ValueType)
      else pure found) = .ok type ↔ found = type ∧ (type.isEnum || type.isVoid) = false := by
    split
    · rename_i hrefused
      rw [Except.throw_eq_ok]
      constructor
      · exact False.elim
      · rintro ⟨rfl, haccepted⟩
        rw [hrefused] at haccepted
        cases haccepted
    · rename_i haccepted
      rw [Except.pure_eq_ok]
      constructor
      · rintro rfl
        exact ⟨rfl, by simpa using haccepted⟩
      · exact And.left
  unfold declaredType
  cases typeName == "var" with
  | true => simp only [↓reduceIte, Except.bind_eq_ok, Except.pure_eq_ok, hcheck]; simp
  | false => simp only [Bool.false_eq_true, ↓reduceIte, Except.bind_eq_ok, hcheck]; simp

/-- A successful declaration without a first value. -/
theorem declare_none_eq_ok {written : Option String} :
    catalog.declare typeName name domain none state = .ok written final ↔
      catalog.isTaken state.bindings domain name = false ∧
      ∃ type slot bindings, catalog.declaredType typeName name = .ok type ∧
        state.bindings.declare domain name type = .ok (slot, bindings) ∧
        written = none ∧
        final = ⟨bindings, state.journal.push (.declared domain name typeName slot)⟩ := by
  simp only [declare, initialValue, Compile.bind_eq_ok, requireFree_eq_ok, Compile.query_eq_ok,
    Compile.pure_eq_ok, Compile.update_eq_ok]
  constructor
  · rintro ⟨_, _, ⟨hfree, rfl⟩, type, _, ⟨htype, rfl⟩, _, _, ⟨rfl, rfl⟩, ⟨slot, bindings⟩, _,
      ⟨hdeclare, rfl⟩, _, _, rfl, hrest⟩
    simp only [Compile.bind_eq_ok, Compile.pure_eq_ok, Compile.note_eq_ok] at hrest
    obtain ⟨_, _, ⟨rfl, rfl⟩, _, _, rfl, rfl, rfl⟩ := hrest
    exact ⟨hfree, type, slot, bindings, htype, hdeclare, rfl, rfl⟩
  · rintro ⟨hfree, type, slot, bindings, htype, hdeclare, rfl, rfl⟩
    exact ⟨(), state, ⟨hfree, rfl⟩, type, state, ⟨htype, rfl⟩, none, state, ⟨rfl, rfl⟩,
      (slot, bindings), state, ⟨hdeclare, rfl⟩, (), _, rfl, rfl⟩

/-- A successful declaration with a first value. -/
theorem declare_some_eq_ok {initial : Node} {written : Option String} :
    catalog.declare typeName name domain (some initial) state = .ok written final ↔
      catalog.isTaken state.bindings domain name = false ∧
      ∃ type typed slot bindings stored inferred,
        catalog.declaredType typeName name = .ok type ∧
        catalog.valueOf state.bindings initial = .ok typed ∧
        state.bindings.declare domain name type = .ok (slot, bindings) ∧
        storedText name type typed = .ok (stored, inferred) ∧
        written = some (writeInitial domain slot stored) ∧
        final = { StateOn.settled ⟨bindings, state.journal⟩ domain name inferred with
          journal := (StateOn.settled ⟨bindings, state.journal⟩ domain name
            inferred).journal.push (.declared domain name typeName slot) } := by
  simp only [declare, initialValue, Compile.bind_eq_ok, requireFree_eq_ok, Compile.query_eq_ok,
    Compile.pure_eq_ok, Compile.update_eq_ok]
  constructor
  · rintro ⟨_, _, ⟨hfree, rfl⟩, type, _, ⟨htype, rfl⟩, _, _, ⟨typed, _, ⟨htyped, rfl⟩, rfl, rfl⟩,
      ⟨slot, bindings⟩, _, ⟨hdeclare, rfl⟩, _, _, rfl, hrest⟩
    simp only [Compile.bind_eq_ok, store_eq_ok, Compile.pure_eq_ok, Compile.note_eq_ok] at hrest
    obtain ⟨stored, _, ⟨inferred, hstored, rfl⟩, _, _, ⟨rfl, rfl⟩, _, _, rfl, rfl, rfl⟩ := hrest
    exact ⟨hfree, type, typed, slot, bindings, stored, inferred, htype, htyped, hdeclare, hstored,
      rfl, rfl⟩
  · rintro ⟨hfree, type, typed, slot, bindings, stored, inferred, htype, htyped, hdeclare, hstored,
      rfl, rfl⟩
    refine ⟨(), state, ⟨hfree, rfl⟩, type, state, ⟨htype, rfl⟩, some typed, state,
      ⟨typed, state, ⟨htyped, rfl⟩, rfl, rfl⟩, (slot, bindings), state, ⟨hdeclare, rfl⟩, (), _, rfl,
      ?_⟩
    simp only [Compile.bind_eq_ok, store_eq_ok, Compile.pure_eq_ok, Compile.note_eq_ok]
    exact ⟨stored, _, ⟨inferred, hstored, rfl⟩, _, _, ⟨rfl, rfl⟩, (), _, rfl, rfl, rfl⟩

/-- A successful definition of a constant. -/
theorem define_eq_ok {u : Unit} :
    catalog.define name value state = .ok u final ↔
      catalog.isTaken state.bindings .global name = false ∧
      ∃ typed, catalog.valueOf state.bindings value = .ok typed ∧
        final = ⟨{ state.bindings with constants := state.bindings.constants.insert name typed },
          state.journal.push (.defined name typed.text typed.type.name)⟩ := by
  simp only [define, Compile.bind_eq_ok, requireFree_eq_ok, Compile.query_eq_ok,
    Compile.update_eq_ok, Compile.note_eq_ok]
  constructor
  · rintro ⟨_, _, ⟨hfree, rfl⟩, typed, _, ⟨htyped, rfl⟩, _, _, rfl, rfl⟩
    exact ⟨hfree, typed, htyped, rfl⟩
  · rintro ⟨hfree, typed, htyped, rfl⟩
    exact ⟨(), state, ⟨hfree, rfl⟩, typed, state, ⟨htyped, rfl⟩, (), _, rfl, rfl⟩

/-- The lines of the second branch of a choice. -/
def elseLines (catalog : Catalog) : Option Node → Compile (List Line)
  | none => pure []
  | some branch => do
    let lines ← catalog.action branch
    pure ([Line.statement "Else", .indent] ++ lines ++ [.dedent])

/-- A successful choice of actions. -/
theorem action_choice_eq_ok {condition thenBranch : Node} {elseBranch : Option Node}
    {lines : List Line} :
    catalog.action (.choice condition thenBranch elseBranch) state = .ok lines final ↔
      ∃ text thenLines middle others, catalog.condition state.bindings condition = .ok text ∧
        catalog.action thenBranch state = .ok thenLines middle ∧
        catalog.elseLines elseBranch middle = .ok others final ∧
        [Line.statement ("If(" ++ text ++ ")"), .indent] ++ thenLines ++ [.dedent] ++ others ++
          [.statement "End"] = lines := by
  have hchoice : catalog.action (.choice condition thenBranch elseBranch) = (do
      let text ← Compile.query (catalog.condition · condition)
      let thenLines ← catalog.action thenBranch
      let others ← catalog.elseLines elseBranch
      pure ([Line.statement ("If(" ++ text ++ ")"), .indent] ++ thenLines ++ [.dedent] ++ others ++
        [.statement "End"])) := by
    rw [action]
    cases elseBranch <;> simp [elseLines]
  simp only [hchoice, Compile.bind_eq_ok, Compile.query_eq_ok, Compile.pure_eq_ok]
  constructor
  · rintro ⟨text, _, ⟨htext, rfl⟩, thenLines, middle, hthen, others, _, hothers, rfl, rfl⟩
    exact ⟨text, thenLines, middle, others, htext, hthen, hothers, rfl⟩
  · rintro ⟨text, thenLines, middle, others, htext, hthen, hothers, rfl⟩
    exact ⟨text, state, ⟨htext, rfl⟩, thenLines, middle, hthen, others, final, hothers, rfl, rfl⟩

/-- A rule that is laid out. -/
theorem ruleLayout_eq_ok {event : String} {conditions : Option (List Node)} {actions : List Node}
    {layout : RuleLayout} :
    catalog.ruleLayout name event conditions actions state = .ok layout final ↔
      ∃ eventText texts lines middle, catalog.eventText event = .ok eventText ∧
        catalog.ruleConditions state.bindings.enter conditions = .ok texts ∧
        catalog.actionList actions
          ⟨state.bindings.enter, state.journal.push (.ruleBegun name event)⟩ = .ok lines middle ∧
        layout = ⟨name, eventText, event != globalEvent, texts, lines⟩ ∧
        final = middle.leave := by
  simp only [ruleLayout, Compile.bind_eq_ok, Compile.query_eq_ok, Compile.note_eq_ok,
    Compile.inScope_eq_ok, Compile.pure_eq_ok, Reason.lift_eq]
  constructor
  · rintro ⟨eventText, _, ⟨hevent, rfl⟩, _, _, rfl, middle, ⟨texts, _, ⟨htexts, rfl⟩, lines, _,
      hlines, rfl, rfl⟩, rfl⟩
    exact ⟨eventText, texts, lines, _, hevent, htexts, hlines, rfl, rfl⟩
  · rintro ⟨eventText, texts, lines, middle, hevent, htexts, hlines, rfl, rfl⟩
    exact ⟨eventText, state, ⟨hevent, rfl⟩, (), _, rfl, middle, ⟨texts, _, ⟨htexts, rfl⟩, lines,
      middle, hlines, rfl, rfl⟩, rfl⟩

/-- A successful rule. -/
theorem rule_eq_ok {event : String} {conditions : Option (List Node)} {actions : List Node} :
    catalog.rule name event conditions actions state = .ok text final ↔
      ∃ eventText texts lines middle, catalog.eventText event = .ok eventText ∧
        catalog.ruleConditions state.bindings.enter conditions = .ok texts ∧
        catalog.actionList actions
          ⟨state.bindings.enter, state.journal.push (.ruleBegun name event)⟩ = .ok lines middle ∧
        text = (RuleLayout.mk name eventText (event != globalEvent) texts lines).render ∧
        final = middle.leave := by
  rw [rule, Compile.bind_pure_eq_ok]
  simp only [ruleLayout_eq_ok]
  constructor
  · rintro ⟨_, ⟨eventText, texts, lines, middle, hevent, htexts, hlines, rfl, rfl⟩, rfl⟩
    exact ⟨eventText, texts, lines, middle, hevent, htexts, hlines, rfl, rfl⟩
  · rintro ⟨eventText, texts, lines, middle, hevent, htexts, hlines, rfl, rfl⟩
    exact ⟨_, ⟨eventText, texts, lines, middle, hevent, htexts, hlines, rfl, rfl⟩, rfl⟩

/-- A successful program. -/
theorem program_eq_ok {node : Node} :
    catalog.program node state = .ok text final ↔
      ∃ rules, catalog.topLevel node state = .ok rules final ∧ text = "\n\n".intercalate rules := by
  rw [program, Compile.bind_pure_eq_ok]
  simp only [eq_comm]

end Catalog

/-! ## Names in error messages -/

-- A name that is only told when something fails plays no part in a success.

/-- Names do not matter for stored texts. -/
theorem storedText_transfers (name name' : String) (type : ValueType) (value : Typed) :
    Transfers (storedText name type value) (storedText name' type value) := by
  intro result h
  unfold storedText at h ⊢
  split at h
  · cases h
  · rename_i hstorable
    rw [if_neg hstorable]
    exact h

/-- Nor for the texts of players. -/
theorem playerText_transfers (member member' : String) (receiver : Typed) :
    Transfers (playerText member receiver) (playerText member' receiver) := by
  intro result h
  unfold playerText at h ⊢
  split at h
  · rename_i hplayer
    rw [if_pos hplayer]
    exact h
  · cases h

/-- Nor for declared types. -/
theorem Catalog.declaredType_transfers (catalog : Catalog) (typeName name name' : String) :
    Transfers (catalog.declaredType typeName name) (catalog.declaredType typeName name') := by
  intro type h
  rw [Catalog.declaredType_eq_ok] at h ⊢
  exact h

/-- A program is accepted exactly when its rules are compiled without a failure. -/
theorem Session.compile_eq_ok {session : Session} {catalog : Catalog} {node : Node} :
    (session.compile catalog node).outcome = .ok text ↔
      ∃ final, catalog.program node ⟨session.bindings, #[]⟩ = .ok text final ∧
        (session.compile catalog node).session = .ofBindings final.bindings ∧
        (session.compile catalog node).journal = final.journal.toList := by
  unfold Session.compile
  cases catalog.program node ⟨session.bindings, #[]⟩ with
  | ok result final => simp
  | error error final => simp

end Workshop

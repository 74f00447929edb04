import Workshop.Proofs.Walk.Preservation
import Workshop.Proofs.Walk.Typing

/-!
# The history of a session

Compiling does one thing after another: it opens and closes scopes, declares
variables, stores values in them and so on, until it is through or something
fails.  The history of a session lists all of this in order, over all programs,
both branches of every choice and those programs that fail.  It is made by
following the computation, with the states in which it really comes to each
statement.

Main definitions:

- `HistoryEvent`: what compiling does to bindings.
- `Bindings.replay`: the bindings after some events.
- `Catalog.actionEvents`, `Catalog.topLevelEvents`: the events of a statement.
- `Session.history`: the events of several programs.
- `Happens`: every event was possible when it came.

Main results:

- Theorems `Catalog.action_traces` and `Catalog.topLevel_traces`: the events of a
  statement are possible and lead to the state that it leaves.
- Theorem `Session.happens_history`: so are those of a session.
- Theorem `Session.fails_of_refused`: a value that is refused makes its program
  fail.
- Theorem `Reaches.history`: the history passes all points of the walk.
-/

namespace Workshop

variable {α β : Type}

/-! ## Events -/

/-- What compiling does to bindings. -/
inductive HistoryEvent where
  /-- A program begins, without the global variables of the one before. -/
  | programBegun
  | scopeEntered
  | scopeLeft
  | bankSelected (domain : Domain) (bank : Bank)
  | defined (name : String) (value : Typed)
  | declared (domain : Domain) (name : String) (type : ValueType)
  /-- A value is stored in a variable, and is written as the given text. -/
  | stored (domain : Domain) (name : String) (value : Typed) (text : String)
  /-- A value cannot be stored in a variable. -/
  | refused (domain : Domain) (name : String) (value : Typed) (error : SemanticError)
deriving DecidableEq, Repr

/-- What an event does to bindings.  A value that is stored gives its type to a variable which had
none. -/
def HistoryEvent.apply (bindings : Bindings) : HistoryEvent → Bindings
  | programBegun => (Session.ofBindings bindings).bindings
  | scopeEntered => bindings.enter
  | scopeLeft => bindings.leave
  | bankSelected domain bank => bindings.useBank domain bank
  | defined name value => { bindings with constants := bindings.constants.insert name value }
  | declared domain name type =>
    match bindings.declare domain name type with
    | .ok (_, later) => later
    | .error _ => bindings
  | stored domain name value _ =>
    match bindings.find? domain name with
    | some found =>
      if found.type.isDynamic && !value.type.isDynamic then bindings.retype domain name value.type
      else bindings
    | none => bindings
  | refused _ _ _ _ => bindings

/-- The bindings after some events. -/
def Bindings.replay (bindings : Bindings) (events : List HistoryEvent) : Bindings :=
  events.foldl HistoryEvent.apply bindings

namespace Bindings

@[simp]
theorem replay_nil (bindings : Bindings) : bindings.replay [] = bindings := rfl

@[simp]
theorem replay_cons (bindings : Bindings) (event : HistoryEvent) (events : List HistoryEvent) :
    bindings.replay (event :: events) = (event.apply bindings).replay events := rfl

/-- Events are replayed one after the other. -/
@[simp]
theorem replay_append (bindings : Bindings) (first second : List HistoryEvent) :
    bindings.replay (first ++ second) = (bindings.replay first).replay second :=
  List.foldl_append

end Bindings

/-! ## The events of a run -/

/-- The events after a computation, if it succeeds. -/
def CompileOn.next (work : Compile α) (state : CompileState)
    (events : α → CompileState → List HistoryEvent) : List HistoryEvent :=
  match work state with
  | .ok a middle => events a middle
  | .error _ _ => []

/-- The event of storing a value. -/
def storeEvents (domain : Domain) (name : String) (type : ValueType) (value : Typed)
    (state : CompileState) : List HistoryEvent :=
  match store domain name type value state with
  | .ok text _ => [.stored domain name value text]
  | .error error _ => [.refused domain name value error]

namespace Catalog

/-- The events of an assignment. -/
def assignEvents (catalog : Catalog) (target : String) (receiver : Option Node) (value : Node)
    (state : CompileState) : List HistoryEvent :=
  match receiver with
  | none =>
    (Compile.query fun bindings =>
      if bindings.constants.contains target then throw (.constantAssigned target)
      else pure ()).next state fun _ state =>
    (Compile.query (catalog.valueOf · value)).next state fun value state =>
    (Compile.query (Storage.get · .global target)).next state fun found state =>
    storeEvents .global target found.type value state
  | some receiver =>
    (Compile.query (catalog.valueOf · value)).next state fun value state =>
    (Compile.query (catalog.valueOf · receiver)).next state fun receiver state =>
    (Compile.query fun _ => playerText target receiver).next state fun _ state =>
    (Compile.query (Storage.get · .player target)).next state fun found state =>
    storeEvents .player target found.type value state

/-- The events of a declaration.  The first value is stored after the variable has got its slot. -/
def declareEvents (catalog : Catalog) (typeName name : String) (domain : Domain)
    (initial : Option Node) (state : CompileState) : List HistoryEvent :=
  (catalog.requireFree domain name).next state fun _ state =>
  (Compile.query fun _ => catalog.declaredType typeName name).next state fun type state =>
  (catalog.initialValue initial).next state fun value state =>
  (Compile.query (·.declare domain name type)).next state fun (_, bindings) state =>
  .declared domain name type :: (Compile.update fun _ => bindings).next state fun _ state =>
    match value with
    | none => []
    | some value => storeEvents domain name type value state

/-- The events of a definition. -/
def defineEvents (catalog : Catalog) (name : String) (value : Node) (state : CompileState) :
    List HistoryEvent :=
  (catalog.requireFree .global name).next state fun _ state =>
  (Compile.query (catalog.valueOf · value)).next state fun value _ =>
  [.defined name value]

mutual

/-- The events of an action. -/
def actionEvents (catalog : Catalog) : Node → CompileState → List HistoryEvent
  | .assign target receiver value, state => catalog.assignEvents target receiver value state
  | .block statements, state =>
    .scopeEntered :: (catalog.actionListEvents statements state.enter ++ [.scopeLeft])
  | .declare typeName name perPlayer initial, state =>
    catalog.declareEvents typeName name (.ofPerPlayer perPlayer) initial state
  | .useBank domain bank, _ => [.bankSelected domain bank]
  | .choice condition thenBranch elseBranch, state =>
    (Compile.query (catalog.condition · condition)).next state fun _ state =>
    catalog.actionEvents thenBranch state ++
      match elseBranch with
      | none => []
      | some elseBranch => (catalog.action thenBranch).next state fun _ state =>
        catalog.actionEvents elseBranch state
  | _, _ => []
termination_by structural node => node

/-- The events of several actions. -/
def actionListEvents (catalog : Catalog) : List Node → CompileState → List HistoryEvent
  | [], _ => []
  | node :: rest, state =>
    catalog.actionEvents node state ++
      (catalog.action node).next state fun _ state => catalog.actionListEvents rest state
termination_by structural nodes => nodes

end

/-- The events of a rule. -/
def ruleEvents (catalog : Catalog) (name event : String) (conditions : Option (List Node))
    (actions : List Node) (state : CompileState) : List HistoryEvent :=
  (Compile.query fun _ => catalog.eventText event).next state fun _ state =>
  (Compile.note (.ruleBegun name event)).next state fun _ state =>
  .scopeEntered ::
    ((Compile.query (catalog.ruleConditions · conditions)).next state.enter (fun _ state =>
      catalog.actionListEvents actions state) ++ [.scopeLeft])

mutual

/-- The events of a top level statement. -/
def topLevelEvents (catalog : Catalog) : Node → CompileState → List HistoryEvent
  | .block statements, state => catalog.topLevelListEvents statements state
  | .constant name value, state => catalog.defineEvents name value state
  | .declare typeName name perPlayer initial, state =>
    catalog.declareEvents typeName name (.ofPerPlayer perPlayer) initial state
  | .rule name event conditions actions, state =>
    catalog.ruleEvents name event conditions actions state
  | .useBank domain bank, _ => [.bankSelected domain bank]
  | _, _ => []
termination_by structural node => node

/-- The events of several top level statements. -/
def topLevelListEvents (catalog : Catalog) : List Node → CompileState → List HistoryEvent
  | [], _ => []
  | node :: rest, state =>
    catalog.topLevelEvents node state ++
      (catalog.topLevel node).next state fun _ state => catalog.topLevelListEvents rest state
termination_by structural nodes => nodes

end

end Catalog

/-- The events of several programs. -/
def Session.history (session : Session) (catalog : Catalog) : List Node → List HistoryEvent
  | [] => []
  | program :: rest =>
    .programBegun :: (catalog.topLevelEvents program ⟨session.bindings, #[]⟩ ++
      (session.compile catalog program).session.history catalog rest)

/-! ## Events that are possible -/

/-- A type that a variable can have. -/
structure Catalog.Storable (catalog : Catalog) (type : ValueType) : Prop where
  known : type ∈ catalog.registry.types
  isEnum : type.isEnum = false
  isVoid : type.isVoid = false

/-- An event is possible: a variable is declared under a new name and with a type that it can have,
and what a value does to a variable is what `storedText` says. -/
def HistoryEvent.Fits (catalog : Catalog) (bindings : Bindings) : HistoryEvent → Prop
  | declared domain name type => bindings.find? domain name = none ∧ catalog.Storable type ∧
    ∃ slot later, bindings.declare domain name type = .ok (slot, later)
  | stored domain name value text => ∃ found inferred, bindings.find? domain name = some found ∧
    value.type ∈ catalog.registry.types ∧ storedText name found.type value = .ok (text, inferred)
  | refused domain name value error => ∃ found, bindings.find? domain name = some found ∧
    storedText name found.type value = .error error
  | _ => True

/-- Whether an event is that a value cannot be stored. -/
def HistoryEvent.isRefusal : HistoryEvent → Bool
  | refused _ _ _ _ => true
  | _ => false

/-- Events that come one after the other, each of which is possible. -/
def Happens (catalog : Catalog) : Bindings → List HistoryEvent → Prop
  | _, [] => True
  | bindings, event :: events =>
    event.Fits catalog bindings ∧ Happens catalog (event.apply bindings) events

/-- Events happen one after the other. -/
theorem happens_append {catalog : Catalog} {bindings : Bindings}
    {first second : List HistoryEvent} :
    Happens catalog bindings (first ++ second) ↔
      Happens catalog bindings first ∧ Happens catalog (bindings.replay first) second := by
  induction first generalizing bindings with
  | nil => simp [Happens]
  | cons event first ih => simp [Happens, ih, and_assoc]

/-- The events of a computation: they are possible, lead to the state in which it ends, and if a
value is refused among them, it fails for this reason. -/
structure Traces (catalog : Catalog) (work : Compile α) (state : CompileState)
    (events : List HistoryEvent) : Prop where
  happens : Happens catalog state.bindings events
  replay : state.bindings.replay events = (work.after state).bindings
  fails : ∀ {domain : Domain} {name : String} {value : Typed} {error : SemanticError},
    .refused domain name value error ∈ events → ∃ final, work state = .error error final

namespace Traces

variable {catalog : Catalog} {state : CompileState} {work x : Compile α} {f : α → Compile β}
  {first : List HistoryEvent} {events : α → CompileState → List HistoryEvent}

/-- Work that changes nothing. -/
theorem silent (hsame : (work.after state).bindings = state.bindings) :
    Traces catalog work state [] where
  happens := trivial
  replay := hsame.symm
  fails hmem := (List.not_mem_nil hmem).elim

/-- A computation that does one thing, and does not refuse a value. -/
theorem single {event : HistoryEvent} (hfits : event.Fits catalog state.bindings)
    (happly : event.apply state.bindings = (work.after state).bindings)
    (hquiet : event.isRefusal = false) : Traces catalog work state [event] where
  happens := ⟨hfits, trivial⟩
  replay := happly
  fails hmem := by
    obtain rfl := List.mem_singleton.1 hmem
    cases hquiet

/-- One computation after another. -/
theorem bind (hx : Traces catalog x state first)
    (hf : ∀ a middle, x state = .ok a middle → Traces catalog (f a) middle (events a middle)) :
    Traces catalog (x >>= f) state (first ++ x.next state events) := by
  cases hrun : x state with
  | ok a middle =>
      have hnext := hf a middle hrun
      have hmiddle : state.bindings.replay first = middle.bindings := by
        rw [hx.replay, Compile.after_of_ok hrun]
      have hevents : x.next state events = events a middle := by rw [CompileOn.next, hrun]
      rw [hevents]
      refine ⟨happens_append.2 ⟨hx.happens, hmiddle ▸ hnext.happens⟩, ?_, ?_⟩
      · rw [Bindings.replay_append, hmiddle, hnext.replay, Compile.after_bind_of_ok hrun]
      · intro domain name value error hmem
        rcases List.mem_append.1 hmem with hmem | hmem
        · rcases hx.fails hmem with ⟨final, hfails⟩
          rw [hrun] at hfails
          cases hfails
        · rcases hnext.fails hmem with ⟨final, hfails⟩
          exact ⟨final, by simp only [Bind.bind, EStateM.bind, hrun, hfails]⟩
  | error error middle =>
      have hevents : x.next state events = [] := by rw [CompileOn.next, hrun]
      rw [hevents, List.append_nil]
      refine ⟨hx.happens, ?_, ?_⟩
      · rw [hx.replay, Compile.after_bind_of_error hrun, CompileOn.after, hrun]
      · intro domain name value error' hmem
        rcases hx.fails hmem with ⟨final, hfails⟩
        exact ⟨final, by simp only [Bind.bind, EStateM.bind, hfails]⟩

/-- The same if nothing happens in the second part. -/
theorem bind_silent (hx : Traces catalog x state first)
    (hf : ∀ a middle, ((f a).after middle).bindings = middle.bindings) :
    Traces catalog (x >>= f) state first := by
  have hevents : x.next state (fun _ _ => []) = [] := by
    unfold CompileOn.next
    split <;> rfl
  have hbind := hx.bind fun a middle _ => silent (hf a middle)
  rwa [hevents, List.append_nil] at hbind

/-- The same if nothing happens in the first part. -/
theorem nil_bind (hx : Traces catalog x state [])
    (hf : ∀ a middle, x state = .ok a middle → Traces catalog (f a) middle (events a middle)) :
    Traces catalog (x >>= f) state (x.next state events) :=
  hx.bind hf

/-- A first step that changes nothing. -/
theorem silent_bind (hsame : x.after state = state)
    (hf : ∀ a, x state = .ok a state → Traces catalog (f a) state (events a state)) :
    Traces catalog (x >>= f) state (x.next state events) := by
  refine nil_bind (silent (congrArg StateOn.bindings hsame)) fun a middle hrun => ?_
  obtain rfl : middle = state := (Compile.after_of_ok hrun).symm.trans hsame
  exact hf a hrun

/-- A question before the work. -/
theorem query_bind {f : Bindings → Except SemanticError α} {g : α → Compile β}
    (hg : ∀ a, f state.bindings = .ok a → Traces catalog (g a) state (events a state)) :
    Traces catalog (Compile.query f >>= g) state ((Compile.query f).next state events) :=
  silent_bind (Compile.after_query f state) fun a hrun => hg a (Compile.query_eq_ok.1 hrun).1

/-- A scope is entered and left. -/
theorem inScope {events : List HistoryEvent} (hwork : Traces catalog work state.enter events) :
    Traces catalog (Compile.inScope work) state (.scopeEntered :: (events ++ [.scopeLeft])) where
  happens := ⟨trivial, happens_append.2 ⟨hwork.happens, trivial, trivial⟩⟩
  replay := by
    have hreplay : state.bindings.enter.replay events = (work.after state.enter).bindings :=
      hwork.replay
    rw [Compile.after_inScope, Bindings.replay_cons, Bindings.replay_append]
    simp only [HistoryEvent.apply, Bindings.replay_cons, Bindings.replay_nil, hreplay]
    rfl
  fails {domain name value error} hmem := by
    have hinside : .refused domain name value error ∈ events := by simpa using hmem
    rcases hwork.fails hinside with ⟨final, hfails⟩
    exact ⟨final.leave, by rw [Compile.inScope_eq, hfails]⟩

end Traces

/-! ## The events of statements -/

/-- A value that is refused changes nothing. -/
theorem store_of_storedText_error {domain : Domain} {name : String} {type : ValueType}
    {value : Typed} {error : SemanticError} {state : CompileState}
    (hrefused : storedText name type value = .error error) :
    store domain name type value state = .error error state := by
  simp only [store, bind, EStateM.bind, Compile.query, hrefused, Reason.lift_eq]

/-- What a stored value does to bindings. -/
theorem apply_stored {domain : Domain} {name text : String} {found : Variable} {value : Typed}
    {inferred : Option ValueType} {state : CompileState}
    (hfound : state.bindings.find? domain name = some found)
    (hstored : storedText name found.type value = .ok (text, inferred)) :
    (HistoryEvent.stored domain name value text).apply state.bindings =
      (state.settled domain name inferred).bindings := by
  rw [storedText_inferred hstored]
  simp only [HistoryEvent.apply, hfound]
  split <;> rfl

/-- Storing a value in a variable that is in sight. -/
theorem store_traces {catalog : Catalog} {domain : Domain} {name : String} {found : Variable}
    {value : Typed} {state : CompileState} (hfound : state.bindings.find? domain name = some found)
    (hknown : value.type ∈ catalog.registry.types) :
    Traces catalog (store domain name found.type value) state
      (storeEvents domain name found.type value state) := by
  cases hstored : storedText name found.type value with
  | error error =>
      have hrun : store domain name found.type value state = .error error state :=
        store_of_storedText_error hstored
      have hevents : storeEvents domain name found.type value state =
          [.refused domain name value error] := by
        rw [storeEvents, hrun]
      rw [hevents]
      refine ⟨⟨⟨found, hfound, hstored⟩, trivial⟩, ?_, ?_⟩
      · rw [CompileOn.after, hrun]
        rfl
      · intro _ _ _ _ hmem
        cases List.mem_singleton.1 hmem
        exact ⟨state, hrun⟩
  | ok result =>
      rcases result with ⟨text, inferred⟩
      have hrun : store domain name found.type value state =
          .ok text (state.settled domain name inferred) :=
        store_eq_ok.2 ⟨inferred, hstored, rfl⟩
      have hevents : storeEvents domain name found.type value state =
          [.stored domain name value text] := by
        rw [storeEvents, hrun]
      rw [hevents]
      refine .single ⟨found, inferred, hfound, hknown, hstored⟩ ?_ rfl
      rw [Compile.after_of_ok hrun]
      exact apply_stored hfound hstored

namespace Catalog

variable {catalog : Catalog} {state : CompileState}

/-- A first value is the value of a node. -/
theorem value_of_initialValue {initial : Option Node} {value : Typed}
    (hvalue : catalog.initialValue initial state = .ok (some value) state) :
    ∃ node, catalog.valueOf state.bindings node = .ok value := by
  cases initial with
  | none => cases hvalue
  | some node =>
      rcases Compile.bind_eq_ok.1 hvalue with ⟨typed, middle, hquery, hpure⟩
      rcases Compile.query_eq_ok.1 hquery with ⟨htyped, rfl⟩
      cases hpure
      exact ⟨node, htyped⟩

/-- Variables of a declared type can be stored. -/
theorem storable_of_declaredType {typeName name : String} {type : ValueType}
    (htype : catalog.declaredType typeName name = .ok type) : catalog.Storable type where
  known := (type_of_declaredType htype).1
  isEnum := (type_of_declaredType htype).2
  isVoid := (Bool.or_eq_false_iff.1 (declaredType_eq_ok.1 htype).2).2

/-- A variable gets its slot. -/
theorem allocation_traces {domain : Domain} {name : String} {type : ValueType} {slot : Slot}
    {later : Bindings} (hnew : state.bindings.find? domain name = none)
    (hstorable : catalog.Storable type)
    (hdeclare : state.bindings.declare domain name type = .ok (slot, later)) :
    Traces catalog (Compile.update fun _ => later) state [.declared domain name type] := by
  refine .single ⟨hnew, hstorable, slot, later, hdeclare⟩ ?_ rfl
  simp only [HistoryEvent.apply, hdeclare]
  rfl

section WellTyped

variable (hwell : WellTyped catalog state.bindings)
include hwell

/-- The events of an assignment. -/
theorem assign_traces (target : String) (receiver : Option Node) (value : Node) :
    Traces catalog (catalog.assign target receiver value) state
      (catalog.assignEvents target receiver value state) := by
  have hknown {typed : Typed} (htyped : catalog.valueOf state.bindings value = .ok typed) :=
    type_mem_of_valueOf hwell htyped
  cases receiver with
  | none =>
      refine .query_bind fun _ _ => .query_bind fun typed htyped =>
        .query_bind fun found hfound => ?_
      exact .bind_silent (store_traces (Storage.get_eq_ok.1 hfound) (hknown htyped)) fun _ _ => rfl
  | some receiver =>
      refine .query_bind fun typed htyped => .query_bind fun _ _ => .query_bind fun _ _ =>
        .query_bind fun found hfound => ?_
      exact .bind_silent (store_traces (Storage.get_eq_ok.1 hfound) (hknown htyped)) fun _ _ => rfl

/-- The events of a declaration. -/
theorem declare_traces (typeName name : String) (domain : Domain) (initial : Option Node) :
    Traces catalog (catalog.declare typeName name domain initial) state
      (catalog.declareEvents typeName name domain initial state) := by
  refine .silent_bind (Compile.after_query _ _) fun _ hrequired => ?_
  have hnew := (isTaken_eq_false.1 (requireFree_eq_ok.1 hrequired).1).2.2
  refine .query_bind fun type htype => ?_
  refine .silent_bind (catalog.after_initialValue initial state) fun value hvalue => ?_
  refine .query_bind fun result hresult => ?_
  rcases result with ⟨slot, bindings⟩
  refine (allocation_traces hnew (storable_of_declaredType htype) hresult).bind
    fun _ middle hmiddle => ?_
  obtain rfl := Compile.update_eq_ok.1 hmiddle
  cases value with
  | none => exact .silent rfl
  | some value =>
      rcases value_of_initialValue hvalue with ⟨node, hnode⟩
      have hfound : bindings.find? domain name = some ⟨slot, type⟩ :=
        Bindings.find?_of_declare hnew hresult
      have hstore := @store_traces catalog domain name ⟨slot, type⟩ value ⟨bindings, state.journal⟩
        hfound (type_mem_of_valueOf hwell hnode)
      exact hstore.bind_silent fun _ _ => rfl

omit hwell in
/-- The event of a constant. -/
theorem define_traces (name : String) (value : Node) :
    Traces catalog (catalog.define name value) state (catalog.defineEvents name value state) := by
  refine .silent_bind (Compile.after_query _ _) fun _ _ => ?_
  exact .query_bind fun typed _ => .single trivial rfl rfl

end WellTyped

/-! ## The events of actions and programs -/

/-- The event of a bank. -/
theorem useBank_traces (domain : Domain) (bank : Bank) (result : α) :
    Traces catalog (do useBank domain bank; pure result) state [.bankSelected domain bank] :=
  .single trivial rfl rfl

/-- The events of actions, one after the other. -/
theorem actionList_traces_of_forall {nodes : List Node}
    (hnodes : ∀ node ∈ nodes, ∀ state, WellTyped catalog state.bindings →
      Traces catalog (catalog.action node) state (catalog.actionEvents node state))
    (hwell : WellTyped catalog state.bindings) :
    Traces catalog (catalog.actionList nodes) state (catalog.actionListEvents nodes state) := by
  induction nodes generalizing state with
  | nil => exact .silent rfl
  | cons node rest ih =>
      rw [List.forall_mem_cons] at hnodes
      refine (hnodes.1 state hwell).bind fun lines middle hrun => ?_
      have hmiddle := ((action_steps node state).steps_of_ok hrun).wellTyped hwell
      exact (ih hnodes.2 hmiddle).bind_silent fun _ _ => rfl

/-- The events of an action. -/
theorem action_traces (node : Node) (hwell : WellTyped catalog state.bindings) :
    Traces catalog (catalog.action node) state (catalog.actionEvents node state) := by
  induction node generalizing state with
  | assign target receiver value =>
      exact (assign_traces hwell target receiver value).bind_silent fun _ _ => rfl
  | block statements ih =>
      refine .inScope (actionList_traces_of_forall (fun node hmem state hwell => ?_) hwell.enter)
      exact ih node hmem hwell
  | call callee receiver arguments =>
      apply Traces.silent
      rw [action, Compile.bindings_after_bind fun _ _ => rfl, Compile.after_query]
  | declare typeName name perPlayer initial =>
      exact (declare_traces hwell typeName name _ initial).bind_silent fun _ _ => rfl
  | useBank domain bank => exact useBank_traces domain bank []
  | choice condition thenBranch elseBranch _ ihthen ihelse =>
      cases elseBranch with
      | none =>
          refine .query_bind fun _ _ => ?_
          rw [List.append_nil]
          exact (ihthen hwell).bind_silent fun _ _ => rfl
      | some elseBranch =>
          refine .query_bind fun _ _ => (ihthen hwell).bind fun lines middle hrun => ?_
          have hmiddle := ((action_steps thenBranch state).steps_of_ok hrun).wellTyped hwell
          exact (ihelse elseBranch rfl hmiddle).bind_silent fun _ _ => rfl
  | _ => exact .silent rfl

/-- The events of a list of actions. -/
theorem actionList_traces (nodes : List Node) (hwell : WellTyped catalog state.bindings) :
    Traces catalog (catalog.actionList nodes) state (catalog.actionListEvents nodes state) :=
  actionList_traces_of_forall (fun node _ _ hwell => action_traces node hwell) hwell

/-- The events of a rule. -/
theorem rule_traces (name event : String) (conditions : Option (List Node)) (actions : List Node)
    (hwell : WellTyped catalog state.bindings) :
    Traces catalog (catalog.rule name event conditions actions) state
      (catalog.ruleEvents name event conditions actions state) := by
  refine .bind_silent (.query_bind fun _ _ => ?_) fun _ _ => rfl
  have hnote : Traces catalog (Compile.note (.ruleBegun name event)) state [] := .silent rfl
  refine .nil_bind hnote fun _ middle hmiddle => ?_
  obtain rfl := Compile.note_eq_ok.1 hmiddle
  refine .inScope (.query_bind fun _ _ => ?_)
  exact (actionList_traces actions hwell.enter).bind_silent fun _ _ => rfl

/-- The events of statements, one after the other. -/
theorem topLevelList_traces_of_forall {nodes : List Node}
    (hnodes : ∀ node ∈ nodes, ∀ state, WellTyped catalog state.bindings →
      Traces catalog (catalog.topLevel node) state (catalog.topLevelEvents node state))
    (hwell : WellTyped catalog state.bindings) :
    Traces catalog (catalog.topLevelList nodes) state
      (catalog.topLevelListEvents nodes state) := by
  induction nodes generalizing state with
  | nil => exact .silent rfl
  | cons node rest ih =>
      rw [List.forall_mem_cons] at hnodes
      refine (hnodes.1 state hwell).bind fun rules middle hrun => ?_
      have hmiddle := ((topLevel_steps node state).steps_of_ok hrun).wellTyped hwell
      exact (ih hnodes.2 hmiddle).bind_silent fun _ _ => rfl

/-- The events of a top level statement. -/
theorem topLevel_traces (node : Node) (hwell : WellTyped catalog state.bindings) :
    Traces catalog (catalog.topLevel node) state (catalog.topLevelEvents node state) := by
  induction node generalizing state with
  | block statements ih =>
      exact topLevelList_traces_of_forall (fun node hmem _ hwell => ih node hmem hwell) hwell
  | constant name value => exact (define_traces name value).bind_silent fun _ _ => rfl
  | declare typeName name perPlayer initial =>
      exact .bind_silent ((declare_traces hwell typeName name _ initial).bind_silent fun _ _ => rfl)
        fun _ _ => rfl
  | rule name event conditions actions =>
      exact (rule_traces name event conditions actions hwell).bind_silent fun _ _ => rfl
  | useBank domain bank => exact useBank_traces domain bank []
  | _ => exact .silent rfl

/-- The events of a list of statements. -/
theorem topLevelList_traces (nodes : List Node) (hwell : WellTyped catalog state.bindings) :
    Traces catalog (catalog.topLevelList nodes) state (catalog.topLevelListEvents nodes state) :=
  topLevelList_traces_of_forall (fun node _ _ hwell => topLevel_traces node hwell) hwell

end Catalog

/-! ## The events of a walk -/

/-- The events of a task. -/
def Task.events (catalog : Catalog) : Task → CompileState → List HistoryEvent
  | .statement node, state => catalog.topLevelEvents node state
  | .statements nodes, state => catalog.topLevelListEvents nodes state
  | .action node, state => catalog.actionEvents node state
  | .actions nodes, state => catalog.actionListEvents nodes state
  | .declaration typeName name domain initial, state =>
    catalog.declareEvents typeName name domain initial state
  | .allocation domain name type, state =>
    (Compile.query (·.declare domain name type)).next state fun _ _ => [.declared domain name type]

/-- The events of a point. -/
def Point.events (catalog : Catalog) (point : Point) : List HistoryEvent :=
  point.task.events catalog point.state

namespace Compile

variable {state middle : CompileState} {events : α → CompileState → List HistoryEvent}

/-- The events behind work that succeeds. -/
theorem next_of_ok {work : Compile α} {a : α} (hrun : work state = .ok a middle) :
    work.next state events = events a middle := by
  rw [CompileOn.next, hrun]

/-- The events behind an answer. -/
theorem next_query (f : Bindings → Except SemanticError α) (state : CompileState) {a : α}
    (hquery : f state.bindings = .ok a) : (query f).next state events = events a state :=
  next_of_ok (query_eq_ok.2 ⟨hquery, rfl⟩)

end Compile

section Walk

variable {catalog : Catalog} {point : Point}

/-- The events of a part are among those of the whole, and the events before them lead to the state
in which the part is begun. -/
theorem Leads.events {next : Point} (hleads : Leads catalog point next)
    (hwell : WellTyped catalog point.state.bindings) :
    ∃ before, before ++ next.events catalog <+: point.events catalog ∧
      point.state.bindings.replay before = next.state.bindings := by
  cases hleads with
  | block nodes state => exact ⟨[], List.prefix_rfl, rfl⟩
  | firstStatement node rest state => exact ⟨[], List.prefix_append _ _, rfl⟩
  | @otherStatements node state middle rules rest hrun =>
      refine ⟨catalog.topLevelEvents node state, ?_, ?_⟩
      · show _ <+: catalog.topLevelListEvents (node :: rest) state
        rw [Catalog.topLevelListEvents, Compile.next_of_ok hrun]
        exact List.prefix_rfl
      · rw [(Catalog.topLevel_traces node hwell).replay, Compile.after_of_ok hrun]
  | topLevelDeclaration typeName name perPlayer initial state => exact ⟨[], List.prefix_rfl, rfl⟩
  | @rule name event text conditions texts state actions hevent hconditions =>
      refine ⟨[.scopeEntered], ?_, rfl⟩
      show _ <+: catalog.ruleEvents name event conditions actions state
      have hnote : (Compile.note (.ruleBegun name event) : Compile Unit) state =
          .ok () ⟨state.bindings, state.journal.push (.ruleBegun name event)⟩ := rfl
      rw [Catalog.ruleEvents, Compile.next_query _ state hevent, Compile.next_of_ok hnote,
        Compile.next_query (catalog.ruleConditions · conditions) _ hconditions]
      exact List.prefix_append _ [HistoryEvent.scopeLeft]
  | firstAction node rest state => exact ⟨[], List.prefix_append _ _, rfl⟩
  | @otherActions node state middle lines rest hrun =>
      refine ⟨catalog.actionEvents node state, ?_, ?_⟩
      · show _ <+: catalog.actionListEvents (node :: rest) state
        rw [Catalog.actionListEvents, Compile.next_of_ok hrun]
        exact List.prefix_rfl
      · rw [(Catalog.action_traces node hwell).replay, Compile.after_of_ok hrun]
  | innerBlock nodes state =>
      exact ⟨[.scopeEntered], List.prefix_append _ [HistoryEvent.scopeLeft], rfl⟩
  | @thenBranch condition text state thenBranch elseBranch hcondition =>
      refine ⟨[], ?_, rfl⟩
      show _ <+: catalog.actionEvents (.choice condition thenBranch elseBranch) state
      rw [Catalog.actionEvents,
        Compile.next_query (catalog.condition · condition) state hcondition]
      exact List.prefix_append _ _
  | @elseBranch condition thenBranch text lines state middle elseBranch hcondition hrun =>
      refine ⟨catalog.actionEvents thenBranch state, ?_, ?_⟩
      · show _ <+: catalog.actionEvents (.choice condition thenBranch (some elseBranch)) state
        rw [Catalog.actionEvents,
          Compile.next_query (catalog.condition · condition) state hcondition]
        simp only [Compile.next_of_ok hrun]
        exact List.prefix_rfl
      · rw [(Catalog.action_traces thenBranch hwell).replay, Compile.after_of_ok hrun]
  | innerDeclaration typeName name perPlayer initial state => exact ⟨[], List.prefix_rfl, rfl⟩
  | @allocation typeName name domain initial type value state hrequired htype hvalue =>
      -- Only the slot is part of the allocation; the first value is stored after it.
      refine ⟨[], ?_, rfl⟩
      show (Compile.query (·.declare domain name type)).next state
          (fun _ _ => [.declared domain name type]) <+:
        catalog.declareEvents typeName name domain initial state
      rw [Catalog.declareEvents, Compile.next_of_ok hrequired,
        Compile.next_query (fun _ => catalog.declaredType typeName name) state htype,
        Compile.next_of_ok hvalue]
      unfold CompileOn.next
      split
      · exact List.prefix_append [HistoryEvent.declared domain name type] _
      · exact List.prefix_rfl

/-- The events of a task lead to the state in which it ends. -/
theorem Reaches.traces {session : Session} {program : Node}
    (hreaches : Reaches catalog (.start session program) point)
    (hwell : WellTyped catalog point.state.bindings) :
    Traces catalog (point.task.run catalog) point.state (point.events catalog) := by
  rcases point with ⟨task, state⟩
  cases task with
  | statement node => exact (Catalog.topLevel_traces node hwell).bind_silent fun _ _ => rfl
  | statements nodes => exact (Catalog.topLevelList_traces nodes hwell).bind_silent fun _ _ => rfl
  | action node => exact (Catalog.action_traces node hwell).bind_silent fun _ _ => rfl
  | actions nodes => exact (Catalog.actionList_traces nodes hwell).bind_silent fun _ _ => rfl
  | declaration typeName name domain initial =>
      exact (Catalog.declare_traces hwell typeName name domain initial).bind_silent fun _ _ => rfl
  | allocation domain name type =>
      rcases hreaches.isTaken_eq_false with ⟨hfree, typeName, htype⟩
      refine .query_bind fun result hresult => ?_
      exact Catalog.allocation_traces (Catalog.isTaken_eq_false.1 hfree).2.2
        (Catalog.storable_of_declaredType htype) hresult

/-- The events of a point are among those of its program, and the events before them lead to the
state of the point. -/
theorem Reaches.events {session : Session} {program : Node}
    (hreaches : Reaches catalog (.start session program) point)
    (hwell : WellTyped catalog session.bindings) :
    ∃ before, before ++ point.events catalog <+: (Point.start session program).events catalog ∧
      session.bindings.replay before = point.state.bindings := by
  induction hreaches with
  | refl => exact ⟨[], List.prefix_rfl, rfl⟩
  | tail hreaches hleads ih =>
      rcases ih with ⟨before, hbefore, hreplay⟩
      have hpoint := Reaches.wellTyped_of_mem hreaches hwell _ List.mem_cons_self
      rcases hleads.events hpoint with ⟨more, hmore, hreplay'⟩
      refine ⟨before ++ more, ?_, ?_⟩
      · rw [List.append_assoc]
        exact ((List.prefix_append_right_inj before).2 hmore).trans hbefore
      · rw [Bindings.replay_append, hreplay, hreplay']

end Walk

/-! ## The history of a session -/

namespace Session

variable {catalog : Catalog} {session : Session}

/-- The history of programs behind others. -/
theorem history_append (session : Session) (catalog : Catalog) (first second : List Node) :
    session.history catalog (first ++ second) =
      session.history catalog first ++
        (session.compileAll catalog first).history catalog second := by
  induction first generalizing session with
  | nil => rfl
  | cons program rest ih =>
      rw [List.cons_append, history, history, ih, List.cons_append, List.append_assoc]
      rfl

/-- The history of a session is possible and leads from one program to the next. -/
theorem happens_history (programs : List Node) (hwell : WellTyped catalog session.bindings)
    {bindings : Bindings} (hsession : Session.ofBindings bindings = session) :
    Happens catalog bindings (session.history catalog programs) ∧
      Session.ofBindings (bindings.replay (session.history catalog programs)) =
        session.compileAll catalog programs := by
  induction programs generalizing session bindings with
  | nil => exact ⟨trivial, hsession⟩
  | cons program rest ih =>
      have hbegin : HistoryEvent.programBegun.apply bindings = session.bindings := by
        rw [HistoryEvent.apply, hsession]
      have hreaches : Reaches catalog (.start session program) (.start session program) := .refl
      have htraces := hreaches.traces hwell
      have hnext := session_compile_eq session catalog program
      have hwell' : WellTyped catalog (session.compile catalog program).session.bindings :=
        wellTyped_compileAll catalog [program] hwell
      rcases ih hwell' hnext.symm with ⟨hhappens, hend⟩
      refine ⟨⟨trivial, ?_⟩, ?_⟩
      · rw [hbegin]
        exact happens_append.2 ⟨htraces.happens, htraces.replay ▸ hhappens⟩
      · rw [history, Bindings.replay_cons, hbegin, Bindings.replay_append]
        exact htraces.replay ▸ hend

/-- The program that refuses a value fails. -/
theorem outcome_of_refused {program : Node} (hwell : WellTyped catalog session.bindings)
    {domain : Domain} {name : String} {value : Typed} {error : SemanticError}
    (hmem : .refused domain name value error ∈ (Point.start session program).events catalog) :
    (session.compile catalog program).outcome = .error error := by
  have htraces := @Catalog.topLevel_traces catalog ⟨session.bindings, #[]⟩ program hwell
  rcases htraces.fails hmem with ⟨final, hfails⟩
  have hrun : catalog.program program ⟨session.bindings, #[]⟩ = .error error final := by
    simp only [Catalog.program, bind, EStateM.bind, hfails]
  rw [compile, hrun]

/-- A value that is refused is the reason why a program fails. -/
theorem fails_of_refused {programs : List Node} (hwell : WellTyped catalog session.bindings)
    {domain : Domain} {name : String} {value : Typed} {error : SemanticError}
    (hmem : .refused domain name value error ∈ session.history catalog programs) :
    ∃ earlier program later, programs = earlier ++ program :: later ∧
      ((session.compileAll catalog earlier).compile catalog program).outcome = .error error := by
  induction programs generalizing session with
  | nil => cases hmem
  | cons program rest ih =>
      rcases List.mem_cons.1 hmem with hbegun | hmem
      · cases hbegun
      rcases List.mem_append.1 hmem with hmem | hmem
      · exact ⟨[], program, rest, rfl, outcome_of_refused hwell hmem⟩
      · have hnext : WellTyped catalog (session.compile catalog program).session.bindings :=
          wellTyped_compileAll catalog [program] hwell
        rcases ih hnext hmem with ⟨earlier, failing, later, rfl, houtcome⟩
        exact ⟨program :: earlier, failing, later, rfl, houtcome⟩

end Session

/-- The history of a session passes the states of all points. -/
theorem Reaches.history {catalog : Catalog} {earlier : List Node} {program : Node} {point : Point}
    (hreaches : Reaches catalog (.start (Session.initial.compileAll catalog earlier) program) point)
    (later : List Node) :
    ∃ past, past ++ point.events catalog <+:
        Session.initial.history catalog (earlier ++ program :: later) ∧
      Session.initial.bindings.replay past = point.state.bindings ∧
      Session.initial.bindings.replay (past ++ point.events catalog) =
        (point.after catalog).bindings := by
  have hwell := Session.wellTyped_compileAll catalog earlier .initial
  rcases hreaches.events hwell with ⟨before, hbefore, hreplay⟩
  have htraces := hreaches.traces (hreaches.wellTyped_of_mem hwell _ List.mem_cons_self)
  have hbegin : HistoryEvent.programBegun.apply
      (Session.initial.bindings.replay (Session.initial.history catalog earlier)) =
        (Session.initial.compileAll catalog earlier).bindings := by
    rw [HistoryEvent.apply, (Session.happens_history earlier .initial rfl).2]
  have hpast : Session.initial.bindings.replay
      (Session.initial.history catalog earlier ++ .programBegun :: before) =
        point.state.bindings := by
    rw [Bindings.replay_append, Bindings.replay_cons, hbegin, hreplay]
  refine ⟨Session.initial.history catalog earlier ++ .programBegun :: before, ?_, hpast, ?_⟩
  · rw [Session.history_append, List.append_assoc, List.prefix_append_right_inj, List.cons_append,
      Session.history, List.prefix_cons_inj]
    exact hbefore.trans (List.prefix_append _ _)
  · rw [Bindings.replay_append, hpast]
    exact htraces.replay

end Workshop

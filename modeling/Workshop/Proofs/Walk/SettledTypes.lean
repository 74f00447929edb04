import Mathlib.Data.List.Induction
import Workshop.Proofs.Walk.History

/-!
# Settled types

A variable that is declared without a type gets that of the first value stored
in it which has one.  From then on, and from its declaration if this names a
type, the type of the variable stays the same for as long as the variable is in
sight, over scopes, rules and programs.

Main definitions:

- `settledType`: the type of a variable after some values have been stored in it.
- `SettledBy`: the events of a session account for a variable and its type.
- `Session.Moment`: bindings at some moment of a session.

Main results:

- Theorem `HistoryEvent.mem_entries_apply`: what an event does to the variables
  in sight.
- Theorem `Happens.accounted`: events that are possible account for all variables.
- Theorem `first_value_settles_type`: the first value settles the type of a
  variable for good.
-/

namespace Workshop

/-! ## Types of variables -/

/-- The type of a variable after values have been stored in it: the first that is not dynamic, of
the one in its declaration and those of the values. -/
def settledType (declared : ValueType) (values : List Typed) : ValueType :=
  ((declared :: values.map Typed.type).find? fun type => !type.isDynamic).getD declared

@[simp]
theorem settledType_nil (declared : ValueType) : settledType declared [] = declared := by
  unfold settledType
  cases hdynamic : declared.isDynamic <;> simp [hdynamic]

/-- A settled type stays. -/
theorem settledType_of_not_isDynamic {declared : ValueType} (hsettled : declared.isDynamic = false)
    (values : List Typed) : settledType declared values = declared := by
  simp [settledType, hsettled]

/-- The first settled type is taken. -/
theorem settledType_of_isDynamic {declared : ValueType} (hdynamic : declared.isDynamic = true)
    (values : List Typed) :
    settledType declared values =
      ((values.map Typed.type).find? fun type => !type.isDynamic).getD declared := by
  simp [settledType, hdynamic]

/-- One value after others. -/
theorem settledType_append (declared : ValueType) (values more : List Typed) :
    settledType declared (values ++ more) = settledType (settledType declared values) more := by
  cases hdynamic : declared.isDynamic with
  | false =>
      rw [settledType_of_not_isDynamic hdynamic, settledType_of_not_isDynamic hdynamic,
        settledType_of_not_isDynamic hdynamic]
  | true =>
      rw [settledType_of_isDynamic hdynamic, settledType_of_isDynamic hdynamic, List.map_append,
        List.find?_append]
      cases hfirst : (values.map Typed.type).find? fun type => !type.isDynamic with
      | none => exact (settledType_of_isDynamic hdynamic more).symm
      | some type =>
          have hsettled : type.isDynamic = false := by simpa using List.find?_some hfirst
          exact (settledType_of_not_isDynamic hsettled more).symm

/-- The type behind one value. -/
theorem settledType_singleton (declared : ValueType) (value : Typed) :
    settledType declared [value] =
      if declared.isDynamic && !value.type.isDynamic then value.type else declared := by
  cases hdynamic : declared.isDynamic with
  | false => exact settledType_of_not_isDynamic hdynamic [value]
  | true =>
      rw [settledType_of_isDynamic hdynamic]
      cases hvalue : value.type.isDynamic <;> simp [hvalue]

/-! ## What events do to variables -/

namespace HistoryEvent

/-- The value that an event stores in a variable. -/
def valueStored? (domain : Domain) (name : String) : HistoryEvent → Option Typed
  | stored domain' name' value _ => if domain' = domain ∧ name' = name then some value else none
  | _ => none

/-- The type with which an event declares a variable. -/
def typeDeclared? (domain : Domain) (name : String) : HistoryEvent → Option ValueType
  | declared domain' name' type => if domain' = domain ∧ name' = name then some type else none
  | _ => none

/-- Values come from stores. -/
theorem valueStored?_eq_some {domain : Domain} {name : String} {event : HistoryEvent}
    {value : Typed} (hvalue : event.valueStored? domain name = some value) :
    ∃ text, event = .stored domain name value text := by
  cases event with
  | stored domain' name' value' text =>
      simp only [valueStored?] at hvalue
      split at hvalue
      · rename_i hsame
        cases hvalue
        exact ⟨text, by rw [hsame.1, hsame.2]⟩
      · cases hvalue
  | _ => cases hvalue

/-- A variable in sight is one that the event declares, or it was in sight before and gets its type
from the value that the event stores in it. -/
inductive Accounts (bindings : Bindings) (domain : Domain) (name : String) (found : Variable) :
    HistoryEvent → Prop
  | declared {later : Bindings}
      (hdeclare : bindings.declare domain name found.type = .ok (found.slot, later)) :
      Accounts bindings domain name found (.declared domain name found.type)
  | kept {event : HistoryEvent} {type : ValueType}
      (hmem : (name, ⟨found.slot, type⟩) ∈ bindings.entries domain)
      (hother : event.typeDeclared? domain name = none)
      (htype : found.type = settledType type (event.valueStored? domain name).toList) :
      Accounts bindings domain name found event

/-- A variable that an event does not touch. -/
theorem Accounts.of_mem {bindings : Bindings} {domain : Domain} {name : String} {found : Variable}
    {event : HistoryEvent} (hmem : (name, found) ∈ bindings.entries domain)
    (hother : event.typeDeclared? domain name = none)
    (hvalue : event.valueStored? domain name = none) : Accounts bindings domain name found event :=
  .kept hmem hother (by rw [hvalue, Option.toList_none, settledType_nil])

variable {catalog : Catalog} {bindings : Bindings} {event : HistoryEvent}

section Names

variable (hnames : ∀ domain, ((bindings.entries domain).map Prod.fst).Nodup)
include hnames

/-- A store accounts for the type. -/
theorem accounts_of_stored {domain domain' : Domain} {name name' text : String} {value : Typed}
    {found stored : Variable} (hstored : bindings.find? domain' name' = some stored)
    (hmem : (name, found) ∈
      ((HistoryEvent.stored domain' name' value text).apply bindings).entries domain) :
    Accounts bindings domain name found (.stored domain' name' value text) := by
  have hlookup := hstored
  rw [Bindings.find?_eq_lookup] at hlookup
  simp only [apply, hstored] at hmem
  split at hmem
  · rename_i hsettles
    rw [Bindings.entries_retype] at hmem
    split at hmem
    · rename_i hdomain
      subst hdomain
      rcases Table.mem_change (hnames domain') hmem with ⟨before, hbefore, hentry⟩ | ⟨hname, hmem⟩
      · cases hlookup.symm.trans hbefore
        cases hentry
        refine .kept (Table.mem_of_lookup hlookup) rfl ?_
        rw [valueStored?, if_pos ⟨rfl, rfl⟩, Option.toList_some, settledType_singleton,
          if_pos hsettles]
      · exact .of_mem hmem rfl (if_neg fun hsame => hname hsame.2.symm)
    · rename_i hdomain
      exact .of_mem hmem rfl (if_neg fun hsame => hdomain hsame.1)
  · rename_i hkeeps
    -- Nothing changes, but the value counts among those stored in its own variable.
    by_cases hsame : domain' = domain ∧ name' = name
    · obtain ⟨rfl, rfl⟩ := hsame
      obtain rfl := Table.eq_of_lookup (hnames domain') hlookup hmem
      refine .kept hmem rfl ?_
      rw [valueStored?, if_pos ⟨rfl, rfl⟩, Option.toList_some, settledType_singleton,
        if_neg hkeeps]
    · exact .of_mem hmem rfl (if_neg hsame)

/-- What an event does to the variables in sight. -/
theorem mem_entries_apply (hfits : event.Fits catalog bindings) {domain : Domain} {name : String}
    {found : Variable} (hmem : (name, found) ∈ (event.apply bindings).entries domain) :
    Accounts bindings domain name found event := by
  cases event with
  | programBegun =>
      cases domain with
      | global => cases hmem
      | player => exact .of_mem hmem rfl rfl
  | scopeEntered =>
      rw [apply, Bindings.entries_enter] at hmem
      exact .of_mem hmem rfl rfl
  | scopeLeft => exact .of_mem ((bindings.entries_leave_sublist domain).subset hmem) rfl rfl
  | bankSelected domain' bank =>
      rw [apply, Bindings.entries_useBank] at hmem
      exact .of_mem hmem rfl rfl
  | defined name' value =>
      cases domain with
      | global => exact .of_mem hmem rfl rfl
      | player => exact .of_mem hmem rfl rfl
  | declared domain' name' type =>
      rcases hfits with ⟨hnew, _, slot, later, hdeclare⟩
      simp only [apply, hdeclare] at hmem
      rcases Bindings.declare_of_find?_none hnew hdeclare with ⟨counters, _, rfl⟩
      rw [Bindings.find?_eq_lookup, Table.lookup_eq_none_iff] at hnew
      rw [Bindings.entries_extend] at hmem
      split at hmem
      · rename_i hdomain
        subst hdomain
        rcases List.mem_cons.1 hmem with hadded | hbefore
        · cases hadded
          exact .declared hdeclare
        · refine .of_mem hbefore (if_neg fun hsame => hnew ?_) rfl
          rw [hsame.2]
          exact List.mem_map_of_mem hbefore
      · rename_i hdomain
        exact .of_mem hmem (if_neg fun hsame => hdomain hsame.1) rfl
  | stored domain' name' value text =>
      rcases hfits with ⟨stored, _, hstored, _⟩
      exact accounts_of_stored hnames hstored hmem
  | refused domain' name' value error => exact .of_mem hmem rfl rfl

/-- No name comes into sight twice. -/
theorem nodup_names_apply (hfits : event.Fits catalog bindings) (domain : Domain) :
    (((event.apply bindings).entries domain).map Prod.fst).Nodup := by
  cases event with
  | programBegun =>
      cases domain with
      | global => exact List.nodup_nil
      | player => exact hnames .player
  | scopeEntered =>
      rw [apply, Bindings.entries_enter]
      exact hnames domain
  | scopeLeft => exact ((bindings.entries_leave_sublist domain).map Prod.fst).nodup (hnames domain)
  | bankSelected domain' bank =>
      rw [apply, Bindings.entries_useBank]
      exact hnames domain
  | defined name value =>
      cases domain with
      | global => exact hnames .global
      | player => exact hnames .player
  | declared domain' name type =>
      rcases hfits with ⟨hnew, _, slot, later, hdeclare⟩
      simp only [apply, hdeclare]
      rcases Bindings.declare_of_find?_none hnew hdeclare with ⟨counters, _, rfl⟩
      rw [Bindings.find?_eq_lookup, Table.lookup_eq_none_iff] at hnew
      rw [Bindings.entries_extend]
      split
      · rename_i hdomain
        subst hdomain
        exact List.nodup_cons.2 ⟨hnew, hnames domain'⟩
      · exact hnames domain
  | stored domain' name value text =>
      rcases hfits with ⟨found, _, hfound, _⟩
      simp only [apply, hfound]
      split
      · rw [Bindings.entries_retype]
        split
        · rw [Table.map_fst_change]
          exact hnames domain
        · exact hnames domain
      · exact hnames domain
  | refused domain' name value error => exact hnames domain

/-- Variables only get types that they can have. -/
theorem storable_apply (hfits : event.Fits catalog bindings)
    (hstorable : ∀ domain, ∀ entry ∈ bindings.entries domain, catalog.Storable entry.2.type)
    (domain : Domain) :
    ∀ entry ∈ (event.apply bindings).entries domain, catalog.Storable entry.2.type := by
  rintro ⟨name, found⟩ hmem
  cases mem_entries_apply hnames hfits hmem with
  | declared _ => exact hfits.2.1
  | kept hbefore _ htype =>
      have htype' := hstorable domain _ hbefore
      rw [htype]
      cases hvalue : event.valueStored? domain name with
      | none =>
          rw [Option.toList_none, settledType_nil]
          exact htype'
      | some value =>
          rcases valueStored?_eq_some hvalue with ⟨text, rfl⟩
          rcases hfits with ⟨_, _, _, hknown, hstored⟩
          rcases storable_of_storedText hstored with ⟨henum, hvoid⟩
          rw [Option.toList_some, settledType_singleton]
          split
          · exact ⟨hknown, henum, hvoid⟩
          · exact htype'

end Names

end HistoryEvent

/-! ## What a history does to variables -/

/-- The events of a session account for a variable: a declaration has given it its slot, no other
variable of its name has been declared since then, and the values stored since then have settled
its type. -/
def SettledBy (past : List HistoryEvent) (domain : Domain) (name : String) (found : Variable) :
    Prop :=
  ∃ before declared since later, past = before ++ .declared domain name declared :: since ∧
    (Session.initial.bindings.replay before).declare domain name declared =
      .ok (found.slot, later) ∧
    (∀ type, .declared domain name type ∉ since) ∧
    found.type = settledType declared (since.filterMap (HistoryEvent.valueStored? domain name))

/-- What is true of the variables in sight after some events. -/
structure Accounted (catalog : Catalog) (past : List HistoryEvent) : Prop where
  names : ∀ domain, (((Session.initial.bindings.replay past).entries domain).map Prod.fst).Nodup
  types : ∀ domain, ∀ entry ∈ (Session.initial.bindings.replay past).entries domain,
    catalog.Storable entry.2.type
  settled : ∀ {domain : Domain} {name : String} {found : Variable},
    (name, found) ∈ (Session.initial.bindings.replay past).entries domain →
    SettledBy past domain name found

variable {catalog : Catalog} {past : List HistoryEvent} {event : HistoryEvent}

/-- One more event settles a type. -/
theorem SettledBy.step {domain : Domain} {name : String} {slot : Slot} {type type' : ValueType}
    (hsettled : SettledBy past domain name ⟨slot, type⟩)
    (hother : event.typeDeclared? domain name = none)
    (htype : type' = settledType type (event.valueStored? domain name).toList) :
    SettledBy (past ++ [event]) domain name ⟨slot, type'⟩ := by
  rcases hsettled with ⟨before, declared, since, later, rfl, hdeclare, honly, hvalues⟩
  refine ⟨before, declared, since ++ [event], later, ?_, hdeclare, ?_, ?_⟩
  · rw [List.append_assoc, List.cons_append]
  · intro redeclared hmem
    rcases List.mem_append.1 hmem with hmem | hmem
    · exact honly redeclared hmem
    · rw [← List.mem_singleton.1 hmem, HistoryEvent.typeDeclared?, if_pos ⟨rfl, rfl⟩] at hother
      cases hother
  · have hlast : [event].filterMap (HistoryEvent.valueStored? domain name) =
        (event.valueStored? domain name).toList := by
      cases hvalue : event.valueStored? domain name <;> simp [hvalue]
    rw [List.filterMap_append, hlast, settledType_append, ← hvalues]
    exact htype

namespace Accounted

/-- At the start there is nothing to account for. -/
theorem initial : Accounted catalog [] where
  names domain := by cases domain <;> exact List.nodup_nil
  types domain := by cases domain <;> exact fun _ hmem => (List.not_mem_nil hmem).elim
  settled {domain _ _} hmem := by cases domain <;> cases hmem

/-- One more event is accounted for. -/
theorem step (haccounted : Accounted catalog past)
    (hfits : event.Fits catalog (Session.initial.bindings.replay past)) :
    Accounted catalog (past ++ [event]) where
  names domain := by
    rw [Bindings.replay_append]
    exact HistoryEvent.nodup_names_apply haccounted.names hfits domain
  types domain := by
    rw [Bindings.replay_append]
    exact HistoryEvent.storable_apply haccounted.names hfits haccounted.types domain
  settled {domain name found} hmem := by
    rw [Bindings.replay_append] at hmem
    cases HistoryEvent.mem_entries_apply haccounted.names hfits hmem with
    | declared hdeclare =>
        exact ⟨past, found.type, [], _, rfl, hdeclare, fun _ => List.not_mem_nil,
          (settledType_nil found.type).symm⟩
    | kept hbefore hother htype => exact (haccounted.settled hbefore).step hother htype

end Accounted

/-- Events that are possible account for all variables. -/
theorem Happens.accounted (hhappens : Happens catalog Session.initial.bindings past) :
    Accounted catalog past := by
  -- The last event is split off: what it does is known from the bindings that the others leave.
  induction past using List.reverseRecOn with
  | nil => exact .initial
  | append_singleton past event ih =>
      rcases happens_append.1 hhappens with ⟨hpast, hfits, _⟩
      exact (ih hpast).step hfits

/-! ## Storing in a variable of a settled type -/

/-- A line that writes a text into a slot. -/
def WritesTo (domain : Domain) (slot : Slot) (text line : String) : Prop :=
  match domain with
  | .global => line = Term.writeGlobal slot text
  | .player => ∃ player, line = Term.writePlayer player slot text

/-- The only error of a conversion. -/
theorem ValueType.error_of_adapt {target source : ValueType} {text : String}
    {error : SemanticError} (hrefused : target.adapt source text = .error error) :
    error = .notConvertible source.name target.name := by
  unfold adapt at hrefused
  split at hrefused
  · split at hrefused
    · cases hrefused
    · split at hrefused <;> cases hrefused
  · cases hrefused
    rfl

section Settled

variable {type : ValueType} (hsettled : type.isDynamic = false)
include hsettled

/-- A value of a settled type is converted. -/
theorem storedText_of_settled {name text : String} {value : Typed} {inferred : Option ValueType}
    (hstored : storedText name type value = .ok (text, inferred)) :
    value.as type = .ok text ∧ inferred = none := by
  unfold storedText at hstored
  rw [hsettled] at hstored
  split at hstored
  · cases hstored
  · rcases Except.bind_eq_ok.1 hstored with ⟨adapted, hadapted, hresult⟩
    cases hresult
    exact ⟨hadapted, rfl⟩

/-- The errors of a store. -/
theorem error_of_storedText {name : String} {value : Typed} {error : SemanticError}
    (hrefused : storedText name type value = .error error) :
    error ∈ [SemanticError.notStorable name value.type.name,
      .notConvertible value.type.name type.name] := by
  unfold storedText at hrefused
  rw [hsettled] at hrefused
  split at hrefused
  · cases hrefused
    exact List.mem_cons_self
  · cases hadapted : value.as type with
    | ok text =>
        rw [hadapted] at hrefused
        cases hrefused
    | error reason =>
        rw [hadapted] at hrefused
        cases hrefused
        obtain rfl := ValueType.error_of_adapt hadapted
        exact List.mem_cons_of_mem _ List.mem_cons_self

/-- A value is converted, or it is refused because it cannot be stored or not be converted. -/
theorem store_of_settled (domain : Domain) (name : String) (value : Typed) (state : CompileState) :
    (∃ text, value.as type = .ok text ∧ store domain name type value state = .ok text state) ∨
      ∃ error ∈ [SemanticError.notStorable name value.type.name,
          .notConvertible value.type.name type.name],
        store domain name type value state = .error error state := by
  cases hstored : storedText name type value with
  | ok result =>
      rcases result with ⟨text, inferred⟩
      rcases storedText_of_settled hsettled hstored with ⟨htext, rfl⟩
      exact .inl ⟨text, htext, store_eq_ok.2 ⟨none, hstored, rfl⟩⟩
  | error error =>
      exact .inr ⟨error, error_of_storedText hsettled hstored, store_of_storedText_error hstored⟩

end Settled

/-- An assignment to a variable of a settled type writes the converted value. -/
theorem Catalog.assign_of_settled {target line : String} {receiver : Option Node} {value : Node}
    {found : Variable} {state final : CompileState}
    (hfound : state.bindings.find? (.ofPerPlayer receiver.isSome) target = some found)
    (hsettled : found.type.isDynamic = false)
    (hrun : catalog.assign target receiver value state = .ok line final) :
    final = state ∧ ∃ typed text, catalog.valueOf state.bindings value = .ok typed ∧
      typed.as found.type = .ok text ∧
      WritesTo (.ofPerPlayer receiver.isSome) found.slot text line := by
  cases receiver with
  | none =>
      rcases assign_none_eq_ok.1 hrun with
        ⟨_, typed, found', text, inferred, htyped, hfound', hstored, rfl, rfl⟩
      cases hfound.symm.trans hfound'
      rcases storedText_of_settled hsettled hstored with ⟨htext, rfl⟩
      exact ⟨rfl, typed, text, htyped, htext, rfl⟩
  | some receiver =>
      rcases assign_some_eq_ok.1 hrun with
        ⟨typed, _, player, found', text, inferred, htyped, _, _, hfound', hstored, rfl, rfl⟩
      cases hfound.symm.trans hfound'
      rcases storedText_of_settled hsettled hstored with ⟨htext, rfl⟩
      exact ⟨rfl, typed, text, htyped, htext, player, rfl⟩

/-! ## Sessions -/

/-- Bindings at some moment of a session: those after the first events of its history. -/
structure Session.Moment (catalog : Catalog) (programs : List Node) (past : List HistoryEvent)
    (bindings : Bindings) : Prop where
  within : past <+: Session.initial.history catalog programs
  replay : Session.initial.bindings.replay past = bindings

namespace Session.Moment

variable {programs : List Node} {bindings later : Bindings} {domain : Domain} {name : String}
  {found : Variable}

variable (hmoment : Moment catalog programs past bindings)

include hmoment

/-- The past happens. -/
theorem happens : Happens catalog Session.initial.bindings past := by
  rcases hmoment.within with ⟨future, hhistory⟩
  have hinitial : Session.ofBindings Session.initial.bindings = Session.initial := rfl
  have hwell : WellTyped catalog Session.initial.bindings := .initial
  have hhappens := (Session.happens_history programs hwell hinitial).1
  rw [← hhistory] at hhappens
  exact (happens_append.1 hhappens).1

/-- An event that comes next in a session is possible. -/
theorem fits (hnext : Moment catalog programs (past ++ [event]) later) :
    event.Fits catalog bindings ∧ later = event.apply bindings := by
  have hfits := (happens_append.1 hnext.happens).2.1
  have hlater := hnext.replay
  rw [Bindings.replay_append] at hlater
  rw [hmoment.replay] at hfits hlater
  exact ⟨hfits, hlater.symm⟩

/-- No name is declared twice. -/
theorem nodup_names (domain : Domain) : ((bindings.entries domain).map Prod.fst).Nodup := by
  rw [← hmoment.replay]
  exact hmoment.happens.accounted.names domain

/-- Variables have storable types. -/
theorem storable (hfound : bindings.find? domain name = some found) :
    catalog.Storable found.type := by
  rw [← hmoment.replay, Bindings.find?_eq_lookup] at hfound
  exact hmoment.happens.accounted.types domain _ (Table.mem_of_lookup hfound)

/-- The past settles the type of a variable. -/
theorem settledBy (hfound : bindings.find? domain name = some found) :
    SettledBy past domain name found := by
  rw [← hmoment.replay, Bindings.find?_eq_lookup] at hfound
  exact hmoment.happens.accounted.settled (Table.mem_of_lookup hfound)

/-- An event changes the type of a variable only if it was dynamic, and by storing a value in it. -/
theorem type_of_next (hnext : Moment catalog programs (past ++ [event]) later) {found' : Variable}
    (hfound : bindings.find? domain name = some found)
    (hfound' : later.find? domain name = some found') :
    found'.slot = found.slot ∧ (found'.type = found.type ∨
      found.type.isDynamic = true ∧ ∃ value text, event = .stored domain name value text ∧
        value.type.isDynamic = false ∧ found'.type = value.type) := by
  rcases hmoment.fits hnext with ⟨hfits, rfl⟩
  have hnew : (name, found') ∈ (event.apply bindings).entries domain := by
    rw [Bindings.find?_eq_lookup] at hfound'
    exact Table.mem_of_lookup hfound'
  cases HistoryEvent.mem_entries_apply hmoment.nodup_names hfits hnew with
  | declared hdeclare =>
      -- A name in sight is not declared again.
      rw [hfits.1] at hfound
      cases hfound
  | @kept _ type hmem _ htype =>
      rw [Bindings.find?_eq_lookup] at hfound
      obtain rfl := Table.eq_of_lookup (hmoment.nodup_names domain) hfound hmem
      refine ⟨rfl, ?_⟩
      cases hvalue : event.valueStored? domain name with
      | none => exact .inl (by rw [htype, hvalue, Option.toList_none, settledType_nil])
      | some value =>
          rcases HistoryEvent.valueStored?_eq_some hvalue with ⟨text, hevent⟩
          rw [hvalue, Option.toList_some, settledType_singleton] at htype
          split at htype
          · rename_i hsettles
            rw [Bool.and_eq_true, Bool.not_eq_true'] at hsettles
            exact .inr ⟨hsettles.1, value, text, hevent, hsettles.2, htype⟩
          · exact .inl htype

/-- A value that is stored has been stored in a variable in sight. -/
theorem store_of_stored {text : String} {value : Typed}
    (hnext : Moment catalog programs (past ++ [.stored domain name value text]) later) :
    ∃ found, bindings.find? domain name = some found ∧
      ∀ journal, ∃ journal', store domain name found.type value ⟨bindings, journal⟩ =
        .ok text ⟨later, journal'⟩ := by
  rcases hmoment.fits hnext with ⟨⟨found, inferred, hfound, _, hstored⟩, rfl⟩
  refine ⟨found, hfound, fun journal => ?_⟩
  have hlater := @apply_stored domain name text found value inferred ⟨bindings, journal⟩ hfound
    hstored
  exact ⟨_, store_eq_ok.2 ⟨inferred, hstored, by rw [hlater]⟩⟩

/-- A value that is refused has been refused by a variable in sight, and its program fails. -/
theorem store_of_refused {value : Typed} {error : SemanticError}
    (hnext : Moment catalog programs (past ++ [.refused domain name value error]) later) :
    later = bindings ∧
      (∃ found, bindings.find? domain name = some found ∧
        ∀ journal, store domain name found.type value ⟨bindings, journal⟩ =
          .error error ⟨bindings, journal⟩) ∧
      ∃ earlier program rest, programs = earlier ++ program :: rest ∧
        ((Session.initial.compileAll catalog earlier).compile catalog program).outcome =
          .error error := by
  rcases hmoment.fits hnext with ⟨⟨found, hfound, hrefused⟩, hlater⟩
  refine ⟨hlater, ⟨found, hfound, fun journal => store_of_storedText_error hrefused⟩, ?_⟩
  have hmem : HistoryEvent.refused domain name value error ∈
      Session.initial.history catalog programs :=
    hnext.within.subset (List.mem_append_right past (List.mem_singleton.2 rfl))
  exact Session.fails_of_refused .initial hmem

end Session.Moment

/-- A walk through one of the programs passes its points. -/
theorem Reaches.passes {earlier later : List Node} {program : Node} {point : Point}
    (hreaches :
      Reaches catalog (.start (Session.initial.compileAll catalog earlier) program) point) :
    (∃ past, Session.Moment catalog (earlier ++ program :: later) past point.state.bindings) ∧
      ∃ past, Session.Moment catalog (earlier ++ program :: later) past
        (point.after catalog).bindings := by
  rcases hreaches.history later with ⟨past, hwithin, hbefore, hafter⟩
  exact ⟨⟨past, (List.prefix_append _ _).trans hwithin, hbefore⟩, _, hwithin, hafter⟩

/-- The first value settles the type of a variable for good.  The history of a session, which may
consist of any programs, passes the states before and after everything that is compiled in it, also
where this fails.  At each of its moments

- every variable has a type that variables can have, namely the one which its declaration and the
  values stored in it since then have settled; and if this type is not dynamic, then every value is
  converted to it or refused, and an assignment writes the converted value;
- the next event does not change the type of a variable, except if it is dynamic and a value is
  stored in it that is not;
- a value that is stored next, or refused, has been offered to a variable in sight, and the program
  in which a value is refused fails. -/
theorem first_value_settles_type (catalog : Catalog) (programs : List Node) :
    (∀ earlier program later point, programs = earlier ++ program :: later →
      Reaches catalog (.start (Session.initial.compileAll catalog earlier) program) point →
      (∃ past, Session.Moment catalog programs past point.state.bindings) ∧
        ∃ past, Session.Moment catalog programs past (point.after catalog).bindings) ∧
    (∀ past bindings, Session.Moment catalog programs past bindings →
      ∀ domain name found, bindings.find? domain name = some found →
        catalog.Storable found.type ∧ SettledBy past domain name found ∧
        (found.type.isDynamic = false →
          (∀ value journal,
            (∃ text, value.as found.type = .ok text ∧
              store domain name found.type value ⟨bindings, journal⟩ =
                .ok text ⟨bindings, journal⟩) ∨
            ∃ error ∈ [SemanticError.notStorable name value.type.name,
                .notConvertible value.type.name found.type.name],
              store domain name found.type value ⟨bindings, journal⟩ =
                .error error ⟨bindings, journal⟩) ∧
          ∀ receiver value journal line final, domain = .ofPerPlayer (Option.isSome receiver) →
            catalog.assign name receiver value ⟨bindings, journal⟩ = .ok line final →
            final = ⟨bindings, journal⟩ ∧
              ∃ typed text, catalog.valueOf bindings value = .ok typed ∧
                typed.as found.type = .ok text ∧ WritesTo domain found.slot text line)) ∧
    (∀ past event bindings later, Session.Moment catalog programs past bindings →
      Session.Moment catalog programs (past ++ [event]) later →
      (∀ domain name found found', bindings.find? domain name = some found →
        later.find? domain name = some found' →
        found'.slot = found.slot ∧ (found'.type = found.type ∨
          found.type.isDynamic = true ∧ ∃ value text, event = .stored domain name value text ∧
            value.type.isDynamic = false ∧ found'.type = value.type)) ∧
      (∀ domain name value text, event = .stored domain name value text →
        ∃ found, bindings.find? domain name = some found ∧
          ∀ journal, ∃ journal', store domain name found.type value ⟨bindings, journal⟩ =
            .ok text ⟨later, journal'⟩) ∧
      ∀ domain name value error, event = .refused domain name value error →
        later = bindings ∧
        (∃ found, bindings.find? domain name = some found ∧
          ∀ journal, store domain name found.type value ⟨bindings, journal⟩ =
            .error error ⟨bindings, journal⟩) ∧
        ∃ earlier program rest, programs = earlier ++ program :: rest ∧
          ((Session.initial.compileAll catalog earlier).compile catalog program).outcome =
            .error error) := by
  refine ⟨?_, ?_, ?_⟩
  · rintro earlier program later point rfl hreaches
    exact hreaches.passes
  · intro past bindings hmoment domain name found hfound
    refine ⟨hmoment.storable hfound, hmoment.settledBy hfound, fun hsettled => ⟨?_, ?_⟩⟩
    · intro value journal
      exact store_of_settled hsettled domain name value ⟨bindings, journal⟩
    · rintro receiver value journal line final rfl hrun
      exact Catalog.assign_of_settled hfound hsettled hrun
  · intro past event bindings later hmoment hnext
    refine ⟨fun _ _ _ _ => hmoment.type_of_next hnext, ?_, ?_⟩
    · rintro domain name value text rfl
      exact hmoment.store_of_stored hnext
    · rintro domain name value error rfl
      exact hmoment.store_of_refused hnext

/-- A program that stores numbers in a variable of every player, in both branches of a choice. -/
def countScore : Node :=
  .block [.declare "var" "score" true none,
    .rule "count" "player" none
      [.choice (.boolean true) (.assign "score" (some .player) (.number "1"))
        (some (.assign "score" (some .player) (.number "2")))]]

/-- A program that stores a text in it, in a nested block. -/
def nameScore : Node :=
  .block [.rule "name" "player" none [.block [.assign "score" (some .player) (.text "high")]]]

/-- What happens until the text is refused. -/
def scoreEvents : List HistoryEvent :=
  [.programBegun, .declared .player "score" .dynamic, .scopeEntered,
    .stored .player "score" ⟨.number, "1"⟩ "1", .stored .player "score" ⟨.number, "2"⟩ "2",
    .scopeLeft, .programBegun, .scopeEntered, .scopeEntered]

/-- The first number settles the type of the variable also for the second program. -/
theorem first_value_settles_type_score :
    (∃ found, (Session.initial.bindings.replay scoreEvents).find? .player "score" = some found ∧
      found.type = .number ∧ SettledBy scoreEvents .player "score" found) ∧
    ∃ earlier program rest, [countScore, nameScore] = earlier ++ program :: rest ∧
      ((Session.initial.compileAll .standard earlier).compile .standard program).outcome =
        .error (.notConvertible "string" "number") := by
  have hmoment : Session.Moment .standard [countScore, nameScore] scoreEvents
      (Session.initial.bindings.replay scoreEvents) :=
    ⟨by decide +kernel, rfl⟩
  have hnext : Session.Moment .standard [countScore, nameScore]
      (scoreEvents ++ [.refused .player "score" ⟨.string, "Custom String(\"high\")"⟩
        (.notConvertible "string" "number")]) (Session.initial.bindings.replay scoreEvents) :=
    ⟨by decide +kernel, rfl⟩
  have hfound : (Session.initial.bindings.replay scoreEvents).find? .player "score" =
      some ⟨⟨.first, 0⟩, .number⟩ := by decide +kernel
  rcases first_value_settles_type .standard [countScore, nameScore] with ⟨_, hsettled, hevents⟩
  exact ⟨⟨_, hfound, rfl, (hsettled _ _ hmoment _ _ _ hfound).2.1⟩,
    ((hevents _ _ _ _ hmoment hnext).2.2 _ _ _ _ rfl).2.2⟩

end Workshop

import Mathlib.Order.Lattice.Nat
import Workshop.Proofs.Success

/-!
# Calls that fit

A call is checked in three rounds: the receiver against the types that the
builtin lists for it, the number of arguments, and the arguments one after the
other against the types of the parameters.  This module follows the rounds one
by one, for operands that have values, and says what the outcome of the call is.

Main definitions:

- `Catalog.callOutcome`: the outcome of a call, in either mode.
- `Catalog.operandTexts`: the texts of operands as values of the types of the
  parameters.
- `TakesReceiver`: the receiver has a type that is listed.
- `Misfits`: the positions of arguments that do not fit.

Main results:

- Theorem `Catalog.receiverArgument_eq`: the first round.
- Theorem `Catalog.adaptedArguments_of_misfit`: the last round stops at the first
  argument that does not fit.
- Theorem `call_reports_first_misfit`: the outcome of a call.
-/

namespace Workshop

variable {catalog : Catalog} {bindings : Bindings} {mode : CallMode} {name : String}
  {builtin : Builtin} {receiver : Option Node} {arguments : List Node} {first : Option Typed}
  {others values : List Typed} {receiverTypes parameterTypes : List ValueType}
  {resultType : ValueType}

/-! ## Outcomes of calls -/

namespace Catalog

/-- The outcome of a call whose operands are expressions. -/
def callOutcome (catalog : Catalog) (bindings : Bindings) (mode : CallMode) (callee : Node)
    (receiver : Option Node) (arguments : List Node) : ValueResult :=
  catalog.applyCall mode callee (catalog.optionalValueOf bindings receiver)
    (catalog.valuesOf bindings arguments)

/-- The value of a call. -/
theorem valueOf_call (callee : Node) (receiver : Option Node) (arguments : List Node) :
    catalog.valueOf bindings (.call callee receiver arguments) =
      catalog.callOutcome bindings .value callee receiver arguments := rfl

/-- A call that stands for an action becomes a statement or fails, and changes nothing. -/
def statementOf (state : CompileState) :
    ValueResult → EStateM.Result SemanticError CompileState (List Line)
  | .ok value => .ok [.statement value.text] state
  | .error error => .error error state

/-- A call as an action. -/
theorem action_call (callee : Node) (receiver : Option Node) (arguments : List Node)
    (state : CompileState) :
    catalog.action (.call callee receiver arguments) state =
      statementOf state
        (catalog.callOutcome state.bindings .action callee receiver arguments) := by
  rw [action]
  simp only [bind, EStateM.bind, Compile.query]
  rw [← callOutcome]
  cases catalog.callOutcome state.bindings .action callee receiver arguments <;> rfl

/-- The text of an operand as a value of the type of a parameter. -/
def operandText (catalog : Catalog) (bindings : Bindings) (parameter : String) (operand : Node) :
    Except SemanticError String := do
  let value ← catalog.valueOf bindings operand
  let type ← catalog.type parameter
  value.as type

/-- The texts of operands as values of the types of parameters, in order. -/
def operandTexts (catalog : Catalog) (bindings : Bindings) (parameters : List String)
    (operands : List Node) : Except SemanticError (List String) :=
  (parameters.zip operands).mapM fun pair => catalog.operandText bindings pair.1 pair.2

/-- Operands are written one by one. -/
theorem operandTexts_eq_ok {parameters texts : List String} {operands : List Node} :
    catalog.operandTexts bindings parameters operands = .ok texts ↔
      List.Forall₂ (fun pair text => catalog.operandText bindings pair.1 pair.2 = .ok text)
        (parameters.zip operands) texts := by
  unfold operandTexts
  induction parameters.zip operands generalizing texts with
  | nil => rw [List.mapM_nil, Except.pure_eq_ok, List.forall₂_nil_left_iff, eq_comm]
  | cons pair rest ih =>
      simp only [List.mapM_cons, Except.bind_eq_ok, Except.pure_eq_ok, List.forall₂_cons_left_iff,
        ih]
      grind

end Catalog

/-! ## The receiver -/

/-- A call has no receiver, or one of a type that is accepted by a listed one. -/
def TakesReceiver (receiverTypes : List ValueType) (receiver : Option Typed) : Prop :=
  ∀ value ∈ receiver, ∃ type ∈ receiverTypes, type.accepts value.type = true

namespace Catalog

variable {method : String}

/-- The types with the given names are all known. -/
def HasTypes (catalog : Catalog) (names : List String) (types : List ValueType) : Prop :=
  List.Forall₂ (fun name type => catalog.type name = .ok type) names types

/-- Whether one of the types accepts. -/
theorem anyAccepts_eq {names : List String} {types : List ValueType}
    (htypes : catalog.HasTypes names types) (source : ValueType) :
    catalog.anyAccepts source names = .ok (types.any (·.accepts source)) := by
  induction htypes with
  | nil => rfl
  | cons htype _ ih =>
      rw [anyAccepts, htype, ih, List.any_cons]
      rfl

/-- A receiver that is not taken is refused, for one of two reasons. -/
theorem receiverArgument_eq (value : Typed)
    (htypes : catalog.HasTypes builtin.receivers receiverTypes) :
    catalog.receiverArgument method builtin (some (.ok value)) =
      if builtin.receivers = [] then .error (.receiverNotAllowed method)
      else if receiverTypes.any (·.accepts value.type) then .ok [value]
      else .error (.receiverMismatch method value.type.name) := by
  simp only [receiverArgument, List.isEmpty_iff]
  split
  · rfl
  · simp only [bind, Except.bind, anyAccepts_eq htypes]
    rfl

/-- A receiver that fits is taken. -/
theorem receiverArgument_of_takes {receiver : Option Typed}
    (htypes : catalog.HasTypes builtin.receivers receiverTypes)
    (htakes : TakesReceiver receiverTypes receiver) :
    catalog.receiverArgument method builtin (receiver.map .ok) = .ok receiver.toList := by
  cases receiver with
  | none => rfl
  | some value =>
      rcases htakes value rfl with ⟨type, hmem, haccepts⟩
      have hreceivers : builtin.receivers ≠ [] := by
        intro hnone
        rw [hnone] at htypes
        cases htypes
        cases hmem
      have hany : receiverTypes.any (·.accepts value.type) = true :=
        List.any_eq_true.2 ⟨type, hmem, haccepts⟩
      rw [Option.map_some, receiverArgument_eq value htypes, if_neg hreceivers, if_pos hany]
      rfl

/-! ## The arguments -/

/-- Arguments with values are taken. -/
theorem producedArguments_map_ok (position : Nat)
    (hproduced : ∀ value ∈ values, value.type.isVoid = false) :
    producedArguments method position (values.map .ok) = .ok values := by
  induction values generalizing position with
  | nil => rfl
  | cons value rest ih =>
      rw [List.forall_mem_cons] at hproduced
      simp only [List.map_cons, producedArguments, bind, Except.bind, hproduced.1, ih _ hproduced.2]
      rfl

end Catalog

/-- The positions, counted from one, of arguments whose types the parameters do not accept. -/
def Misfits (parameterTypes : List ValueType) (values : List Typed) : Set Nat :=
  { position | ∃ index type value, position = index + 1 ∧ parameterTypes[index]? = some type ∧
    values[index]? = some value ∧ type.accepts value.type = false }

variable {type : ValueType} {types : List ValueType} {value : Typed}

/-- Misfits, position by position. -/
theorem mem_misfits_cons {position : Nat} :
    position ∈ Misfits (type :: types) (value :: values) ↔
      position = 1 ∧ type.accepts value.type = false ∨
        ∃ previous ∈ Misfits types values, position = previous + 1 := by
  constructor
  · rintro ⟨index, misfit, found, rfl, htype, hvalue, hrefuses⟩
    cases index with
    | zero =>
        cases htype
        cases hvalue
        exact .inl ⟨rfl, hrefuses⟩
    | succ index =>
        exact .inr ⟨index + 1, ⟨index, misfit, found, rfl, htype, hvalue, hrefuses⟩, rfl⟩
  · rintro (⟨rfl, hrefuses⟩ | ⟨_, ⟨index, misfit, found, rfl, htype, hvalue, hrefuses⟩, rfl⟩)
    · exact ⟨0, type, value, rfl, rfl, rfl, hrefuses⟩
    · exact ⟨index + 1, misfit, found, rfl, htype, hvalue, hrefuses⟩

/-- The first argument may be the first misfit. -/
theorem isLeast_misfits_of_head (hrefuses : type.accepts value.type = false) :
    IsLeast (Misfits (type :: types) (value :: values)) 1 := by
  refine ⟨mem_misfits_cons.2 (.inl ⟨rfl, hrefuses⟩), ?_⟩
  rintro _ ⟨index, _, _, rfl, _⟩
  exact Nat.le_add_left 1 index

/-- The texts of values as values of some types, in order. -/
def Adapted (types : List ValueType) (values : List Typed) (texts : List String) : Prop :=
  List.Forall₂ (fun pair text => Typed.as pair.2 pair.1 = .ok text) (types.zip values) texts

namespace Catalog

variable {method : String} {parameters : List String}

/-- The first argument is adapted first. -/
theorem adaptedArguments_cons {parameter : String} (htype : catalog.type parameter = .ok type)
    (position : Nat) :
    catalog.adaptedArguments method position (value :: values) (parameter :: parameters) =
      if type.accepts value.type then do
        let text ← value.as type
        let texts ← catalog.adaptedArguments method (position + 1) values parameters
        pure (text :: texts)
      else .error (.argumentType method position parameter value.type.name) := by
  rw [adaptedArguments, htype]
  rfl

/-- Arguments that all fit are adapted one by one. -/
theorem adaptedArguments_of_fit (htypes : catalog.HasTypes parameters types) (position : Nat)
    (hfit : Misfits types values = ∅) :
    ∃ texts, Adapted types values texts ∧
      catalog.adaptedArguments method position values parameters = .ok texts := by
  induction htypes generalizing position values with
  | nil => exact ⟨[], .nil, by cases values <;> rfl⟩
  | @cons parameter type parameters types htype htypes ih =>
      cases values with
      | nil => exact ⟨[], .nil, rfl⟩
      | cons value values =>
          have hnone (position : Nat) : position ∉ Misfits (type :: types) (value :: values) := by
            rw [hfit]
            exact Set.notMem_empty position
          have haccepts : type.accepts value.type = true := by
            by_contra hrefuses
            exact hnone 1 (mem_misfits_cons.2 (.inl ⟨rfl, Bool.not_eq_true _ ▸ hrefuses⟩))
          have hrest : Misfits types values = ∅ :=
            Set.eq_empty_of_forall_notMem fun position hmem =>
              hnone (position + 1) (mem_misfits_cons.2 (.inr ⟨position, hmem, rfl⟩))
          rcases ih (position + 1) hrest with ⟨texts, hadapted, htexts⟩
          rcases ValueType.adapt_eq_ok_iff.2 haccepts with ⟨text, htext⟩
          refine ⟨text :: texts, .cons htext hadapted, ?_⟩
          rw [adaptedArguments_cons htype, if_pos haccepts]
          exact Except.bind_eq_ok.2 ⟨text, htext, Except.bind_eq_ok.2 ⟨texts, htexts, rfl⟩⟩

/-- The first argument that does not fit is reported.  Positions count from that of the first. -/
theorem adaptedArguments_of_misfit (htypes : catalog.HasTypes parameters types) (start index : Nat)
    (hleast : IsLeast (Misfits types values) (index + 1)) :
    ∃ parameter value, parameters[index]? = some parameter ∧ values[index]? = some value ∧
      catalog.adaptedArguments method start values parameters =
        .error (.argumentType method (start + index) parameter value.type.name) := by
  induction htypes generalizing start index values with
  | nil =>
      rcases hleast.1 with ⟨_, _, _, _, hnone, _⟩
      cases hnone
  | @cons parameter type parameters types htype htypes ih =>
      cases values with
      | nil =>
          rcases hleast.1 with ⟨_, _, _, _, _, hnone, _⟩
          cases hnone
      | cons value values =>
          rw [adaptedArguments_cons htype]
          cases haccepts : type.accepts value.type with
          | false =>
              -- This is the first one of all.
              obtain rfl : index = 0 := by
                have hfirst := (isLeast_misfits_of_head haccepts).unique hleast
                omega
              exact ⟨parameter, value, rfl, rfl, rfl⟩
          | true =>
              rcases mem_misfits_cons.1 hleast.1 with ⟨_, hrefuses⟩ | ⟨previous, hmem, hprevious⟩
              · rw [haccepts] at hrefuses
                cases hrefuses
              · obtain ⟨index, rfl⟩ : ∃ earlier, index = earlier + 1 := by
                  rcases hmem with ⟨earlier, _, _, rfl, _⟩
                  exact ⟨earlier, by omega⟩
                obtain rfl : previous = index + 1 := by omega
                have hrest : IsLeast (Misfits types values) (index + 1) := by
                  refine ⟨hmem, fun other hother => ?_⟩
                  have hle := hleast.2 (mem_misfits_cons.2 (.inr ⟨other, hother, rfl⟩))
                  omega
                rcases ih (start + 1) index hrest with ⟨found, misfit, hparameter, hvalue, herror⟩
                rcases ValueType.adapt_eq_ok_iff.2 haccepts with ⟨text, htext⟩
                refine ⟨found, misfit, hparameter, hvalue, ?_⟩
                have has : value.as type = .ok text := htext
                rw [if_pos rfl, has, herror, Nat.add_assoc start 1 index, Nat.add_comm 1 index]
                rfl

/-- Adapted values are the texts of the operands that they are values of. -/
theorem operandTexts_of_adapted {operands : List Node} {texts : List String}
    (htypes : catalog.HasTypes parameters types)
    (hvalues : List.Forall₂ (fun node value => catalog.valueOf bindings node = .ok value)
      operands values) (hadapted : Adapted types values texts) :
    catalog.operandTexts bindings parameters operands = .ok texts := by
  rw [operandTexts_eq_ok]
  induction htypes generalizing operands values texts with
  | nil =>
      cases hadapted
      exact .nil
  | cons htype _ ih =>
      cases hvalues with
      | nil =>
          cases hadapted
          exact .nil
      | cons hvalue hvalues =>
          cases hadapted with
          | cons htext hadapted =>
              refine .cons ?_ (ih hvalues hadapted)
              exact Except.bind_eq_ok.2 ⟨_, hvalue, Except.bind_eq_ok.2 ⟨_, htype, htext⟩⟩

/-! ## Calls -/

/-- A call with a receiver that is taken is an application to all operands. -/
theorem callOutcome_of_takes (hfound : catalog.builtin? mode name = some builtin)
    (hreceivers : catalog.HasTypes builtin.receivers receiverTypes)
    (hreceiver : receiver.map (catalog.valueOf bindings) = first.map .ok)
    (harguments : arguments.map (catalog.valueOf bindings) = others.map .ok)
    (hproduced : ∀ value ∈ others, value.type.isVoid = false)
    (htakes : TakesReceiver receiverTypes first) :
    catalog.callOutcome bindings mode (.identifier name none) receiver arguments =
      catalog.applyBuiltin name builtin (first.toList ++ others) := by
  rw [callOutcome, optionalValueOf_eq_map, valuesOf_eq_map, hreceiver, harguments, applyCall,
    calledBuiltin_eq_ok.2 hfound]
  simp only [Reason.lift_eq, bind, Except.bind]
  rw [receiverArgument_of_takes hreceivers htakes]
  simp only
  rw [producedArguments_map_ok _ hproduced]

/-- A receiver that is refused is the reason why the call fails. -/
theorem callOutcome_of_receiver {error : SemanticError}
    (hfound : catalog.builtin? mode name = some builtin)
    (hreceiver : receiver.map (catalog.valueOf bindings) = some (.ok value))
    (hrefused : catalog.receiverArgument name builtin (some (.ok value)) = .error error) :
    catalog.callOutcome bindings mode (.identifier name none) receiver arguments =
      .error error := by
  rw [callOutcome, optionalValueOf_eq_map, hreceiver, applyCall, calledBuiltin_eq_ok.2 hfound]
  simp only [Reason.lift_eq, bind, Except.bind]
  rw [hrefused]

end Catalog

/-- An application to operands of the right number ends with the text of the call, or with the first
operand that does not fit. -/
theorem Catalog.applyBuiltin_outcome (name : String)
    (hparameters : catalog.HasTypes builtin.parameters parameterTypes)
    (hresult : catalog.type builtin.result = .ok resultType)
    (hlength : values.length = builtin.parameters.length) :
    (∃ texts, Misfits parameterTypes values = ∅ ∧ Adapted parameterTypes values texts ∧
      catalog.applyBuiltin name builtin values = .ok ⟨resultType, builtin.render texts⟩) ∨
    ∃ index parameter value, IsLeast (Misfits parameterTypes values) (index + 1) ∧
      builtin.parameters[index]? = some parameter ∧ values[index]? = some value ∧
      catalog.applyBuiltin name builtin values =
        .error (.argumentType name (index + 1) parameter value.type.name) := by
  unfold applyBuiltin
  rw [if_pos hlength]
  rcases (Misfits parameterTypes values).eq_empty_or_nonempty with hfit | hmisfit
  · left
    rcases adaptedArguments_of_fit hparameters 1 hfit with ⟨texts, hadapted, htexts⟩
    refine ⟨texts, hfit, hadapted, ?_⟩
    rw [htexts, hresult]
    rfl
  · right
    have hleast : IsLeast (Misfits parameterTypes values) (sInf (Misfits parameterTypes values)) :=
      ⟨Nat.sInf_mem hmisfit, fun _ hmem => Nat.sInf_le hmem⟩
    rcases hleast.1 with ⟨index, _, _, hposition, _⟩
    rw [hposition] at hleast
    rcases adaptedArguments_of_misfit hparameters 1 index hleast with
      ⟨parameter, value, hparameter, hvalue, herror⟩
    refine ⟨index, parameter, value, hleast, hparameter, hvalue, ?_⟩
    rw [herror, Nat.add_comm 1 index]
    rfl

/-- The number of operands is checked before their types. -/
theorem Catalog.applyBuiltin_eq_argumentCount_iff {expected found position : Nat}
    (hparameters : catalog.HasTypes builtin.parameters parameterTypes)
    (hresult : catalog.type builtin.result = .ok resultType) :
    catalog.applyBuiltin name builtin values =
        .error (.argumentCount name expected found position) ↔
      values.length ≠ builtin.parameters.length ∧ expected = builtin.parameters.length ∧
        found = values.length ∧ position = min found expected + 1 := by
  by_cases hlength : values.length = builtin.parameters.length
  · rcases applyBuiltin_outcome name hparameters hresult hlength with
      ⟨_, _, _, happly⟩ | ⟨_, _, _, _, _, _, happly⟩
    · simp [happly, hlength]
    · simp [happly, hlength]
  · rw [applyBuiltin, if_neg hlength]
    simp only [Reason.lift_eq, Except.error.injEq, SemanticError.argumentCount.injEq, true_and]
    grind

/-- The first operand that does not fit is reported. -/
theorem Catalog.applyBuiltin_eq_argumentType_iff {expected found : String} {position : Nat}
    (hparameters : catalog.HasTypes builtin.parameters parameterTypes)
    (hresult : catalog.type builtin.result = .ok resultType)
    (hlength : values.length = builtin.parameters.length) :
    catalog.applyBuiltin name builtin values =
        .error (.argumentType name position expected found) ↔
      IsLeast (Misfits parameterTypes values) position ∧
        builtin.parameters[position - 1]? = some expected ∧
        values[position - 1]?.map (·.type.name) = some found := by
  rcases applyBuiltin_outcome name hparameters hresult hlength with
    ⟨texts, hfit, _, happly⟩ | ⟨index, parameter, value, hleast, hparameter, hvalue, happly⟩
  · rw [happly, hfit]
    constructor
    · intro hno
      cases hno
    · rintro ⟨hleast, _⟩
      cases hleast.1
  · rw [happly]
    constructor
    · intro herror
      cases herror
      refine ⟨hleast, hparameter, ?_⟩
      rw [Nat.add_sub_cancel, hvalue]
      rfl
    · rintro ⟨hposition, hexpected, hfound⟩
      obtain rfl := hleast.unique hposition
      rw [Nat.add_sub_cancel] at hexpected hfound
      rw [hparameter] at hexpected
      rw [hvalue] at hfound
      cases hexpected
      cases hfound
      rfl

/-- Operands that all have values, in order. -/
theorem Catalog.forall₂_operands
    (hreceiver : receiver.map (catalog.valueOf bindings) = first.map .ok)
    (harguments : arguments.map (catalog.valueOf bindings) = others.map .ok) :
    List.Forall₂ (fun node value => catalog.valueOf bindings node = .ok value)
      (receiver.toList ++ arguments) (first.toList ++ others) := by
  have hmap : (receiver.toList ++ arguments).map (catalog.valueOf bindings) =
      (first.toList ++ others).map .ok := by
    rw [List.map_append, List.map_append, harguments, ← Option.toList_map, hreceiver,
      Option.toList_map]
  rw [← List.forall₂_eq_eq_eq, List.forall₂_map_left_iff, List.forall₂_map_right_iff] at hmap
  exact hmap

/-- Calls are accepted exactly when they fit, and the reported position is the first wrong one.
The operands of the call have values, and all types that the builtin names are known. -/
theorem call_reports_first_misfit {outcome : ValueResult}
    (hfound : catalog.builtin? mode name = some builtin)
    (hreceivers : catalog.HasTypes builtin.receivers receiverTypes)
    (hparameters : catalog.HasTypes builtin.parameters parameterTypes)
    (hresult : catalog.type builtin.result = .ok resultType)
    (hreceiver : receiver.map (catalog.valueOf bindings) = first.map .ok)
    (harguments : arguments.map (catalog.valueOf bindings) = others.map .ok)
    (hvalues : first.toList ++ others = values)
    (hproduced : ∀ value ∈ values, value.type.isVoid = false)
    (hcall : catalog.callOutcome bindings mode (.identifier name none) receiver arguments =
      outcome) :
    (mode = .value →
      catalog.valueOf bindings (.call (.identifier name none) receiver arguments) = outcome) ∧
    (mode = .action → ∀ journal,
      catalog.action (.call (.identifier name none) receiver arguments) ⟨bindings, journal⟩ =
        Catalog.statementOf ⟨bindings, journal⟩ outcome) ∧
    (∀ value, first = some value → builtin.receivers = [] →
      outcome = .error (.receiverNotAllowed name)) ∧
    (∀ value, first = some value → builtin.receivers ≠ [] →
      (∀ type ∈ receiverTypes, type.accepts value.type = false) →
      outcome = .error (.receiverMismatch name value.type.name)) ∧
    (TakesReceiver receiverTypes first →
      (∀ expected found position,
        outcome = .error (.argumentCount name expected found position) ↔
          values.length ≠ builtin.parameters.length ∧ expected = builtin.parameters.length ∧
            found = values.length ∧ position = min found expected + 1) ∧
      (values.length = builtin.parameters.length →
        (∀ position expected found,
          outcome = .error (.argumentType name position expected found) ↔
            IsLeast (Misfits parameterTypes values) position ∧
              builtin.parameters[position - 1]? = some expected ∧
              values[position - 1]?.map (·.type.name) = some found) ∧
        (Misfits parameterTypes values = ∅ →
          ∃ texts,
            catalog.operandTexts bindings builtin.parameters (receiver.toList ++ arguments) =
              .ok texts ∧
            outcome = .ok ⟨resultType, builtin.render texts⟩))) := by
  subst hvalues hcall
  refine ⟨?_, ?_, ?_, ?_, ?_⟩
  · rintro rfl
    exact Catalog.valueOf_call _ _ _
  · rintro rfl journal
    exact Catalog.action_call _ _ _ ⟨bindings, journal⟩
  · rintro value rfl hnone
    refine Catalog.callOutcome_of_receiver hfound hreceiver ?_
    rw [Catalog.receiverArgument_eq value hreceivers, if_pos hnone]
  · rintro value rfl hsome hrefused
    refine Catalog.callOutcome_of_receiver hfound hreceiver ?_
    have hany : receiverTypes.any (·.accepts value.type) ≠ true := by simpa using hrefused
    rw [Catalog.receiverArgument_eq value hreceivers, if_neg hsome, if_neg hany]
  · intro htakes
    have hothers : ∀ value ∈ others, value.type.isVoid = false := fun value hmem =>
      hproduced value (List.mem_append_right _ hmem)
    rw [Catalog.callOutcome_of_takes hfound hreceivers hreceiver harguments hothers htakes]
    refine ⟨fun _ _ _ => Catalog.applyBuiltin_eq_argumentCount_iff hparameters hresult,
      fun hlength => ⟨fun _ _ _ => ?_, fun hfit => ?_⟩⟩
    · exact Catalog.applyBuiltin_eq_argumentType_iff hparameters hresult hlength
    · rcases Catalog.applyBuiltin_outcome name hparameters hresult hlength with
        ⟨texts, _, hadapted, happly⟩ | ⟨_, _, _, hleast, _⟩
      · have hoperands := Catalog.forall₂_operands hreceiver harguments
        exact ⟨texts, Catalog.operandTexts_of_adapted hparameters hoperands hadapted, happly⟩
      · rw [hfit] at hleast
        cases hleast.1

/-- Of two arguments that do not fit, the first one is reported.  The receiver counts as an
argument, and a player is taken for a vector. -/
theorem call_reports_first_misfit_impulse :
    Catalog.standard.action
        (.call (.identifier "applyImpulse" none) (some .player)
          [.player, .number "10", .number "0", .text "no"]) ⟨Session.initial.bindings, #[]⟩ =
      .error (.argumentType "applyImpulse" 4 "boolean" "number")
        ⟨Session.initial.bindings, #[]⟩ := by
  have hplayer : Catalog.standard.HasTypes ["player"] [.player] := .cons rfl .nil
  have hparameters : Catalog.standard.HasTypes ["player", "vector", "number", "boolean", "boolean"]
      [.player, .vector, .number, .boolean, .boolean] :=
    .cons rfl (.cons rfl (.cons rfl (.cons rfl (.cons rfl .nil))))
  let values : List Typed := [⟨.player, "Event Player"⟩, ⟨.player, "Event Player"⟩,
    ⟨.number, "10"⟩, ⟨.number, "0"⟩, ⟨.string, "Custom String(\"no\")"⟩]
  have hproduced : ∀ value ∈ values, value.type.isVoid = false := by decide
  have htakes : TakesReceiver [.player] values.head? := by
    intro value hvalue
    cases hvalue
    exact ⟨.player, List.mem_cons_self, by decide⟩
  have hleast : IsLeast (Misfits [.player, .vector, .number, .boolean, .boolean] values) 4 := by
    refine ⟨⟨3, .boolean, ⟨.number, "0"⟩, rfl, rfl, rfl, by decide⟩, ?_⟩
    rintro _ ⟨index, type, value, rfl, htype, hvalue, hrefuses⟩
    match index with
    | 0 | 1 | 2 =>
        cases htype
        cases hvalue
        cases hrefuses
    | later + 3 => omega
  have hreport := @call_reports_first_misfit .standard Session.initial.bindings .action
    "applyImpulse" _ (some .player) [.player, .number "10", .number "0", .text "no"] values.head?
    values.tail values _ _ _ _ rfl hplayer hparameters rfl rfl rfl rfl hproduced rfl
  rcases hreport with ⟨_, hstatement, _, _, htaken⟩
  rw [hstatement rfl, (((htaken htakes).2 rfl).1 4 "boolean" "number").2 ⟨hleast, rfl, rfl⟩]
  rfl

end Workshop

import Workshop.Proofs.Calls.Fitting
import Workshop.Proofs.Walk.Typing

/-!
# Two forms of a call

A builtin that has receivers can be called on one, or with the receiver as its
first argument.  A receiver is checked against the types that are listed for it,
and it may be of any type, while an argument has to produce a value.  So the two
forms agree only if the list of receivers goes with the first parameter, and if
no expression produces nothing.

Main definitions:

- `Builtin.ReceivesFirst`: the receiver is checked like the first argument.
- `Catalog.Produces`: no expression is of the type of calls without a value.

Main results:

- Theorem `Catalog.types_produced`: then no variable and no constant is either.
- Theorem `Catalog.callOutcome_receiver_iff`: the two forms agree.
- Theorem `method_form_iff_function_form`: so do those of the standard catalog, in
  every state.
-/

namespace Workshop

/-! ## Values that are produced -/

theorem ValueType.isVoid_enumName {type : ValueType} {name : String}
    (htype : type.name = enumName name) : type.isVoid = false := by
  have hname : enumName name ≠ "void" := by
    intro hvoid
    have hchars := congrArg String.toList hvoid
    simp [enumName] at hchars
  rw [isVoid, htype, beq_eq_false_iff_ne]
  exact hname

namespace Catalog

variable {catalog : Catalog}

/-- All builtins that stand for values have results. -/
def Produces (catalog : Catalog) : Prop :=
  ∀ builtin ∈ catalog.values, builtin.result ≠ "void"

theorem standard_produces : standard.Produces := by
  unfold Produces
  decide

theorem gives_produced (hproduces : catalog.Produces) : catalog.Gives (·.isVoid = false) where
  basic hmem := by
    have hbasic : ∀ type ∈ ValueType.basic, type.isVoid = false := by decide
    exact hbasic _ hmem
  results hmem htype := by
    rw [ValueType.isVoid, name_of_type htype, beq_eq_false_iff_ne]
    exact hproduces _ hmem
  members htype := ValueType.isVoid_enumName (name_of_type htype)

/-- Variables refuse nothing as a value, and constants never come across it. -/
theorem types_produced (hproduces : catalog.Produces) :
    catalog.Types (·.isVoid = false) (·.isVoid = false) where
  declared htype := (Bool.or_eq_false_iff.1 (declaredType_eq_ok.1 htype).2).2
  stored _ _ hstored := by
    rw [inferred_of_storedText hstored]
    exact (storable_of_storedText hstored).2
  defined htyped hvalue := holds_of_valueOf (gives_produced hproduces) htyped hvalue

/-- No expression produces nothing, at any point of a session. -/
theorem isVoid_of_valueOf (hproduces : catalog.Produces) {programs : List Node} {program : Node}
    {point : Point}
    (hreaches : Reaches catalog (.start (Session.initial.compileAll catalog programs) program)
      point)
    {bindings : Bindings} (hbindings : bindings ∈ point.bindings catalog) {node : Node}
    {value : Typed} (hvalue : catalog.valueOf bindings node = .ok value) :
    value.type.isVoid = false := by
  have htypes := types_produced hproduces
  have htyped : bindings.TypedBy (·.isVoid = false) (·.isVoid = false) :=
    hreaches.of_mem_bindings (·.TypedBy _ _) (fun _ => .enter)
      (fun _ _ _ => Steps.typedBy htypes) (Session.typedBy_compileAll htypes programs .initial)
      bindings hbindings
  exact holds_of_valueOf (gives_produced hproduces) htyped hvalue

end Catalog

/-! ## The two forms -/

/-- A receiver has to be of the type of the first parameter. -/
def Builtin.ReceivesFirst (builtin : Builtin) : Prop :=
  builtin.receivers = builtin.parameters.take 1

namespace Catalog

variable {catalog : Catalog} {bindings : Bindings} {mode : CallMode} {name : String}
  {builtin : Builtin} {receiver : Node} {arguments : List Node} {value : Typed}
  {outcome : ValueResult}

/-- A builtin of the standard catalog has no receivers, or they go with its first parameter. -/
theorem standard_receivesFirst (hfound : standard.builtin? mode name = some builtin)
    (hreceivers : builtin.receivers ≠ []) : builtin.ReceivesFirst := by
  have hall : ∀ builtin ∈ standard.actions ++ standard.values,
      builtin.receivers ≠ [] → builtin.receivers = builtin.parameters.take 1 := by
    decide
  exact hall builtin (mem_of_builtin? hfound) hreceivers

/-- A receiver is taken as the first operand if one of the listed types accepts it. -/
theorem receiverArgument_some_eq_ok {values : List Typed} (hreceivers : builtin.receivers ≠ []) :
    catalog.receiverArgument name builtin (some outcome) = .ok values ↔
      ∃ first, outcome = .ok first ∧ catalog.anyAccepts first.type builtin.receivers = .ok true ∧
        values = [first] := by
  simp only [receiverArgument, List.isEmpty_iff, hreceivers, if_false, Except.bind_eq_ok]
  refine exists_congr fun first => and_congr_right fun _ => ?_
  constructor
  · rintro ⟨accepted, haccepted, htaken⟩
    cases accepted with
    | false => cases htaken
    | true =>
        cases htaken
        exact ⟨haccepted, rfl⟩
  · rintro ⟨haccepted, rfl⟩
    exact ⟨true, haccepted, rfl⟩

/-- A first argument is taken as the first operand if it produces a value. -/
theorem producedArguments_cons_eq_ok {position : Nat} {outcomes : List ValueResult}
    {values : List Typed} :
    producedArguments name position (outcome :: outcomes) = .ok values ↔
      ∃ first others, outcome = .ok first ∧ first.type.isVoid = false ∧
        producedArguments name (position + 1) outcomes = .ok others ∧ values = first :: others := by
  simp only [producedArguments, Except.bind_eq_ok]
  refine exists_congr fun first => ?_
  cases hvoid : first.type.isVoid with
  | true => simp
  | false =>
      simp only [Bool.false_eq_true, if_false, Except.bind_eq_ok, Except.pure_eq_ok, true_and]
      grind

theorem callOutcome_eq_ok {receiver : Option Node}
    (hfound : catalog.builtin? mode name = some builtin) :
    catalog.callOutcome bindings mode (.identifier name none) receiver arguments = .ok value ↔
      ∃ first others,
        catalog.receiverArgument name builtin (catalog.optionalValueOf bindings receiver) =
          .ok first ∧
        producedArguments name (first.length + 1) (catalog.valuesOf bindings arguments) =
          .ok others ∧
        catalog.applyBuiltin name builtin (first ++ others) = .ok value := by
  simp [callOutcome, applyCall, Except.bind_eq_ok, calledBuiltin_eq_ok, hfound]

/-- Where a builtin takes its operands, the first parameter accepts the first one. -/
theorem anyAccepts_of_applyBuiltin {first : Typed} {others : List Typed}
    (hfirst : builtin.ReceivesFirst)
    (happly : catalog.applyBuiltin name builtin (first :: others) = .ok value) :
    catalog.anyAccepts first.type builtin.receivers = .ok true := by
  rw [hfirst]
  rcases applyBuiltin_eq_ok.1 happly with ⟨hlength, texts, _, htexts, _⟩
  cases hparameters : builtin.parameters with
  | nil =>
      rw [hparameters] at hlength
      cases hlength
  | cons parameter parameters =>
      rw [hparameters] at htexts
      rcases Except.bind_eq_ok.1 htexts with ⟨type, htype, hrest⟩
      cases haccepts : type.accepts first.type with
      | true =>
          rw [List.take_succ_cons, List.take_zero, anyAccepts_eq (.cons htype .nil),
            List.any_cons, haccepts]
          rfl
      | false =>
          rw [haccepts] at hrest
          cases hrest

/-- The two forms of a call have the same values. -/
theorem callOutcome_receiver_iff (hfound : catalog.builtin? mode name = some builtin)
    (hreceivers : builtin.receivers ≠ []) (hfirst : builtin.ReceivesFirst)
    (hproduced : ∀ first, catalog.valueOf bindings receiver = .ok first →
      first.type.isVoid = false) (arguments : List Node) (value : Typed) :
    catalog.callOutcome bindings mode (.identifier name none) (some receiver) arguments =
        .ok value ↔
      catalog.callOutcome bindings mode (.identifier name none) none (receiver :: arguments) =
        .ok value := by
  rw [callOutcome_eq_ok hfound, callOutcome_eq_ok hfound]
  constructor
  · rintro ⟨_, others, hreceiver, hothers, happly⟩
    rcases (receiverArgument_some_eq_ok hreceivers).1 hreceiver with ⟨first, hvalue, _, rfl⟩
    refine ⟨[], first :: others, rfl, producedArguments_cons_eq_ok.2 ?_, happly⟩
    exact ⟨first, others, hvalue, hproduced first hvalue, hothers, rfl⟩
  · rintro ⟨_, _, hnone, hothers, happly⟩
    cases hnone
    rcases producedArguments_cons_eq_ok.1 hothers with ⟨first, others, hvalue, _, hrest, rfl⟩
    refine ⟨[first], others, (receiverArgument_some_eq_ok hreceivers).2 ?_, hrest, happly⟩
    exact ⟨first, hvalue, anyAccepts_of_applyBuiltin hfirst happly, rfl⟩

/-- An action succeeds exactly with the text of a call. -/
theorem statementOf_eq_ok {state final : CompileState} {lines : List Line} :
    statementOf state outcome = .ok lines final ↔
      ∃ value, outcome = .ok value ∧ lines = [.statement value.text] ∧ final = state := by
  cases outcome with
  | ok value => simp [statementOf, eq_comm]
  | error error => simp [statementOf]

end Catalog

/-- A call on a receiver succeeds exactly when the call with the receiver as its first argument
does, and then both have the same type and the same text.  The bindings are those at any point of
any session. -/
theorem method_form_iff_function_form {programs : List Node} {program : Node} {point : Point}
    (hreaches : Reaches .standard
      (.start (Session.initial.compileAll .standard programs) program) point)
    {bindings : Bindings} (hbindings : bindings ∈ point.bindings .standard)
    {mode : CallMode} {name : String} {builtin : Builtin}
    (hfound : Catalog.standard.builtin? mode name = some builtin)
    (hreceivers : builtin.receivers ≠ []) (receiver : Node) (arguments : List Node) :
    (∀ value,
      Catalog.standard.callOutcome bindings mode (.identifier name none) (some receiver)
          arguments = .ok value ↔
        Catalog.standard.callOutcome bindings mode (.identifier name none) none
          (receiver :: arguments) = .ok value) ∧
    (mode = .value → ∀ value,
      Catalog.standard.valueOf bindings (.call (.identifier name none) (some receiver)
          arguments) = .ok value ↔
        Catalog.standard.valueOf bindings (.call (.identifier name none) none
          (receiver :: arguments)) = .ok value) ∧
    (mode = .action → ∀ journal lines final,
      Catalog.standard.action (.call (.identifier name none) (some receiver) arguments)
          ⟨bindings, journal⟩ = .ok lines final ↔
        Catalog.standard.action (.call (.identifier name none) none (receiver :: arguments))
          ⟨bindings, journal⟩ = .ok lines final) := by
  have hproduced (first : Typed)
      (hfirst : Catalog.standard.valueOf bindings receiver = .ok first) :
      first.type.isVoid = false :=
    Catalog.isVoid_of_valueOf Catalog.standard_produces hreaches hbindings hfirst
  have hforms := Catalog.callOutcome_receiver_iff hfound hreceivers
    (Catalog.standard_receivesFirst hfound hreceivers) hproduced arguments
  refine ⟨hforms, ?_, ?_⟩
  · rintro rfl value
    exact hforms value
  · rintro rfl journal lines final
    simp only [Catalog.action_call, Catalog.statementOf_eq_ok, hforms]

/-- A session in which an earlier program has declared a variable of every player. -/
def rivalSession : Session :=
  Session.initial.compileAll .standard [.declare "player" "rival" true none]

/-- The variable as a receiver, which is taken for its position, and as a first argument. -/
theorem method_form_iff_function_form_distance :
    Catalog.standard.valueOf rivalSession.bindings
        (.call (.identifier "distance" none) (some (.identifier "rival" (some .player)))
          [.player]) =
      Catalog.standard.valueOf rivalSession.bindings
        (.call (.identifier "distance" none) none [.identifier "rival" (some .player), .player]) ∧
    Catalog.standard.valueOf rivalSession.bindings
        (.call (.identifier "distance" none) none [.identifier "rival" (some .player), .player]) =
      .ok ⟨.number, "Distance Between(Position Of(Value In Array(Player Variable(Event Player, " ++
        "A), 0)), Position Of(Event Player))"⟩ := by
  have hfunction : Catalog.standard.valueOf rivalSession.bindings
      (.call (.identifier "distance" none) none [.identifier "rival" (some .player), .player]) =
      .ok ⟨.number, "Distance Between(Position Of(Value In Array(Player Variable(Event Player, " ++
        "A), 0)), Position Of(Event Player))"⟩ := by
    decide +kernel
  have hreaches : Reaches .standard (.start rivalSession (.block []))
      (.start rivalSession (.block [])) := .refl
  have hforms := method_form_iff_function_form hreaches List.mem_cons_self
    (show Catalog.standard.builtin? .value "distance" = some _ from rfl) (by decide)
    (.identifier "rival" (some .player)) [.player]
  exact ⟨((hforms.2.1 rfl _).2 hfunction).trans hfunction.symm, hfunction⟩

end Workshop

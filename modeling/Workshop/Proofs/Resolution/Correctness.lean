import Workshop.Proofs.Resolution.Agreement
import Workshop.Proofs.Tree

/-!
# Compiling resolves names

Compiling a script that is accepted amounts to two separate steps: a walk that
replaces names by slots, and writing texts from the result.  So the slots of
all declarations, and the declarations that names stand for, are those of the
walk.

Main results:

- Theorem `Agrees.valueOf`: expressions have the values of their resolved
  trees.
- Theorem `action_follows`: actions have the lines of their resolved trees.
- Theorem `topLevel_follows`: programs have the rules of their resolved trees.
- Theorem `compile_follows_resolution`: every accepted program is resolved, and
  its declarations are numbered one after the other.
-/

namespace Workshop
namespace Resolution

open Catalog

variable {catalog : Catalog} {emission : Emission}

/-! ## Expressions -/

namespace Agrees

variable {bindings : Bindings} {history : List Declared} {emission : Emission}

/-- An expression with a value can be resolved, and the resolved tree has the value. -/
def Resolved (catalog : Catalog) (bindings : Bindings) (history : List Declared)
    (emission : Emission) (node : Node) : Prop :=
  ∀ ⦃value⦄, catalog.valueOf bindings node = .ok value →
    ∃ expression, (Scoping.ofBindings bindings history).expression? catalog node =
        some expression ∧
      emission.valueOf catalog expression = .ok value

/-- Names are resolved. -/
theorem name (hagrees : Agrees bindings history emission) (name : String) :
    Resolved catalog bindings history emission (.identifier name none) := by
  intro value hvalue
  simp only [valueOf, Storage.name_eq] at hvalue
  simp only [Scoping.expression?, Scoping.contains_constants_ofBindings, Table.contains]
  cases hconstant : bindings.constants.find? name with
  | some constant =>
      rw [hconstant] at hvalue
      cases hvalue
      refine ⟨.constant name, rfl, ?_⟩
      simp only [Emission.valueOf, hagrees.constants, hconstant]
  | none =>
      rw [hconstant] at hvalue
      cases hfound : bindings.globals.find? name with
      | none =>
          rw [hfound] at hvalue
          cases hvalue
      | some found =>
          rw [hfound] at hvalue
          cases hvalue
          have hglobal : bindings.find? .global name = some found := hfound
          refine ⟨.readGlobal found.slot, ?_, ?_⟩
          · rw [hagrees.slotOf? hglobal]
            rfl
          · simp only [Emission.valueOf, hagrees.types_of_find? hglobal]

/-- Members are resolved. -/
theorem member (hagrees : Agrees bindings history emission) (name : String) {receiver : Node}
    (ih : Resolved catalog bindings history emission receiver) :
    Resolved catalog bindings history emission (.identifier name (some receiver)) := by
  intro value hvalue
  simp only [valueOf] at hvalue
  simp only [Scoping.expression?]
  cases henum : catalog.namedEnumeration? receiver with
  | some enumName =>
      rw [henum] at hvalue
      exact ⟨.enumMember enumName name, rfl, hvalue⟩
  | none =>
      rw [henum] at hvalue
      simp only [Except.bind_eq_ok] at hvalue
      obtain ⟨actor, hactor, player, hplayer, hmember⟩ := hvalue
      obtain ⟨resolved, hresolved, hemitted⟩ := ih hactor
      rw [Storage.playerMember_eq] at hmember
      cases hfound : bindings.players.find? name with
      | none =>
          rw [hfound] at hmember
          cases hmember
      | some found =>
          rw [hfound] at hmember
          cases hmember
          have hplayers : bindings.find? .player name = some found := hfound
          refine ⟨.readPlayer resolved found.slot, ?_, ?_⟩
          · rw [hresolved, hagrees.slotOf? hplayers]
            rfl
          · simp only [Emission.valueOf, Except.bind_eq_ok]
            refine ⟨actor, hemitted, player, playerText_transfers _ _ _ hplayer, ?_⟩
            rw [hagrees.types_of_find? hplayers]
            rfl

/-- Expressions are resolved one by one. -/
theorem expressions (nodes : List Node)
    (ih : ∀ node ∈ nodes, Resolved catalog bindings history emission node)
    (hvalues : ∀ result ∈ catalog.valuesOf bindings nodes, ∃ value, result = .ok value) :
    ∃ resolved, (Scoping.ofBindings bindings history).expressions? catalog nodes =
        some resolved ∧
      List.Forall₂ Transfers (catalog.valuesOf bindings nodes)
        (emission.valuesOf catalog resolved) := by
  induction nodes with
  | nil => exact ⟨[], rfl, .nil⟩
  | cons node rest ihrest =>
      simp only [valuesOf, List.forall_mem_cons] at hvalues ih
      obtain ⟨⟨value, hvalue⟩, hothers⟩ := hvalues
      obtain ⟨first, hfirst, hemitted⟩ := ih.1 hvalue
      obtain ⟨others, hresolved, htransfers⟩ := ihrest ih.2 hothers
      refine ⟨first :: others, ?_, ?_⟩
      · simp only [Scoping.expressions?, hfirst, hresolved]
        rfl
      · simp only [valuesOf, Emission.valuesOf]
        refine .cons ?_ htransfers
        intro other hother
        obtain rfl : value = other := Except.ok.inj (hvalue.symm.trans hother)
        exact hemitted

/-- So is an expression that may be missing. -/
theorem optional (node : Option Node)
    (ih : ∀ part ∈ node, Resolved catalog bindings history emission part)
    (hvalue : ∀ result ∈ catalog.optionalValueOf bindings node, ∃ value, result = .ok value) :
    ∃ resolved, (Scoping.ofBindings bindings history).optional? catalog node = some resolved ∧
      Option.Rel Transfers (catalog.optionalValueOf bindings node)
        (emission.optionalValueOf catalog resolved) := by
  cases node with
  | none => exact ⟨none, rfl, .none⟩
  | some node =>
      obtain ⟨value, hvalue⟩ := hvalue _ rfl
      obtain ⟨resolved, hresolved, hemitted⟩ := ih node rfl hvalue
      refine ⟨some resolved, ?_, .some ?_⟩
      · simp only [Scoping.optional?, hresolved]
        rfl
      · intro other hother
        obtain rfl : value = other := Except.ok.inj (hvalue.symm.trans hother)
        exact hemitted

/-- A successful call is resolved part by part. -/
theorem call {mode : CallMode} {callee : Node} {receiver : Option Node} {arguments : List Node}
    {value : Typed}
    (ihreceiver : ∀ node ∈ receiver, Resolved catalog bindings history emission node)
    (iharguments : ∀ node ∈ arguments, Resolved catalog bindings history emission node)
    (hcall : catalog.applyCall mode callee (catalog.optionalValueOf bindings receiver)
      (catalog.valuesOf bindings arguments) = .ok value) :
    ∃ name resolvedReceiver resolvedArguments, callee = .identifier name none ∧
      (Scoping.ofBindings bindings history).optional? catalog receiver = some resolvedReceiver ∧
      (Scoping.ofBindings bindings history).expressions? catalog arguments =
        some resolvedArguments ∧
      catalog.applyCall mode (.identifier name none)
        (emission.optionalValueOf catalog resolvedReceiver)
        (emission.valuesOf catalog resolvedArguments) = .ok value := by
  obtain ⟨⟨name, rfl⟩, hreceiver, harguments⟩ := applyCall_operands hcall
  obtain ⟨resolvedReceiver, hresolvedReceiver, hrel⟩ := optional receiver ihreceiver hreceiver
  obtain ⟨resolvedArguments, hresolvedArguments, hall⟩ :=
    expressions arguments iharguments harguments
  exact ⟨name, resolvedReceiver, resolvedArguments, rfl, hresolvedReceiver, hresolvedArguments,
    applyCall_transfers hrel hall hcall⟩

/-- Expressions have the values of their resolved trees. -/
theorem valueOf (hagrees : Agrees bindings history emission) (node : Node) :
    Resolved catalog bindings history emission node := by
  induction node with
  | block statements ih =>
      intro value hvalue
      match statements, hvalue with
      | [single], hvalue => exact ih single (by simp) hvalue
  | call callee receiver arguments _ ihreceiver iharguments =>
      intro value hvalue
      obtain ⟨name, resolvedReceiver, resolvedArguments, rfl, hreceiver, harguments, hcall⟩ :=
        call ihreceiver iharguments hvalue
      refine ⟨.call name resolvedReceiver resolvedArguments, ?_, hcall⟩
      simp only [Scoping.expression?, hreceiver, harguments]
      rfl
  | negation operand ih =>
      intro value hvalue
      simp only [Catalog.valueOf, Except.bind_eq_ok] at hvalue
      obtain ⟨typed, htyped, hnegated⟩ := hvalue
      obtain ⟨resolved, hresolved, hemitted⟩ := ih htyped
      refine ⟨.negation resolved, ?_, Except.bind_eq_ok.2 ⟨typed, hemitted, hnegated⟩⟩
      simp only [Scoping.expression?, hresolved]
      rfl
  | binary operator left right ihleft ihright =>
      intro value hvalue
      simp only [Catalog.valueOf, Except.bind_eq_ok] at hvalue
      obtain ⟨leftTyped, hleft, rightTyped, hright, happlied⟩ := hvalue
      obtain ⟨resolvedLeft, hresolvedLeft, hemittedLeft⟩ := ihleft hleft
      obtain ⟨resolvedRight, hresolvedRight, hemittedRight⟩ := ihright hright
      refine ⟨.binary operator resolvedLeft resolvedRight, ?_, ?_⟩
      · simp only [Scoping.expression?, hresolvedLeft, hresolvedRight]
        rfl
      · simp only [Emission.valueOf, Except.bind_eq_ok]
        exact ⟨leftTyped, hemittedLeft, rightTyped, hemittedRight, happlied⟩
  | choice condition thenBranch elseBranch ihcondition ihthen ihelse =>
      intro value hvalue
      cases elseBranch with
      | none => cases hvalue
      | some elseBranch =>
          simp only [Catalog.valueOf, Except.bind_eq_ok] at hvalue
          obtain ⟨conditionTyped, hcondition, text, htext, thenTyped, hthen, elseTyped, helse,
            hchosen⟩ := hvalue
          obtain ⟨resolvedCondition, hresolvedCondition, hemittedCondition⟩ :=
            ihcondition hcondition
          obtain ⟨resolvedThen, hresolvedThen, hemittedThen⟩ := ihthen hthen
          obtain ⟨resolvedElse, hresolvedElse, hemittedElse⟩ := ihelse elseBranch rfl helse
          refine ⟨.choice resolvedCondition resolvedThen resolvedElse, ?_, ?_⟩
          · simp only [Scoping.expression?, hresolvedCondition, hresolvedThen, hresolvedElse]
            rfl
          · simp only [Emission.valueOf, Except.bind_eq_ok]
            exact ⟨conditionTyped, hemittedCondition, text, htext, thenTyped, hemittedThen,
              elseTyped, hemittedElse, hchosen⟩
  | identifier name receiver ih =>
      cases receiver with
      | none => exact hagrees.name name
      | some receiver => exact hagrees.member name (ih receiver rfl)
  | enumMember enumName member =>
      exact fun value hvalue => ⟨.enumMember enumName member, rfl, hvalue⟩
  | number digits => exact fun value hvalue => ⟨.number digits, rfl, hvalue⟩
  | text body => exact fun value hvalue => ⟨.text body, rfl, hvalue⟩
  | boolean truth => exact fun value hvalue => ⟨.boolean truth, rfl, hvalue⟩
  | player => exact fun value hvalue => ⟨.player, rfl, hvalue⟩
  | _ =>
      intro value hvalue
      cases hvalue

end Agrees

/-! ## Rule conditions -/

/-- A rule condition has the text of its resolved comparison. -/
theorem comparison_follows {bindings : Bindings} {history : List Declared}
    (hagrees : Agrees bindings history emission) {node : Node} {text : String}
    (htext : catalog.ruleCondition bindings node = .ok text) :
    ∃ resolved, (Scoping.ofBindings bindings history).comparison? catalog node = some resolved ∧
      emission.comparison catalog resolved = .ok text := by
  cases node with
  | binary operator left right =>
      simp only [ruleCondition] at htext
      split at htext
      · rename_i hcomparison
        simp only [Except.bind_eq_ok] at htext
        obtain ⟨leftTyped, hleft, rightTyped, hright, hcompared⟩ := htext
        obtain ⟨resolvedLeft, hresolvedLeft, hemittedLeft⟩ := hagrees.valueOf left hleft
        obtain ⟨resolvedRight, hresolvedRight, hemittedRight⟩ := hagrees.valueOf right hright
        refine ⟨⟨operator, resolvedLeft, resolvedRight⟩, ?_, ?_⟩
        · simp only [Scoping.comparison?, hresolvedLeft, hresolvedRight]
          rfl
        · simp only [Emission.comparison, hcomparison, if_true, Except.bind_eq_ok]
          exact ⟨leftTyped, hemittedLeft, rightTyped, hemittedRight, hcompared⟩
      · cases htext
  | _ => cases htext

/-- Conditions are resolved. -/
theorem comparisons_follow {bindings : Bindings} {history : List Declared}
    (hagrees : Agrees bindings history emission) {conditions : Option (List Node)}
    {texts : Option (List String)}
    (htexts : catalog.ruleConditions bindings conditions = .ok texts) :
    ∃ resolved, (Scoping.ofBindings bindings history).comparisons? catalog conditions =
        some resolved ∧
      emission.comparisons catalog resolved = .ok texts := by
  cases conditions with
  | none =>
      cases htexts
      exact ⟨none, rfl, rfl⟩
  | some conditions =>
      obtain ⟨list, hlist, hresult⟩ := Except.bind_eq_ok.1 htexts
      cases hresult
      have hall : ∃ resolved,
          conditions.mapM ((Scoping.ofBindings bindings history).comparison? catalog) =
            some resolved ∧
          resolved.mapM (emission.comparison catalog) = .ok list := by
        clear htexts
        induction conditions generalizing list with
        | nil =>
            cases hlist
            exact ⟨[], rfl, rfl⟩
        | cons condition rest ih =>
            simp only [List.mapM_cons, Except.bind_eq_ok, Except.pure_eq_ok] at hlist
            obtain ⟨text, htext, others, hothers, rfl⟩ := hlist
            obtain ⟨first, hfirst, hemitted⟩ := comparison_follows hagrees htext
            obtain ⟨resolved, hresolved, hrest⟩ := ih others hothers
            refine ⟨first :: resolved, ?_, ?_⟩
            · simp only [List.mapM_cons, hfirst, hresolved]
              rfl
            · simp only [List.mapM_cons, Except.bind_eq_ok, Except.pure_eq_ok]
              exact ⟨text, hemitted, others, hrest, rfl⟩
      obtain ⟨resolved, hresolved, hemitted⟩ := hall
      refine ⟨some resolved, ?_, Except.bind_eq_ok.2 ⟨list, hemitted, rfl⟩⟩
      simp only [Scoping.comparisons?, hresolved]
      rfl

/-! ## Declarations and assignments -/

/-- The declaration that an entry of the journal tells about. -/
def Declared.ofEvent? : LogEvent → Option Declared
  | .declared domain name typeName slot => some ⟨domain, name, typeName, slot⟩
  | _ => none

/-- The declarations that a journal tells about. -/
def declarations (journal : List LogEvent) : List Declared :=
  journal.filterMap Declared.ofEvent?

/-- An event that may declare a variable. -/
theorem declarations_push (journal : Array LogEvent) (event : LogEvent) :
    declarations (journal.push event).toList =
      declarations journal.toList ++ (Declared.ofEvent? event).toList := by
  rw [Array.toList_push, declarations, List.filterMap_append]
  cases hevent : Declared.ofEvent? event <;> simp [declarations, hevent]

/-- An event that declares nothing. -/
theorem declarations_push_of_ofEvent?_eq_none {journal : Array LogEvent} {event : LogEvent}
    (hevent : Declared.ofEvent? event = none) :
    declarations (journal.push event).toList = declarations journal.toList := by
  rw [declarations_push, hevent]
  exact List.append_nil _

/-- What a walk has seen when the compiler is in a state. -/
def scopingOf (state : CompileState) : Scoping :=
  .ofBindings state.bindings (declarations state.journal.toList)

/-- The agreement in a state of the compiler. -/
def AgreesAt (state : CompileState) (emission : Emission) : Prop :=
  Agrees state.bindings (declarations state.journal.toList) emission

section Statements

variable {state final : CompileState} {emission : Emission} {domain : Domain} {name : String}

/-- Settling a type declares nothing. -/
theorem declarations_settled (inferred : Option ValueType) :
    declarations (state.settled domain name inferred).journal.toList =
      declarations state.journal.toList := by
  cases inferred with
  | none => rfl
  | some type => exact declarations_push_of_ofEvent?_eq_none rfl

/-- Settling a type keeps the scoping. -/
theorem ofBindings_settled (history : List Declared) (inferred : Option ValueType) :
    Scoping.ofBindings (state.settled domain name inferred).bindings history =
      Scoping.ofBindings state.bindings history := by
  cases inferred with
  | none => rfl
  | some type => exact Scoping.ofBindings_retype _ _ _ _ _

/-- The same for the scoping of a state. -/
theorem scopingOf_settled (inferred : Option ValueType) :
    scopingOf (state.settled domain name inferred) = scopingOf state := by
  rw [scopingOf, declarations_settled, ofBindings_settled]
  rfl

/-- Both sides settle a type alike. -/
theorem AgreesAt.settled (hagrees : AgreesAt state emission) {found : Variable}
    (hfound : state.bindings.find? domain name = some found) (inferred : Option ValueType) :
    AgreesAt (state.settled domain name inferred)
      (emission.settle domain found.slot inferred) := by
  rw [AgreesAt, declarations_settled]
  exact Agrees.settle hagrees hfound inferred state.journal

/-- Both sides store a value alike. -/
theorem store_follows (name : String) {slot : Slot} {value : Typed} {text : String}
    {inferred : Option ValueType}
    (hstored : storedText name (emission.types domain slot) value = .ok (text, inferred)) :
    emission.store domain slot value = .ok (text, emission.settle domain slot inferred) :=
  Except.bind_eq_ok.2 ⟨_, storedText_transfers _ _ _ _ hstored, rfl⟩

/-- A successful declaration receives the next slot of the walk. -/
theorem declare_follows {typeName : String} {initial : Option Node} {written : Option String}
    (hagrees : AgreesAt state emission)
    (hdeclare : catalog.declare typeName name domain initial state = .ok written final) :
    ∃ slot resolved emission',
      (scopingOf state).declaration? catalog typeName name domain initial =
        some (slot, resolved, scopingOf final) ∧
      emission.declaration catalog domain slot typeName resolved = .ok (written, emission') ∧
      AgreesAt final emission' := by
  have hnew (hfree : catalog.isTaken state.bindings domain name = false) :
      state.bindings.find? domain name = none := by
    simp only [isTaken_eq, Bool.or_eq_false_iff] at hfree
    simpa using hfree.2
  cases initial with
  | none =>
      obtain ⟨hfree, type, slot, bindings, htype, hbindings, rfl, rfl⟩ :=
        declare_none_eq_ok.1 hdeclare
      obtain ⟨hslot, hscoping, hafter⟩ :=
        @Agrees.declare _ _ _ _ _ _ hagrees typeName _ _ (hnew hfree) hbindings
      refine ⟨slot, none, emission.setType domain slot type, ?_, ?_, ?_⟩
      · have hfinal : scopingOf
              ⟨bindings, state.journal.push (.declared domain name typeName slot)⟩ =
            (scopingOf state).declare domain name typeName := by
          rw [scopingOf, declarations_push]
          exact hscoping
        rw [hfinal, hslot]
        rfl
      · exact Except.bind_eq_ok.2 ⟨type, declaredType_transfers _ _ _ _ htype, rfl⟩
      · rw [AgreesAt, declarations_push]
        exact hafter
  | some initial =>
      obtain ⟨hfree, type, typed, slot, bindings, stored, inferred, htype, htyped, hbindings,
        hstored, rfl, rfl⟩ := declare_some_eq_ok.1 hdeclare
      obtain ⟨hslot, hscoping, hafter⟩ :=
        @Agrees.declare _ _ _ _ _ _ hagrees typeName _ _ (hnew hfree) hbindings
      obtain ⟨resolved, hresolved, hemitted⟩ := hagrees.valueOf initial htyped
      have hfound : bindings.find? domain name = some ⟨slot, type⟩ := by
        obtain ⟨counters, _, rfl⟩ := Bindings.declare_of_find?_none (hnew hfree) hbindings
        rw [Bindings.find?_eq_lookup, Bindings.entries_extend]
        simp [Table.lookup]
      have hnewType : (emission.setType domain slot type).types domain slot = type := by
        simp
      refine ⟨slot, some resolved, (emission.setType domain slot type).settle domain slot inferred,
        ?_, ?_, ?_⟩
      · have hfinal : scopingOf ⟨(StateOn.settled ⟨bindings, state.journal⟩ domain name
              inferred).bindings, (StateOn.settled ⟨bindings, state.journal⟩ domain name
              inferred).journal.push (.declared domain name typeName slot)⟩ =
            (scopingOf state).declare domain name typeName := by
          rw [scopingOf, declarations_push, declarations_settled, ofBindings_settled]
          exact hscoping
        simp only [Scoping.declaration?, Scoping.optional?, scopingOf, hresolved] at hfinal ⊢
        rw [hfinal, hslot]
        rfl
      · simp only [Emission.declaration, Except.bind_eq_ok]
        refine ⟨type, declaredType_transfers _ _ _ _ htype, typed, hemitted, _,
          store_follows name (by rw [hnewType]; exact hstored), rfl⟩
      · rw [AgreesAt, declarations_push, declarations_settled]
        exact hafter.settle hfound inferred state.journal

end Statements

/-! ## Actions -/

/-- Whenever a computation succeeds, its statement can be resolved, and the resolved tree has the
result of the computation. -/
def Follows {α ρ : Type} (work : Compile α) (resolve : Scoping → Option (ρ × Scoping))
    (emit : ρ → Emission → Except SemanticError (α × Emission)) : Prop :=
  ∀ ⦃state a final emission⦄, AgreesAt state emission → work state = .ok a final →
    ∃ resolved emission', resolve (scopingOf state) = some (resolved, scopingOf final) ∧
      emit resolved emission = .ok (a, emission') ∧ AgreesAt final emission'

/-- Nothing follows nothing. -/
theorem Follows.nil {α ρ : Type} {resolveAll : Scoping → Option (List ρ × Scoping)}
    {emitAll : List ρ → Emission → Except SemanticError (List α × Emission)}
    (hresolve : ∀ scoping, resolveAll scoping = some ([], scoping))
    (hemit : ∀ emission, emitAll [] emission = .ok ([], emission)) :
    Follows (pure []) resolveAll emitAll := by
  intro state results final emission hagrees hrun
  obtain ⟨rfl, rfl⟩ := Compile.pure_eq_ok.1 hrun
  exact ⟨[], emission, hresolve _, hemit _, hagrees⟩

/-- One statement after another. -/
theorem Follows.cons {α ρ : Type} {work others : Compile (List α)}
    {resolve : Scoping → Option (ρ × Scoping)}
    {resolveAll : Scoping → Option (List ρ × Scoping)}
    {emit : ρ → Emission → Except SemanticError (List α × Emission)}
    {emitAll : List ρ → Emission → Except SemanticError (List α × Emission)}
    (hemit : ∀ first rest emission, emitAll (first :: rest) emission = do
      let (results, emission) ← emit first emission
      let (others, emission) ← emitAll rest emission
      pure (results ++ others, emission))
    (hwork : Follows work resolve emit) (hothers : Follows others resolveAll emitAll) :
    Follows
      (do
        let results ← work
        let others ← others
        pure (results ++ others))
      (fun scoping => do
        let (first, scoping) ← resolve scoping
        let (others, scoping) ← resolveAll scoping
        some (first :: others, scoping))
      emitAll := by
  intro state results final emission hagrees hrun
  simp only [Compile.bind_eq_ok, Compile.pure_eq_ok] at hrun
  obtain ⟨first, middle, hfirst, rest, last, hrest, rfl, rfl⟩ := hrun
  obtain ⟨resolved, emission', hresolved, hemitted, hmiddle⟩ := hwork hagrees hfirst
  obtain ⟨resolvedRest, emission'', hresolvedRest, hemittedRest, hlast⟩ := hothers hmiddle hrest
  refine ⟨resolved :: resolvedRest, emission'', ?_, ?_, hlast⟩
  · simp only [hresolved, hresolvedRest, Option.bind_eq_bind, Option.bind_some]
  · rw [hemit]
    simp only [Except.bind_eq_ok]
    exact ⟨_, hemitted, _, hemittedRest, rfl⟩

/-- Assignments are resolved. -/
theorem assign_follows (target : String) (receiver : Option Node) (value : Node) :
    Follows (catalog.action (.assign target receiver value))
      (Scoping.action? catalog (.assign target receiver value)) (Emission.action catalog) := by
  intro state lines final emission hagrees hrun
  simp only [action, Compile.bind_eq_ok, Compile.pure_eq_ok] at hrun
  obtain ⟨text, _, hassign, rfl, rfl⟩ := hrun
  cases receiver with
  | none =>
      obtain ⟨_, typed, found, stored, inferred, htyped, hfound, hstored, rfl, rfl⟩ :=
        assign_none_eq_ok.1 hassign
      obtain ⟨resolved, hresolved, hemitted⟩ := hagrees.valueOf value htyped
      have htypes := hagrees.types_of_find? hfound
      refine ⟨.writeGlobal found.slot resolved, _, ?_, ?_, hagrees.settled hfound inferred⟩
      · have hslot := hagrees.slotOf? hfound
        rw [scopingOf_settled]
        simp only [Scoping.action?, scopingOf, hresolved, hslot]
        rfl
      · simp only [Emission.action, Except.bind_eq_ok]
        exact ⟨typed, hemitted, _, store_follows target (by rw [htypes]; exact hstored), rfl⟩
  | some receiver =>
      obtain ⟨typed, actor, player, found, stored, inferred, htyped, hactor, hplayer, hfound,
        hstored, rfl, rfl⟩ := assign_some_eq_ok.1 hassign
      obtain ⟨resolved, hresolved, hemitted⟩ := hagrees.valueOf value htyped
      obtain ⟨resolvedActor, hresolvedActor, hemittedActor⟩ := hagrees.valueOf receiver hactor
      have htypes := hagrees.types_of_find? hfound
      refine ⟨.writePlayer resolvedActor found.slot resolved, _, ?_, ?_,
        hagrees.settled hfound inferred⟩
      · have hslot := hagrees.slotOf? hfound
        rw [scopingOf_settled]
        simp only [Scoping.action?, scopingOf, hresolved, hresolvedActor, hslot]
        rfl
      · simp only [Emission.action, Except.bind_eq_ok]
        exact ⟨typed, hemitted, actor, hemittedActor, player, playerText_transfers _ _ _ hplayer, _,
          store_follows target (by rw [htypes]; exact hstored), rfl⟩

/-- Actions are resolved one by one. -/
theorem actionList_follows (nodes : List Node)
    (ih : ∀ node ∈ nodes, Follows (catalog.action node) (Scoping.action? catalog node)
      (Emission.action catalog)) :
    Follows (catalog.actionList nodes) (Scoping.actions? catalog nodes)
      (Emission.actions catalog) := by
  induction nodes with
  | nil => exact Follows.nil (fun _ => rfl) fun _ => rfl
  | cons node rest ihrest =>
      rw [List.forall_mem_cons] at ih
      exact Follows.cons (fun _ _ _ => rfl) ih.1 (ihrest ih.2)

/-- Choices of a bank are resolved. -/
theorem useBank_follows {state final : CompileState} {domain : Domain} {bank : Bank} {u : Unit}
    (hagrees : AgreesAt state emission) (hrun : useBank domain bank state = .ok u final) :
    scopingOf final = (scopingOf state).useBank domain bank ∧ AgreesAt final emission := by
  cases useBank_eq_ok.1 hrun
  have hhistory : declarations (state.journal.push (.bankSelected domain bank)).toList =
      declarations state.journal.toList :=
    declarations_push_of_ofEvent?_eq_none rfl
  constructor
  · rw [scopingOf, hhistory]
    exact Scoping.ofBindings_useBank _ _ domain bank
  · rw [AgreesAt, hhistory]
    exact Agrees.useBank hagrees domain bank

/-- A block is a scope of its own. -/
theorem block_follows {statements : List Node}
    (hlist : Follows (catalog.actionList statements) (Scoping.actions? catalog statements)
      (Emission.actions catalog)) :
    Follows (catalog.action (.block statements)) (Scoping.action? catalog (.block statements))
      (Emission.action catalog) := by
  intro state lines final emission hagrees hrun
  simp only [action] at hrun
  obtain ⟨middle, hlines, rfl⟩ := Compile.inScope_eq_ok.1 hrun
  have henter : AgreesAt state.enter emission := Agrees.enter hagrees
  obtain ⟨resolved, emission', hresolved, hemitted, hmiddle⟩ := hlist henter hlines
  refine ⟨.block resolved, emission', ?_, hemitted, Agrees.leave hmiddle⟩
  have hleave : scopingOf middle.leave = (scopingOf middle).leave := Scoping.ofBindings_leave _ _
  have hresolved' : Scoping.actions? catalog statements (scopingOf state).enter =
      some (resolved, scopingOf middle) := hresolved
  rw [hleave]
  simp only [Scoping.action?, hresolved']
  rfl

/-- Actions have the lines of their resolved trees. -/
theorem action_follows (node : Node) :
    Follows (catalog.action node) (Scoping.action? catalog node) (Emission.action catalog) := by
  induction node with
  | assign target receiver value => exact assign_follows target receiver value
  | block statements ih => exact block_follows (actionList_follows statements ih)
  | call callee receiver arguments =>
      intro state lines final emission hagrees hrun
      simp only [action, Compile.bind_eq_ok, Compile.query_eq_ok, Compile.pure_eq_ok] at hrun
      obtain ⟨value, _, ⟨hcall, rfl⟩, rfl, rfl⟩ := hrun
      obtain ⟨name, resolvedReceiver, resolvedArguments, rfl, hreceiver, harguments, hresolved⟩ :=
        Agrees.call (fun part _ => hagrees.valueOf part) (fun part _ => hagrees.valueOf part) hcall
      refine ⟨.call name resolvedReceiver resolvedArguments, emission, ?_, ?_, hagrees⟩
      · simp only [Scoping.action?, scopingOf, hreceiver, harguments]
        rfl
      · simp only [Emission.action, Except.bind_eq_ok]
        exact ⟨value, hresolved, rfl⟩
  | declare typeName name perPlayer initial =>
      intro state lines final emission hagrees hrun
      simp only [action, Compile.bind_eq_ok, Compile.pure_eq_ok] at hrun
      obtain ⟨written, _, hdeclare, rfl, rfl⟩ := hrun
      obtain ⟨slot, resolved, emission', hresolved, hemitted, hafter⟩ :=
        declare_follows hagrees hdeclare
      refine ⟨.declare (.ofPerPlayer perPlayer) slot typeName resolved, emission', ?_, ?_, hafter⟩
      · simp only [Scoping.action?, hresolved]
        rfl
      · simp only [Emission.action, Except.bind_eq_ok]
        exact ⟨_, hemitted, rfl⟩
  | useBank domain bank =>
      intro state lines final emission hagrees hrun
      simp only [action, Compile.bind_eq_ok, Compile.pure_eq_ok] at hrun
      obtain ⟨u, _, huse, rfl, rfl⟩ := hrun
      obtain ⟨hscoping, hafter⟩ := useBank_follows hagrees huse
      refine ⟨.useBank, emission, ?_, rfl, hafter⟩
      rw [hscoping]
      rfl
  | choice condition thenBranch elseBranch _ ihthen ihelse =>
      intro state lines final emission hagrees hrun
      simp only [action, Compile.bind_eq_ok, Compile.query_eq_ok, Catalog.condition,
        Except.bind_eq_ok] at hrun
      obtain ⟨text, _, ⟨⟨typed, htyped, htext⟩, rfl⟩, thenLines, middle, hthen, hrest⟩ := hrun
      obtain ⟨resolved, hresolved, hemitted⟩ := hagrees.valueOf condition htyped
      obtain ⟨resolvedThen, emission', hresolvedThen, hemittedThen, hmiddle⟩ :=
        ihthen hagrees hthen
      cases elseBranch with
      | none =>
          simp only [Compile.bind_eq_ok, Compile.pure_eq_ok] at hrest
          obtain ⟨_, _, ⟨rfl, rfl⟩, rfl, rfl⟩ := hrest
          refine ⟨.choice resolved resolvedThen none, emission', ?_, ?_, hmiddle⟩
          · simp only [scopingOf] at hresolvedThen ⊢
            simp only [Scoping.action?, hresolved, hresolvedThen, Option.bind_eq_bind,
              Option.bind_some]
          · simp only [Emission.action, Except.bind_eq_ok]
            exact ⟨typed, hemitted, text, htext, _, hemittedThen, rfl⟩
      | some elseBranch =>
          simp only [Compile.bind_eq_ok, Compile.pure_eq_ok] at hrest
          obtain ⟨elseLines, _, helse, _, _, ⟨rfl, rfl⟩, rfl, rfl⟩ := hrest
          obtain ⟨resolvedElse, emission'', hresolvedElse, hemittedElse, hlast⟩ :=
            ihelse elseBranch rfl hmiddle helse
          refine ⟨.choice resolved resolvedThen (some resolvedElse), emission'', ?_, ?_, hlast⟩
          · simp only [scopingOf] at hresolvedThen hresolvedElse ⊢
            simp only [Scoping.action?, hresolved, hresolvedThen, hresolvedElse,
              Option.bind_eq_bind, Option.bind_some]
          · simp only [Emission.action, Except.bind_eq_ok]
            exact ⟨typed, hemitted, text, htext, _, hemittedThen, _, hemittedElse, rfl⟩
  | _ =>
      intro state lines final emission hagrees hrun
      cases hrun

/-! ## Programs -/

/-- A rule is a scope of its own, which its conditions see as well. -/
theorem rule_follows (name event : String) (conditions : Option (List Node))
    (actions : List Node) :
    Follows (catalog.topLevel (.rule name event conditions actions))
      (Scoping.statement? catalog (.rule name event conditions actions))
      (Emission.statement catalog) := by
  intro state rules final emission hagrees hrun
  simp only [topLevel, topLevelOf, Compile.bind_eq_ok, Compile.pure_eq_ok] at hrun
  obtain ⟨text, _, hrule, rfl, rfl⟩ := hrun
  obtain ⟨eventText, texts, lines, middle, hevent, htexts, hlines, rfl, rfl⟩ :=
    rule_eq_ok.1 hrule
  have hhistory : declarations (state.journal.push (.ruleBegun name event)).toList =
      declarations state.journal.toList :=
    declarations_push_of_ofEvent?_eq_none rfl
  have hentered : Agrees state.bindings.enter (declarations state.journal.toList) emission :=
    Agrees.enter hagrees
  obtain ⟨resolved, hresolved, hemitted⟩ := comparisons_follow hentered htexts
  have hagreesAt : AgreesAt ⟨state.bindings.enter, state.journal.push (.ruleBegun name event)⟩
      emission := by
    rw [AgreesAt, hhistory]
    exact hentered
  obtain ⟨resolvedActions, emission', hresolvedActions, hemittedActions, hmiddle⟩ :=
    actionList_follows actions (fun node _ => action_follows node) hagreesAt hlines
  have hentry : scopingOf ⟨state.bindings.enter, state.journal.push (.ruleBegun name event)⟩ =
      (scopingOf state).enter := by
    rw [scopingOf, hhistory]
    rfl
  have hleave : scopingOf middle.leave = (scopingOf middle).leave := Scoping.ofBindings_leave _ _
  have hconditions : (scopingOf state).enter.comparisons? catalog conditions = some resolved :=
    hresolved
  refine ⟨.rule name event resolved resolvedActions, emission', ?_, ?_, Agrees.leave hmiddle⟩
  · rw [hentry] at hresolvedActions
    rw [hleave]
    simp only [Scoping.statement?, hconditions, hresolvedActions]
    rfl
  · simp only [Emission.statement, Except.bind_eq_ok]
    exact ⟨eventText, hevent, texts, hemitted, _, hemittedActions, rfl⟩

/-- Constants are resolved. -/
theorem constant_follows (name : String) (value : Node) :
    Follows (catalog.topLevel (.constant name value))
      (Scoping.statement? catalog (.constant name value)) (Emission.statement catalog) := by
  intro state rules final emission hagrees hrun
  simp only [topLevel, topLevelOf, Compile.bind_eq_ok, Compile.pure_eq_ok] at hrun
  obtain ⟨u, _, hdefine, rfl, rfl⟩ := hrun
  obtain ⟨_, typed, htyped, rfl⟩ := define_eq_ok.1 hdefine
  obtain ⟨resolved, hresolved, hemitted⟩ := hagrees.valueOf value htyped
  have hhistory : declarations
      (state.journal.push (.defined name typed.text typed.type.name)).toList =
        declarations state.journal.toList :=
    declarations_push_of_ofEvent?_eq_none rfl
  refine ⟨.constant name resolved, _, ?_, Except.bind_eq_ok.2 ⟨typed, hemitted, rfl⟩, ?_⟩
  · have hfinal : scopingOf
        ⟨{ state.bindings with constants := state.bindings.constants.insert name typed },
          state.journal.push (.defined name typed.text typed.type.name)⟩ =
        (scopingOf state).define name := by
      rw [scopingOf, hhistory]
      exact Scoping.ofBindings_define _ _ name typed
    rw [hfinal]
    simp only [Scoping.statement?, scopingOf, hresolved]
    rfl
  · rw [AgreesAt, hhistory]
    exact Agrees.define hagrees typed

/-- Statements are resolved one by one. -/
theorem topLevelList_follows (nodes : List Node)
    (ih : ∀ node ∈ nodes, Follows (catalog.topLevel node) (Scoping.statement? catalog node)
      (Emission.statement catalog)) :
    Follows (catalog.topLevelList nodes) (Scoping.statements? catalog nodes)
      (Emission.statements catalog) := by
  induction nodes with
  | nil => exact Follows.nil (fun _ => rfl) fun _ => rfl
  | cons node rest ihrest =>
      rw [List.forall_mem_cons] at ih
      exact Follows.cons (fun _ _ _ => rfl) ih.1 (ihrest ih.2)

/-- Programs have the rules of their resolved trees. -/
theorem topLevel_follows (node : Node) :
    Follows (catalog.topLevel node) (Scoping.statement? catalog node)
      (Emission.statement catalog) := by
  induction node with
  | block statements ih =>
      intro state rules final emission hagrees hrun
      obtain ⟨resolved, emission', hresolved, hemitted, hfinal⟩ :=
        topLevelList_follows statements ih hagrees hrun
      refine ⟨.block resolved, emission', ?_, hemitted, hfinal⟩
      simp only [Scoping.statement?, hresolved]
      rfl
  | constant name value => exact constant_follows name value
  | declare typeName name perPlayer initial =>
      intro state rules final emission hagrees hrun
      simp only [topLevel, topLevelOf, discard, Functor.discard, Compile.bind_eq_ok,
        Compile.pure_eq_ok] at hrun
      obtain ⟨_, _, hdiscarded, rfl, rfl⟩ := hrun
      obtain ⟨written, _, hdeclare, hunit⟩ := Compile.bind_eq_ok.1 hdiscarded
      obtain ⟨_, rfl⟩ := Compile.pure_eq_ok.1 hunit
      obtain ⟨slot, resolved, emission', hresolved, hemitted, hafter⟩ :=
        declare_follows hagrees hdeclare
      refine ⟨.declare (.ofPerPlayer perPlayer) slot typeName resolved, emission', ?_, ?_, hafter⟩
      · simp only [Scoping.statement?, hresolved]
        rfl
      · simp only [Emission.statement, Except.bind_eq_ok]
        exact ⟨_, hemitted, rfl⟩
  | rule name event conditions actions => exact rule_follows name event conditions actions
  | useBank domain bank =>
      intro state rules final emission hagrees hrun
      simp only [topLevel, topLevelOf, Compile.bind_eq_ok, Compile.pure_eq_ok] at hrun
      obtain ⟨u, _, huse, rfl, rfl⟩ := hrun
      obtain ⟨hscoping, hafter⟩ := useBank_follows hagrees huse
      refine ⟨.useBank, emission, ?_, rfl, hafter⟩
      rw [hscoping]
      rfl
  | _ =>
      intro state rules final emission hagrees hrun
      cases hrun

/-- A program that is accepted can be resolved by a walk through it in source order, and its text
is that of the resolved tree, in which variables have slots and no names.  The journal tells the
declarations of the walk.  Every one of them has the slot whose number is the count of earlier
declarations of its domain in its bank, in whatever scope, so no two have the same slot. -/
theorem compile_follows_resolution {node : Node} {text : String}
    (haccepted : (Session.initial.compile catalog node).outcome = .ok text) :
    ∃ statement scoping rules emission,
      Scoping.statement? catalog node .initial = some (statement, scoping) ∧
      Emission.statement catalog statement .initial = .ok (rules, emission) ∧
      text = "\n\n".intercalate rules ∧
      scoping.history = declarations (Session.initial.compile catalog node).journal ∧
      Numbered scoping.history ∧
      (scoping.history.map fun declared => (declared.domain, declared.slot)).Nodup := by
  obtain ⟨final, hprogram, _, hjournal⟩ := Session.compile_eq_ok.1 haccepted
  obtain ⟨rules, hrules, rfl⟩ := program_eq_ok.1 hprogram
  have hstart : AgreesAt ⟨Session.initial.bindings, #[]⟩ .initial := Agrees.initial
  obtain ⟨statement, emission, hresolved, hemitted, hfinal⟩ :=
    topLevel_follows node hstart hrules
  refine ⟨statement, scopingOf final, rules, emission, hresolved, hemitted, rfl, ?_,
    hfinal.numbered, hfinal.numbered.nodup⟩
  rw [hjournal]
  rfl

/-- Scopes in a rule, with variables of both domains in several banks. -/
def nestedScopes : Node :=
  .block [.useBank .global ⟨⟨1, by decide⟩⟩,
    .declare "number" "total" false none,
    .declare "number" "score" true none,
    .rule "count" "player" none
      [.declare "number" "step" false (some (.number "1")),
        .useBank .global ⟨⟨2, by decide⟩⟩,
        .block [.declare "number" "inside" false (some (.identifier "step" none)),
          .useBank .player ⟨⟨1, by decide⟩⟩,
          .assign "total" none (.identifier "inside" none)],
        .declare "var" "inside" false (some (.identifier "total" none)),
        .declare "number" "best" true (some (.identifier "inside" none)),
        .assign "score" (some .player) (.identifier "best" (some .player))]]

/-- The slot of a variable is not given out again after its scope has been closed. -/
theorem compile_follows_resolution_nestedScopes :
    (Session.initial.compile .standard nestedScopes).outcome.toOption.isSome = true ∧
    (∃ statement scoping rules emission,
      Scoping.statement? .standard nestedScopes .initial = some (statement, scoping) ∧
      Emission.statement .standard statement .initial = .ok (rules, emission) ∧
      (Session.initial.compile .standard nestedScopes).outcome =
        .ok ("\n\n".intercalate rules) ∧
      scoping.history =
        [⟨.global, "total", "number", ⟨⟨1⟩, 0⟩⟩, ⟨.player, "score", "number", ⟨⟨0⟩, 0⟩⟩,
          ⟨.global, "step", "number", ⟨⟨1⟩, 1⟩⟩, ⟨.global, "inside", "number", ⟨⟨2⟩, 0⟩⟩,
          ⟨.global, "inside", "var", ⟨⟨2⟩, 1⟩⟩, ⟨.player, "best", "number", ⟨⟨1⟩, 0⟩⟩] ∧
      Numbered scoping.history ∧
      (scoping.history.map fun declared => (declared.domain, declared.slot)).Nodup) := by
  have hsome : (Session.initial.compile .standard nestedScopes).outcome.toOption.isSome = true := by
    decide +kernel
  obtain ⟨text, htext⟩ : ∃ text,
      (Session.initial.compile .standard nestedScopes).outcome = .ok text := by
    cases hcases : (Session.initial.compile .standard nestedScopes).outcome with
    | ok text => exact ⟨text, rfl⟩
    | error error =>
        rw [hcases] at hsome
        cases hsome
  obtain ⟨statement, scoping, rules, emission, hresolved, hemitted, rfl, hhistory, hrest⟩ :=
    compile_follows_resolution htext
  refine ⟨hsome, statement, scoping, rules, emission, hresolved, hemitted, htext, ?_, hrest⟩
  rw [hhistory]
  decide +kernel

end Resolution
end Workshop

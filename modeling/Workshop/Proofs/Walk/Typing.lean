import Workshop.Proofs.Walk.Points

/-!
# Types of values

Every value that a program can compute has a type that the catalog knows, and
no variable ever has the type of an enumeration.

Main definitions:

- `WellTyped`: bindings all of whose types are known.
- `Bindings.TypedBy`: bindings all of whose types have some properties.

Main results:

- Theorem `Catalog.type_mem_of_valueOf`: values have known types.
- Theorem `Steps.typedBy`: properties that a catalog gives to all types are kept.
- Theorem `Steps.wellTyped`: bindings stay well typed.
- Theorem `Session.wellTyped_compileAll`: so are those at the beginning of every
  program of a session.
-/

namespace Workshop

/-! ## Known types -/

namespace ValueType

/-- The types of literals and of what operators compute. -/
def basic : List ValueType := [number, vector, boolean, string, player]

/-- Basic types are primitive. -/
theorem mem_primitives_of_mem_basic {type : ValueType} (hmem : type ∈ basic) :
    type ∈ Registry.primitives.types := by
  have hbasic : ∀ type ∈ basic, type ∈ Registry.primitives.types := by decide
  exact hbasic type hmem

/-- Basic types are no enumerations. -/
theorem isEnum_of_mem_basic {type : ValueType} (hmem : type ∈ basic) : type.isEnum = false := by
  have hbasic : ∀ type ∈ basic, type.isEnum = false := by decide
  exact hbasic type hmem

end ValueType

namespace Catalog

variable {catalog : Catalog} {type : ValueType} {name : String}

/-- Primitive types are known to every catalog. -/
theorem mem_registry_of_mem_primitives (hmem : type ∈ Registry.primitives.types) :
    type ∈ catalog.registry.types := by
  have hfold (enumerations : List Enumeration) : ∀ registry : Registry,
      type ∈ registry.types → type ∈ (enumerations.foldl (fun registry enumeration =>
        registry.insert (.enumeration enumeration.name)) registry).types := by
    induction enumerations with
    | nil => exact fun _ h => h
    | cons first rest ih => exact fun _ h => ih _ (List.mem_cons_of_mem _ h)
  exact hfold catalog.enumerations _ hmem

/-- A type is what the registry finds. -/
theorem type_eq_ok : catalog.type name = .ok type ↔ catalog.registry.find? name = some type := by
  unfold Catalog.type Registry.get
  cases catalog.registry.find? name <;> simp

/-- A type that is found is registered. -/
theorem mem_registry_of_type (htype : catalog.type name = .ok type) :
    type ∈ catalog.registry.types :=
  List.mem_of_find?_eq_some (type_eq_ok.1 htype)

/-- A type is found under its name. -/
theorem name_of_type (htype : catalog.type name = .ok type) : type.name = name := by
  have hname := List.find?_some (type_eq_ok.1 htype)
  exact beq_iff_eq.1 hname

/-- A variable is declared with a known type that is not an enumeration. -/
theorem type_of_declaredType {typeName : String}
    (htype : catalog.declaredType typeName name = .ok type) :
    type ∈ catalog.registry.types ∧ type.isEnum = false := by
  rcases declaredType_eq_ok.1 htype with ⟨hfound, hstorable⟩
  rw [Bool.or_eq_false_iff] at hstorable
  refine ⟨?_, hstorable.1⟩
  split at hfound
  · cases hfound
    exact mem_registry_of_mem_primitives (by decide)
  · exact mem_registry_of_type hfound

end Catalog

variable {name text condition : String} {type : ValueType}
  {value left right thenValue elseValue : Typed} {catalog : Catalog} {node program : Node}
  {Holds : ValueType → Prop} {bindings : Bindings}

/-- A value that is stored is not a member of an enumeration, and not the result of a call that
produces nothing. -/
theorem storable_of_storedText {stored : String × Option ValueType}
    (hstored : storedText name type value = .ok stored) :
    value.type.isEnum = false ∧ value.type.isVoid = false := by
  unfold storedText at hstored
  split at hstored
  · cases hstored
  · rename_i hstorable
    rwa [Bool.not_eq_true, Bool.or_eq_false_iff] at hstorable

/-- The type that a variable gets from a value that is stored in it. -/
theorem storedText_inferred {inferred : Option ValueType}
    (hstored : storedText name type value = .ok (text, inferred)) :
    inferred = if type.isDynamic && !value.type.isDynamic then some value.type else none := by
  unfold storedText at hstored
  split at hstored
  · cases hstored
  · cases hdynamic : type.isDynamic with
    | true =>
        rw [hdynamic] at hstored
        cases hstored
        cases value.type.isDynamic <;> rfl
    | false =>
        rw [hdynamic] at hstored
        rcases Except.bind_eq_ok.1 hstored with ⟨_, _, hnone⟩
        cases hnone
        rfl

/-- An inferred type is the type of the value. -/
theorem inferred_of_storedText {inferred : ValueType}
    (hstored : storedText name type value = .ok (text, some inferred)) : inferred = value.type := by
  have hinferred := storedText_inferred hstored
  split at hinferred
  · exact Option.some.inj hinferred
  · cases hinferred

/-! ## Operators and calls -/

/-- What can be negated. -/
theorem negate_eq_ok {operand : Typed} (hvalue : negate operand = .ok value) :
    ∃ text, operand.as .boolean = .ok text ∧ ⟨.boolean, "Not(" ++ text ++ ")"⟩ = value := by
  unfold negate at hvalue
  split at hvalue
  · rcases Except.bind_eq_ok.1 hvalue with ⟨text, has, hresult⟩
    exact ⟨text, has, Except.ok.inj hresult⟩
  · cases hvalue

/-- A negation is a truth value. -/
theorem negate_type {operand : Typed} (hvalue : negate operand = .ok value) :
    value.type = .boolean := by
  rcases negate_eq_ok hvalue with ⟨text, _, rfl⟩
  rfl

/-- One of two operands that are compared is adapted to the type of the other. -/
theorem comparable_eq_ok {operator : BinaryOperator} {texts : String × String}
    (htexts : comparable operator left right = .ok texts) :
    (texts.1 = left.text ∧ right.as left.type = .ok texts.2) ∨
      left.as right.type = .ok texts.1 ∧ texts.2 = right.text := by
  unfold comparable at htexts
  split at htexts
  · rcases Except.bind_eq_ok.1 htexts with ⟨rightText, has, hresult⟩
    cases hresult
    exact .inl ⟨rfl, has⟩
  · split at htexts
    · rcases Except.bind_eq_ok.1 htexts with ⟨leftText, has, hresult⟩
      cases hresult
      exact .inr ⟨has, rfl⟩
    · cases htexts

/-- The operands are adapted to the types of the signature that is found. -/
theorem firstSignature?_eq_some {signatures : List OperatorSignature}
    {leftText rightText : String}
    (hfirst : firstSignature? left right signatures = some (type, leftText, rightText)) :
    ∃ signature ∈ signatures, signature.result = type ∧
      left.as signature.left = .ok leftText ∧ right.as signature.right = .ok rightText := by
  induction signatures with
  | nil => cases hfirst
  | cons signature rest ih =>
      simp only [firstSignature?] at hfirst
      split at hfirst
      · rename_i hoperands
        cases hfirst
        unfold OperatorSignature.operands? at hoperands
        split at hoperands
        · rename_i hasLeft hasRight
          cases hoperands
          exact ⟨signature, List.mem_cons_self, rfl, hasLeft, hasRight⟩
        · cases hoperands
      · rcases ih hfirst with ⟨other, hmem, htype⟩
        exact ⟨other, List.mem_cons_of_mem _ hmem, htype⟩

/-- Operators give basic types. -/
theorem applyOperator_type {operator : BinaryOperator}
    (hvalue : applyOperator operator left right = .ok value) : value.type ∈ ValueType.basic := by
  unfold applyOperator at hvalue
  split at hvalue
  · rcases Except.bind_eq_ok.1 hvalue with ⟨texts, _, hresult⟩
    cases hresult
    show ValueType.boolean ∈ ValueType.basic
    decide
  · split at hvalue
    · rename_i type leftText rightText hfirst
      cases hvalue
      rcases firstSignature?_eq_some hfirst with ⟨signature, hmem, rfl, _⟩
      have hresults : ∀ signature ∈ operator.signatures, signature.result ∈ ValueType.basic := by
        cases operator <;> decide
      exact hresults signature hmem
    · cases hvalue

/-- A call that stands for a value has the type that its builtin promises. -/
theorem Catalog.applyCall_type {callee : Node} {receiver : Option ValueResult}
    {arguments : List ValueResult}
    (hvalue : catalog.applyCall .value callee receiver arguments = .ok value) :
    ∃ builtin ∈ catalog.values, catalog.type builtin.result = .ok value.type := by
  rcases applyCall_eq_ok hvalue with ⟨name, builtin, _, _, rfl, hfound, _, _, happly⟩
  rcases applyBuiltin_eq_ok.1 happly with ⟨_, texts, result, _, hresult, rfl⟩
  exact ⟨builtin, mem_values_of_builtin? hfound, hresult⟩

/-- A member has the type of its enumeration. -/
theorem Catalog.enumMember_type {enumName member : String}
    (hvalue : catalog.enumMember enumName member = .ok value) :
    ∃ enumeration, catalog.enumeration? enumName = some enumeration ∧
      catalog.type (ValueType.enumName enumName) = .ok value.type := by
  unfold enumMember at hvalue
  split at hvalue
  · cases hvalue
  · rename_i enumeration hfound
    split at hvalue
    · cases hvalue
    · rcases Except.bind_eq_ok.1 hvalue with ⟨type, htype, hresult⟩
      cases hresult
      exact ⟨enumeration, hfound, htype⟩

/-- The value of a choice has the type of one of its branches, which accepts the other. -/
theorem choose_type (hvalue : choose condition thenValue elseValue = .ok value) :
    value.type = choiceType thenValue.type elseValue.type ∧
      value.type.accepts thenValue.type = true ∧ value.type.accepts elseValue.type = true := by
  rcases Except.bind_eq_ok.1 hvalue with ⟨thenText, hthen, hrest⟩
  rcases Except.bind_eq_ok.1 hrest with ⟨elseText, helse, hresult⟩
  cases hresult
  exact ⟨rfl, ValueType.adapt_eq_ok_iff.1 ⟨_, hthen⟩, ValueType.adapt_eq_ok_iff.1 ⟨_, helse⟩⟩

/-- A choice has the type of a branch. -/
theorem choiceType_eq (thenType elseType : ValueType) :
    choiceType thenType elseType = thenType ∨ choiceType thenType elseType = elseType := by
  unfold choiceType
  split
  · exact .inr rfl
  · exact .inl rfl

/-- What holds of both branches holds of a choice. -/
theorem holds_choiceType {thenType elseType : ValueType} (hthen : Holds thenType)
    (helse : Holds elseType) : Holds (choiceType thenType elseType) := by
  rcases choiceType_eq thenType elseType with htype | htype
  · rw [htype]
    exact hthen
  · rw [htype]
    exact helse

/-- The same for the value of a choice. -/
theorem holds_of_choose (hthen : Holds thenValue.type) (helse : Holds elseValue.type)
    (hvalue : choose condition thenValue elseValue = .ok value) : Holds value.type := by
  rw [(choose_type hvalue).1]
  exact holds_choiceType hthen helse

/-! ## Properties of all types -/

/-- The types of all variables in sight have one property, and those of all constants another. -/
structure Bindings.TypedBy (bindings : Bindings) (ofVariable ofConstant : ValueType → Prop) :
    Prop where
  inSight : ∀ domain, ∀ entry ∈ bindings.entries domain, ofVariable entry.2.type
  constants : ∀ name value, bindings.constants.find? name = some value → ofConstant value.type

namespace Bindings.TypedBy

variable {bindings : Bindings} {ofVariable ofConstant Holds : ValueType → Prop} {name : String}

/-- Types of which more is known. -/
theorem mono (hvariable : ∀ type, ofVariable type → Holds type)
    (hconstant : ∀ type, ofConstant type → Holds type)
    (htyped : bindings.TypedBy ofVariable ofConstant) : bindings.TypedBy Holds Holds where
  inSight domain entry hmem := hvariable _ (htyped.inSight domain entry hmem)
  constants name value hvalue := hconstant _ (htyped.constants name value hvalue)

/-- The type of a variable that is found. -/
theorem of_find? (htyped : bindings.TypedBy ofVariable ofConstant) (domain : Domain)
    {found : Variable} (hfound : bindings.find? domain name = some found) :
    ofVariable found.type := by
  rw [Bindings.find?_eq_lookup] at hfound
  exact htyped.inSight domain _ (Table.mem_of_lookup hfound)

/-- A plain name stands for a constant or for a variable. -/
theorem of_name (htyped : bindings.TypedBy ofVariable ofConstant) {value : Typed}
    (hvalue : Storage.name bindings name = .ok value) :
    bindings.constants.find? name = some value ∨ ofVariable value.type := by
  rw [Storage.name_eq] at hvalue
  split at hvalue
  · rename_i found hfound
    cases hvalue
    exact .inl hfound
  · split at hvalue
    · rename_i found hfound
      cases hvalue
      exact .inr (htyped.of_find? .global hfound)
    · cases hvalue

/-- The type of a member of a player. -/
theorem of_playerMember (htyped : bindings.TypedBy ofVariable ofConstant) {player : String}
    {value : Typed} (hvalue : Storage.playerMember bindings player name = .ok value) :
    ofVariable value.type := by
  rw [Storage.playerMember_eq] at hvalue
  split at hvalue
  · rename_i found hfound
    cases hvalue
    exact htyped.of_find? .player hfound
  · cases hvalue

end Bindings.TypedBy

/-- All types that a catalog gives to values have a property: those of literals and operators, of
calls, and of members of enumerations. -/
structure Catalog.Gives (catalog : Catalog) (Holds : ValueType → Prop) : Prop where
  basic : ∀ {type : ValueType}, type ∈ ValueType.basic → Holds type
  results : ∀ {builtin : Builtin} {type : ValueType}, builtin ∈ catalog.values →
    catalog.type builtin.result = .ok type → Holds type
  members : ∀ {enumName : String} {type : ValueType},
    catalog.type (ValueType.enumName enumName) = .ok type → Holds type

/-- Then the type of every value has this property, if those of all names have it. -/
theorem Catalog.holds_of_valueOf (hgives : catalog.Gives Holds)
    (htyped : bindings.TypedBy Holds Holds) (hvalue : catalog.valueOf bindings node = .ok value) :
    Holds value.type := by
  have hbasic {type : ValueType} (hmem : ValueType.basic.contains type = true) : Holds type :=
    hgives.basic (List.contains_iff_mem.1 hmem)
  induction node generalizing value with
  | block statements ih =>
      match statements with
      | [single] => exact ih single List.mem_cons_self hvalue
      | [] => cases hvalue
      | _ :: _ :: _ => cases hvalue
  | call callee receiver arguments _ _ _ =>
      rcases applyCall_type hvalue with ⟨builtin, hmem, htype⟩
      exact hgives.results hmem htype
  | enumMember enumName member =>
      rcases enumMember_type hvalue with ⟨enumeration, _, htype⟩
      exact hgives.members htype
  | negation operand _ =>
      rcases Except.bind_eq_ok.1 hvalue with ⟨operandValue, _, hnegate⟩
      rw [negate_type hnegate]
      exact hbasic rfl
  | binary operator left right _ _ =>
      rcases Except.bind_eq_ok.1 hvalue with ⟨leftValue, _, hrest⟩
      rcases Except.bind_eq_ok.1 hrest with ⟨rightValue, _, hresult⟩
      exact hgives.basic (applyOperator_type hresult)
  | choice condition thenBranch elseBranch _ ihthen ihelse =>
      cases elseBranch with
      | none => cases hvalue
      | some elseBranch =>
          rcases valueOf_choice_eq_ok.1 hvalue with
            ⟨text, thenValue, elseValue, _, hthen, helse, hchoose⟩
          exact holds_of_choose (ihthen hthen) (ihelse elseBranch rfl helse) hchoose
  | identifier name receiver ih =>
      cases receiver with
      | none =>
          rcases htyped.of_name hvalue with hconstant | hvariable
          · exact htyped.constants name value hconstant
          · exact hvariable
      | some receiver =>
          simp only [valueOf] at hvalue
          split at hvalue
          · rcases enumMember_type hvalue with ⟨enumeration, _, htype⟩
            exact hgives.members htype
          · rcases Except.bind_eq_ok.1 hvalue with ⟨_, _, hrest⟩
            rcases Except.bind_eq_ok.1 hrest with ⟨player, _, hmember⟩
            exact htyped.of_playerMember hmember
  | number digits | text body | boolean truth | player =>
      cases hvalue
      exact hbasic rfl
  | _ => cases hvalue

/-! ## Well-typed bindings -/

/-- All variables in sight and all constants have known types, and no variable has that of an
enumeration. -/
abbrev WellTyped (catalog : Catalog) (bindings : Bindings) : Prop :=
  bindings.TypedBy (fun type => type ∈ catalog.registry.types ∧ type.isEnum = false)
    (· ∈ catalog.registry.types)

/-- Values have registered types. -/
theorem Catalog.gives_known (catalog : Catalog) : catalog.Gives (· ∈ catalog.registry.types) where
  basic hmem := mem_registry_of_mem_primitives (ValueType.mem_primitives_of_mem_basic hmem)
  results _ htype := mem_registry_of_type htype
  members htype := mem_registry_of_type htype

/-- Every value has a known type. -/
theorem Catalog.type_mem_of_valueOf (hwell : WellTyped catalog bindings)
    (hvalue : catalog.valueOf bindings node = .ok value) : value.type ∈ catalog.registry.types :=
  holds_of_valueOf catalog.gives_known
    (hwell.mono (fun _ htype => htype.1) fun _ htype => htype) hvalue

/-! ## Steps -/

namespace Bindings.TypedBy

variable {bindings later : Bindings} {ofVariable ofConstant : ValueType → Prop}

/-- Nothing is declared at the start. -/
theorem initial : Session.initial.bindings.TypedBy ofVariable ofConstant where
  inSight domain entry hmem := by
    cases domain <;> cases hmem
  constants name value hvalue := by
    cases hvalue

variable (htyped : bindings.TypedBy ofVariable ofConstant)

include htyped

/-- A new scope is empty. -/
theorem enter : bindings.enter.TypedBy ofVariable ofConstant where
  inSight domain entry hmem := by
    rw [Bindings.entries_enter] at hmem
    exact htyped.inSight domain entry hmem
  constants := htyped.constants

/-- Fewer variables are left behind a scope. -/
theorem leave : bindings.leave.TypedBy ofVariable ofConstant where
  inSight domain entry hmem :=
    htyped.inSight domain entry ((bindings.entries_leave_sublist domain).subset hmem)
  constants := htyped.constants

/-- Banks have no types. -/
theorem useBank (domain : Domain) (bank : Bank) :
    (bindings.useBank domain bank).TypedBy ofVariable ofConstant where
  inSight other entry hmem := by
    rw [Bindings.entries_useBank] at hmem
    exact htyped.inSight other entry hmem
  constants := by
    cases domain <;> exact htyped.constants

/-- A variable gets such a type. -/
theorem retype (domain : Domain) (name : String) {type : ValueType} (htype : ofVariable type) :
    (bindings.retype domain name type).TypedBy ofVariable ofConstant where
  inSight other entry hmem := by
    rw [Bindings.entries_retype] at hmem
    split at hmem
    · rcases Table.mem_of_mem_change hmem with hmem | ⟨value, hvalue⟩
      · exact htyped.inSight other entry hmem
      · rw [hvalue]
        exact htype
    · exact htyped.inSight other entry hmem
  constants := by
    cases domain <;> exact htyped.constants

/-- A new variable has such a type. -/
theorem declare {domain : Domain} {name : String} {type : ValueType} {slot : Slot}
    (hnew : bindings.find? domain name = none)
    (hdeclare : bindings.declare domain name type = .ok (slot, later)) (htype : ofVariable type) :
    later.TypedBy ofVariable ofConstant where
  inSight other entry hmem := by
    rcases Bindings.declare_of_find?_none hnew hdeclare with ⟨counters, _, rfl⟩
    rw [Bindings.entries_extend] at hmem
    split at hmem
    · rcases List.mem_cons.1 hmem with rfl | hmem
      · exact htype
      · exact htyped.inSight other entry hmem
    · exact htyped.inSight other entry hmem
  constants := by
    rw [(Bindings.declare_eq_ok hdeclare).1]
    exact htyped.constants

/-- A constant has such a type. -/
theorem define (name : String) {value : Typed} (hvalue : ofConstant value.type) :
    Bindings.TypedBy { bindings with constants := bindings.constants.insert name value } ofVariable
      ofConstant where
  inSight := by
    intro domain
    cases domain
    · exact htyped.inSight .global
    · exact htyped.inSight .player
  constants other found hfound := by
    rw [Table.find?_insert] at hfound
    split at hfound
    · cases hfound
      exact hvalue
    · exact htyped.constants other found hfound

/-- What lives on from one program to the next keeps its types. -/
theorem ofBindings : (Session.ofBindings bindings).bindings.TypedBy ofVariable ofConstant where
  inSight domain entry hmem := by
    cases domain with
    | global => cases hmem
    | player => exact htyped.inSight .player entry hmem
  constants := htyped.constants

end Bindings.TypedBy

/-- A catalog gives such types only: to variables when they are declared and when a value is stored
in them, and to the values of constants. -/
structure Catalog.Types (catalog : Catalog) (ofVariable ofConstant : ValueType → Prop) : Prop where
  declared : ∀ {typeName name : String} {type : ValueType},
    catalog.declaredType typeName name = .ok type → ofVariable type
  stored : ∀ {bindings : Bindings} {node : Node} {value : Typed} {name text : String}
    {type inferred : ValueType}, bindings.TypedBy ofVariable ofConstant →
    catalog.valueOf bindings node = .ok value →
    storedText name type value = .ok (text, some inferred) → ofVariable inferred
  defined : ∀ {bindings : Bindings} {node : Node} {value : Typed},
    bindings.TypedBy ofVariable ofConstant → catalog.valueOf bindings node = .ok value →
    ofConstant value.type

section Types

variable {catalog : Catalog} {ofVariable ofConstant : ValueType → Prop}
  (htypes : catalog.Types ofVariable ofConstant)
include htypes

/-- No step breaks the typing. -/
theorem Steps.typedBy {place : Place} {bindings later : Bindings}
    (hsteps : Steps catalog place bindings later)
    (htyped : bindings.TypedBy ofVariable ofConstant) :
    later.TypedBy ofVariable ofConstant := by
  induction hsteps with
  | done place bindings => exact htyped
  | andThen _ _ ihfirst ihsecond => exact ihsecond (ihfirst htyped)
  | declare hfree htype hdeclare =>
      have hnew := (Catalog.isTaken_eq_false.1 hfree).2.2
      exact htyped.declare hnew hdeclare (htypes.declared htype)
  | settle _ hvalue _ hstored ih =>
      exact (ih htyped).retype _ _ (htypes.stored htyped hvalue hstored)
  | useBank place bindings domain bank => exact htyped.useBank domain bank
  | define _ hvalue => exact htyped.define _ (htypes.defined htyped hvalue)
  | inScope _ ih => exact (ih htyped.enter).leave

/-- Nor do whole programs. -/
theorem Session.typedBy_compileAll (programs : List Node) {session : Session}
    (htyped : session.bindings.TypedBy ofVariable ofConstant) :
    (session.compileAll catalog programs).bindings.TypedBy ofVariable ofConstant := by
  induction programs generalizing session with
  | nil => exact htyped
  | cons node rest ih =>
      rcases session.bindings_steps catalog node with ⟨final, hsteps, hsession⟩
      apply ih
      rw [hsession]
      exact (hsteps.typedBy htypes htyped).ofBindings

end Types

/-! ## Known types are kept -/

/-- Variables and constants have registered types. -/
theorem Catalog.types_known (catalog : Catalog) :
    catalog.Types (fun type => type ∈ catalog.registry.types ∧ type.isEnum = false)
      (· ∈ catalog.registry.types) where
  declared htype := type_of_declaredType htype
  stored htyped hvalue hstored := by
    rw [inferred_of_storedText hstored]
    exact ⟨type_mem_of_valueOf htyped hvalue, (storable_of_storedText hstored).1⟩
  defined htyped hvalue := type_mem_of_valueOf htyped hvalue

/-- Every step keeps bindings well typed. -/
theorem Steps.wellTyped {place : Place} {later : Bindings}
    (hsteps : Steps catalog place bindings later) (hwell : WellTyped catalog bindings) :
    WellTyped catalog later :=
  hsteps.typedBy catalog.types_known hwell

/-- Bindings are well typed at every point of the walk through a program, if they were before. -/
theorem Reaches.wellTyped_of_mem {session : Session} {point : Point}
    (hreaches : Reaches catalog (.start session program) point)
    (hwell : WellTyped catalog session.bindings) :
    ∀ bindings ∈ point.bindings catalog, WellTyped catalog bindings :=
  hreaches.of_mem_bindings (WellTyped catalog) (fun _ => .enter) (fun _ _ _ => Steps.wellTyped)
    hwell

/-- Every point of a program is well typed. -/
theorem Reaches.wellTyped {point : Point}
    (hreaches : Reaches catalog (.start .initial program) point) :
    WellTyped catalog point.state.bindings :=
  hreaches.wellTyped_of_mem .initial _ List.mem_cons_self

/-- So are those at the beginning of every program of a session. -/
theorem Session.wellTyped_compileAll (catalog : Catalog) (programs : List Node) {session : Session}
    (hwell : WellTyped catalog session.bindings) :
    WellTyped catalog (session.compileAll catalog programs).bindings :=
  typedBy_compileAll catalog.types_known programs hwell

end Workshop

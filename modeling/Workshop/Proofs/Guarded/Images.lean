import Workshop.Proofs.Success
import Workshop.Proofs.Tree

/-!
# Images of the bindings

Compiling works on any storage.  If every operation on the images of the bindings in
a storage has the image of the outcome, then so has compiling: a program is compiled
to the same text, or stops with the same error, and leaves the image of what it leaves.

Main definitions:

- `BindingsImage`: a map from the bindings to a storage that keeps every operation.
- `BindingsImage.Mirrors`: a computation on the storage does what one on the bindings
  does.

Main results:

- Theorem `BindingsImage.valueOf`: expressions have the same value.
- Theorem `BindingsImage.mirrors_program`: programs have the same text, and leave the
  image of the bindings that they leave.
-/

namespace Workshop

/-- A map from the bindings to a storage that keeps every operation.  Calls keep their texts if
there is one for each parameter. -/
structure BindingsImage (σ : Type) {ε : Type} [Storage σ ε] [Reason ε] where
  /-- The image of bindings. -/
  image : Bindings → σ
  /-- The image of an error. -/
  reason : SemanticError → ε
  lift : ∀ {α : Type} (outcome : Except SemanticError α),
    Reason.lift outcome = outcome.mapError reason
  render : ∀ {builtin : Builtin} {texts : List String},
    texts.length = builtin.parameters.length →
    (Reason.render builtin texts : Except ε String) = .ok (builtin.render texts)
  constants : ∀ bindings, Storage.constants (image bindings) = bindings.constants
  define : ∀ bindings name value, Storage.define (image bindings) name value =
    image { bindings with constants := bindings.constants.insert name value }
  find? : ∀ bindings domain name,
    Storage.find? (image bindings) domain name = bindings.find? domain name
  declare : ∀ bindings domain name type, Storage.declare (image bindings) domain name type =
    ((bindings.declare domain name type).map (Prod.map id image)).mapError reason
  retype : ∀ bindings domain name type,
    Storage.retype (image bindings) domain name type = image (bindings.retype domain name type)
  useBank : ∀ bindings domain bank,
    Storage.useBank (image bindings) domain bank = .ok (image (bindings.useBank domain bank))
  enter : ∀ bindings, Storage.enter (image bindings) = .ok (image bindings.enter)
  leave : ∀ bindings, Storage.leave (image bindings) = image bindings.leave

namespace BindingsImage

variable {α β γ δ σ ε : Type} [Storage σ ε] [Reason ε] (map : BindingsImage σ)
  {catalog : Catalog} {bindings : Bindings}

/-! ## Outcomes -/

/-- The image of an outcome. -/
def outcome (outcome : Except SemanticError α) : Except ε α :=
  outcome.mapError map.reason

@[simp]
theorem outcome_ok (result : α) : map.outcome (.ok result) = .ok result := rfl

@[simp]
theorem outcome_error (error : SemanticError) :
    map.outcome (.error error : Except SemanticError α) = .error (map.reason error) := rfl

@[simp]
theorem outcome_pure (result : α) : map.outcome (pure result) = pure result := rfl

/-- The images of two steps are two steps. -/
@[simp]
theorem outcome_bind (x : Except SemanticError α) (f : α → Except SemanticError β) :
    map.outcome (x >>= f) = map.outcome x >>= fun result => map.outcome (f result) := by
  cases x with
  | error error => rfl
  | ok result => rfl

/-- Results are mapped in the image. -/
@[simp]
theorem outcome_map (f : α → β) (x : Except SemanticError α) :
    map.outcome (f <$> x) = f <$> map.outcome x := by
  cases x with
  | error error => rfl
  | ok result => rfl

/-- Decisions are made in the image. -/
@[simp]
theorem outcome_ite (p : Prop) [Decidable p] (first second : Except SemanticError α) :
    map.outcome (if p then first else second) =
      if p then map.outcome first else map.outcome second :=
  apply_ite map.outcome p first second

/-- Errors are lifted to the image. -/
theorem lift_eq_outcome (x : Except SemanticError α) : Reason.lift x = map.outcome x :=
  map.lift x

/-! ## Calls -/

/-- The receiver of a call. -/
theorem receiverArgument (method : String) (builtin : Builtin) (receiver : Option ValueResult) :
    catalog.receiverArgument method builtin (receiver.map map.outcome) =
      map.outcome (catalog.receiverArgument method builtin receiver) := by
  cases receiver with
  | none => rfl
  | some receiver => simp [Catalog.receiverArgument, map.lift_eq_outcome]

/-- The arguments of a call. -/
theorem producedArguments (method : String) (position : Nat) (arguments : List ValueResult) :
    Catalog.producedArguments method position (arguments.map map.outcome) =
      map.outcome (Catalog.producedArguments method position arguments) := by
  induction arguments generalizing position with
  | nil => rfl
  | cons argument rest ih => simp [Catalog.producedArguments, map.lift_eq_outcome, ih]

/-- A builtin gets one text for each of its parameters. -/
theorem applyBuiltin (method : String) (builtin : Builtin) (arguments : List Typed) :
    catalog.applyBuiltin method builtin arguments =
      map.outcome (catalog.applyBuiltin method builtin arguments) := by
  simp only [Catalog.applyBuiltin, map.lift_eq_outcome, outcome_ite, Reason.lift_eq, outcome_bind]
  split
  · rename_i hlength
    -- The arguments have been counted, and each of them has one text.
    cases htexts : catalog.adaptedArguments method 1 arguments builtin.parameters with
    | error error => rfl
    | ok texts =>
        have hrender := map.render (Catalog.length_of_adaptedArguments hlength htexts)
        cases catalog.type builtin.result with
        | error error => rfl
        | ok result =>
            change (Reason.render builtin texts : Except ε String) >>= _ = _
            rw [hrender]
            rfl
  · rfl

/-- A call of images is the image of the call. -/
theorem applyCall (mode : CallMode) (callee : Node) (receiver : Option ValueResult)
    (arguments : List ValueResult) :
    catalog.applyCall mode callee (receiver.map map.outcome) (arguments.map map.outcome) =
      map.outcome (catalog.applyCall mode callee receiver arguments) := by
  cases callee with
  | identifier name inner =>
      cases inner with
      | none =>
          simp [Catalog.applyCall, map.lift_eq_outcome, map.receiverArgument,
            map.producedArguments, ← map.applyBuiltin]
      | some inner => exact map.lift_eq_outcome _
  | _ => exact map.lift_eq_outcome _

/-! ## Expressions -/

/-- Variables are found in the image. -/
theorem get (domain : Domain) (name : String) :
    Storage.get (map.image bindings) domain name =
      map.outcome (Storage.get bindings domain name) := by
  rw [Storage.get, Storage.get, map.find?, Storage.find?_eq]
  cases bindings.find? domain name with
  | none => exact map.lift_eq_outcome _
  | some found => rfl

/-- Names mean the same in the image. -/
theorem name (name : String) :
    Storage.name (map.image bindings) name = map.outcome (Storage.name bindings name) := by
  rw [Storage.name, Storage.name, map.constants, map.find?, Storage.constants_eq,
    Storage.find?_eq]
  cases bindings.constants.find? name with
  | some value => rfl
  | none =>
      cases bindings.find? .global name with
      | some found => rfl
      | none => exact map.lift_eq_outcome _

/-- So do members of players. -/
theorem playerMember (player name : String) :
    Storage.playerMember (map.image bindings) player name =
      map.outcome (Storage.playerMember bindings player name) := by
  rw [Storage.playerMember, Storage.playerMember, map.find?, Storage.find?_eq]
  cases bindings.find? .player name with
  | some found => rfl
  | none => exact map.lift_eq_outcome _

/-- A call of operands that have the same values has the same value. -/
theorem callOutcome_of_operands (mode : CallMode) (callee : Node) {receiver : Option Node}
    {arguments : List Node}
    (hreceiver : ∀ node ∈ receiver,
      catalog.valueOf (map.image bindings) node = map.outcome (catalog.valueOf bindings node))
    (harguments : ∀ node ∈ arguments,
      catalog.valueOf (map.image bindings) node = map.outcome (catalog.valueOf bindings node)) :
    catalog.applyCall mode callee (catalog.optionalValueOf (map.image bindings) receiver)
        (catalog.valuesOf (map.image bindings) arguments) =
      map.outcome (catalog.applyCall mode callee (catalog.optionalValueOf bindings receiver)
        (catalog.valuesOf bindings arguments)) := by
  simp only [Catalog.optionalValueOf_eq_map, Catalog.valuesOf_eq_map, ← map.applyCall,
    Option.map_map, List.map_map]
  rw [Option.map_congr hreceiver, List.map_congr_left harguments]
  rfl

/-- Expressions have the same value, or the same error. -/
theorem valueOf (node : Node) :
    catalog.valueOf (map.image bindings) node = map.outcome (catalog.valueOf bindings node) := by
  induction node with
  | block statements ih =>
      match statements with
      | [] => exact map.lift_eq_outcome _
      | [single] => exact ih single List.mem_cons_self
      | _ :: _ :: _ => exact map.lift_eq_outcome _
  | call callee receiver arguments _ ihreceiver iharguments =>
      exact map.callOutcome_of_operands .value callee ihreceiver iharguments
  | negation operand ih => simp [Catalog.valueOf, map.lift_eq_outcome, ih]
  | binary operator left right ihleft ihright =>
      simp [Catalog.valueOf, map.lift_eq_outcome, ihleft, ihright]
  | choice condition thenBranch elseBranch ihcondition ihthen ihelse =>
      cases elseBranch with
      | none => exact map.lift_eq_outcome _
      | some elseBranch =>
          simp [Catalog.valueOf, map.lift_eq_outcome, ihcondition, ihthen, ihelse elseBranch rfl]
  | identifier name receiver ih =>
      cases receiver with
      | none => exact map.name name
      | some receiver =>
          simp only [Catalog.valueOf]
          cases catalog.namedEnumeration? receiver with
          | some enumName => exact map.lift_eq_outcome _
          | none => simp [map.lift_eq_outcome, ih receiver rfl, map.playerMember]
  | number | text | boolean | player => rfl
  | _ => exact map.lift_eq_outcome _

/-- Conditions read the image only. -/
theorem condition (node : Node) :
    catalog.condition (map.image bindings) node =
      map.outcome (catalog.condition bindings node) := by
  simp [Catalog.condition, map.valueOf, map.lift_eq_outcome]

/-- The condition of a rule. -/
theorem ruleCondition (node : Node) :
    catalog.ruleCondition (map.image bindings) node =
      map.outcome (catalog.ruleCondition bindings node) := by
  cases node with
  | binary operator left right =>
      simp [Catalog.ruleCondition, map.valueOf, map.lift_eq_outcome]
  | _ => exact map.lift_eq_outcome _

/-- The conditions of a rule. -/
theorem ruleConditions (conditions : Option (List Node)) :
    catalog.ruleConditions (map.image bindings) conditions =
      map.outcome (catalog.ruleConditions bindings conditions) := by
  have hall (nodes : List Node) : nodes.mapM (catalog.ruleCondition (map.image bindings)) =
      map.outcome (nodes.mapM (catalog.ruleCondition bindings)) := by
    induction nodes with
    | nil => rfl
    | cons node rest ih => simp [List.mapM_cons, map.ruleCondition, ih]
  cases conditions with
  | none => rfl
  | some nodes => simp [Catalog.ruleConditions, hall]

/-! ## Computations -/

/-- The image of a state. -/
def state (state : CompileState) : StateOn σ :=
  ⟨map.image state.bindings, state.journal⟩

/-- A computation on a storage does what one on the bindings does, with the image of its result. -/
def Mirrors (f : α → β) (run : CompileOn σ ε β) (work : Compile α) : Prop :=
  ∀ state, run (map.state state) =
    match work state with
    | .ok result after => .ok (f result) (map.state after)
    | .error error after => .error (map.reason error) (map.state after)

variable {f : α → β} {g : Bindings → Except SemanticError α}

/-- A result changes nothing. -/
theorem Mirrors.pure (f : α → β) (result : α) : map.Mirrors f (pure (f result)) (pure result) :=
  fun _ => rfl

variable {map}

/-- Two steps that are mirrored one by one are mirrored. -/
theorem Mirrors.bind {f' : γ → δ} {run : CompileOn σ ε β} {work : Compile α}
    {next : β → CompileOn σ ε δ} {next' : α → Compile γ} (hfirst : map.Mirrors f run work)
    (hnext : ∀ result, map.Mirrors f' (next (f result)) (next' result)) :
    map.Mirrors f' (run >>= next) (work >>= next') := by
  intro state
  change EStateM.bind run next (map.state state) = match EStateM.bind work next' state with
    | .ok result after => _
    | .error error after => _
  rw [EStateM.bind, EStateM.bind, hfirst state]
  cases work state with
  | error error after => rfl
  | ok result after => exact hnext result after

/-- Notes leave the bindings alone. -/
theorem mirrors_note (event : LogEvent) :
    map.Mirrors id (Compile.note event) (Compile.note event) :=
  fun _ => rfl

/-- A change that the image takes part in. -/
theorem mirrors_update {h : σ → σ} {k : Bindings → Bindings}
    (hbindings : ∀ bindings, h (map.image bindings) = map.image (k bindings)) :
    map.Mirrors id (Compile.update h) (Compile.update k) := by
  intro state
  exact congrArg (fun storage => EStateM.Result.ok () (StateOn.mk storage state.journal))
    (hbindings state.bindings)

/-- A question, with an answer that is mapped. -/
theorem mirrors_query_map {h : σ → Except ε β}
    (houtcome : ∀ bindings, h (map.image bindings) = map.outcome ((g bindings).map f)) :
    map.Mirrors f (Compile.query h) (Compile.query g) := by
  intro state
  have hsame : h (map.state state).bindings = map.outcome ((g state.bindings).map f) :=
    houtcome state.bindings
  rw [Compile.query, Compile.query, hsame]
  cases g state.bindings with
  | error error => rfl
  | ok result => rfl

/-- A question to the bindings. -/
theorem mirrors_query {h : σ → Except ε α}
    (houtcome : ∀ bindings, h (map.image bindings) = map.outcome (g bindings)) :
    map.Mirrors id (Compile.query h) (Compile.query g) := by
  refine mirrors_query_map fun bindings => ?_
  rw [Except.map_id]
  exact houtcome bindings

/-- An answer that was known before. -/
theorem mirrors_lift (x : Except SemanticError α) :
    map.Mirrors id (Compile.query fun _ => Reason.lift x) (Compile.query fun _ => Reason.lift x) :=
  mirrors_query fun _ => map.lift_eq_outcome x

/-- There is always a scope around a new one. -/
theorem Mirrors.inScope {run : CompileOn σ ε β} {work : Compile α}
    (hwork : map.Mirrors f run work) :
    map.Mirrors f (Compile.inScope run) (Compile.inScope work) := by
  intro state
  have henter : Storage.enter (map.state state).bindings = .ok (map.image state.bindings.enter) :=
    map.enter state.bindings
  have hrun : run ⟨map.image state.bindings.enter, (map.state state).journal⟩ = _ :=
    hwork ⟨state.bindings.enter, state.journal⟩
  have hleave (after : CompileState) :
      StateOn.mk (Storage.leave (map.state after).bindings) (map.state after).journal =
        map.state after.leave :=
    congrArg (StateOn.mk · after.journal) (map.leave after.bindings)
  simp only [Compile.inScope, henter, hrun, Storage.enter_eq]
  cases work ⟨state.bindings.enter, state.journal⟩ with
  | error error after => exact congrArg (EStateM.Result.error _) (hleave after)
  | ok result after => exact congrArg (EStateM.Result.ok _) (hleave after)

/-! ## Statements -/

/-- The value of an expression. -/
theorem mirrors_valueOf (node : Node) :
    map.Mirrors id (Compile.query (catalog.valueOf · node))
      (Compile.query (catalog.valueOf · node)) :=
  mirrors_query fun _ => map.valueOf node

/-- A variable that is looked up. -/
theorem mirrors_get (domain : Domain) (name : String) :
    map.Mirrors id (Compile.query (Storage.get · domain name))
      (Compile.query (Storage.get · domain name)) :=
  mirrors_query fun _ => map.get domain name

/-- A value is stored. -/
theorem mirrors_store (domain : Domain) (name : String) (type : ValueType) (value : Typed) :
    map.Mirrors id (store domain name type value) (store domain name type value) := by
  refine .bind (mirrors_lift _) ?_
  rintro ⟨text, inferred⟩
  cases inferred with
  | none => exact .pure map id text
  | some type =>
      refine .bind (mirrors_note _) fun _ => .bind (mirrors_update ?_) fun _ => .pure map id text
      exact fun bindings => map.retype bindings domain name type

/-- A bank is chosen. -/
theorem mirrors_useBank (domain : Domain) (bank : Bank) :
    map.Mirrors id (Workshop.useBank domain bank) (Workshop.useBank domain bank) := by
  refine .bind (mirrors_query_map fun bindings => map.useBank bindings domain bank) fun _ => ?_
  exact .bind (mirrors_update fun _ => rfl) fun _ => mirrors_note _

/-- An assignment. -/
theorem mirrors_assign (target : String) (receiver : Option Node) (value : Node) :
    map.Mirrors id (catalog.assign target receiver value)
      (catalog.assign target receiver value) := by
  cases receiver with
  | none =>
      refine .bind (mirrors_query fun bindings => ?_) fun _ => ?_
      · simp [map.constants, map.lift_eq_outcome]
      refine .bind (mirrors_valueOf value) fun value => ?_
      refine .bind (mirrors_get .global target) fun found => ?_
      exact .bind (mirrors_store _ _ _ _) fun text => .pure map id _
  | some receiver =>
      refine .bind (mirrors_valueOf value) fun value => ?_
      refine .bind (mirrors_valueOf receiver) fun receiver => ?_
      refine .bind (mirrors_lift _) fun player => ?_
      refine .bind (mirrors_get .player target) fun found => ?_
      exact .bind (mirrors_store _ _ _ _) fun text => .pure map id _

/-- A test for a name that is taken. -/
theorem mirrors_requireFree (domain : Domain) (name : String) :
    map.Mirrors id (catalog.requireFree domain name) (catalog.requireFree domain name) := by
  refine mirrors_query fun bindings => ?_
  have htaken : catalog.isTaken (map.image bindings) domain name =
      catalog.isTaken bindings domain name := by
    rw [Catalog.isTaken, Catalog.isTaken_eq, map.constants, map.find?]
  simp [htaken, map.lift_eq_outcome]

/-- The first value of a variable. -/
theorem mirrors_initialValue (initial : Option Node) :
    map.Mirrors id (catalog.initialValue initial) (catalog.initialValue initial) := by
  cases initial with
  | none => exact .pure map id none
  | some node => exact .bind (mirrors_valueOf node) fun value => .pure map id _

/-- A declaration. -/
theorem mirrors_declare (typeName name : String) (domain : Domain) (initial : Option Node) :
    map.Mirrors id (catalog.declare typeName name domain initial)
      (catalog.declare typeName name domain initial) := by
  refine .bind (mirrors_requireFree domain name) fun _ => ?_
  refine .bind (mirrors_lift _) fun type => ?_
  refine .bind (mirrors_initialValue initial) fun value => ?_
  refine .bind (mirrors_query_map fun bindings => map.declare bindings domain name type) ?_
  rintro ⟨slot, bindings⟩
  -- The slots are the same, and the new storage is the image of the new bindings.
  refine .bind (mirrors_update fun _ => rfl) fun _ => ?_
  have hend (written : Option String) :
      map.Mirrors id (Compile.note (.declared domain name typeName slot) >>= fun _ => pure written)
        (Compile.note (.declared domain name typeName slot) >>= fun _ => pure written) :=
    .bind (mirrors_note _) fun _ => .pure map id written
  cases value with
  | none => exact .bind (.pure map id none) hend
  | some value =>
      exact .bind (mirrors_store domain name type value) fun text => .bind (.pure map id _) hend

/-- A constant. -/
theorem mirrors_define (name : String) (value : Node) :
    map.Mirrors id (catalog.define name value) (catalog.define name value) := by
  refine .bind (mirrors_requireFree .global name) fun _ => ?_
  refine .bind (mirrors_valueOf value) fun value => ?_
  refine .bind (mirrors_note _) fun _ => mirrors_update fun bindings => ?_
  exact map.define bindings name value

/-! ## Programs -/

/-- Actions one after the other. -/
theorem mirrors_actionList {nodes : List Node}
    (hnodes : ∀ node ∈ nodes, map.Mirrors id (catalog.action node) (catalog.action node)) :
    map.Mirrors id (catalog.actionList nodes) (catalog.actionList nodes) := by
  induction nodes with
  | nil => exact .pure map id []
  | cons node rest ih =>
      rw [List.forall_mem_cons] at hnodes
      exact .bind hnodes.1 fun lines => .bind (ih hnodes.2) fun others => .pure map id _

/-- Actions have the same lines, and leave the image of the bindings that they leave. -/
theorem mirrors_action (node : Node) :
    map.Mirrors id (catalog.action node) (catalog.action node) := by
  induction node with
  | assign target receiver value _ _ =>
      exact .bind (mirrors_assign target receiver value) fun text => .pure map id _
  | block statements ih => exact .inScope (mirrors_actionList ih)
  | call callee receiver arguments _ _ _ =>
      refine .bind (mirrors_query fun bindings => ?_) fun call => .pure map id _
      exact map.callOutcome_of_operands .action callee (fun node _ => map.valueOf node)
        fun node _ => map.valueOf node
  | declare typeName name perPlayer initial _ =>
      exact .bind (mirrors_declare typeName name _ initial) fun written => .pure map id _
  | useBank domain bank => exact .bind (mirrors_useBank domain bank) fun _ => .pure map id []
  | choice condition thenBranch elseBranch _ ihthen ihelse =>
      rw [Catalog.action, Catalog.action]
      refine .bind (mirrors_query fun _ => map.condition condition) fun conditionText => ?_
      refine .bind ihthen fun thenLines => ?_
      cases elseBranch with
      | none => exact .bind (.pure map id []) fun elseLines => .pure map id _
      | some elseBranch =>
          refine .bind (ihelse elseBranch rfl) fun lines => ?_
          exact .bind (.pure map id _) fun elseLines => .pure map id _
  | _ => exact mirrors_lift _

/-- A rule with its scope. -/
theorem mirrors_ruleLayout (name event : String) (conditions : Option (List Node))
    (actions : List Node) :
    map.Mirrors id (catalog.ruleLayout name event conditions actions)
      (catalog.ruleLayout name event conditions actions) := by
  refine .bind (mirrors_lift _) fun eventText => ?_
  refine .bind (mirrors_note _) fun _ => .inScope ?_
  refine .bind (mirrors_query fun _ => map.ruleConditions conditions) fun conditions => ?_
  exact .bind (mirrors_actionList fun node _ => mirrors_action node) fun lines => .pure map id _

/-- Statements one after the other. -/
theorem mirrors_topLevelList {nodes : List Node}
    (hnodes : ∀ node ∈ nodes, map.Mirrors id (catalog.topLevel node) (catalog.topLevel node)) :
    map.Mirrors id (catalog.topLevelList nodes) (catalog.topLevelList nodes) := by
  induction nodes with
  | nil => exact .pure map id []
  | cons node rest ih =>
      rw [List.forall_mem_cons] at hnodes
      exact .bind hnodes.1 fun rules => .bind (ih hnodes.2) fun others => .pure map id _

/-- One statement of a program. -/
theorem mirrors_topLevel (node : Node) :
    map.Mirrors id (catalog.topLevel node) (catalog.topLevel node) := by
  induction node with
  | block statements ih => exact mirrors_topLevelList ih
  | constant name value _ => exact .bind (mirrors_define name value) fun _ => .pure map id []
  | declare typeName name perPlayer initial _ =>
      exact .bind (.bind (mirrors_declare typeName name _ initial) fun _ => .pure map id ())
        fun _ => .pure map id []
  | rule name event conditions actions _ _ =>
      refine .bind ?_ fun text => .pure map id _
      exact .bind (mirrors_ruleLayout name event conditions actions) fun layout => .pure map id _
  | useBank domain bank => exact .bind (mirrors_useBank domain bank) fun _ => .pure map id []
  | _ => exact mirrors_lift _

/-- Programs have the same text, and leave the image of the bindings that they leave. -/
theorem mirrors_program (node : Node) :
    map.Mirrors id (catalog.program node) (catalog.program node) :=
  .bind (mirrors_topLevel node) fun _ => .pure map id _

end BindingsImage

end Workshop

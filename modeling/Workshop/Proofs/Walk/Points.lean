import Workshop.Proofs.Walk.Steps
import Mathlib.Logic.Relation

/-!
# Points of a walk

Compiling walks through a script and does one task after another.  A point of
the walk is a task together with the state in which it is begun.  From a point
the walk leads to the points of its parts: the first statement of a list in the
same state, the others in the state that the first one leaves if it succeeds,
and so on down to the moment at which a variable gets its slot.

Main definitions:

- `Task`: what is done at a point.
- `Leads`: from a point to a point of one of its parts.
- `Reaches`: from a point to the points of all its parts.
- `Point.bindings`: the bindings at a point of a walk.

Main results:

- Theorem `Reaches.invariant`: what every step keeps holds at all points.
- Theorem `Reaches.succeeds`: where the whole succeeds, every part does.
-/

namespace Workshop

/-- Something that is done on a walk through a script. -/
inductive Task where
  /-- A top level statement is compiled. -/
  | statement (node : Node)
  /-- Top level statements are compiled one after the other. -/
  | statements (nodes : List Node)
  /-- An action is compiled. -/
  | action (node : Node)
  /-- Actions are compiled one after the other. -/
  | actions (nodes : List Node)
  /-- A variable is declared, with its first value if there is one. -/
  | declaration (typeName name : String) (domain : Domain) (initial : Option Node)
  /-- A declared variable gets its slot. -/
  | allocation (domain : Domain) (name : String) (type : ValueType)

/-- Does a task, with no result but the state in which it ends. -/
def Task.run (catalog : Catalog) : Task → Compile Unit
  | .statement node => discard (catalog.topLevel node)
  | .statements nodes => discard (catalog.topLevelList nodes)
  | .action node => discard (catalog.action node)
  | .actions nodes => discard (catalog.actionList nodes)
  | .declaration typeName name domain initial =>
    discard (catalog.declare typeName name domain initial)
  | .allocation domain name type => do
    let (_, bindings) ← Compile.query (·.declare domain name type)
    Compile.update fun _ => bindings

/-- A task, and the state in which it is begun. -/
structure Point where
  task : Task
  state : CompileState

namespace Point

/-- The point at which a program of a session begins. -/
def start (session : Session) (program : Node) : Point :=
  ⟨.statement program, ⟨session.bindings, #[]⟩⟩

/-- The state in which the task of a point ends, whether it succeeds or fails. -/
def after (catalog : Catalog) (point : Point) : CompileState :=
  (point.task.run catalog).after point.state

/-- The task of a point succeeds. -/
def Succeeds (catalog : Catalog) (point : Point) : Prop :=
  ∃ final, point.task.run catalog point.state = .ok () final

end Point

/-- From a point, the walk leads to the points of its parts. -/
inductive Leads (catalog : Catalog) : Point → Point → Prop
  | block (nodes : List Node) (state : CompileState) :
      Leads catalog ⟨.statement (.block nodes), state⟩ ⟨.statements nodes, state⟩
  | firstStatement (node : Node) (rest : List Node) (state : CompileState) :
      Leads catalog ⟨.statements (node :: rest), state⟩ ⟨.statement node, state⟩
  | otherStatements {node : Node} {state middle : CompileState} {rules : List String}
      (rest : List Node) : catalog.topLevel node state = .ok rules middle →
      Leads catalog ⟨.statements (node :: rest), state⟩ ⟨.statements rest, middle⟩
  | topLevelDeclaration (typeName name : String) (perPlayer : Bool) (initial : Option Node)
      (state : CompileState) :
      Leads catalog ⟨.statement (.declare typeName name perPlayer initial), state⟩
        ⟨.declaration typeName name (.ofPerPlayer perPlayer) initial, state⟩
  /-- The actions of a rule have a scope of their own. -/
  | rule {name event text : String} {conditions : Option (List Node)}
      {texts : Option (List String)} {state : CompileState} (actions : List Node) :
      catalog.eventText event = .ok text →
      catalog.ruleConditions state.bindings.enter conditions = .ok texts →
      Leads catalog ⟨.statement (.rule name event conditions actions), state⟩
        ⟨.actions actions, ⟨state.bindings.enter, state.journal.push (.ruleBegun name event)⟩⟩
  | firstAction (node : Node) (rest : List Node) (state : CompileState) :
      Leads catalog ⟨.actions (node :: rest), state⟩ ⟨.action node, state⟩
  | otherActions {node : Node} {state middle : CompileState} {lines : List Line}
      (rest : List Node) : catalog.action node state = .ok lines middle →
      Leads catalog ⟨.actions (node :: rest), state⟩ ⟨.actions rest, middle⟩
  /-- The actions of a block have a scope of their own. -/
  | innerBlock (nodes : List Node) (state : CompileState) :
      Leads catalog ⟨.action (.block nodes), state⟩ ⟨.actions nodes, state.enter⟩
  | thenBranch {condition : Node} {text : String} {state : CompileState} (thenBranch : Node)
      (elseBranch : Option Node) : catalog.condition state.bindings condition = .ok text →
      Leads catalog ⟨.action (.choice condition thenBranch elseBranch), state⟩
        ⟨.action thenBranch, state⟩
  | elseBranch {condition thenBranch : Node} {text : String} {lines : List Line}
      {state middle : CompileState} (elseBranch : Node) :
      catalog.condition state.bindings condition = .ok text →
      catalog.action thenBranch state = .ok lines middle →
      Leads catalog ⟨.action (.choice condition thenBranch (some elseBranch)), state⟩
        ⟨.action elseBranch, middle⟩
  | innerDeclaration (typeName name : String) (perPlayer : Bool) (initial : Option Node)
      (state : CompileState) :
      Leads catalog ⟨.action (.declare typeName name perPlayer initial), state⟩
        ⟨.declaration typeName name (.ofPerPlayer perPlayer) initial, state⟩
  /-- A variable gets its slot when its name is free, its type is known and its first value has
  been computed. -/
  | allocation {typeName name : String} {domain : Domain} {initial : Option Node}
      {type : ValueType} {value : Option Typed} {state : CompileState} :
      catalog.requireFree domain name state = .ok () state →
      catalog.declaredType typeName name = .ok type →
      catalog.initialValue initial state = .ok value state →
      Leads catalog ⟨.declaration typeName name domain initial, state⟩
        ⟨.allocation domain name type, state⟩

/-- From a point, the walk passes the points of all its parts. -/
def Reaches (catalog : Catalog) : Point → Point → Prop :=
  Relation.ReflTransGen (Leads catalog)

variable {catalog : Catalog} {start point : Point} {session : Session} {program : Node}
  {state final : CompileState}

/-! ## Invariants -/

/-- A part is begun in a new scope, or in a state that steps lead to. -/
theorem Leads.enters_or_steps {next : Point} (hleads : Leads catalog point next) :
    next.state.bindings = point.state.bindings.enter ∨
      ∃ place, Steps catalog place point.state.bindings next.state.bindings := by
  cases hleads with
  | rule actions hevent hconditions => exact .inl rfl
  | innerBlock nodes state => exact .inl rfl
  | otherStatements rest hrun => exact .inr ⟨_, (Catalog.topLevel_steps _ _).steps_of_ok hrun⟩
  | otherActions rest hrun => exact .inr ⟨_, (Catalog.action_steps _ _).steps_of_ok hrun⟩
  | elseBranch branch hcondition hrun =>
      exact .inr ⟨_, (Catalog.action_steps _ _).steps_of_ok hrun⟩
  | _ => exact .inr ⟨.topLevel, .done _ _⟩

/-- What new scopes and steps keep holds at all points of a walk, if it holds at the start. -/
theorem Reaches.invariant {Holds : Bindings → Prop} (hreaches : Reaches catalog start point)
    (henter : ∀ bindings, Holds bindings → Holds bindings.enter)
    (hsteps : ∀ place bindings later, Steps catalog place bindings later → Holds bindings →
      Holds later)
    (hstart : Holds start.state.bindings) : Holds point.state.bindings := by
  induction hreaches with
  | refl => exact hstart
  | tail _ hleads ih =>
      rcases hleads.enters_or_steps with hentered | ⟨place, hrun⟩
      · rw [hentered]
        exact henter _ ih
      · exact hsteps place _ _ hrun ih

/-- A slot is only taken under a name that is free. -/
theorem Reaches.isTaken_eq_false {domain : Domain} {name : String} {type : ValueType}
    (hreaches : Reaches catalog (.start session program) ⟨.allocation domain name type, state⟩) :
    catalog.isTaken state.bindings domain name = false ∧
      ∃ typeName, catalog.declaredType typeName name = .ok type := by
  rcases Relation.ReflTransGen.cases_tail hreaches with hstart | ⟨previous, _, hleads⟩
  · cases hstart
  · cases hleads with
    | allocation hrequired htype _ =>
        exact ⟨(Catalog.requireFree_eq_ok.1 hrequired).1, _, htype⟩

/-- From the beginning of a task to its end there are only steps. -/
theorem Reaches.after_steps (hreaches : Reaches catalog (.start session program) point) :
    ∃ place, Steps catalog place point.state.bindings (point.after catalog).bindings := by
  rcases point with ⟨task, state⟩
  unfold Point.after
  cases task with
  | statement node =>
      rw [Task.run, Compile.after_discard]
      exact ⟨_, Catalog.topLevel_steps node state⟩
  | statements nodes =>
      rw [Task.run, Compile.after_discard]
      exact ⟨_, Catalog.topLevelList_steps nodes state⟩
  | action node =>
      rw [Task.run, Compile.after_discard]
      exact ⟨_, Catalog.action_steps node state⟩
  | actions nodes =>
      rw [Task.run, Compile.after_discard]
      exact ⟨_, Catalog.actionList_steps nodes state⟩
  | declaration typeName name domain initial =>
      rw [Task.run, Compile.after_discard]
      exact ⟨.topLevel, Catalog.declare_steps typeName name domain initial state⟩
  | allocation domain name type =>
      rcases hreaches.isTaken_eq_false with ⟨hfree, typeName, htype⟩
      refine ⟨.topLevel, MakesSteps.bind_query ?_⟩
      rintro ⟨slot, bindings⟩ hbindings
      exact .declare hfree htype hbindings

/-- What lives on of a program is what its walk leaves. -/
theorem Session.session_compile_eq (session : Session) (catalog : Catalog) (program : Node) :
    (session.compile catalog program).session =
      .ofBindings ((Point.start session program).after catalog).bindings := by
  rw [session_compile, Catalog.program, Compile.bindings_after_bind fun _ _ => rfl, Point.after,
    Point.start, Task.run, Compile.after_discard]

/-- The bindings at a point: those in which its task is begun, also with a new scope as for the
conditions of a rule, and those that the task leaves, whether it succeeds or fails. -/
def Point.bindings (catalog : Catalog) (point : Point) : List Bindings :=
  [point.state.bindings, point.state.bindings.enter, (point.after catalog).bindings]

/-- What steps preserve holds at every point. -/
theorem Reaches.of_mem_bindings (Holds : Bindings → Prop)
    (hreaches : Reaches catalog (.start session program) point)
    (henter : ∀ bindings, Holds bindings → Holds bindings.enter)
    (hsteps : ∀ place bindings later, Steps catalog place bindings later → Holds bindings →
      Holds later) (hstart : Holds session.bindings) :
    ∀ bindings ∈ point.bindings catalog, Holds bindings := by
  have hpoint : Holds point.state.bindings := hreaches.invariant henter hsteps hstart
  rcases hreaches.after_steps with ⟨place, hafter⟩
  simp only [Point.bindings, List.forall_mem_cons, List.not_mem_nil]
  exact ⟨hpoint, henter _ hpoint, hsteps place _ _ hafter hpoint, fun _ hmem => nomatch hmem⟩

/-! ## Success -/

namespace Point

variable {state : CompileState}

theorem succeeds_statement {node : Node} :
    Succeeds catalog ⟨.statement node, state⟩ ↔
      ∃ rules final, catalog.topLevel node state = .ok rules final :=
  Compile.exists_discard_eq_ok

theorem succeeds_statements {nodes : List Node} :
    Succeeds catalog ⟨.statements nodes, state⟩ ↔
      ∃ rules final, catalog.topLevelList nodes state = .ok rules final :=
  Compile.exists_discard_eq_ok

theorem succeeds_action {node : Node} :
    Succeeds catalog ⟨.action node, state⟩ ↔
      ∃ lines final, catalog.action node state = .ok lines final :=
  Compile.exists_discard_eq_ok

theorem succeeds_actions {nodes : List Node} :
    Succeeds catalog ⟨.actions nodes, state⟩ ↔
      ∃ lines final, catalog.actionList nodes state = .ok lines final :=
  Compile.exists_discard_eq_ok

theorem succeeds_declaration {typeName name : String} {domain : Domain} {initial : Option Node} :
    Succeeds catalog ⟨.declaration typeName name domain initial, state⟩ ↔
      ∃ written final, catalog.declare typeName name domain initial state = .ok written final :=
  Compile.exists_discard_eq_ok

end Point

/-- A successful declaration has got a slot. -/
theorem Catalog.slot_of_declare {typeName name : String} {domain : Domain} {initial : Option Node}
    {written : Option String}
    (hrun : catalog.declare typeName name domain initial state = .ok written final) :
    ∃ type slot bindings, catalog.declaredType typeName name = .ok type ∧
      state.bindings.declare domain name type = .ok (slot, bindings) := by
  cases initial with
  | none =>
      rcases declare_none_eq_ok.1 hrun with ⟨_, type, slot, bindings, htype, hslot, _⟩
      exact ⟨type, slot, bindings, htype, hslot⟩
  | some initial =>
      rcases declare_some_eq_ok.1 hrun with
        ⟨_, type, _, slot, bindings, _, _, htype, _, hslot, _⟩
      exact ⟨type, slot, bindings, htype, hslot⟩

/-- Where a task succeeds, its parts do. -/
theorem Leads.succeeds {next : Point} (hleads : Leads catalog point next)
    (hsucceeds : point.Succeeds catalog) : next.Succeeds catalog := by
  cases hleads with
  | block nodes state => exact hsucceeds
  | firstStatement node rest state =>
      rcases Point.succeeds_statements.1 hsucceeds with ⟨rules, final, hrun⟩
      rcases Compile.bind_eq_ok.1 hrun with ⟨first, middle, hfirst, _⟩
      exact Point.succeeds_statement.2 ⟨first, middle, hfirst⟩
  | otherStatements rest hfirst =>
      rcases Point.succeeds_statements.1 hsucceeds with ⟨rules, final, hrun⟩
      rcases Compile.append_eq_ok.1 hrun with ⟨_, _, others, hfirst', hothers, _⟩
      cases hfirst.symm.trans hfirst'
      exact Point.succeeds_statements.2 ⟨others, final, hothers⟩
  | topLevelDeclaration typeName name perPlayer initial state =>
      rcases Point.succeeds_statement.1 hsucceeds with ⟨rules, final, hrun⟩
      rcases Compile.bind_eq_ok.1 hrun with ⟨_, middle, hdeclare, _⟩
      exact ⟨middle, hdeclare⟩
  | rule actions hevent hconditions =>
      rcases Point.succeeds_statement.1 hsucceeds with ⟨rules, final, hrun⟩
      rcases Compile.bind_eq_ok.1 hrun with ⟨text, middle, hrule, _⟩
      rcases Catalog.rule_eq_ok.1 hrule with ⟨_, _, lines, inner, _, _, hactions, _⟩
      exact Point.succeeds_actions.2 ⟨lines, inner, hactions⟩
  | firstAction node rest state =>
      rcases Point.succeeds_actions.1 hsucceeds with ⟨lines, final, hrun⟩
      rcases Compile.bind_eq_ok.1 hrun with ⟨first, middle, hfirst, _⟩
      exact Point.succeeds_action.2 ⟨first, middle, hfirst⟩
  | otherActions rest hfirst =>
      rcases Point.succeeds_actions.1 hsucceeds with ⟨lines, final, hrun⟩
      rcases Compile.append_eq_ok.1 hrun with ⟨_, _, others, hfirst', hothers, _⟩
      cases hfirst.symm.trans hfirst'
      exact Point.succeeds_actions.2 ⟨others, final, hothers⟩
  | innerBlock nodes state =>
      rcases Point.succeeds_action.1 hsucceeds with ⟨lines, final, hrun⟩
      rcases Compile.inScope_eq_ok.1 hrun with ⟨middle, hactions, _⟩
      exact Point.succeeds_actions.2 ⟨lines, middle, hactions⟩
  | thenBranch thenBranch elseBranch hcondition =>
      rcases Point.succeeds_action.1 hsucceeds with ⟨lines, final, hrun⟩
      rcases Catalog.action_choice_eq_ok.1 hrun with ⟨_, first, middle, _, _, hthen, _⟩
      exact Point.succeeds_action.2 ⟨first, middle, hthen⟩
  | elseBranch elseBranch hcondition hthen =>
      rcases Point.succeeds_action.1 hsucceeds with ⟨lines, final, hrun⟩
      rcases Catalog.action_choice_eq_ok.1 hrun with ⟨_, _, _, _, _, hthen', helse, _⟩
      cases hthen.symm.trans hthen'
      rcases Compile.bind_pure_eq_ok.1 helse with ⟨others, hothers, _⟩
      exact Point.succeeds_action.2 ⟨others, final, hothers⟩
  | innerDeclaration typeName name perPlayer initial state =>
      rcases Point.succeeds_action.1 hsucceeds with ⟨lines, final, hrun⟩
      rcases Compile.bind_eq_ok.1 hrun with ⟨written, middle, hdeclare, _⟩
      exact Point.succeeds_declaration.2 ⟨written, middle, hdeclare⟩
  | allocation hrequired htype hvalue =>
      rcases Point.succeeds_declaration.1 hsucceeds with ⟨written, final, hrun⟩
      rcases Catalog.slot_of_declare hrun with ⟨type', slot, bindings, htype', hslot⟩
      cases htype.symm.trans htype'
      exact ⟨_, Compile.bind_eq_ok.2 ⟨_, _, Compile.query_eq_ok.2 ⟨hslot, rfl⟩, rfl⟩⟩

/-- Where a program succeeds, every part of it that the walk reaches does. -/
theorem Reaches.succeeds (hreaches : Reaches catalog start point)
    (hsucceeds : start.Succeeds catalog) : point.Succeeds catalog := by
  induction hreaches with
  | refl => exact hsucceeds
  | tail _ hleads ih => exact hleads.succeeds ih

/-! ## Rules and declarations -/

namespace Point

/-- Something inside a rule or a declaration is done. -/
def isInner (point : Point) : Bool :=
  match point.task with
  | .statement _ | .statements _ => false
  | _ => true

/-- From the inside of a rule or a declaration the walk does not lead out again. -/
theorem isInner_of_reaches (hinner : start.isInner = true)
    (hreaches : Reaches catalog start point) : point.isInner = true := by
  induction hreaches with
  | refl => exact hinner
  | tail _ hleads ih =>
      cases hleads with
      | block | firstStatement | otherStatements | topLevelDeclaration | rule => cases ih
      | _ => rfl

end Point

end Workshop

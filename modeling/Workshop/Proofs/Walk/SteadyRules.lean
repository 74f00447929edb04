import Workshop.Proofs.Walk.SettledTypes

/-!
# Rules that declare nothing

A rule whose actions neither declare a variable nor select a bank, and which
assigns only to variables whose types are settled, leaves all bindings as they
are.  What it does depends on the bindings alone, so two such rules can be
exchanged.

Main definitions:

- `Node.Steady`: nothing in a tree asks for a change of the bindings.
- `CompileOn.OnlyReads`: a computation acts on some bindings like a query.

Main results:

- Theorem `Catalog.action_onlyReads`: a steady action only reads the bindings.
- Theorem `Catalog.steady_rules_commute`: steady rules keep the bindings, and
  their order is only the order of their texts.
-/

namespace Workshop

variable {α β : Type} {bindings : Bindings}

/-! ## Steady trees -/

namespace Node

/-- A node does not by itself change the bindings: it declares nothing, selects no bank, and if it
assigns to a variable, the type of the variable is settled. -/
def KeepsBindings (bindings : Bindings) : Node → Prop
  | declare .. => False
  | useBank .. => False
  | assign target receiver _ =>
    ∀ found ∈ bindings.find? (.ofPerPlayer receiver.isSome) target, found.type.isDynamic = false
  | _ => True

/-- No node in a tree changes the bindings by itself. -/
def Steady (bindings : Bindings) (node : Node) : Prop :=
  ∀ inner : Node, inner.StandsIn node → inner.KeepsBindings bindings

/-- A tree is steady if its root and its parts are. -/
theorem steady_iff {node : Node} :
    node.Steady bindings ↔
      node.KeepsBindings bindings ∧ ∀ part ∈ node.parts, part.Steady bindings :=
  forall_standsIn_iff

/-- A node without parts is steady if it changes nothing by itself. -/
theorem Steady.of_parts_eq_nil {node : Node} (hparts : node.parts = [])
    (hkeeps : node.KeepsBindings bindings) : node.Steady bindings := by
  refine steady_iff.2 ⟨hkeeps, ?_⟩
  simp [hparts]

theorem steady_assign {target : String} {receiver : Option Node} {value : Node} :
    (assign target receiver value).Steady bindings ↔
      (assign target receiver value).KeepsBindings bindings ∧ value.Steady bindings ∧
        ∀ node ∈ receiver, node.Steady bindings := by
  rw [steady_iff]
  simp [parts]

theorem steady_block {statements : List Node} :
    (block statements).Steady bindings ↔ ∀ node ∈ statements, node.Steady bindings := by
  rw [steady_iff]
  simp [KeepsBindings, parts]

theorem steady_choice {condition thenBranch : Node} {elseBranch : Option Node} :
    (choice condition thenBranch elseBranch).Steady bindings ↔
      condition.Steady bindings ∧ thenBranch.Steady bindings ∧
        ∀ node ∈ elseBranch, node.Steady bindings := by
  rw [steady_iff]
  simp [KeepsBindings, parts]

end Node

/-- Names have the same meaning at the beginning of a scope as before it. -/
theorem Bindings.find?_enter (bindings : Bindings) (domain : Domain) (name : String) :
    bindings.enter.find? domain name = bindings.find? domain name := by
  cases domain <;> rfl

/-- The same in a new scope. -/
theorem Node.KeepsBindings.enter {node : Node} (hkeeps : node.KeepsBindings bindings) :
    node.KeepsBindings bindings.enter := by
  cases node with
  | assign target receiver value =>
      intro found hfound
      rw [Bindings.find?_enter] at hfound
      exact hkeeps found hfound
  | _ => exact hkeeps

/-- Trees are steady in a new scope. -/
theorem Node.Steady.enter {node : Node} (hsteady : node.Steady bindings) :
    node.Steady bindings.enter :=
  fun inner hinner => (hsteady inner hinner).enter

/-! ## Computations that only read -/

namespace CompileOn

open Compile

/-- A computation acts on some bindings like a query: its outcome does not depend on the journal,
and it changes nothing, whether it succeeds or fails. -/
def OnlyReads (work : Compile α) (bindings : Bindings) : Prop :=
  ∃ outcome : Except SemanticError α, ∀ journal,
    work ⟨bindings, journal⟩ = query (fun _ => outcome) ⟨bindings, journal⟩

namespace OnlyReads

variable {work : Compile α}

/-- A result only reads. -/
theorem pure (a : α) : OnlyReads (pure a) bindings :=
  ⟨.ok a, fun _ => rfl⟩

/-- So does an error. -/
theorem throw (error : SemanticError) : OnlyReads (throw error : Compile α) bindings :=
  ⟨.error error, fun _ => rfl⟩

/-- So does a question. -/
theorem query (f : Bindings → Except SemanticError α) : OnlyReads (query f) bindings :=
  ⟨f bindings, fun _ => rfl⟩

/-- The rest of a computation matters only for the results that the first part can have. -/
theorem bind_of_ok {f : α → Compile β} (hwork : work.OnlyReads bindings)
    (hrest : ∀ a, (∀ journal, work ⟨bindings, journal⟩ = .ok a ⟨bindings, journal⟩) →
      (f a).OnlyReads bindings) : (work >>= f).OnlyReads bindings := by
  obtain ⟨outcome, hrun⟩ := hwork
  cases outcome with
  | error error =>
      refine ⟨.error error, fun journal => ?_⟩
      simp only [bind, EStateM.bind, hrun, Compile.query]
  | ok a =>
      obtain ⟨outcome, hlater⟩ := hrest a hrun
      refine ⟨outcome, fun journal => ?_⟩
      rw [← hlater journal]
      simp only [bind, EStateM.bind, hrun, Compile.query]

/-- So does one step after the other. -/
theorem bind {f : α → Compile β} (hwork : work.OnlyReads bindings)
    (hrest : ∀ a, (f a).OnlyReads bindings) : (work >>= f).OnlyReads bindings :=
  hwork.bind_of_ok fun a _ => hrest a

/-- A scope in which bindings are only read leaves nothing behind. -/
theorem inScope (hwork : work.OnlyReads bindings.enter) : (inScope work).OnlyReads bindings := by
  obtain ⟨outcome, hrun⟩ := hwork
  refine ⟨outcome, fun journal => ?_⟩
  have hinside : work (StateOn.enter ⟨bindings, journal⟩) = _ := hrun journal
  rw [inScope_eq, hinside]
  cases outcome <;> rfl

end OnlyReads
end CompileOn

/-! ## Steady actions -/

/-- Storing a value in a variable of a settled type changes nothing. -/
theorem store_onlyReads {type : ValueType} (hsettled : type.isDynamic = false) (domain : Domain)
    (name : String) (value : Typed) : (store domain name type value).OnlyReads bindings := by
  refine (CompileOn.OnlyReads.query _).bind_of_ok fun ⟨text, inferred⟩ hstored => ?_
  have hstored := (Compile.query_eq_ok.1 (hstored #[])).1
  obtain ⟨_, rfl⟩ := storedText_of_settled hsettled hstored
  exact .pure text

namespace Catalog

variable {catalog : Catalog}

/-- Such assignments only read. -/
theorem assign_onlyReads {target : String} {receiver : Option Node} {value : Node}
    (hkeeps : (Node.assign target receiver value).KeepsBindings bindings) :
    (catalog.assign target receiver value).OnlyReads bindings := by
  have hstore (domain : Domain) (hdomain : domain = .ofPerPlayer receiver.isSome) (typed : Typed)
      (write : Variable → String → String) : CompileOn.OnlyReads
        (do
          let found ← Compile.query (Storage.get · domain target)
          let text ← store domain target found.type typed
          pure (write found text)) bindings := by
    refine (CompileOn.OnlyReads.query _).bind_of_ok fun found hget => ?_
    have hfound := Storage.get_eq_ok.1 (Compile.query_eq_ok.1 (hget #[])).1
    rw [hdomain] at hfound
    exact (store_onlyReads (hkeeps found hfound) domain target typed).bind fun _ => .pure _
  cases receiver with
  | none =>
      refine (CompileOn.OnlyReads.query _).bind fun _ =>
        (CompileOn.OnlyReads.query _).bind fun typed => ?_
      exact hstore .global rfl typed fun found text => Term.writeGlobal found.slot text
  | some receiver =>
      refine (CompileOn.OnlyReads.query _).bind fun typed =>
        (CompileOn.OnlyReads.query _).bind fun _ =>
          (CompileOn.OnlyReads.query _).bind fun player => ?_
      exact hstore .player rfl typed fun found text => Term.writePlayer player found.slot text

/-- So do lists of them. -/
theorem actionList_onlyReads_of_forall {nodes : List Node}
    (hnodes : ∀ node ∈ nodes, (catalog.action node).OnlyReads bindings) :
    (catalog.actionList nodes).OnlyReads bindings := by
  induction nodes with
  | nil => exact .pure _
  | cons node rest ih =>
      rw [List.forall_mem_cons] at hnodes
      exact hnodes.1.bind fun _ => (ih hnodes.2).bind fun _ => .pure _

/-- A steady action only reads the bindings. -/
theorem action_onlyReads {node : Node} (hsteady : node.Steady bindings) :
    (catalog.action node).OnlyReads bindings := by
  -- The bindings vary: a block is compiled in those of its own scope.
  induction node generalizing bindings with
  | assign target receiver value =>
      exact (assign_onlyReads (Node.steady_assign.1 hsteady).1).bind fun _ => .pure _
  | block statements ih =>
      refine .inScope (actionList_onlyReads_of_forall fun node hnode => ih node hnode ?_)
      exact (Node.steady_block.1 hsteady node hnode).enter
  | call callee receiver arguments => exact (CompileOn.OnlyReads.query _).bind fun _ => .pure _
  | declare typeName name perPlayer initial => exact (Node.steady_iff.1 hsteady).1.elim
  | useBank domain bank => exact (Node.steady_iff.1 hsteady).1.elim
  | choice condition thenBranch elseBranch _ ihthen ihelse =>
      obtain ⟨_, hthen, helse⟩ := Node.steady_choice.1 hsteady
      cases elseBranch with
      | none =>
          exact (CompileOn.OnlyReads.query _).bind fun _ => (ihthen hthen).bind fun _ => .pure _
      | some elseBranch =>
          refine (CompileOn.OnlyReads.query _).bind fun _ => (ihthen hthen).bind fun _ => ?_
          exact (ihelse elseBranch rfl (helse elseBranch rfl)).bind fun _ => .pure _
  | _ => exact .throw _

/-! ## Steady rules -/

section Rules

variable {name event : String} {conditions : Option (List Node)} {actions : List Node}
  {state final : CompileState}

/-- The part of a rule inside its scope. -/
theorem ruleLayout_onlyReads (hactions : ∀ action ∈ actions, action.Steady bindings)
    (eventText : String) :
    CompileOn.OnlyReads
      (do
        let layout ← Compile.inScope do
          let conditions ← Compile.query (catalog.ruleConditions · conditions)
          let actions ← catalog.actionList actions
          pure (RuleLayout.mk name eventText (event != globalEvent) conditions actions)
        pure layout.render) bindings := by
  refine CompileOn.OnlyReads.bind (.inScope ?_) fun _ => .pure _
  refine (CompileOn.OnlyReads.query _).bind fun _ => ?_
  have hlist : (catalog.actionList actions).OnlyReads bindings.enter :=
    actionList_onlyReads_of_forall fun action haction =>
      action_onlyReads (hactions action haction).enter
  exact hlist.bind fun _ => .pure _

/-- A steady rule does nothing but note that it begins, and that only if its event is known. -/
theorem rule_of_steady (hactions : ∀ action ∈ actions, action.Steady bindings) :
    (∃ error, ∀ journal, catalog.rule name event conditions actions ⟨bindings, journal⟩ =
        .error error ⟨bindings, journal⟩) ∨
      ∃ outcome : Except SemanticError String, ∀ journal,
        catalog.rule name event conditions actions ⟨bindings, journal⟩ =
          Compile.query (fun _ => outcome) ⟨bindings, journal.push (.ruleBegun name event)⟩ := by
  cases hevent : catalog.eventText event with
  | error error =>
      refine .inl ⟨error, fun journal => ?_⟩
      simp only [rule, ruleLayout, Reason.lift_eq, hevent, bind, EStateM.bind, Compile.query]
  | ok eventText =>
      obtain ⟨outcome, hrun⟩ := @ruleLayout_onlyReads bindings catalog name event conditions actions
        hactions eventText
      refine .inr ⟨outcome, fun journal => ?_⟩
      rw [← hrun]
      have hquery : Compile.query (fun _ => catalog.eventText event) ⟨bindings, journal⟩ =
          .ok eventText ⟨bindings, journal⟩ := by
        simp only [Compile.query, hevent]
      simp only [rule, ruleLayout, Reason.lift_eq, bind, EStateM.bind, hquery]
      rfl

/-- Such rules keep the bindings. -/
theorem bindings_after_rule_of_steady (state : CompileState)
    (hactions : ∀ action ∈ actions, action.Steady state.bindings) :
    ((catalog.rule name event conditions actions).after state).bindings = state.bindings := by
  rcases rule_of_steady hactions with ⟨error, hrun⟩ | ⟨outcome, hrun⟩
  · rw [CompileOn.after, hrun]
  · rw [CompileOn.after, hrun]
    cases outcome <;> rfl

/-- A steady rule that compiles in one state has the same text in every state with the same
bindings. -/
theorem rule_eq_ok_of_steady {text : String}
    (hactions : ∀ action ∈ actions, action.Steady state.bindings)
    (hok : catalog.rule name event conditions actions state = .ok text final)
    (journal : Array LogEvent) :
    catalog.rule name event conditions actions ⟨state.bindings, journal⟩ =
      .ok text ⟨state.bindings, journal.push (.ruleBegun name event)⟩ := by
  rcases rule_of_steady hactions with ⟨error, hrun⟩ | ⟨outcome, hrun⟩
  · cases (hrun state.journal).symm.trans hok
  · have houtcome := (Compile.query_eq_ok.1 ((hrun state.journal).symm.trans hok)).1
    rw [hrun]
    exact Compile.query_eq_ok.2 ⟨houtcome, rfl⟩

/-- One rule after another. -/
theorem topLevelList_pair {name' event' text text' : String} {conditions' : Option (List Node)}
    {actions' : List Node} {middle : CompileState}
    (hfirst : catalog.rule name event conditions actions state = .ok text middle)
    (hsecond : catalog.rule name' event' conditions' actions' middle = .ok text' final) :
    catalog.topLevelList [.rule name event conditions actions,
      .rule name' event' conditions' actions'] state = .ok [text, text'] final := by
  simp only [topLevelList_cons, topLevel, topLevelOf, bind, EStateM.bind, hfirst, hsecond, pure,
    EStateM.pure]
  rfl

end Rules

/-- Rules that declare nothing are independent.  If the actions of two rules contain no
declaration and no selection of a bank, and assign only to variables whose types are settled, then
both rules leave all bindings as they are, whether they compile or not.  If both compile, they
compile in either order, to the same two texts and with the same bindings; the journal tells only
in which order they came. -/
theorem steady_rules_commute (state : CompileState) {name name' event event' : String}
    {conditions conditions' : Option (List Node)} {actions actions' : List Node}
    (hactions : ∀ action ∈ actions, action.Steady state.bindings)
    (hactions' : ∀ action ∈ actions', action.Steady state.bindings) :
    ((catalog.rule name event conditions actions).after state).bindings = state.bindings ∧
    ((catalog.rule name' event' conditions' actions').after state).bindings = state.bindings ∧
    ∀ text text' final final',
      catalog.rule name event conditions actions state = .ok text final →
      catalog.rule name' event' conditions' actions' state = .ok text' final' →
      catalog.topLevelList [.rule name event conditions actions,
          .rule name' event' conditions' actions'] state =
        .ok [text, text'] ⟨state.bindings,
          (state.journal.push (.ruleBegun name event)).push (.ruleBegun name' event')⟩ ∧
      catalog.topLevelList [.rule name' event' conditions' actions',
          .rule name event conditions actions] state =
        .ok [text', text] ⟨state.bindings,
          (state.journal.push (.ruleBegun name' event')).push (.ruleBegun name event)⟩ := by
  refine ⟨bindings_after_rule_of_steady state hactions,
    bindings_after_rule_of_steady state hactions', fun text text' final final' hok hok' => ?_⟩
  have hrun := rule_eq_ok_of_steady hactions hok
  have hrun' := rule_eq_ok_of_steady hactions' hok'
  exact ⟨topLevelList_pair (hrun state.journal) (hrun' _),
    topLevelList_pair (hrun' state.journal) (hrun _)⟩

end Catalog

/-! Two rules that assign to a global variable and to one of players, both of them numbers. -/

/-- The state after two numbers have been declared. -/
def numbersState : CompileState :=
  (Catalog.standard.topLevelList [.declare "number" "speed" false none,
    .declare "number" "charge" true none]).after ⟨Session.initial.bindings, #[]⟩

/-- Actions with an assignment in a scope of its own. -/
def walkActions : List Node :=
  [.choice (.boolean true) (.block [.assign "speed" none (.number "1")]) none]

/-- Actions that assign to the same variable, and to one of players. -/
def runActions : List Node :=
  [.assign "speed" none (.number "2"), .assign "charge" (some .player) (.number "3")]

theorem steady_speed (digits : String) :
    (Node.assign "speed" none (.number digits)).Steady numbersState.bindings := by
  refine Node.steady_assign.2 ⟨?_, .of_parts_eq_nil rfl trivial, ?_⟩
  · rintro found ⟨⟩
    rfl
  · rintro node ⟨⟩

theorem steady_charge :
    (Node.assign "charge" (some .player) (.number "3")).Steady numbersState.bindings := by
  refine Node.steady_assign.2 ⟨?_, .of_parts_eq_nil rfl trivial, ?_⟩
  · rintro found ⟨⟩
    rfl
  · rintro node ⟨⟩
    exact .of_parts_eq_nil rfl trivial

theorem steady_walkActions : ∀ action ∈ walkActions, action.Steady numbersState.bindings := by
  have htrue : (Node.boolean true).Steady numbersState.bindings := .of_parts_eq_nil rfl trivial
  simp [walkActions, Node.steady_choice, Node.steady_block, htrue, steady_speed]

theorem steady_runActions : ∀ action ∈ runActions, action.Steady numbersState.bindings := by
  simp [runActions, steady_speed, steady_charge]

/-- Both rules compile, to different texts, and can be exchanged. -/
theorem steady_rules_commute_walk_run :
    (∀ action ∈ walkActions, action.Steady numbersState.bindings) ∧
    (∀ action ∈ runActions, action.Steady numbersState.bindings) ∧
    ∃ walk run, walk ≠ run ∧
      Catalog.standard.topLevelList [.rule "walk" "global" none walkActions,
          .rule "run" "player" none runActions] numbersState =
        .ok [walk, run] ⟨numbersState.bindings,
          (numbersState.journal.push (.ruleBegun "walk" "global")).push
            (.ruleBegun "run" "player")⟩ ∧
      Catalog.standard.topLevelList [.rule "run" "player" none runActions,
          .rule "walk" "global" none walkActions] numbersState =
        .ok [run, walk] ⟨numbersState.bindings,
          (numbersState.journal.push (.ruleBegun "run" "player")).push
            (.ruleBegun "walk" "global")⟩ := by
  have hwalk : ∃ text final, Catalog.standard.rule "walk" "global" none walkActions numbersState =
      .ok text final ∧ text.toList[6]? = some 'w' := ⟨_, _, rfl, by decide +kernel⟩
  have hrun : ∃ text final, Catalog.standard.rule "run" "player" none runActions numbersState =
      .ok text final ∧ text.toList[6]? = some 'r' := ⟨_, _, rfl, by decide +kernel⟩
  obtain ⟨walk, _, hwalk, hw⟩ := hwalk
  obtain ⟨run, _, hrun, hr⟩ := hrun
  have hcommute := (Catalog.steady_rules_commute numbersState steady_walkActions
    steady_runActions).2.2 walk run _ _ hwalk hrun
  refine ⟨steady_walkActions, steady_runActions, walk, run, ?_, hcommute⟩
  rintro rfl
  cases hw.symm.trans hr

end Workshop

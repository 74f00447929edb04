import Workshop.Proofs.Output.Arguments
import Workshop.Proofs.Output.Layouts

/-!
# Statements are balanced

The texts of values are written into statements and conditions, and those into
rules.  This module follows them there: at every point of the walk through a
well-formed program all values are arguments, and so is every statement and
every condition that is made of them.

Main definitions:

- `Task.IsWellFormed`: a task whose nodes are well formed.
- `Line.IsStatement`: a line of text is a statement and a semicolon.

Main results:

- Theorem `Reaches.isSound_of_mem`: bindings are sound at every point of a walk.
- Theorem `Session.isSound_compileAll`: and between the programs of a session.
- Theorem `Catalog.isStatement_of_action`: actions are made of statements.
- Theorem `compile_emits_balanced`: all conditions and statements of an accepted
  program are balanced, and every value in it keeps to its place.
-/

namespace Workshop

/-! ## Bindings on the walk -/

/-- All nodes of a task are well formed. -/
def Task.IsWellFormed : Task → Prop
  | .statement node => node.IsWellFormed
  | .statements nodes => ∀ node ∈ nodes, node.IsWellFormed
  | .action node => node.IsWellFormed
  | .actions nodes => ∀ node ∈ nodes, node.IsWellFormed
  | .declaration _ _ _ initial => ∀ node ∈ initial, node.IsWellFormed
  | .allocation _ _ _ => True

section Walk

variable {catalog : Catalog} {start point : Point} {session : Session} {program : Node}

/-- Next tasks are well formed. -/
theorem Leads.isWellFormed {next : Point} (hleads : Leads catalog point next)
    (hpoint : point.task.IsWellFormed) : next.task.IsWellFormed := by
  cases hleads with
  | block nodes state => exact Node.proper_block.1 hpoint
  | firstStatement node rest state => exact hpoint node List.mem_cons_self
  | otherStatements rest hrun => exact fun node hmem => hpoint node (List.mem_cons_of_mem _ hmem)
  | topLevelDeclaration typeName name perPlayer initial state =>
      exact (Node.proper_declare.1 hpoint).2.2
  | rule actions hevent hconditions => exact (Node.proper_rule.1 hpoint).2.2.2
  | firstAction node rest state => exact hpoint node List.mem_cons_self
  | otherActions rest hrun => exact fun node hmem => hpoint node (List.mem_cons_of_mem _ hmem)
  | innerBlock nodes state => exact Node.proper_block.1 hpoint
  | thenBranch thenBranch elseBranch hcondition => exact (Node.proper_choice.1 hpoint).2.1
  | elseBranch elseBranch hcondition hthen =>
      exact (Node.proper_choice.1 hpoint).2.2 elseBranch rfl
  | innerDeclaration typeName name perPlayer initial state =>
      exact (Node.proper_declare.1 hpoint).2.2
  | allocation hrequired htype hvalue => trivial

/-- So are tasks that are reached. -/
theorem Reaches.isWellFormed (hreaches : Reaches catalog start point)
    (hstart : start.task.IsWellFormed) : point.task.IsWellFormed := by
  induction hreaches with
  | refl => exact hstart
  | tail _ hleads ih => exact hleads.isWellFormed ih

/-- On the walk through a well-formed program, constants stay arguments. -/
theorem Point.preserves_isArgument (hclosed : catalog.IsClosed)
    (hwell : WellTyped catalog session.bindings) (hprogram : program.IsWellFormed) :
    (Point.start session program).Preserves catalog
      (·.AllConstants fun _ value => IsArgument value.text) := by
  -- A constant is defined while all earlier ones are arguments.
  refine Point.preserves_allConstants fun hdefinition _ hvalue hconstants => ?_
  have hnode := (Node.proper_constant.1 (hdefinition.isWellFormed hprogram)).2
  have htypes := hdefinition.wellTyped_of_mem hwell _ List.mem_cons_self
  exact Catalog.isArgument_of_valueOf hclosed ⟨htypes, hconstants⟩ hnode hvalue

/-- On the walk through a well-formed program, bindings stay sound. -/
theorem Reaches.isSound_of_mem (hclosed : catalog.IsClosed)
    (hsession : session.bindings.IsSound catalog) (hprogram : program.IsWellFormed)
    (hreaches : Reaches catalog (.start session program) point) :
    ∀ bindings ∈ point.bindings catalog, bindings.IsSound catalog := by
  intro bindings hmem
  have hpreserves := Point.preserves_isArgument hclosed hsession.wellTyped hprogram
  exact ⟨hreaches.wellTyped_of_mem hsession.wellTyped bindings hmem,
    hpreserves.mem_bindings hsession.constants hreaches bindings hmem⟩

/-- Bindings are sound at the start. -/
theorem Bindings.IsSound.initial : Session.initial.bindings.IsSound catalog where
  wellTyped := .initial
  constants name value hfound := by
    cases hfound

/-- At every point of the walk through a well-formed program, the constants are arguments. -/
theorem Reaches.isSound (hclosed : catalog.IsClosed) (hprogram : program.IsWellFormed)
    (hreaches : Reaches catalog (.start .initial program) point) :
    point.state.bindings.IsSound catalog :=
  hreaches.isSound_of_mem hclosed .initial hprogram _ List.mem_cons_self

/-- So they are at the beginning of every program of a session of well-formed programs. -/
theorem Session.isSound_compileAll (hclosed : catalog.IsClosed) {programs : List Node}
    (hprograms : ∀ program ∈ programs, program.IsWellFormed)
    (hsession : session.bindings.IsSound catalog) :
    (session.compileAll catalog programs).bindings.IsSound catalog := by
  induction programs generalizing session with
  | nil => exact hsession
  | cons program rest ih =>
      rw [List.forall_mem_cons] at hprograms
      refine ih hprograms.2 ?_
      have hreaches : Reaches catalog (.start session program) (.start session program) := .refl
      have hafter := hreaches.isSound_of_mem hclosed hsession hprograms.1
        ((Point.start session program).after catalog).bindings (by simp [Point.bindings])
      rw [session_compile_eq]
      exact ⟨hafter.wellTyped.ofBindings, hafter.constants⟩

end Walk

namespace Bindings.IsSound

variable {catalog : Catalog}

/-- Bindings are sound in a new scope. -/
theorem enter {bindings : Bindings} (hbindings : bindings.IsSound catalog) :
    bindings.enter.IsSound catalog :=
  ⟨hbindings.wellTyped.enter, hbindings.constants⟩

/-- Bindings are sound behind an action. -/
theorem of_action {node : Node} {lines : List Line} {state final : CompileState}
    (hbindings : state.bindings.IsSound catalog)
    (hrun : catalog.action node state = .ok lines final) : final.bindings.IsSound catalog := by
  have hsteps := (Catalog.action_steps node state).steps_of_ok hrun
  exact ⟨hsteps.wellTyped hbindings.wellTyped,
    hbindings.constants.of_eq (hsteps.constants_of_action rfl)⟩

end Bindings.IsSound

/-! ## Statements -/

/-- A line of text is a statement of the given kind and a semicolon. -/
def Line.IsStatement (kind : String → Prop) (line : Line) : Prop :=
  ∀ content, line = .text content → ∃ statement, content = statement ++ ";" ∧ kind statement

/-- A statement of some kind. -/
theorem Line.isStatement_statement {kind : String → Prop} {content : String}
    (hcontent : kind content) : (Line.statement content).IsStatement kind := by
  intro other hother
  cases hother
  exact ⟨content, rfl, hcontent⟩

/-- Stored texts are arguments. -/
theorem isArgument_of_storedText {name text : String} {type : ValueType} {value : Typed}
    {inferred : Option ValueType} (htype : type.IsClosed) (hvalue : IsArgument value.text)
    (hstored : storedText name type value = .ok (text, inferred)) : IsArgument text := by
  unfold storedText at hstored
  split at hstored
  · cases hstored
  · split at hstored
    · cases hstored
      exact hvalue
    · rcases Except.bind_eq_ok.1 hstored with ⟨adapted, has, hresult⟩
      cases hresult
      exact isArgument_of_as htype hvalue has

namespace Catalog

variable {catalog : Catalog} {state final : CompileState} {lines : List Line}

section Stores

variable (hclosed : catalog.IsClosed) (hbindings : state.bindings.IsSound catalog)
include hclosed hbindings

/-- Assignments are arguments. -/
theorem isArgument_of_assign {target text : String} {receiver : Option Node} {value : Node}
    (hreceiver : ∀ node ∈ receiver, node.IsWellFormed) (hvalue : value.IsWellFormed)
    (hrun : catalog.assign target receiver value state = .ok text final) : IsArgument text := by
  cases receiver with
  | none =>
      rcases assign_none_eq_ok.1 hrun with
        ⟨_, typed, found, stored, inferred, htyped, hfound, hstored, rfl, _⟩
      have htype := hclosed.types _ (hbindings.wellTyped.of_find? .global hfound).1
      have htext := isArgument_of_valueOf hclosed hbindings hvalue htyped
      exact isArgument_writeGlobal found.slot (isArgument_of_storedText htype htext hstored)
  | some receiver =>
      rcases assign_some_eq_ok.1 hrun with
        ⟨typed, actor, player, found, stored, inferred, htyped, hactor, hplayer, hfound, hstored,
          rfl, _⟩
      have htype := hclosed.types _ (hbindings.wellTyped.of_find? .player hfound).1
      have htext := isArgument_of_valueOf hclosed hbindings hvalue htyped
      have hactorText := isArgument_of_valueOf hclosed hbindings (hreceiver receiver rfl) hactor
      exact isArgument_writePlayer (isArgument_of_playerText hactorText hplayer) found.slot
        (isArgument_of_storedText htype htext hstored)

/-- First values are arguments. -/
theorem isArgument_of_declare {typeName name : String} {domain : Domain} {initial : Option Node}
    {written : Option String} (hinitial : ∀ node ∈ initial, node.IsWellFormed)
    (hrun : catalog.declare typeName name domain initial state = .ok written final) :
    ∀ text ∈ written, IsArgument text := by
  cases initial with
  | none =>
      rcases declare_none_eq_ok.1 hrun with ⟨_, _, _, _, _, _, rfl, _⟩
      intro text htext
      cases htext
  | some initial =>
      rcases declare_some_eq_ok.1 hrun with
        ⟨_, type, typed, slot, _, stored, _, htype, htyped, _, hstored, rfl, _⟩
      have hknown := hclosed.types type (type_of_declaredType htype).1
      have htext := isArgument_of_valueOf hclosed hbindings (hinitial initial rfl) htyped
      have hstoredText := isArgument_of_storedText hknown htext hstored
      intro text htext
      cases htext
      cases domain with
      | global => exact isArgument_writeGlobal slot hstoredText
      | player =>
          have hplayer : IsArgument Term.eventPlayer := by decide
          exact isArgument_writePlayer hplayer slot hstoredText

end Stores

/-- Actions are statements one by one. -/
theorem isStatement_of_actionList {nodes : List Node}
    (hnodes : ∀ node ∈ nodes, ∀ state lines final, state.bindings.IsSound catalog →
      catalog.action node state = .ok lines final → ∀ line ∈ lines, line.IsStatement IsArgument)
    (hbindings : state.bindings.IsSound catalog)
    (hrun : catalog.actionList nodes state = .ok lines final) :
    ∀ line ∈ lines, line.IsStatement IsArgument := by
  induction nodes generalizing state lines final with
  | nil =>
      rcases Compile.pure_eq_ok.1 hrun with ⟨rfl, _⟩
      exact List.forall_mem_nil _
  | cons first rest ih =>
      rcases Compile.append_eq_ok.1 hrun with ⟨firstLines, middle, others, hfirst, hothers, rfl⟩
      rw [List.forall_mem_cons] at hnodes
      rw [List.forall_mem_append]
      exact ⟨hnodes.1 state firstLines middle hbindings hfirst,
        ih hnodes.2 (hbindings.of_action hfirst) hothers⟩

/-- A header and the lines below it, one level deeper. -/
theorem isStatement_indented {header : String} (hheader : IsArgument header)
    (hlines : ∀ line ∈ lines, line.IsStatement IsArgument) :
    ∀ line ∈ [Line.statement header, .indent] ++ lines ++ [.dedent],
      line.IsStatement IsArgument := by
  have hmark : ∀ line ∈ [Line.indent, .dedent], line.IsStatement IsArgument := by
    intro line hmem content hcontent
    rw [hcontent] at hmem
    simp at hmem
  rw [List.forall_mem_cons, List.forall_mem_singleton] at hmark
  rw [List.forall_mem_append, List.forall_mem_append, List.forall_mem_cons,
    List.forall_mem_singleton, List.forall_mem_singleton]
  exact ⟨⟨⟨Line.isStatement_statement hheader, hmark.1⟩, hlines⟩, hmark.2⟩

/-- The lines of a choice, given those of its branches. -/
theorem isStatement_of_choice {text : String} {thenLines elseLines : List Line}
    (htext : IsArgument text) (hthen : ∀ line ∈ thenLines, line.IsStatement IsArgument)
    (helse : ∀ line ∈ elseLines, line.IsStatement IsArgument) :
    ∀ line ∈ [Line.statement ("If(" ++ text ++ ")"), .indent] ++ thenLines ++ [.dedent] ++
      elseLines ++ [.statement "End"], line.IsStatement IsArgument := by
  have hclosed : Template.IsClosed ⟨[.literal "If(", .argument 0, .literal ")"]⟩ := by decide
  have hif : IsArgument ("If(" ++ text ++ ")") :=
    hclosed.isArgument_fill (List.forall_mem_singleton.2 htext)
  have hend : IsArgument "End" := by decide
  rw [List.forall_mem_append, List.forall_mem_append, List.forall_mem_singleton]
  exact ⟨⟨isStatement_indented hif hthen, helse⟩, Line.isStatement_statement hend⟩

/-- The lines of an action are statements. -/
theorem isStatement_of_action (hclosed : catalog.IsClosed) {node : Node} (hnode : node.IsWellFormed)
    (hbindings : state.bindings.IsSound catalog)
    (hrun : catalog.action node state = .ok lines final) :
    ∀ line ∈ lines, line.IsStatement IsArgument := by
  induction node generalizing state lines final with
  | assign target receiver value _ _ =>
      have hparts := Node.proper_assign.1 hnode
      rcases Compile.bind_pure_eq_ok.1 hrun with ⟨text, hassign, rfl⟩
      have hreceiver : ∀ node ∈ receiver, node.IsWellFormed := fun node hmem =>
        (hparts.2.1 node hmem).2
      have htext := isArgument_of_assign hclosed hbindings hreceiver hparts.2.2 hassign
      exact List.forall_mem_singleton.2 (Line.isStatement_statement htext)
  | block statements ih =>
      have hparts := Node.proper_block.1 hnode
      rcases Compile.inScope_eq_ok.1 hrun with ⟨middle, hactions, _⟩
      refine isStatement_of_actionList ?_ hbindings.enter hactions
      intro node hmem state lines final hstate hrun
      exact ih node hmem (hparts node hmem) hstate hrun
  | call callee receiver arguments _ _ _ =>
      have hparts := Node.proper_call.1 hnode
      rcases Compile.bind_pure_eq_ok.1 hrun with ⟨value, hquery, rfl⟩
      rcases Compile.query_eq_ok.1 hquery with ⟨hcall, _⟩
      have htext : IsArgument value.text := by
        refine isArgument_of_applyCall hclosed ?_ ?_ hcall
        · intro node hmem typed htyped
          exact isArgument_of_valueOf hclosed hbindings (hparts.2.1 node hmem).2 htyped
        · intro node hmem typed htyped
          exact isArgument_of_valueOf hclosed hbindings (hparts.2.2 node hmem) htyped
      exact List.forall_mem_singleton.2 (Line.isStatement_statement htext)
  | declare typeName name perPlayer initial _ =>
      have hparts := Node.proper_declare.1 hnode
      rcases Compile.bind_pure_eq_ok.1 hrun with ⟨written, hdeclare, rfl⟩
      have htexts := isArgument_of_declare hclosed hbindings hparts.2.2 hdeclare
      intro line hmem
      rcases List.mem_map.1 hmem with ⟨text, hwritten, rfl⟩
      exact Line.isStatement_statement (htexts text (Option.mem_toList.1 hwritten))
  | useBank domain bank =>
      rcases Compile.bind_pure_eq_ok.1 hrun with ⟨_, _, rfl⟩
      exact List.forall_mem_nil _
  | choice condition thenBranch elseBranch _ ihthen ihelse =>
      have hparts := Node.proper_choice.1 hnode
      rcases action_choice_eq_ok.1 hrun with
        ⟨text, thenLines, middle, elseLines, hcondition, hthen, helse, rfl⟩
      have htext := isArgument_of_condition hclosed hbindings hparts.1 hcondition
      have hthenLines := ihthen hparts.2.1 hbindings hthen
      cases elseBranch with
      | none =>
          rcases Compile.pure_eq_ok.1 helse with ⟨rfl, rfl⟩
          exact isStatement_of_choice htext hthenLines (List.forall_mem_nil _)
      | some elseBranch =>
          rcases Compile.bind_pure_eq_ok.1 helse with ⟨innerLines, hbranch, rfl⟩
          have helseLines := ihelse elseBranch rfl (hparts.2.2 elseBranch rfl)
            (hbindings.of_action hthen) hbranch
          have hheader : IsArgument "Else" := by decide
          exact isStatement_of_choice htext hthenLines (isStatement_indented hheader helseLines)
  | _ => cases hrun

/-! ## Conditions -/

/-- Conditions are arguments. -/
theorem isArgument_of_ruleCondition (hclosed : catalog.IsClosed) {bindings : Bindings}
    {node : Node} {text : String} (hbindings : bindings.IsSound catalog)
    (hnode : node.IsWellFormed) (htext : catalog.ruleCondition bindings node = .ok text) :
    IsArgument text := by
  unfold ruleCondition at htext
  split at htext
  · rename_i operator left right
    have hparts := Node.proper_binary.1 hnode
    split at htext
    · rcases Except.bind_eq_ok.1 htext with ⟨leftValue, hleft, hrest⟩
      rcases Except.bind_eq_ok.1 hrest with ⟨rightValue, hright, hrest⟩
      rcases Except.bind_eq_ok.1 hrest with ⟨texts, htexts, hresult⟩
      cases hresult
      have hleftText := isArgument_of_valueOf hclosed hbindings hparts.1 hleft
      have hrightText := isArgument_of_valueOf hclosed hbindings hparts.2 hright
      rcases isArgument_of_comparable (hclosed.isSound hbindings hleft hleftText)
        (hclosed.isSound hbindings hright hrightText) htexts with ⟨hfirst, hsecond⟩
      have htemplate : Template.IsClosed ⟨[.argument 0, .literal " ", .argument 1, .literal " ",
          .argument 2]⟩ := by
        decide
      have hoperands : ∀ operand ∈ [texts.1, operator.symbol, texts.2], IsArgument operand := by
        simp [hfirst, hsecond, isArgument_symbol]
      have hfill := htemplate.isArgument_fill hoperands
      simpa [Template.fill, TemplatePiece.fill, String.append_assoc] using hfill
    · cases htext
  · cases htext

/-- The same for all conditions. -/
theorem isArgument_of_ruleConditions (hclosed : catalog.IsClosed) {bindings : Bindings}
    {nodes : List Node} {texts : List String} (hbindings : bindings.IsSound catalog)
    (hnodes : ∀ node ∈ nodes, node.IsWellFormed)
    (htexts : nodes.mapM (catalog.ruleCondition bindings) = .ok texts) :
    ∀ text ∈ texts, IsArgument text := by
  induction nodes generalizing texts with
  | nil =>
      cases htexts
      exact List.forall_mem_nil _
  | cons node rest ih =>
      simp only [List.mapM_cons, Except.bind_eq_ok, Except.pure_eq_ok] at htexts
      rcases htexts with ⟨text, htext, others, hothers, rfl⟩
      rw [List.forall_mem_cons] at hnodes ⊢
      exact ⟨isArgument_of_ruleCondition hclosed hbindings hnodes.1 htext, ih hnodes.2 hothers⟩

end Catalog

/-! ## Rules -/

/-- All conditions and all statements of a rule are of the given kind. -/
structure RuleLayout.Consists (kind : String → Prop) (layout : RuleLayout) : Prop where
  conditions : ∀ texts ∈ layout.conditions, ∀ text ∈ texts, kind text
  actions : ∀ line ∈ layout.actions, line.IsStatement kind

/-- A layout of a wider kind. -/
theorem RuleLayout.Consists.imp {kind kind' : String → Prop} {layout : RuleLayout}
    (himp : ∀ text, kind text → kind' text) (hlayout : layout.Consists kind) :
    layout.Consists kind' := by
  refine ⟨?_, ?_⟩
  · intro texts htexts text hmem
    exact himp text (hlayout.conditions texts htexts text hmem)
  · intro line hmem content hcontent
    rcases hlayout.actions line hmem content hcontent with ⟨statement, hstatement, hkind⟩
    exact ⟨statement, hstatement, himp statement hkind⟩

/-- The conditions and statements of a rule are arguments. -/
theorem Catalog.consists_of_ruleLayout {catalog : Catalog} (hclosed : catalog.IsClosed)
    {name event : String} {conditions : Option (List Node)} {actions : List Node}
    {layout : RuleLayout} {state final : CompileState}
    (hrule : (Node.rule name event conditions actions).IsWellFormed)
    (hbindings : state.bindings.IsSound catalog)
    (hrun : catalog.ruleLayout name event conditions actions state = .ok layout final) :
    layout.Consists IsArgument := by
  have hparts := (Node.proper_rule.1 hrule).2.2
  rcases ruleLayout_eq_ok.1 hrun with
    ⟨eventText, texts, lines, middle, _, htexts, hlines, rfl, _⟩
  refine ⟨?_, ?_⟩
  · cases conditions with
    | none =>
        cases htexts
        exact fun _ hno => by cases hno
    | some nodes =>
        rcases Except.bind_eq_ok.1 htexts with ⟨found, hfound, hresult⟩
        cases hresult
        have hnodes : ∀ node ∈ nodes, node.IsWellFormed := fun node hmem =>
          (hparts.1 nodes rfl node hmem).2
        intro texts hmem
        cases hmem
        exact isArgument_of_ruleConditions hclosed hbindings.enter hnodes hfound
  · refine isStatement_of_actionList ?_ hbindings.enter hlines
    intro node hmem state lines final
    exact isStatement_of_action hclosed (hparts.2 node hmem)

/-- What an accepted program emits is well formed.  Its text is that of its rules, and all their
conditions and statements are balanced and on one line.  Every value in it, whatever it is made of
and wherever the walk through the program comes to it, is an argument and keeps to the place in
which it is written. -/
theorem compile_emits_balanced {source text : String} {options : CompileOptions}
    (haccepted : compile source options = .ok text) :
    ∃ program layouts final, Script.parse source = .ok program ∧
      Catalog.standard.ruleLayouts program (Point.start .initial program).state =
        .ok layouts final ∧
      text = options.finish ("\n\n".intercalate (layouts.map RuleLayout.render)) ∧
      (∀ layout ∈ layouts, layout.Consists fun content =>
        IsBalanced content ∧ ∀ c ∈ content.toList, isLineBreak c = false) ∧
      ∀ point, Reaches .standard (.start .initial program) point →
        ∀ node : Node, node.StandsIn program → ∀ value,
          Catalog.standard.valueOf point.state.bindings node = .ok value →
          IsArgument value.text ∧ KeepsPlace value.text := by
  have hclosed := Catalog.standard_isClosed
  rcases layouts_of_compile haccepted with ⟨program, layouts, final, hparse, hlayouts, rfl⟩
  have hprogram := (Script.isWellFormed_of_parse hparse).1
  refine ⟨program, layouts, final, hparse, hlayouts, rfl, ?_, ?_⟩
  · intro layout hmem
    rcases Catalog.point_of_mem_ruleLayouts .refl hlayouts layout hmem with
      ⟨name, event, conditions, actions, state, _, hreaches, hlayout⟩
    have hrule : (Node.rule name event conditions actions).IsWellFormed :=
      hreaches.isWellFormed hprogram
    have hbindings := hreaches.isSound hclosed hprogram
    have hconsists := Catalog.consists_of_ruleLayout hclosed hrule hbindings hlayout
    exact hconsists.imp fun _ hcontent => ⟨hcontent.isBalanced, hcontent.isLineBreak⟩
  · intro point hreaches node hnode value hvalue
    have hwell : node.IsWellFormed := fun inner hinner => hprogram inner (hinner.trans hnode)
    have hargument := Catalog.isArgument_of_valueOf hclosed (hreaches.isSound hclosed hprogram)
      hwell hvalue
    exact ⟨hargument, hargument.keepsPlace⟩

/-- Texts with quotes, parentheses and separators in them stay in their places. -/
theorem compile_emits_balanced_quotes :
    let source :=
      "const C = 'a\"),'; rule 'R': Event.player() if (C == '(') \x7b player.smallMessage(C); \x7d"
    let text := "\n".intercalate ["rule(\"R\")", "\x7b", "\tevent", "\t\x7b",
      "\t\tOngoing - Each Player;", "\t\tAll;", "\t\tAll;", "\t\x7d", "", "\tconditions", "\t\x7b",
      "\t\tCustom String(\"a\\\"),\") == Custom String(\"(\");", "\t\x7d", "", "\tactions",
      "\t\x7b", "\t\tSmall Message(Event Player, Custom String(\"a\\\"),\"));", "\t\x7d", "\x7d"]
    compile source ⟨false⟩ = .ok text ∧
      ∃ program layouts final, Script.parse source = .ok program ∧
        Catalog.standard.ruleLayouts program (Point.start .initial program).state =
          .ok layouts final ∧
        text = CompileOptions.finish ⟨false⟩ ("\n\n".intercalate (layouts.map RuleLayout.render)) ∧
        ∀ layout ∈ layouts, layout.Consists fun content =>
          IsBalanced content ∧ ∀ c ∈ content.toList, isLineBreak c = false := by
  intro source text
  have htext : (compile source ⟨false⟩).toOption = some text := by decide +kernel
  have haccepted : compile source ⟨false⟩ = .ok text := Except.toOption_eq_some.1 htext
  rcases compile_emits_balanced haccepted with
    ⟨program, layouts, final, hparse, hlayouts, hrendered, hbalanced, _⟩
  exact ⟨haccepted, program, layouts, final, hparse, hlayouts, hrendered, hbalanced⟩

end Workshop

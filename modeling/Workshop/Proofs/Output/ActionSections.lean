import Workshop.Proofs.Output.Outlines
import Workshop.Proofs.Output.Statements
import Workshop.Proofs.Reading.TreeForm

/-!
# Actions sections

The actions of a rule are written as indented rows.  This module shows that the
rows have the structure of the actions in the script: they are indented by the
number of branches around them, and the choices can be read back from them.

Main definitions:

- `Node.outline`: the structure of an action, blocks flattened and actions that
  become no line left out.
- `Catalog.EmitsLine`, `Catalog.EmitsCondition`: the text of a statement and of a
  condition, where the walk through the program comes to it.
- `physicalLines`, `indentation`: the lines of a text and their tabulators.
- `ShowsActions`: what the text of a rule shows of its actions.

Main results:

- Theorem `Catalog.exists_outline_of_action`: the lines of an action are those of
  an outline with the structure of the action.
- Theorem `RuleLayout.physical_lines`: the physical lines of a rule.
- Theorem `actions_keep_structure`: the marks of every action are nested, and in
  every accepted program the actions sections show the structure of the actions.
-/

namespace Workshop

/-! ## The structure of actions -/

namespace Node

/-- Whether an action becomes a line of its own. -/
def isLine : Node → Bool
  | assign _ _ _ | call _ _ _ => true
  | declare _ _ _ initial => initial.isSome
  | _ => false

mutual

/-- The structure of an action.  Blocks are flattened, and actions that become no line are left
out. -/
def outline : Node → Outline Node
  | block statements => outlineList statements
  | choice condition thenBranch elseBranch =>
    match elseBranch with
    | none => .choice condition thenBranch.outline .done
    | some elseBranch => .choiceElse condition thenBranch.outline elseBranch.outline .done
  | node => if node.isLine then .statement node .done else .done
termination_by structural node => node

/-- The structure of several actions. -/
def outlineList : List Node → Outline Node
  | [] => .done
  | node :: rest => node.outline.append (outlineList rest)
termination_by structural nodes => nodes

end

end Node

namespace Catalog

variable {catalog : Catalog} {start : Point} {node : Node} {state final : CompileState}
  {lines : List Line}

/-- The walk comes to a statement, which becomes one line there. -/
structure EmitsLine (catalog : Catalog) (start : Point) (node : Node) (content : String) :
    Prop where
  isLine : node.isLine = true
  emitted : ∃ state final, Reaches catalog start ⟨.action node, state⟩ ∧
    catalog.action node state = .ok [.text content] final

/-- The walk comes to a choice, the condition of which has the given text there. -/
def EmitsCondition (catalog : Catalog) (start : Point) (condition : Node) (text : String) : Prop :=
  ∃ thenBranch elseBranch state,
    Reaches catalog start ⟨.action (.choice condition thenBranch elseBranch), state⟩ ∧
      catalog.condition state.bindings condition = .ok text

/-- An outline with the structure of some actions, and their texts in it. -/
def IsOutlined (catalog : Catalog) (start : Point) : Outline Node → Outline String → Prop :=
  Outline.Rel (catalog.EmitsLine start) (catalog.EmitsCondition start)

/-- An action that becomes a single line. -/
theorem exists_outline_of_line {content : String} (hline : node.isLine = true)
    (houtline : node.outline = .statement node .done)
    (hreaches : Reaches catalog start ⟨.action node, state⟩)
    (hrun : catalog.action node state = .ok [.text content] final) :
    ∃ outline, catalog.IsOutlined start node.outline outline ∧ [.text content] = outline.lines := by
  refine ⟨.statement content .done, ?_, rfl⟩
  rw [houtline]
  exact .statement ⟨hline, state, final, hreaches, hrun⟩ .done

/-- Actions have an outline one by one. -/
theorem exists_outline_of_actionList {nodes : List Node}
    (hnodes : ∀ node ∈ nodes, ∀ state lines final, Reaches catalog start ⟨.action node, state⟩ →
      catalog.action node state = .ok lines final →
      ∃ outline, catalog.IsOutlined start node.outline outline ∧ lines = outline.lines)
    (hreaches : Reaches catalog start ⟨.actions nodes, state⟩)
    (hrun : catalog.actionList nodes state = .ok lines final) :
    ∃ outline, catalog.IsOutlined start (Node.outlineList nodes) outline ∧
      lines = outline.lines := by
  induction nodes generalizing state lines final with
  | nil =>
      rcases Compile.pure_eq_ok.1 hrun with ⟨rfl, _⟩
      exact ⟨.done, .done, rfl⟩
  | cons first rest ih =>
      rcases Compile.append_eq_ok.1 hrun with ⟨firstLines, middle, others, hfirst, hothers, rfl⟩
      rw [List.forall_mem_cons] at hnodes
      rcases hnodes.1 state firstLines middle (hreaches.tail (.firstAction first rest state))
        hfirst with ⟨outline, houtline, rfl⟩
      rcases ih hnodes.2 (hreaches.tail (.otherActions rest hfirst)) hothers with
        ⟨outline', houtline', rfl⟩
      exact ⟨outline.append outline', houtline.append houtline',
        (Outline.lines_append outline outline').symm⟩

/-- The lines of an action are those of an outline with the structure of the action. -/
theorem exists_outline_of_action (hreaches : Reaches catalog start ⟨.action node, state⟩)
    (hrun : catalog.action node state = .ok lines final) :
    ∃ outline, catalog.IsOutlined start node.outline outline ∧ lines = outline.lines := by
  induction node generalizing state lines final with
  | assign target receiver value _ _ =>
      rcases Compile.bind_pure_eq_ok.1 hrun with ⟨text, _, rfl⟩
      exact exists_outline_of_line rfl rfl hreaches hrun
  | block statements ih =>
      rcases Compile.inScope_eq_ok.1 hrun with ⟨middle, hactions, _⟩
      refine exists_outline_of_actionList ?_ (hreaches.tail (.innerBlock statements state)) hactions
      intro node hmem state lines final hreaches hrun
      exact ih node hmem hreaches hrun
  | call callee receiver arguments _ _ _ =>
      rcases Compile.bind_pure_eq_ok.1 hrun with ⟨value, _, rfl⟩
      exact exists_outline_of_line rfl rfl hreaches hrun
  | declare typeName name perPlayer initial _ =>
      rcases Compile.bind_pure_eq_ok.1 hrun with ⟨written, hdeclare, rfl⟩
      cases initial with
      | none =>
          rcases declare_none_eq_ok.1 hdeclare with ⟨_, _, _, _, _, _, rfl, _⟩
          exact ⟨.done, .done, rfl⟩
      | some initial =>
          rcases declare_some_eq_ok.1 hdeclare with ⟨_, _, _, _, _, _, _, _, _, _, _, rfl, _⟩
          exact exists_outline_of_line rfl rfl hreaches hrun
  | useBank domain bank =>
      rcases Compile.bind_pure_eq_ok.1 hrun with ⟨_, _, rfl⟩
      exact ⟨.done, .done, rfl⟩
  | choice condition thenBranch elseBranch _ ihthen ihelse =>
      rcases action_choice_eq_ok.1 hrun with
        ⟨text, thenLines, middle, elseLines, hcondition, hthen, helse, rfl⟩
      have hemits : catalog.EmitsCondition start condition text :=
        ⟨thenBranch, elseBranch, state, hreaches, hcondition⟩
      rcases ihthen (hreaches.tail (.thenBranch thenBranch elseBranch hcondition)) hthen with
        ⟨thenOutline, hthenOutline, rfl⟩
      cases elseBranch with
      | none =>
          rcases Compile.pure_eq_ok.1 helse with ⟨rfl, rfl⟩
          exact ⟨.choice text thenOutline .done, .choice hemits hthenOutline .done,
            by simp [Outline.lines]⟩
      | some elseBranch =>
          rcases Compile.bind_pure_eq_ok.1 helse with ⟨innerLines, hbranch, rfl⟩
          rcases ihelse elseBranch rfl (hreaches.tail (.elseBranch elseBranch hcondition hthen))
            hbranch with ⟨elseOutline, helseOutline, rfl⟩
          exact ⟨.choiceElse text thenOutline elseOutline .done,
            .choiceElse hemits hthenOutline helseOutline .done, by simp [Outline.lines]⟩
  | _ => cases hrun

/-- Whatever an action is and whatever it is made from, the marks of its lines are nested. -/
theorem marksNest_of_action (hrun : catalog.action node state = .ok lines final) :
    Line.MarksNest lines := by
  have hreaches : Reaches catalog ⟨.action node, state⟩ ⟨.action node, state⟩ := .refl
  rcases exists_outline_of_action hreaches hrun with ⟨outline, _, rfl⟩
  exact outline.closes_lines.marksNest

end Catalog

/-! ## Plain statements -/

namespace Template

/-- Whether a template begins with a text that is plain. -/
def startsPlain (template : Template) : Bool :=
  match template.pieces with
  | .literal text :: _ => Row.isPlain text
  | _ => false

/-- Templates that start plain give plain rows. -/
theorem isPlain_fill {template : Template} (hplain : template.startsPlain = true)
    (arguments : List String) : Row.isPlain (template.fill arguments) = true := by
  unfold startsPlain at hplain
  split at hplain
  · rename_i text rest hpieces
    rw [fill, hpieces, List.map_cons, String.join_cons]
    exact Row.isPlain_append hplain _
  · cases hplain

end Template

variable {text event : String} {layout : RuleLayout}

/-- A row that writes a variable is plain. -/
theorem Term.isPlain_writeGlobal (slot : Slot) (value : String) :
    Row.isPlain (writeGlobal slot value) = true := by
  have hplain : writeGlobalTemplate.startsPlain = true := by decide
  rw [writeGlobal_eq_fill]
  exact Template.isPlain_fill hplain _

/-- So is one for a variable of a player. -/
theorem Term.isPlain_writePlayer (player : String) (slot : Slot) (value : String) :
    Row.isPlain (writePlayer player slot value) = true := by
  have hplain : writePlayerTemplate.startsPlain = true := by decide
  rw [writePlayer_eq_fill]
  exact Template.isPlain_fill hplain _

namespace Catalog

variable {start : Point} {state final : CompileState}

/-- The text of an action of a script begins with a plain name. -/
theorem isPlain_of_applyCall {callee : Node} {receiver : Option ValueResult}
    {arguments : List ValueResult} {value : Typed}
    (hcall : standard.applyCall .action callee receiver arguments = .ok value) :
    Row.isPlain value.text = true := by
  have hplain : ∀ entry ∈ standardActions, entry.template.startsPlain = true := by decide
  rcases applyCall_eq_ok hcall with ⟨name, builtin, _, _, rfl, hfound, _, _, happly⟩
  rcases applyBuiltin_eq_ok.1 happly with ⟨hlength, texts, _, htexts, _, rfl⟩
  rcases List.mem_map.1 (mem_actions_of_builtin? hfound) with ⟨entry, hentry, rfl⟩
  have hcount := length_of_adaptedArguments hlength htexts
  rw [TemplateBuiltin.render_toBuiltin hcount]
  exact Template.isPlain_fill (hplain entry hentry) texts

/-- So is an assignment. -/
theorem isPlain_of_assign {catalog : Catalog} {target text : String} {receiver : Option Node}
    {value : Node} (hrun : catalog.assign target receiver value state = .ok text final) :
    Row.isPlain text = true := by
  cases receiver with
  | none =>
      rcases assign_none_eq_ok.1 hrun with ⟨_, _, found, stored, _, _, _, _, rfl, _⟩
      exact Term.isPlain_writeGlobal found.slot stored
  | some receiver =>
      rcases assign_some_eq_ok.1 hrun with ⟨_, _, player, found, stored, _, _, _, _, _, _, rfl, _⟩
      exact Term.isPlain_writePlayer player found.slot stored

/-- So is a first value. -/
theorem isPlain_writeInitial (domain : Domain) (slot : Slot) (text : String) :
    Row.isPlain (writeInitial domain slot text) = true := by
  cases domain with
  | global => exact Term.isPlain_writeGlobal slot text
  | player => exact Term.isPlain_writePlayer Term.eventPlayer slot text

/-- No statement can be taken for a row of a choice. -/
theorem isPlain_of_emitsLine {node : Node} {content : String}
    (hemits : standard.EmitsLine start node content) : Row.isPlain content = true := by
  rcases hemits with ⟨hline, state, final, _, hrun⟩
  cases node with
  | assign target receiver value =>
      rcases Compile.bind_pure_eq_ok.1 hrun with ⟨text, hassign, ⟨⟩⟩
      exact Row.isPlain_append (isPlain_of_assign hassign) ";"
  | call callee receiver arguments =>
      rcases Compile.bind_pure_eq_ok.1 hrun with ⟨value, hquery, ⟨⟩⟩
      rcases Compile.query_eq_ok.1 hquery with ⟨hcall, _⟩
      exact Row.isPlain_append (isPlain_of_applyCall hcall) ";"
  | declare typeName name perPlayer initial =>
      rcases Compile.bind_pure_eq_ok.1 hrun with ⟨written, hdeclare, hwritten⟩
      cases initial with
      | none => cases hline
      | some initial =>
          rcases declare_some_eq_ok.1 hdeclare with
            ⟨_, _, _, slot, _, stored, _, _, _, _, _, rfl, _⟩
          cases hwritten
          exact Row.isPlain_append (isPlain_writeInitial _ slot stored) ";"
  | _ => cases hline

end Catalog

/-! ## The lines of a rule -/

namespace RuleLayout

variable {layout : RuleLayout}

/-- The statements of the event section. -/
def eventTexts (layout : RuleLayout) : List String :=
  layout.event :: if layout.perPlayer then ["All", "All"] else []

/-- The event is written as statements. -/
theorem eventLines_eq_map (layout : RuleLayout) :
    layout.eventLines = layout.eventTexts.map Line.statement := by
  rw [eventLines, eventTexts]
  cases layout.perPlayer with
  | false => rfl
  | true => rfl

/-- The sections above the actions. -/
def sectionsAbove (layout : RuleLayout) : List Line :=
  Line.inSection "event" layout.eventLines ++ layout.conditionLines

/-- The sections above the actions are closed. -/
theorem closes_sectionsAbove (layout : RuleLayout) : Line.Closes layout.sectionsAbove := by
  refine .append ?_ ?_
  · rw [eventLines_eq_map]
    exact Line.closes_inSection (Line.closes_map_statement _) "event"
  · rw [conditionLines]
    cases layout.conditions with
    | none => exact fun _ => rfl
    | some texts =>
        exact Line.closes_inSection (Line.closes_map_statement texts) "conditions"

/-- The physical lines above the actions section. -/
def above (layout : RuleLayout) : List (List Char) :=
  ("rule(\"" ++ layout.name ++ "\")").toList :: ['\x7b'] ::
    (Line.physical 1 layout.sectionsAbove ++ [[]])

/-- The physical lines of a rule. -/
theorem physical_lines (hactions : Line.Closes layout.actions) :
    Line.physical 0 layout.lines =
      layout.above ++ ["\tactions".toList, "\t\x7b".toList] ++ Line.physical 2 layout.actions ++
        ["\t\x7d".toList, "\x7d".toList] := by
  have hactionsSection := Line.physical_inSection hactions "actions" 1
  have hbody : Line.Closes layout.body :=
    layout.closes_sectionsAbove.append (Line.closes_inSection hactions "actions")
  have hphysical : Line.physical 1 layout.body =
      Line.physical 1 layout.sectionsAbove ++
        [] :: Line.physical 1 (Line.inSection "actions" layout.actions) := by
    rw [body, ← sectionsAbove, Line.physical_append, layout.closes_sectionsAbove.levelAfter_eq]
    rfl
  rw [lines, Line.physical_inSection hbody, hphysical, hactionsSection, above]
  simp

/-- The line above the actions does not stand in another section. -/
theorem not_mem_physical_inSection (name : String) (hname : name ≠ "actions")
    (texts : List String) :
    "\tactions".toList ∉ Line.physical 1 (Line.inSection name (texts.map Line.statement)) := by
  have hheader : ¬ "actions".toList = name.toList := fun heq => hname (String.toList_inj.1 heq).symm
  rw [Line.physical_inSection (Line.closes_map_statement texts), Line.physical_map_statement]
  simpa using hheader

/-- No row above starts the actions. -/
theorem not_mem_above (layout : RuleLayout) : "\tactions".toList ∉ layout.above := by
  have hevent := not_mem_physical_inSection "event" (by decide) layout.eventTexts
  have hsections : "\tactions".toList ∉ Line.physical 1 layout.sectionsAbove := by
    rw [sectionsAbove, eventLines_eq_map, Line.physical_append, List.mem_append,
      (Line.closes_inSection (Line.closes_map_statement _) "event").levelAfter_eq, not_or]
    refine ⟨hevent, ?_⟩
    rw [conditionLines]
    cases layout.conditions with
    | none => exact List.not_mem_nil
    | some texts =>
        have hconditions := not_mem_physical_inSection "conditions" (by decide) texts
        simpa [Line.physical] using hconditions
  simpa [above] using hsections

/-- No line of a rule is broken if its name, its event, its conditions and its actions are not. -/
theorem unbroken_lines (hname : '\n' ∉ layout.name.toList) (hevent : '\n' ∉ layout.event.toList)
    (hconsists : layout.Consists fun text => '\n' ∉ text.toList) :
    Line.Unbroken layout.lines := by
  have hactions : Line.Unbroken layout.actions := by
    intro content hmem
    rcases hconsists.actions _ hmem content rfl with ⟨statement, rfl, hstatement⟩
    simpa using hstatement
  have heventTexts : ∀ text ∈ layout.eventTexts, '\n' ∉ text.toList := by
    rw [eventTexts, List.forall_mem_cons]
    refine ⟨hevent, ?_⟩
    cases layout.perPlayer with
    | false => exact List.forall_mem_nil _
    | true => decide
  have hconditions : Line.Unbroken layout.conditionLines := by
    rw [conditionLines]
    cases htexts : layout.conditions with
    | none => exact fun _ hmem => by cases hmem
    | some texts =>
        have hlines := Line.unbroken_map_statement (hconsists.conditions texts htexts)
        exact Line.unbroken_cons.2 ⟨by simp, Line.unbroken_inSection (by decide) hlines⟩
  rw [lines, body]
  refine Line.unbroken_inSection (by simpa using hname) ?_
  rw [Line.unbroken_append, Line.unbroken_append, Line.unbroken_cons, eventLines_eq_map]
  exact ⟨⟨Line.unbroken_inSection (by decide) (Line.unbroken_map_statement heventTexts),
    hconditions⟩, by simp, Line.unbroken_inSection (by decide) hactions⟩

end RuleLayout

/-! ## Unbroken lines -/

/-- A line feed is a line break. -/
theorem not_mem_of_isLineBreak {chars : List Char} (hchars : ∀ c ∈ chars, isLineBreak c = false) :
    '\n' ∉ chars := by
  intro hmem
  cases hchars '\n' hmem

/-- Arguments have no line feed. -/
theorem IsArgument.not_mem (hargument : IsArgument text) : '\n' ∉ text.toList :=
  not_mem_of_isLineBreak hargument.isLineBreak

/-- Events are arguments. -/
theorem Catalog.isArgument_of_eventText {catalog : Catalog} (hclosed : catalog.IsClosed)
    (hevent : catalog.eventText event = .ok text) : IsArgument text := by
  unfold eventText at hevent
  split at hevent
  · rename_i found hfound
    cases hevent
    rcases Option.bind_eq_some_iff.1 hfound with ⟨enumeration, henumeration, hmember⟩
    rcases Option.map_eq_some_iff.1 hmember with ⟨entry, hentry, rfl⟩
    exact hclosed.members enumeration
      (List.mem_reverse.1 (List.mem_of_find?_eq_some henumeration)) entry
      (List.mem_of_find?_eq_some hentry)
  · cases hevent

/-- No line of a rule in a well-formed program is broken. -/
theorem Catalog.unbroken_of_ruleLayout {catalog : Catalog} (hclosed : catalog.IsClosed)
    {name : String} {conditions : Option (List Node)} {actions : List Node}
    {state final : CompileState} (hrule : (Node.rule name event conditions actions).IsWellFormed)
    (hbindings : state.bindings.IsSound catalog)
    (hrun : catalog.ruleLayout name event conditions actions state = .ok layout final) :
    Line.Unbroken layout.lines := by
  have hconsists := consists_of_ruleLayout hclosed hrule hbindings hrun
  have hname : isLiteral name = true := (Node.proper_rule.1 hrule).1
  rcases exists_literalBody_of_isLiteral hname with ⟨_, _, hbody⟩
  rcases ruleLayout_eq_ok.1 hrun with ⟨_, _, _, _, hevent, _, _, rfl, _⟩
  exact RuleLayout.unbroken_lines (not_mem_of_isLineBreak hbody.isLineBreak_eq_false)
    (isArgument_of_eventText hclosed hevent).not_mem (hconsists.imp fun _ => IsArgument.not_mem)

/-! ## Actions in the text of a program -/

/-- What the text of a rule shows of its actions.  Below the line that announces them, every line
is indented by two tabulators and one more for every branch around it in the script.  The lines of
choices are nested, and the choices and statements read from them are those of the script, in
their order. -/
def ShowsActions (start : Point) (actions : List Node) (rule : String) : Prop :=
  ∃ above body outline,
    physicalLines rule = above ++ ["\tactions", "\t\x7b"] ++ body ++ ["\t\x7d", "\x7d"] ∧
      "\tactions" ∉ above ∧
      body.map indentation = ((Node.outlineList actions).rows 0).map (2 + ·.1) ∧
      readOutline (body.map fun line => Row.ofText (unindented line)) = some outline ∧
      Catalog.standard.IsOutlined start (Node.outlineList actions) outline

/-- The physical lines of a rule whose actions are an outline. -/
theorem RuleLayout.physicalLines_render {outline : Outline String}
    (hunbroken : Line.Unbroken layout.lines) (hactions : layout.actions = outline.lines) :
    physicalLines layout.render =
      layout.above.map String.ofList ++ ["\tactions", "\t\x7b"] ++
        (outline.rows 2).map Row.indented ++ ["\t\x7d", "\x7d"] := by
  have hphysical : physicalLines layout.render =
      (Line.physical 0 layout.lines).map String.ofList :=
    Line.physicalLines_render 0 hunbroken
  have hcloses : Line.Closes layout.actions := hactions ▸ outline.closes_lines
  rw [hphysical, physical_lines hcloses, hactions, ← Outline.map_physical_lines]
  simp

/-- A layout shows its actions. -/
theorem Catalog.showsActions_of_laidOutFor {program : Node} (hprogram : program.IsWellFormed)
    {actions : List Node} (hlaid : standard.LaidOutFor (.start .initial program) actions layout) :
    ShowsActions (.start .initial program) actions layout.render := by
  rcases hlaid with ⟨name, event, conditions, state, final, hreaches, hrun⟩
  have hunbroken := unbroken_of_ruleLayout standard_isClosed (hreaches.isWellFormed hprogram)
    (hreaches.isSound standard_isClosed hprogram) hrun
  rcases ruleLayout_eq_ok.1 hrun with
    ⟨eventText, texts, lines, middle, hevent, htexts, hlines, rfl, _⟩
  have hnodes : ∀ node ∈ actions, ∀ state lines final,
      Reaches standard (.start .initial program) ⟨.action node, state⟩ →
      standard.action node state = .ok lines final →
      ∃ outline, standard.IsOutlined (.start .initial program) node.outline outline ∧
        lines = outline.lines :=
    fun _ _ _ _ _ => exists_outline_of_action
  rcases exists_outline_of_actionList hnodes (hreaches.tail (.rule actions hevent htexts)) hlines
    with ⟨outline, houtline, hactions⟩
  -- The rows can be read back, since no statement looks like a row of a choice.
  have hplain : ∀ node content, standard.EmitsLine (.start .initial program) node content →
      Row.isPlain content = true :=
    fun _ _ => isPlain_of_emitsLine
  have hlegible : ∀ row ∈ outline.rows 2, row.2.IsLegible := houtline.forall_statement hplain 2
  have hread := Outline.readOutline_indented hlegible
  refine ⟨_, _, outline, RuleLayout.physicalLines_render hunbroken hactions, ?_, ?_, hread.2,
    houtline⟩
  · intro hmem
    rcases List.mem_map.1 hmem with ⟨line, hline, heq⟩
    have hchars : line = "\tactions".toList := by rw [← heq, String.toList_ofList]
    exact RuleLayout.not_mem_above _ (hchars ▸ hline)
  · -- Two levels are around all actions: that of the rule and that of the section.
    rw [hread.1, ← houtline.map_fst_rows 2]
    exact Outline.map_fst_rows_add 2 0 _

/-- The structure of actions is kept.  Whatever an action is and whatever is known of names, the
marks of its lines are nested.  In every accepted program the text of every rule shows the
structure of its actions. -/
theorem actions_keep_structure :
    (∀ (catalog : Catalog) (node : Node) (state final : CompileState) (lines : List Line),
      catalog.action node state = .ok lines final → Line.MarksNest lines) ∧
    ∀ (source text : String) (options : CompileOptions), compile source options = .ok text →
      ∃ program rules, Script.parse source = .ok program ∧
        text = options.finish ("\n\n".intercalate rules) ∧
        List.Forall₂ (ShowsActions (.start .initial program)) program.ruleActions rules := by
  refine ⟨fun _ _ _ _ _ => Catalog.marksNest_of_action, ?_⟩
  intro source text options haccepted
  rcases layouts_of_compile haccepted with ⟨program, layouts, final, hparse, hlayouts, rfl⟩
  have hprogram := (Script.isWellFormed_of_parse hparse).1
  refine ⟨program, layouts.map RuleLayout.render, hparse, rfl, ?_⟩
  rw [List.forall₂_map_right_iff]
  exact (Catalog.laidOutFor_ruleLayouts .refl hlayouts).imp fun _ _ =>
    Catalog.showsActions_of_laidOutFor hprogram

/-- A single choice, and a rule with choices in each other, a block, and actions that become no
line. -/
theorem actions_keep_structure_nested :
    let node : Node := .choice (.boolean true)
      (.call (.identifier "wait" none) none [.number "1"]) none
    let lines : List Line := [.text "If(True);", .indent, .text "Wait(1, Ignore Condition);",
      .dedent, .text "End;"]
    let state : CompileState := ⟨Session.initial.bindings, #[]⟩
    let source := "rule 'R': Event.global() \x7b number n; if (true) \x7b " ++
      "if (false) \x7b wait(1) \x7d else \x7b n = 2; usevar global B \x7d " ++
      "\x7d else \x7b \x7b wait(3) \x7d \x7d; wait(4) \x7d"
    let text := "\n".intercalate ["rule(\"R\")", "\x7b", "\tevent", "\t\x7b",
      "\t\tOngoing - Global;", "\t\x7d", "", "\tactions", "\t\x7b", "\t\tIf(True);",
      "\t\t\tIf(False);", "\t\t\t\tWait(1, Ignore Condition);", "\t\t\tElse;",
      "\t\t\t\tSet Global Variable At Index(A, 0, 2);", "\t\t\tEnd;", "\t\tElse;",
      "\t\t\tWait(3, Ignore Condition);", "\t\tEnd;", "\t\tWait(4, Ignore Condition);",
      "\t\x7d", "\x7d"]
    Catalog.standard.action node state = .ok lines state ∧ Line.MarksNest lines ∧
      compile source ⟨false⟩ = .ok text ∧
      ∃ program rules, Script.parse source = .ok program ∧
        text = CompileOptions.finish ⟨false⟩ ("\n\n".intercalate rules) ∧
        List.Forall₂ (ShowsActions (.start .initial program)) program.ruleActions rules := by
  intro node lines state source text
  have haction : Catalog.standard.action node state = .ok lines state := by rfl
  have haccepted : compile source ⟨false⟩ = .ok text :=
    Except.toOption_eq_some.1 (by decide +kernel)
  exact ⟨haction, actions_keep_structure.1 .standard node state state lines haction, haccepted,
    actions_keep_structure.2 source text ⟨false⟩ haccepted⟩

end Workshop

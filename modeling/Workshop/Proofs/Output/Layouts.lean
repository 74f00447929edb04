import Workshop.Proofs.Walk.Points

/-!
# The rules of a program before they are written

Compiling writes every rule as soon as it has been laid out, so that only texts
are left in the end.  This module has the layouts that they are written from.

Main definition:

- `Node.ruleActions`: the actions of all rules in a statement.

Main results:

- Theorem `Catalog.topLevel_eq_map`: the texts of the rules are their layouts,
  written out.
- Theorem `Catalog.forall₂_ruleLayouts`: the layouts are made rule by rule.
- Theorem `Catalog.laidOutFor_ruleLayouts`: the layouts are those of the rules, in
  their order, and the walk through the program comes to all of them.
- Theorem `layouts_of_compile`: the text of an accepted program.
-/

namespace Workshop

namespace Node

mutual

/-- The actions of the rules in a top level statement. -/
def ruleActions : Node → List (List Node)
  | block statements => ruleActionsList statements
  | rule _ _ _ actions => [actions]
  | _ => []
termination_by structural node => node

/-- The actions of the rules in several top level statements. -/
def ruleActionsList : List Node → List (List Node)
  | [] => []
  | node :: rest => ruleActions node ++ ruleActionsList rest
termination_by structural nodes => nodes

end

/-- Lists of what the rules in statements have, in their order. -/
structure ListsRules {β : Type} (rulesOf : Node → List β) (rulesOfList : List Node → List β) :
    Prop where
  block : ∀ statements, rulesOf (.block statements) = rulesOfList statements
  constant : ∀ name value, rulesOf (.constant name value) = []
  declare : ∀ typeName name perPlayer initial,
    rulesOf (.declare typeName name perPlayer initial) = []
  useBank : ∀ domain bank, rulesOf (.useBank domain bank) = []
  nil : rulesOfList [] = []
  cons : ∀ node rest, rulesOfList (node :: rest) = rulesOf node ++ rulesOfList rest

/-- The actions of the rules are listed. -/
theorem listsRules_ruleActions : ListsRules ruleActions ruleActionsList :=
  ⟨fun _ => rfl, fun _ _ => rfl, fun _ _ _ _ => rfl, fun _ _ => rfl, rfl, fun _ _ => rfl⟩

end Node

namespace Catalog

variable {catalog : Catalog} {node : Node} {layouts : List RuleLayout} {state final : CompileState}
  {start : Point}

section Map

variable {α β : Type} {f : α → β}
  {ofRule : String → String → Option (List Node) → List Node → Compile α}

/-- The same for lists of statements. -/
theorem topLevelListOf_map {nodes : List Node}
    (hnodes : ∀ node ∈ nodes,
      catalog.topLevelOf (fun name event conditions actions =>
        f <$> ofRule name event conditions actions) node =
      List.map f <$> catalog.topLevelOf ofRule node) :
    catalog.topLevelListOf (fun name event conditions actions =>
        f <$> ofRule name event conditions actions) nodes =
      List.map f <$> catalog.topLevelListOf ofRule nodes := by
  induction nodes with
  | nil => rfl
  | cons node rest ih =>
      rw [List.forall_mem_cons] at hnodes
      rw [topLevelListOf, topLevelListOf, hnodes.1, ih hnodes.2]
      simp

/-- What is made of every single rule is made of all rules of a program. -/
theorem topLevelOf_map (node : Node) :
    catalog.topLevelOf (fun name event conditions actions =>
        f <$> ofRule name event conditions actions) node =
      List.map f <$> catalog.topLevelOf ofRule node := by
  induction node with
  | block statements ih => exact topLevelListOf_map ih
  | rule | constant | declare | useBank => simp [topLevelOf]
  | _ => rfl

end Map

/-- The texts of rules are their layouts, written out. -/
theorem topLevel_eq_map (node : Node) :
    (catalog.topLevel node : Compile (List String)) =
      List.map RuleLayout.render <$> catalog.ruleLayouts node := by
  have hrule : (catalog.rule : _ → _ → _ → _ → Compile String) =
      fun name event conditions actions =>
        RuleLayout.render <$> catalog.ruleLayout name event conditions actions := by
    funext name event conditions actions
    exact (map_eq_pure_bind _ _).symm
  rw [topLevel, hrule, topLevelOf_map, ruleLayouts]

/-- Rules are rendered layouts. -/
theorem topLevel_of_ruleLayouts (hrun : catalog.ruleLayouts node state = .ok layouts final) :
    catalog.topLevel node state = .ok (layouts.map RuleLayout.render) final := by
  rw [topLevel_eq_map, map_eq_pure_bind]
  exact Compile.bind_eq_ok.2 ⟨layouts, final, hrun, rfl⟩

/-- Every rule has a layout. -/
theorem exists_ruleLayouts {rules : List String}
    (hrun : catalog.topLevel node state = .ok rules final) :
    ∃ layouts, catalog.ruleLayouts node state = .ok layouts final ∧
      rules = layouts.map RuleLayout.render := by
  rw [topLevel_eq_map, map_eq_pure_bind] at hrun
  rcases Compile.bind_pure_eq_ok.1 hrun with ⟨layouts, hlayouts, rfl⟩
  exact ⟨layouts, hlayouts, rfl⟩

/-! ## Rules on the walk -/

/-- A layout is that of a rule with the given actions, which the walk from a point comes to. -/
def LaidOutFor (catalog : Catalog) (start : Point) (actions : List Node) (layout : RuleLayout) :
    Prop :=
  ∃ name event conditions state final,
    Reaches catalog start ⟨.statement (.rule name event conditions actions), state⟩ ∧
      catalog.ruleLayout name event conditions actions state = .ok layout final

/-- A layout is that of a rule which the walk from a point comes to. -/
def LaidOutFrom (catalog : Catalog) (start : Point) (layout : RuleLayout) : Prop :=
  ∃ name event conditions actions state final,
    Reaches catalog start ⟨.statement (.rule name event conditions actions), state⟩ ∧
      catalog.ruleLayout name event conditions actions state = .ok layout final

section Rules

variable {β : Type} {R : β → RuleLayout → Prop} {rulesOf : Node → List β}
  {rulesOfList : List Node → List β} (hlists : Node.ListsRules rulesOf rulesOfList)

include hlists

/-- Layouts of statements one by one. -/
theorem forall₂_ruleLayoutsList {nodes : List Node}
    (hnodes : ∀ node ∈ nodes, ∀ state layouts final,
      Reaches catalog start ⟨.statement node, state⟩ →
      catalog.ruleLayouts node state = .ok layouts final →
      List.Forall₂ R (rulesOf node) layouts)
    (hreaches : Reaches catalog start ⟨.statements nodes, state⟩)
    (hrun : catalog.topLevelListOf catalog.ruleLayout nodes state = .ok layouts final) :
    List.Forall₂ R (rulesOfList nodes) layouts := by
  induction nodes generalizing state layouts final with
  | nil =>
      rcases Compile.pure_eq_ok.1 hrun with ⟨rfl, _⟩
      rw [hlists.nil]
      exact .nil
  | cons first rest ih =>
      rcases Compile.append_eq_ok.1 hrun with ⟨firstLayouts, middle, others, hfirst, hothers, rfl⟩
      rw [List.forall_mem_cons] at hnodes
      have hnext := hreaches.tail (.otherStatements rest (topLevel_of_ruleLayouts hfirst))
      have hhere := hreaches.tail (.firstStatement first rest state)
      rw [hlists.cons]
      exact List.rel_append (hnodes.1 state firstLayouts middle hhere hfirst)
        (ih hnodes.2 hnext hothers)

/-- What is known of every rule that the walk comes to is known of all layouts of a program. -/
theorem forall₂_ruleLayouts
    (hrule : ∀ name event conditions actions state layout final,
      Reaches catalog start ⟨.statement (.rule name event conditions actions), state⟩ →
      catalog.ruleLayout name event conditions actions state = .ok layout final →
      List.Forall₂ R (rulesOf (.rule name event conditions actions)) [layout])
    (hreaches : Reaches catalog start ⟨.statement node, state⟩)
    (hrun : catalog.ruleLayouts node state = .ok layouts final) :
    List.Forall₂ R (rulesOf node) layouts := by
  induction node generalizing state layouts final with
  | block statements ih =>
      rw [hlists.block]
      refine forall₂_ruleLayoutsList hlists ?_ (hreaches.tail (.block statements state)) hrun
      intro node hmem state layouts final hreaches hrun
      exact ih node hmem hreaches hrun
  | rule name event conditions actions _ _ =>
      rcases Compile.bind_pure_eq_ok.1 hrun with ⟨layout, hlayout, rfl⟩
      exact hrule name event conditions actions state layout final hreaches hlayout
  | constant name value _ =>
      rcases Compile.bind_pure_eq_ok.1 hrun with ⟨_, _, rfl⟩
      rw [hlists.constant]
      exact .nil
  | declare typeName name perPlayer initial _ =>
      rcases Compile.bind_pure_eq_ok.1 hrun with ⟨_, _, rfl⟩
      rw [hlists.declare]
      exact .nil
  | useBank domain bank =>
      rcases Compile.bind_pure_eq_ok.1 hrun with ⟨_, _, rfl⟩
      rw [hlists.useBank]
      exact .nil
  | _ => cases hrun

end Rules

/-- The layouts of a program are those of its rules, in their order, and the walk comes to all of
them. -/
theorem laidOutFor_ruleLayouts (hreaches : Reaches catalog start ⟨.statement node, state⟩)
    (hrun : catalog.ruleLayouts node state = .ok layouts final) :
    List.Forall₂ (catalog.LaidOutFor start) node.ruleActions layouts := by
  refine forall₂_ruleLayouts Node.listsRules_ruleActions ?_ hreaches hrun
  intro name event conditions actions state layout final hreaches hlayout
  exact .cons ⟨name, event, conditions, state, final, hreaches, hlayout⟩ .nil

/-- Every layout of a program is that of a rule which the walk comes to. -/
theorem point_of_mem_ruleLayouts (hreaches : Reaches catalog start ⟨.statement node, state⟩)
    (hrun : catalog.ruleLayouts node state = .ok layouts final) :
    ∀ layout ∈ layouts, catalog.LaidOutFrom start layout := by
  have hall := laidOutFor_ruleLayouts hreaches hrun
  clear hrun
  generalize node.ruleActions = actions at hall
  induction hall with
  | nil => exact List.forall_mem_nil _
  | cons hfirst _ ih =>
      rcases hfirst with ⟨name, event, conditions, state, final, hfirst⟩
      exact List.forall_mem_cons.2 ⟨⟨name, event, conditions, _, state, final, hfirst⟩, ih⟩

end Catalog

/-! ## Accepted programs -/

/-- The text of an accepted program: the layouts of its rules, written out with an empty line
between them. -/
theorem layouts_of_compile {source text : String} {options : CompileOptions}
    (haccepted : compile source options = .ok text) :
    ∃ program layouts final, Script.parse source = .ok program ∧
      Catalog.standard.ruleLayouts program (Point.start .initial program).state =
        .ok layouts final ∧
      text = options.finish ("\n\n".intercalate (layouts.map RuleLayout.render)) := by
  rcases Except.bind_eq_ok.1 haccepted with ⟨program, hparse, htree⟩
  unfold compileTree at htree
  split at htree
  · rename_i plain houtcome
    cases htree
    rcases Session.compile_eq_ok.1 houtcome with ⟨final, hprogram, _⟩
    rcases Catalog.program_eq_ok.1 hprogram with ⟨rules, hrules, rfl⟩
    rcases Catalog.exists_ruleLayouts hrules with ⟨layouts, hlayouts, rfl⟩
    exact ⟨program, layouts, final, hparse, hlayouts, rfl⟩
  · cases htree

end Workshop

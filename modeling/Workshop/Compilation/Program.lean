import Workshop.Compilation.Variables
import Workshop.Output.RuleLayout

/-!
# Programs

A program is compiled statement by statement.  Declarations and constants change what names stand
for; rules become text.

Main definitions:

- `Catalog.action`: the lines of an action.
- `Catalog.rule`: the text of a rule.
- `Catalog.topLevel`: the texts of all rules of a program.
-/

namespace Workshop

/-- The domain of a declaration. -/
def Domain.ofPerPlayer (perPlayer : Bool) : Domain :=
  if perPlayer then .player else .global

namespace Catalog

variable {α σ ε : Type} [Storage σ ε] [Reason ε]

mutual

/-- The lines of an action. -/
def action (catalog : Catalog) : Node → CompileOn σ ε (List Line)
  | .assign target receiver value => do
    let text ← catalog.assign target receiver value
    pure [.statement text]
  | .block statements => Compile.inScope (catalog.actionList statements)
  | .call callee receiver arguments => do
    let call ← Compile.query fun bindings =>
      catalog.applyCall .action callee (catalog.optionalValueOf bindings receiver)
        (catalog.valuesOf bindings arguments)
    pure [.statement call.text]
  | .declare typeName name perPlayer initial => do
    let written ← catalog.declare typeName name (.ofPerPlayer perPlayer) initial
    pure (written.toList.map Line.statement)
  | .useBank domain bank => do
    useBank domain bank
    pure []
  | .choice condition thenBranch elseBranch => do
    let conditionText ← Compile.query (catalog.condition · condition)
    let thenLines ← catalog.action thenBranch
    let elseLines ← match elseBranch with
      | none => pure []
      | some elseBranch => do
        let lines ← catalog.action elseBranch
        pure ([Line.statement "Else", .indent] ++ lines ++ [.dedent])
    pure ([Line.statement ("If(" ++ conditionText ++ ")"), .indent] ++ thenLines ++ [.dedent] ++
      elseLines ++ [.statement "End"])
  | other => Compile.query fun _ => Reason.fail (.notAllowed other.describe .action)
termination_by structural node => node

/-- The lines of several actions, one after the other. -/
def actionList (catalog : Catalog) : List Node → CompileOn σ ε (List Line)
  | [] => pure []
  | node :: rest => do
    let lines ← catalog.action node
    let others ← catalog.actionList rest
    pure (lines ++ others)
termination_by structural nodes => nodes

end

/-- The texts of the conditions of a rule. -/
def ruleConditions (catalog : Catalog) (bindings : σ) :
    Option (List Node) → Except ε (Option (List String))
  | none => .ok none
  | some conditions => do
    let texts ← conditions.mapM (catalog.ruleCondition bindings)
    pure (some texts)

/-- The text of the event that a rule names. -/
def eventText (catalog : Catalog) (event : String) : Except SemanticError String :=
  match (catalog.enumeration? eventEnumeration).bind (·.member? event) with
  | some text => .ok text
  | none => .error (.unknownEvent event)

/-- The layout of a rule.  Its conditions and actions have a scope of their own. -/
def ruleLayout (catalog : Catalog) (name event : String) (conditions : Option (List Node))
    (actions : List Node) : CompileOn σ ε RuleLayout := do
  let eventText ← Compile.query fun _ => Reason.lift (catalog.eventText event)
  Compile.note (.ruleBegun name event)
  Compile.inScope do
    let conditions ← Compile.query (catalog.ruleConditions · conditions)
    let actions ← catalog.actionList actions
    pure (RuleLayout.mk name eventText (event != globalEvent) conditions actions)

/-- The text of a rule. -/
def rule (catalog : Catalog) (name event : String) (conditions : Option (List Node))
    (actions : List Node) : CompileOn σ ε String := do
  let layout ← catalog.ruleLayout name event conditions actions
  pure layout.render

section TopLevel

variable (catalog : Catalog)
  (ofRule : String → String → Option (List Node) → List Node → CompileOn σ ε α)

mutual

/-- What the rules in a top level statement are compiled to, one by one. -/
def topLevelOf : Node → CompileOn σ ε (List α)
  | .block statements => topLevelListOf statements
  | .constant name value => do
    catalog.define name value
    pure []
  | .declare typeName name perPlayer initial => do
    discard (catalog.declare typeName name (.ofPerPlayer perPlayer) initial)
    pure []
  | .rule name event conditions actions => do
    let compiled ← ofRule name event conditions actions
    pure [compiled]
  | .useBank domain bank => do
    useBank domain bank
    pure []
  | other => Compile.query fun _ => Reason.fail (.notAllowed other.describe .topLevel)
termination_by structural node => node

/-- What the rules in several statements are compiled to. -/
def topLevelListOf : List Node → CompileOn σ ε (List α)
  | [] => pure []
  | node :: rest => do
    let rules ← topLevelOf node
    let others ← topLevelListOf rest
    pure (rules ++ others)
termination_by structural nodes => nodes

end

end TopLevel

/-- The layouts of the rules in a top level statement. -/
def ruleLayouts (catalog : Catalog) (node : Node) : CompileOn σ ε (List RuleLayout) :=
  catalog.topLevelOf catalog.ruleLayout node

/-- The texts of the rules in a top level statement. -/
def topLevel (catalog : Catalog) (node : Node) : CompileOn σ ε (List String) :=
  catalog.topLevelOf catalog.rule node

/-- The texts of the rules in several statements. -/
def topLevelList (catalog : Catalog) (nodes : List Node) : CompileOn σ ε (List String) :=
  catalog.topLevelListOf catalog.rule nodes

theorem topLevelList_nil (catalog : Catalog) :
    catalog.topLevelList [] = (pure [] : CompileOn σ ε (List String)) := rfl

theorem topLevelList_cons (catalog : Catalog) (node : Node) (rest : List Node) :
    (catalog.topLevelList (node :: rest) : CompileOn σ ε (List String)) = (do
      let rules ← catalog.topLevel node
      let others ← catalog.topLevelList rest
      pure (rules ++ others)) := rfl

/-- The text of a program: all its rules, with an empty line between them. -/
def program (catalog : Catalog) (node : Node) : CompileOn σ ε String := do
  let rules ← catalog.topLevel node
  pure ("\n\n".intercalate rules)

end Catalog
end Workshop

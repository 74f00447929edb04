import Workshop.Output.Line

/-!
# Rules as text

A rule has a header with its name and three sections: the event, the conditions if it has a list
of them, and the actions.
-/

namespace Workshop

/-- The parts of a compiled rule. -/
structure RuleLayout where
  name : String
  event : String
  /-- Whether the event concerns players, of all teams and heroes. -/
  perPlayer : Bool
  conditions : Option (List String)
  actions : List Line
deriving DecidableEq, Repr

namespace RuleLayout

/-- The lines of the event section. -/
def eventLines (rule : RuleLayout) : List Line :=
  .statement rule.event ::
    if rule.perPlayer then [.statement "All", .statement "All"] else []

/-- The conditions section with an empty line before it. -/
def conditionLines (rule : RuleLayout) : List Line :=
  match rule.conditions with
  | none => []
  | some conditions => .blank :: Line.inSection "conditions" (conditions.map Line.statement)

/-- The sections of a rule, with empty lines between them. -/
def body (rule : RuleLayout) : List Line :=
  Line.inSection "event" rule.eventLines ++ rule.conditionLines ++
    .blank :: Line.inSection "actions" rule.actions

/-- All lines of a rule. -/
def lines (rule : RuleLayout) : List Line :=
  Line.inSection ("rule(\"" ++ rule.name ++ "\")") rule.body

/-- The text of a rule. -/
def render (rule : RuleLayout) : String :=
  Line.render rule.lines 0

end RuleLayout
end Workshop

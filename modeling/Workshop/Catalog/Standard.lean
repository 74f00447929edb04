import Workshop.Catalog.Basic
import Workshop.Catalog.Template

/-!
# The standard catalog

The actions, values and enumerations that scripts can use.  The texts of calls are templates that
are filled with the texts of the arguments.
-/

namespace Workshop

/-- Something that can be called, with a template for the text of a call. -/
structure TemplateBuiltin where
  name : String
  receivers : List String
  parameters : List String
  result : String
  template : Template
  /-- The template reads no more arguments than there are parameters. -/
  arity_le : template.arity ≤ parameters.length := by decide
deriving DecidableEq, Repr

namespace TemplateBuiltin

/-- A builtin whose calls are written by filling in its template. -/
def toBuiltin (entry : TemplateBuiltin) : Builtin where
  name := entry.name
  receivers := entry.receivers
  parameters := entry.parameters
  result := entry.result
  render? := entry.template.fill?
  isSome_render? := by
    intro texts hlength
    rw [Template.fill?_eq_some_iff.2 ⟨hlength ▸ entry.arity_le, rfl⟩]
    rfl

/-- With one text for each parameter, the text of a call is the template, filled in. -/
theorem render_toBuiltin {entry : TemplateBuiltin} {texts : List String}
    (hlength : texts.length = entry.parameters.length) :
    entry.toBuiltin.render texts = entry.template.fill texts := by
  have hfill := Template.fill?_eq_some_iff.2 ⟨hlength ▸ entry.arity_le, rfl⟩
  exact congrArg (Option.getD · "") hfill

end TemplateBuiltin

namespace Catalog

/-- The actions of scripts. -/
def standardActions : List TemplateBuiltin := [
  { name := "applyImpulse"
    receivers := ["player"]
    parameters := ["player", "vector", "number", "boolean", "boolean"]
    result := "void"
    template := ⟨[.literal "Apply Impulse(", .argument 0, .literal ", ", .argument 1,
      .literal ", ", .argument 2, .literal ", ", .option 3 "To Player" "To World", .literal ", ",
      .option 4 "Incorporate Contrary Motion" "Cancel Contrary Motion", .literal ")"]⟩ },
  { name := "wait"
    receivers := []
    parameters := ["number"]
    result := "void"
    template := .callWith "Wait" "Ignore Condition" },
  { name := "kill"
    receivers := ["player"]
    parameters := ["player"]
    result := "void"
    template := .callWith "Kill" "Null" },
  { name := "heal"
    receivers := ["player"]
    parameters := ["player", "number"]
    result := "void"
    template := ⟨[.literal "Heal(", .argument 0, .literal ", Null, ", .argument 1,
      .literal ")"]⟩ },
  { name := "damage"
    receivers := ["player"]
    parameters := ["player", "number"]
    result := "void"
    template := ⟨[.literal "Damage(", .argument 0, .literal ", Null, ", .argument 1,
      .literal ")"]⟩ },
  { name := "teleport"
    receivers := ["player"]
    parameters := ["player", "vector"]
    result := "void"
    template := .call "Teleport" },
  { name := "setGravity"
    receivers := ["player"]
    parameters := ["player", "number"]
    result := "void"
    template := .call "Set Gravity" },
  { name := "smallMessage"
    receivers := ["player"]
    parameters := ["player", "string"]
    result := "void"
    template := .call "Small Message" }]

/-- The values of scripts. -/
def standardValues : List TemplateBuiltin := [
  { name := "Vector"
    receivers := []
    parameters := ["number", "number", "number"]
    result := "vector"
    template := .call "Vector" },
  { name := "getAltitude"
    receivers := ["player"]
    parameters := ["player"]
    result := "number"
    template := .call "Altitude Of" },
  { name := "isButtonHeld"
    receivers := ["player"]
    parameters := ["player", "enum-Button"]
    result := "boolean"
    template := .call "Is Button Held" },
  { name := "isOnGround"
    receivers := ["player"]
    parameters := ["player"]
    result := "boolean"
    template := .call "Is On Ground" },
  { name := "isAlive"
    receivers := ["player"]
    parameters := ["player"]
    result := "boolean"
    template := .call "Is Alive" },
  { name := "position"
    receivers := ["player"]
    parameters := ["player"]
    result := "vector"
    template := .call "Position Of" },
  { name := "distance"
    receivers := ["vector"]
    parameters := ["vector", "vector"]
    result := "number"
    template := .call "Distance Between" },
  { name := "x"
    receivers := ["vector"]
    parameters := ["vector"]
    result := "number"
    template := .call "X Component Of" },
  { name := "y"
    receivers := ["vector"]
    parameters := ["vector"]
    result := "number"
    template := .call "Y Component Of" },
  { name := "z"
    receivers := ["vector"]
    parameters := ["vector"]
    result := "number"
    template := .call "Z Component Of" }]

/-- The enumerations of scripts. -/
def standardEnumerations : List Enumeration := [
  { name := eventEnumeration
    members := [(globalEvent, "Ongoing - Global"), ("player", "Ongoing - Each Player")] },
  { name := "Button"
    members := [("interact", "Interact"), ("jump", "Jump"), ("crouch", "Crouch"),
      ("primaryFire", "Primary Fire"), ("secondaryFire", "Secondary Fire"),
      ("ability1", "Ability 1"), ("ability2", "Ability 2"), ("ultimate", "Ultimate")] }]

/-- The catalog of scripts. -/
def standard : Catalog :=
  ⟨standardActions.map (·.toBuiltin), standardValues.map (·.toBuiltin), standardEnumerations⟩

end Catalog
end Workshop

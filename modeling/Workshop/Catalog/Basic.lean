import Workshop.ValueType

/-!
# Catalogs

A catalog lists what a program may use without defining it: actions, values and enumerations.
Actions and values are called with arguments, and some of them on a receiver, which then is the
first argument.
-/

namespace Workshop

/-- Something that can be called. -/
structure Builtin where
  name : String
  /-- The names of the types a receiver may have.  Without any there is no receiver. -/
  receivers : List String
  /-- The names of the types of the parameters, that of the receiver included. -/
  parameters : List String
  /-- The name of the type of the result. -/
  result : String
  /-- The text of a call, made from the texts of its arguments.  There is none if an argument that
  it reads is missing. -/
  render? : List String → Option String
  /-- No argument is missing if there is one for each parameter. -/
  isSome_render? : ∀ texts, texts.length = parameters.length → (render? texts).isSome

namespace Builtin

/-- The text of a call, made from the texts of its arguments. -/
def render (builtin : Builtin) (texts : List String) : String :=
  (builtin.render? texts).getD ""

/-- With one text for each parameter, a call has a text. -/
theorem render?_eq_some {builtin : Builtin} {texts : List String}
    (hlength : texts.length = builtin.parameters.length) :
    builtin.render? texts = some (builtin.render texts) := by
  obtain ⟨text, htext⟩ := Option.isSome_iff_exists.1 (builtin.isSome_render? texts hlength)
  rw [render, htext, Option.getD_some]

end Builtin

/-- An enumeration: its members and their texts. -/
structure Enumeration where
  name : String
  members : List (String × String)
deriving DecidableEq, Repr

namespace Enumeration

/-- The text of a member.  Of several members of one name the first counts. -/
def member? (enumeration : Enumeration) (name : String) : Option String :=
  (enumeration.members.find? fun member => member.1 == name).map Prod.snd

end Enumeration

/-- What a program may use without defining it.  Of several entries of one name the last
counts. -/
structure Catalog where
  actions : List Builtin
  values : List Builtin
  enumerations : List Enumeration

/-- The enumeration of the events that rules can wait for. -/
def eventEnumeration : String := "Event"

/-- The event that concerns the whole match and not a player. -/
def globalEvent : String := "global"

namespace Catalog

/-- The action with the given name. -/
def action? (catalog : Catalog) (name : String) : Option Builtin :=
  catalog.actions.reverse.find? fun builtin => builtin.name == name

/-- The value with the given name. -/
def value? (catalog : Catalog) (name : String) : Option Builtin :=
  catalog.values.reverse.find? fun builtin => builtin.name == name

/-- The enumeration with the given name. -/
def enumeration? (catalog : Catalog) (name : String) : Option Enumeration :=
  catalog.enumerations.reverse.find? fun enumeration => enumeration.name == name

/-- The types a program may name: the primitive ones and one for every enumeration. -/
def registry (catalog : Catalog) : Registry :=
  catalog.enumerations.foldl (fun registry enumeration =>
    registry.insert (.enumeration enumeration.name)) .primitives

/-- The type with the given name. -/
def type (catalog : Catalog) (name : String) : Except SemanticError ValueType :=
  catalog.registry.get name

/-- Whether a program may not give the name to a variable or constant: it names an enumeration,
or something that can be called without a receiver. -/
def isReserved (catalog : Catalog) (name : String) : Bool :=
  (catalog.action? name).any (·.receivers.isEmpty) ||
    (catalog.value? name).any (·.receivers.isEmpty) || (catalog.enumeration? name).isSome

end Catalog
end Workshop

import Workshop.SemanticError
import Workshop.Text.Quoted

/-!
# Value types

Every value has a named type.  A value may stand where another type is expected if that type
accepts it as it is or has a conversion for it.  The type `dynamic` belongs to variables whose
type is not known yet; it accepts everything, and every plain type accepts it.

Main definitions:

- `ValueType.accepts`: whether values of one type may stand where another is expected.
- `ValueType.adapt`: the text of a value as a value of another type.
- `Registry`: the types a program may name.

Main result: Theorem `ValueType.adapt_eq_ok_iff`: a value can be adapted exactly when its type is
accepted.
-/

namespace Workshop

/-- A conversion from another type: what is written before and after a value of that type. -/
structure Conversion where
  source : String
  before : String
  after : String
deriving DecidableEq, Repr

/-- The text of a converted value. -/
def Conversion.apply (conversion : Conversion) (text : String) : String :=
  conversion.before ++ text ++ conversion.after

/-- A type of values. -/
structure ValueType where
  name : String
  isEnum : Bool
  isDynamic : Bool
  /-- The names of the types whose values are taken as they are. -/
  admits : List String
  /-- The conversions from other types; of several from one type the first counts. -/
  conversions : List Conversion
deriving DecidableEq, Repr

namespace ValueType

/-! ## The types -/

/-- A plain type.  It takes dynamic values as they are. -/
def plain (name : String) (conversions : List Conversion) : ValueType :=
  ⟨name, false, false, ["dynamic"], conversions⟩

/-- The type of variables whose type is not known yet. -/
def dynamic : ValueType := { plain "dynamic" [] with isDynamic := true }

/-- The type of calls that produce no value. -/
def void : ValueType := plain "void" []

/-- Players. -/
def player : ValueType := plain "player" []

/-- Numbers. -/
def number : ValueType := plain "number" []

/-- Vectors.  A player stands for its position. -/
def vector : ValueType := plain "vector" [⟨"player", "Position Of(", ")"⟩]

/-- Truth values. -/
def boolean : ValueType := plain "boolean" []

/-- Texts. -/
def string : ValueType := plain "string" []

/-- The name of the type of an enumeration's members. -/
def enumName (name : String) : String :=
  "enum-" ++ name

/-- The type of an enumeration's members.  It takes no others. -/
def enumeration (name : String) : ValueType :=
  ⟨enumName name, true, false, [], []⟩

/-- The name of a type and what kind it is, in one line. -/
def summary (type : ValueType) : String :=
  let flag (value : Bool) : String := if value then "true" else "false"
  "Type \x7b name: " ++ Text.quoted type.name ++ ", is_enum: " ++ flag type.isEnum ++
    ", is_dynamic: " ++ flag type.isDynamic ++ ", .. \x7d"

/-! ## Accepting and adapting values -/

/-- Whether a type has no values. -/
def isVoid (type : ValueType) : Bool :=
  type.name == "void"

/-- The conversion from the named type. -/
def conversionFrom? (type : ValueType) (source : String) : Option Conversion :=
  type.conversions.find? fun conversion => conversion.source == source

/-- Whether a value of type `source` may stand where `target` is expected. -/
def accepts (target source : ValueType) : Bool :=
  target.isDynamic || target.name == source.name || target.admits.contains source.name ||
    (target.conversionFrom? source.name).isSome

/-- The text of a value of type `source` as a value of type `target`. -/
def adapt (target source : ValueType) (text : String) : Except SemanticError String :=
  if target.accepts source then
    if source.name == target.name || source.isDynamic then .ok text
    else match target.conversionFrom? source.name with
      | some conversion => .ok (conversion.apply text)
      | none => .ok text
  else .error (.notConvertible source.name target.name)

theorem adapt_eq_ok_iff {target source : ValueType} {text : String} :
    (∃ adapted, target.adapt source text = .ok adapted) ↔ target.accepts source = true := by
  unfold adapt
  constructor
  · rintro ⟨adapted, h⟩
    split at h
    · assumption
    · cases h
  · intro h
    rw [if_pos h]
    split
    · exact ⟨_, rfl⟩
    · split <;> exact ⟨_, rfl⟩

theorem accepts_self (type : ValueType) : type.accepts type = true := by
  simp [accepts]

theorem adapt_self (type : ValueType) (text : String) : type.adapt type text = .ok text := by
  simp [adapt, accepts_self]

end ValueType

/-- A compiled value: its type and its text. -/
structure Typed where
  type : ValueType
  text : String
deriving DecidableEq, Repr

/-- The text of a value as a value of another type. -/
def Typed.as (value : Typed) (target : ValueType) : Except SemanticError String :=
  target.adapt value.type value.text

/-! ## Registries -/

/-- The types a program may name.  A type put in later replaces one of the same name. -/
structure Registry where
  types : List ValueType
deriving DecidableEq, Repr

namespace Registry

/-- A registry without types. -/
def empty : Registry := ⟨[]⟩

/-- Puts a type into a registry. -/
def insert (registry : Registry) (type : ValueType) : Registry :=
  ⟨type :: registry.types⟩

/-- The type with the given name. -/
def find? (registry : Registry) (name : String) : Option ValueType :=
  registry.types.find? fun type => type.name == name

/-- Whether there is a type with the given name. -/
def contains (registry : Registry) (name : String) : Bool :=
  (registry.find? name).isSome

/-- The type with the given name, which has to be there. -/
def get (registry : Registry) (name : String) : Except SemanticError ValueType :=
  match registry.find? name with
  | some type => .ok type
  | none => .error (.unknownType name)

/-- The types that every program knows. -/
def primitives : Registry :=
  ⟨[.string, .boolean, .vector, .number, .player, .void, .dynamic]⟩

theorem find?_insert (registry : Registry) (type : ValueType) (name : String) :
    (registry.insert type).find? name =
      if type.name = name then some type else registry.find? name := by
  by_cases h : type.name = name <;> simp [insert, find?, h]

end Registry
end Workshop

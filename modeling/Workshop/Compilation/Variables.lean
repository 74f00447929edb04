import Workshop.Compilation.Value
import Workshop.Journal

/-!
# Declarations and assignments

Statements change what names stand for and write to the journal.  When one fails, everything done
before the failure stays done.

Main definitions:

- `CompileOn`: computations on a storage and the journal that may stop.
- `Compile`: computations on the bindings and the journal that may fail.
- `Compile.inScope`: work in a scope of its own, which is left in any case.
- `Catalog.declare`, `Catalog.define`, `Catalog.assign`: new variables, constants and values.
-/

namespace Workshop

/-- What compiling works on: what names stand for, and the journal. -/
structure StateOn (σ : Type) where
  bindings : σ
  journal : Array LogEvent
deriving DecidableEq, Repr

/-- Computations on a storage and the journal.  A failure keeps the state as it was left. -/
abbrev CompileOn (σ ε : Type) := EStateM ε (StateOn σ)

/-- The bindings and the journal. -/
abbrev CompileState := StateOn Bindings

/-- Computations on the bindings and the journal. -/
abbrev Compile := CompileOn Bindings SemanticError

variable {α σ ε : Type} [Storage σ ε] [Reason ε]

namespace Compile

/-- Writes to the journal. -/
def note (event : LogEvent) : CompileOn σ ε Unit :=
  modify fun state => { state with journal := state.journal.push event }

/-- Changes what names stand for. -/
def update (f : σ → σ) : CompileOn σ ε Unit :=
  modify fun state => { state with bindings := f state.bindings }

/-- Computes something from what names stand for. -/
def query (f : σ → Except ε α) : CompileOn σ ε α := fun state =>
  match f state.bindings with
  | .ok result => .ok result state
  | .error stop => .error stop state

/-- Works in a scope of its own.  The scope is left also when the work stops. -/
def inScope (work : CompileOn σ ε α) : CompileOn σ ε α := fun state =>
  match Storage.enter state.bindings with
  | .error stop => .error stop state
  | .ok inner =>
    match work { state with bindings := inner } with
    | .ok result after => .ok result { after with bindings := Storage.leave after.bindings }
    | .error stop after => .error stop { after with bindings := Storage.leave after.bindings }

end Compile

/-! ## Storing values -/

/-- The text of a value that is stored in a variable of the given type, and the type that the
variable gets if it had none.  Members of enumerations are not stored. -/
def storedText (name : String) (type : ValueType) (value : Typed) :
    Except SemanticError (String × Option ValueType) :=
  if value.type.isEnum || value.type.isVoid then .error (.notStorable name value.type.name)
  else if type.isDynamic then
    .ok (value.text, if value.type.isDynamic then none else some value.type)
  else do
    let text ← value.as type
    pure (text, none)

/-- Stores a value in a variable.  The first value fixes the type of a dynamic variable. -/
def store (domain : Domain) (name : String) (type : ValueType) (value : Typed) :
    CompileOn σ ε String := do
  let (text, inferred) ← Compile.query fun _ => Reason.lift (storedText name type value)
  match inferred with
  | some type =>
    Compile.note (.inferred name type.name)
    Compile.update (Storage.retype · domain name type)
  | none => pure ()
  pure text

/-- Selects a bank. -/
def useBank (domain : Domain) (bank : Bank) : CompileOn σ ε Unit := do
  let bindings ← Compile.query (Storage.useBank · domain bank)
  Compile.update fun _ => bindings
  Compile.note (.bankSelected domain bank)

namespace Catalog

/-- The text of an assignment. -/
def assign (catalog : Catalog) (target : String) (receiver : Option Node) (value : Node) :
    CompileOn σ ε String := do
  match receiver with
  | none =>
    Compile.query fun bindings =>
      if (Storage.constants bindings).contains target then Reason.fail (.constantAssigned target)
      else pure ()
    let value ← Compile.query (catalog.valueOf · value)
    let found ← Compile.query (Storage.get · .global target)
    let text ← store .global target found.type value
    pure (Term.writeGlobal found.slot text)
  | some receiver =>
    let value ← Compile.query (catalog.valueOf · value)
    let receiver ← Compile.query (catalog.valueOf · receiver)
    let player ← Compile.query fun _ => Reason.lift (playerText target receiver)
    let found ← Compile.query (Storage.get · .player target)
    let text ← store .player target found.type value
    pure (Term.writePlayer player found.slot text)

/-! ## New names -/

/-- Whether a name is taken: it is reserved, names a constant, or names a variable of the domain
that is in sight. -/
def isTaken (catalog : Catalog) (bindings : σ) (domain : Domain) (name : String) : Bool :=
  catalog.isReserved name || (Storage.constants bindings).contains name ||
    (Storage.find? bindings domain name).isSome

theorem isTaken_eq (catalog : Catalog) (bindings : Bindings) (domain : Domain) (name : String) :
    catalog.isTaken bindings domain name =
      (catalog.isReserved name || bindings.constants.contains name ||
        (bindings.find? domain name).isSome) := rfl

/-- Fails if a name is taken. -/
def requireFree (catalog : Catalog) (domain : Domain) (name : String) : CompileOn σ ε Unit :=
  Compile.query fun bindings =>
    if catalog.isTaken bindings domain name then Reason.fail (.alreadyDeclared name) else pure ()

/-- The type that a declaration gives a variable.  Variables cannot hold members of enumerations
or nothing at all. -/
def declaredType (catalog : Catalog) (typeName name : String) : Except SemanticError ValueType := do
  let type ← if typeName == "var" then pure .dynamic else catalog.type typeName
  if type.isEnum || type.isVoid then throw (.notDeclarable name typeName) else pure type

/-- The value of an expression that may be missing. -/
def initialValue (catalog : Catalog) (initial : Option Node) :
    CompileOn σ ε (Option Typed) :=
  match initial with
  | none => pure none
  | some node => do
    let value ← Compile.query (catalog.valueOf · node)
    pure (some value)

/-- The text that writes a first value into a variable. -/
def writeInitial (domain : Domain) (slot : Slot) (text : String) : String :=
  match domain with
  | .global => Term.writeGlobal slot text
  | .player => Term.writePlayer Term.eventPlayer slot text

/-- Declares a variable.  The result is the text that stores its first value, if it has one.  The
first value is computed before the variable exists, so that it cannot refer to it. -/
def declare (catalog : Catalog) (typeName name : String) (domain : Domain)
    (initial : Option Node) : CompileOn σ ε (Option String) := do
  catalog.requireFree domain name
  let type ← Compile.query fun _ => Reason.lift (catalog.declaredType typeName name)
  let value ← catalog.initialValue initial
  let (slot, bindings) ← Compile.query (Storage.declare · domain name type)
  Compile.update fun _ => bindings
  let written ← match value with
    | none => pure none
    | some value => do
      let text ← store domain name type value
      pure (some (writeInitial domain slot text))
  Compile.note (.declared domain name typeName slot)
  pure written

/-- Defines a constant. -/
def define (catalog : Catalog) (name : String) (value : Node) : CompileOn σ ε Unit := do
  catalog.requireFree .global name
  let value ← Compile.query (catalog.valueOf · value)
  Compile.note (.defined name value.text value.type.name)
  Compile.update (Storage.define · name value)

end Catalog
end Workshop

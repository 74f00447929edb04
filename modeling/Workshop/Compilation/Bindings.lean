import Workshop.Catalog.Basic
import Workshop.Script.Node
import Workshop.Storage.Scopes

/-!
# Bindings

Compiling looks up what names stand for, and changes it.  It does so by the operations of a
storage, and works on any storage that has them.  Bindings are the storage that programs are
compiled with.

Main definitions:

- `Bindings`: what the names of a program stand for.
- `Reason`: why compiling can stop.
- `Storage`: the operations on what names stand for.
-/

namespace Workshop

/-- What the names of a program stand for. -/
structure Bindings where
  constants : Table Typed
  players : PlayerVariables
  globals : ScopeStack
deriving DecidableEq, Repr

namespace Bindings

/-- The variable of a domain with the given name. -/
def find? (bindings : Bindings) (domain : Domain) (name : String) : Option Variable :=
  match domain with
  | .global => bindings.globals.find? name
  | .player => bindings.players.find? name

/-- Gives a variable another type. -/
def retype (bindings : Bindings) (domain : Domain) (name : String) (type : ValueType) :
    Bindings :=
  match domain with
  | .global => { bindings with globals := bindings.globals.retype name type }
  | .player => { bindings with players := bindings.players.retype name type }

/-- Selects the bank for new variables of a domain. -/
def useBank (bindings : Bindings) (domain : Domain) (bank : Bank) : Bindings :=
  match domain with
  | .global => { bindings with globals := bindings.globals.useBank bank }
  | .player => { bindings with players := bindings.players.useBank bank }

/-- Declares a variable of a domain. -/
def declare (bindings : Bindings) (domain : Domain) (name : String) (type : ValueType) :
    Except SemanticError (Slot × Bindings) :=
  match domain with
  | .global => do
    let (slot, globals) ← bindings.globals.declare name type
    pure (slot, { bindings with globals := globals })
  | .player => do
    let (slot, players) ← bindings.players.declare name type
    pure (slot, { bindings with players := players })

/-- Opens a scope. -/
def enter (bindings : Bindings) : Bindings :=
  { bindings with globals := bindings.globals.enter }

/-- Closes the innermost scope. -/
def leave (bindings : Bindings) : Bindings :=
  { bindings with globals := bindings.globals.leave }

end Bindings

/-! ## Storages -/

/-- Reasons to stop compiling.  The errors of programs are among them. -/
class Reason (ε : Type) where
  /-- An outcome for which only errors of programs are possible. -/
  lift {α : Type} : Except SemanticError α → Except ε α
  /-- The text of a call, given the texts of its arguments. -/
  render : Builtin → List String → Except ε String

/-- Stops with an error of a program. -/
abbrev Reason.fail {ε α : Type} [Reason ε] (error : SemanticError) : Except ε α :=
  Reason.lift (.error error)

/-- What compiling does with constants and variables.  Some operations can stop it. -/
class Storage (σ : Type) (ε : outParam Type) where
  /-- The constants. -/
  constants : σ → Table Typed
  /-- Adds a constant. -/
  define : σ → String → Typed → σ
  /-- The variable of a domain with the given name. -/
  find? : σ → Domain → String → Option Variable
  /-- Declares a variable of a domain. -/
  declare : σ → Domain → String → ValueType → Except ε (Slot × σ)
  /-- Gives a variable another type. -/
  retype : σ → Domain → String → ValueType → σ
  /-- Selects the bank for new variables of a domain. -/
  useBank : σ → Domain → Bank → Except ε σ
  /-- Opens a scope. -/
  enter : σ → Except ε σ
  /-- Closes the innermost scope. -/
  leave : σ → σ

@[default_instance]
instance : Reason SemanticError where
  lift := id
  render builtin texts := .ok (builtin.render texts)

@[default_instance]
instance : Storage Bindings SemanticError where
  constants := Bindings.constants
  define bindings name value :=
    { bindings with constants := bindings.constants.insert name value }
  find? := Bindings.find?
  declare := Bindings.declare
  retype := Bindings.retype
  useBank bindings domain bank := .ok (bindings.useBank domain bank)
  enter bindings := .ok bindings.enter
  leave := Bindings.leave

section

variable {α : Type} (bindings : Bindings) (domain : Domain) (name : String) (type : ValueType)

@[simp]
theorem Reason.lift_eq (outcome : Except SemanticError α) : Reason.lift outcome = outcome := rfl

@[simp]
theorem Reason.render_eq (builtin : Builtin) (texts : List String) :
    (Reason.render builtin texts : Except SemanticError String) = .ok (builtin.render texts) := rfl

namespace Storage

@[simp]
theorem constants_eq : constants bindings = bindings.constants := rfl

@[simp]
theorem define_eq (value : Typed) :
    define bindings name value =
      { bindings with constants := bindings.constants.insert name value } := rfl

@[simp]
theorem find?_eq : find? bindings domain name = bindings.find? domain name := rfl

@[simp]
theorem declare_eq : declare bindings domain name type = bindings.declare domain name type := rfl

@[simp]
theorem retype_eq : retype bindings domain name type = bindings.retype domain name type := rfl

@[simp]
theorem useBank_eq (bank : Bank) :
    useBank bindings domain bank = .ok (bindings.useBank domain bank) := rfl

@[simp]
theorem enter_eq : enter bindings = .ok bindings.enter := rfl

@[simp]
theorem leave_eq : leave bindings = bindings.leave := rfl

end Storage

end

end Workshop

import Workshop.Catalog.Standard
import Workshop.Compilation.Program
import Workshop.Output.Minify
import Workshop.Script.Grammar

/-!
# Sessions

Several programs can be compiled one after the other.  Constants and the variables of players live
on from one program to the next, also when a program fails; global variables do not.

Main definitions:

- `Session.compile`: compiles one more program.
- `compileTree`, `compile`: compile a single program from its tree or its source text.
-/

namespace Workshop

/-- What lives on from one program to the next. -/
structure Session where
  constants : Table Typed
  players : PlayerVariables
deriving DecidableEq, Repr

/-- The result of compiling a program: its text or the reason why it has none, what lives on, and
the journal. -/
structure Compiled where
  outcome : Except SemanticError String
  session : Session
  journal : List LogEvent

namespace Session

/-- A session before its first program. -/
def initial : Session := ⟨.empty, .initial⟩

/-- The bindings at the start of a program. -/
def bindings (session : Session) : Bindings :=
  ⟨session.constants, session.players, .initial⟩

/-- What lives on of the bindings at the end of a program. -/
def ofBindings (bindings : Bindings) : Session :=
  ⟨bindings.constants, bindings.players⟩

/-- Compiles one more program. -/
def compile (session : Session) (catalog : Catalog) (node : Node) : Compiled :=
  match catalog.program node ⟨session.bindings, #[]⟩ with
  | .ok text state => ⟨.ok text, ofBindings state.bindings, state.journal.toList⟩
  | .error error state => ⟨.error error, ofBindings state.bindings, state.journal.toList⟩

/-- Reads and compiles one more program.  One that cannot be read changes nothing. -/
def run (session : Session) (catalog : Catalog) (source : String) :
    Except Diagnostic String × Session :=
  match Script.parse source with
  | .error diagnostic => (.error diagnostic, session)
  | .ok node =>
    let compiled := session.compile catalog node
    (compiled.outcome.mapError .semantic, compiled.session)

end Session

/-- How a program is written. -/
structure CompileOptions where
  /-- Whether white space and capitals are dropped. -/
  minified : Bool
deriving DecidableEq, Repr

/-- A text in the form that the options ask for. -/
def CompileOptions.finish (options : CompileOptions) (text : String) : String :=
  if options.minified then minify text else text

/-- Compiles the tree of a single program with the standard catalog. -/
def compileTree (node : Node) (options : CompileOptions) : Except Diagnostic String :=
  match (Session.initial.compile .standard node).outcome with
  | .ok text => .ok (options.finish text)
  | .error error => .error (.semantic error)

/-- Compiles the source text of a single program with the standard catalog. -/
def compile (source : String) (options : CompileOptions) : Except Diagnostic String := do
  let node ← Script.parse source
  compileTree node options

/-- The journal of reading a source text. -/
def readingJournal (source : String) : List LogEvent :=
  (Script.read .standard source).tokens.map .lexed

/-- The journal of compiling a tree. -/
def treeJournal (node : Node) : List LogEvent :=
  (Session.initial.compile .standard node).journal

/-- The journal of compiling a source text.  It is read to the end before it is compiled. -/
def compileJournal (source : String) : List LogEvent :=
  match Script.parse source with
  | .error _ => readingJournal source
  | .ok node => readingJournal source ++ treeJournal node

end Workshop

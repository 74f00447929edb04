import Workshop.Command.Host
import Workshop.Command.Options
import Workshop.Command.Path
import Workshop.Compilation.Session

/-!
# The compiler command

The command reads a source file, writes its syntax tree beside it, and writes and prints the
compiled rules.  What goes wrong is reported with all its causes.

Main definitions:

- `Failure`: an error with its causes.
- `Command.execute`: compiles one file.
- `Command.run`: the whole command, from its words to its exit code.
-/

namespace Workshop

/-- An error and what caused it, from the outside in. -/
structure Failure where
  message : String
  causes : List String
deriving DecidableEq, Repr

namespace Failure

/-- A text whose lines after the first stand behind a margin. -/
def hanging (margin text : String) : String :=
  String.ofList (text.toList.flatMap fun c => if c = '\n' then c :: margin.toList else [c])

/-- Causes with their numbers, from the given one on. -/
def numbered : Nat → List String → List String
  | _, [] => []
  | number, cause :: rest =>
    ("    " ++ toString number ++ ": " ++ hanging "       " cause) :: numbered (number + 1) rest

/-- The lines that report a failure.  Several causes are numbered. -/
def report (failure : Failure) : List String :=
  ("Error: " ++ failure.message) ::
    match failure.causes with
    | [] => []
    | [cause] => ["", "Caused by:", "    " ++ hanging "    " cause]
    | causes => ["", "Caused by:"] ++ numbered 0 causes

/-- A failure in one line. -/
def inline (failure : Failure) : String :=
  ": ".intercalate (failure.message :: failure.causes)

/-- Wraps a failure into one that it causes. -/
def wrap (failure : Failure) (message : String) : Failure :=
  ⟨message, failure.message :: failure.causes⟩

end Failure

/-- How to use the command. -/
def usage : String :=
  "Usage: ows-cli [-o PATH] [-t] [-m] [-v]... INPUT\n\n" ++
  "Compile OWS scripts into workshop rules.\n\n" ++
  "  -o, --output PATH  Output file (defaults to the input with a .owc extension)\n" ++
  "  -t, --tree         Only write the syntax tree as JSON next to the input\n" ++
  "  -m, --minify       Strip whitespace and lowercase the output\n" ++
  "  -v, --verbose      Increase log verbosity\n"

namespace Command

variable {m : Type → Type} [Monad m]

/-- Prints the journal entries that the filter shows. -/
def journal (host : Host m) (filter : LogFilter) : List LogEntry → m Unit
  | [] => pure ()
  | entry :: rest => do
    if filter.shows entry then host.printError entry.line
    journal host filter rest

/-- Reads a file as text. -/
def readText (host : Host m) (path : String) : m (Except FileError String) := do
  match ← host.read path with
  | .error error => pure (.error error)
  | .ok content =>
    match String.fromUTF8? content with
    | some text => pure (.ok text)
    | none => pure (.error .notText)

/-- Makes a directory where there may be one already. -/
def ensureDirectory (host : Host m) (path : String) : m (Except FileError Unit) := do
  match ← host.makeDirectory path with
  | .ok _ => pure (.ok ())
  | .error error =>
    if ← host.isDirectory path then pure (.ok ()) else pure (.error error)

/-- Makes a directory and those it lies in.  There are fewer of them than characters in the
path. -/
def ensureDirectories (host : Host m) : Nat → String → m (Except FileError Unit)
  | 0, _ => pure (.ok ())
  | fuel + 1, path => do
    if path.isEmpty then pure (.ok ())
    else
      match ← ensureDirectory host path with
      | .error .notFound =>
        match Path.parent? path with
        | none => pure (.error .notFound)
        | some parent =>
          match ← ensureDirectories host fuel parent with
          | .error error => pure (.error error)
          | .ok _ => ensureDirectory host path
      | outcome => pure outcome

/-- Writes a file, with the directories it lies in. -/
def writeFile (host : Host m) (path text : String) : m (Except Failure Unit) := do
  let parent := (Path.parent? path).getD ""
  match ← ensureDirectories host (parent.length + 1) parent with
  | .error error =>
    pure (.error ⟨"failed to create directory " ++ Text.quoted parent, [error.message]⟩)
  | .ok _ =>
    match ← host.write path text.toUTF8 with
    | .error error => pure (.error ⟨"failed to write output file " ++ path, [error.message]⟩)
    | .ok _ => pure (.ok ())

/-- Writes a syntax tree. -/
def writeTree (host : Host m) (path : String) (node : Node) : m (Except Failure Unit) := do
  match ← writeFile host path node.toJson.pretty with
  | .error failure => pure (.error (failure.wrap ("failed to write syntax tree " ++ path)))
  | .ok _ => pure (.ok ())

/-- Compiles a syntax tree, and prints and writes the result. -/
def emit (host : Host m) (filter : LogFilter) (options : Options) (outputPath : String)
    (node : Node) : m (Except Failure Unit) := do
  journal host filter ((treeJournal node).map LogEvent.entry)
  match compileTree node ⟨options.minify⟩ with
  | .error diagnostic =>
    pure (.error ⟨"failed to compile " ++ options.input, diagnostic.messages⟩)
  | .ok text =>
    host.print (text ++ "\n")
    match ← writeFile host outputPath text with
    | .error failure => pure (.error failure)
    | .ok _ =>
      journal host filter [⟨.info, .command, "wrote " ++ outputPath⟩]
      pure (.ok ())

/-- Compiles one file. -/
def execute (host : Host m) (filter : LogFilter) (options : Options) :
    m (Except Failure Unit) := do
  match ← readText host options.input with
  | .error error =>
    pure (.error ⟨"failed to read input file " ++ options.input, [error.message]⟩)
  | .ok source =>
    let stem := Path.withoutSourceExtension options.input
    let treePath := stem ++ ".json"
    let outputPath := options.output.getD (stem ++ ".owc")
    journal host filter ((readingJournal source).map LogEvent.entry)
    match Script.parse source with
    | .error diagnostic =>
      pure (.error ⟨"failed to parse " ++ options.input, diagnostic.messages⟩)
    | .ok node =>
      if options.tree then writeTree host treePath node
      else
        match ← writeTree host treePath node with
        | .error failure =>
          journal host filter [⟨.warn, .command, failure.inline⟩]
          emit host filter options outputPath node
        | .ok _ => emit host filter options outputPath node

/-- Prints lines where errors go. -/
def printErrors (host : Host m) : List String → m Unit
  | [] => pure ()
  | line :: rest => do
    host.printError line
    printErrors host rest

/-- Runs the command and gives its exit code: 0 after success, 1 after a failure, and 2 when the
command line is wrong.  The setting chooses which journal entries are shown. -/
def run (host : Host m) (setting : Option String) (arguments : List String) : m UInt32 := do
  match Request.ofArguments arguments with
  | .error error =>
    printErrors host ["error: " ++ error.message]
    pure 2
  | .ok .help =>
    host.print usage
    pure 0
  | .ok .version =>
    host.print "ows-cli 0.1.0\n"
    pure 0
  | .ok (.compile options) =>
    match ← execute host (.choose setting options.verbosity) options with
    | .ok _ => pure 0
    | .error failure =>
      printErrors host failure.report
      pure 1

end Command
end Workshop

import Mathlib.Logic.Function.Basic
import Workshop.Command.Run
import Workshop.Proofs.Command.SourceNames
import Workshop.Proofs.Success

/-!
# What the command writes

The command writes all of its results or none of them.  A source file that
cannot be read or parsed leaves no trace, a program that is not accepted leaves
its syntax tree only, and an accepted one leaves its tree and its text, which is
printed as well.

Here the files are a map from paths to contents, in which every file can be
written.  What is printed where errors go does not matter.

Main definitions:

- `Disk.host`: the host that works on a map from paths to contents.
- `Command.AllOrNothing`: which files are written, and what is printed.

Main results:

- Theorem `Command.execute_allOrNothing`: this for the compilation of a file.
- Theorem `Command.run_writes_all_or_nothing`: this for whole command lines,
  with the paths that are written.
-/

namespace Workshop

/-- Contents of files by their paths, or why there are none, and the texts printed so far. -/
structure Disk where
  files : String → Except FileError ByteArray
  output : String
  errors : String

namespace Disk

/-- Puts a text into a file. -/
def store (disk : Disk) (path text : String) : Disk :=
  { disk with files := Function.update disk.files path (.ok text.toUTF8) }

/-- The host that works on a map from paths to contents.  Directories need no care, and every file
can be written. -/
def host : Host (StateM Disk) where
  read path := fun disk => (disk.files path, disk)
  write path content := fun disk =>
    (.ok (), { disk with files := Function.update disk.files path (.ok content) })
  makeDirectory _ := fun disk => (.ok (), disk)
  isDirectory _ := fun disk => (false, disk)
  print text := fun disk => ((), { disk with output := disk.output ++ text })
  printError line := fun disk => ((), { disk with errors := disk.errors ++ line ++ "\n" })

/-- The text of a file, if it can be read. -/
def text? (disk : Disk) (path : String) : Option String :=
  match disk.files path with
  | .ok content => String.fromUTF8? content
  | .error _ => none

/-- Two disks with the same files and the same output. -/
structure Agrees (disk other : Disk) : Prop where
  files : disk.files = other.files
  output : disk.output = other.output

/-- Disks agree through a third. -/
theorem Agrees.trans {first second third : Disk} (hfirst : first.Agrees second)
    (hsecond : second.Agrees third) : first.Agrees third :=
  ⟨hfirst.files.trans hsecond.files, hfirst.output.trans hsecond.output⟩

/-- Disks agree behind the same write. -/
theorem Agrees.store {disk other : Disk} (hagrees : disk.Agrees other) (path text : String) :
    (disk.store path text).Agrees (other.store path text) :=
  ⟨by rw [Disk.store, hagrees.files, Disk.store], hagrees.output⟩

end Disk

namespace Command

variable (filter : LogFilter) (options : Options) {path source : String} {disk : Disk} {node : Node}

/-! ## Single operations -/

theorem bind_run {α β : Type} (first : StateM Disk α) (rest : α → StateM Disk β) (disk : Disk) :
    (first >>= rest) disk = rest (first disk).1 (first disk).2 := rfl

/-- Only errors are printed to the journal. -/
theorem journal_agrees (entries : List LogEntry) (disk : Disk) :
    (journal Disk.host filter entries disk).2.Agrees disk := by
  induction entries generalizing disk with
  | nil => exact ⟨rfl, rfl⟩
  | cons entry rest ih =>
      simp only [journal]
      split
      · rw [bind_run]
        exact (ih _).trans ⟨rfl, rfl⟩
      · exact ih disk

/-- Printing writes no file. -/
theorem printErrors_agrees (lines : List String) (disk : Disk) :
    (printErrors Disk.host lines disk).2.Agrees disk := by
  induction lines generalizing disk with
  | nil => exact ⟨rfl, rfl⟩
  | cons line rest ih =>
      simp only [printErrors]
      rw [bind_run]
      exact (ih _).trans ⟨rfl, rfl⟩

/-- Directories are there. -/
theorem ensureDirectories_run (fuel : Nat) (path : String) (disk : Disk) :
    ensureDirectories Disk.host fuel path disk = (.ok (), disk) := by
  cases fuel with
  | zero => rfl
  | succ fuel =>
      simp only [ensureDirectories]
      split
      · rfl
      · rfl

/-- A file is written. -/
theorem writeFile_run (path text : String) (disk : Disk) :
    writeFile Disk.host path text disk = (.ok (), disk.store path text) := by
  simp only [writeFile]
  rw [bind_run, ensureDirectories_run]
  rfl

/-- A tree is written. -/
theorem writeTree_run (path : String) (node : Node) (disk : Disk) :
    writeTree Disk.host path node disk = (.ok (), disk.store path node.toJson.pretty) := by
  simp only [writeTree]
  rw [bind_run, writeFile_run]
  rfl

/-- A missing file cannot be read. -/
theorem readText_of_none (htext : disk.text? path = none) :
    ∃ error, readText Disk.host path disk = (.error error, disk) := by
  have hread : Disk.host.read path disk = (disk.files path, disk) := rfl
  simp only [readText, bind_run, hread]
  cases hfile : disk.files path with
  | error error => exact ⟨error, rfl⟩
  | ok content =>
      simp only [Disk.text?, hfile] at htext
      simp only [htext]
      exact ⟨.notText, rfl⟩

/-- A file is read. -/
theorem readText_of_some (htext : disk.text? path = some source) :
    readText Disk.host path disk = (.ok source, disk) := by
  have hread : Disk.host.read path disk = (disk.files path, disk) := rfl
  simp only [readText, bind_run, hread]
  cases hfile : disk.files path with
  | error error =>
      simp only [Disk.text?, hfile] at htext
      cases htext
  | ok content =>
      simp only [Disk.text?, hfile] at htext
      simp only [htext]
      rfl

/-! ## The results of the command -/

/-- The path of the syntax tree. -/
def treePath : String :=
  Path.withoutSourceExtension options.input ++ ".json"

/-- The path of the compiled text. -/
def outputPath : String :=
  options.output.getD (Path.withoutSourceExtension options.input ++ ".owc")

/-- What the command leaves behind.  If the source cannot be read or parsed, nothing is written or
printed.  Else the syntax tree is written, and nothing more if that is all that is asked for, or
if the program is not accepted.  Else the compiled text is written as well, and printed with the
end of a line. -/
structure AllOrNothing (options : Options) (disk final : Disk) : Prop where
  unread : disk.text? options.input = none → final.Agrees disk
  unparsed : ∀ source diagnostic, disk.text? options.input = some source →
    Script.parse source = .error diagnostic → final.Agrees disk
  tree : ∀ source node, disk.text? options.input = some source →
    Script.parse source = .ok node → options.tree = true →
    final.Agrees (disk.store (treePath options) node.toJson.pretty)
  rejected : ∀ source node diagnostic, disk.text? options.input = some source →
    Script.parse source = .ok node → options.tree = false →
    compile source ⟨options.minify⟩ = .error diagnostic →
    final.Agrees (disk.store (treePath options) node.toJson.pretty)
  accepted : ∀ source node text, disk.text? options.input = some source →
    Script.parse source = .ok node → options.tree = false →
    compile source ⟨options.minify⟩ = .ok text →
    final.files = ((disk.store (treePath options) node.toJson.pretty).store
      (outputPath options) text).files ∧ final.output = disk.output ++ text ++ "\n"

/-- Disks that agree have the same files. -/
theorem AllOrNothing.of_agrees {options : Options} {middle final : Disk}
    (hresults : AllOrNothing options disk middle) (hagrees : final.Agrees middle) :
    AllOrNothing options disk final where
  unread htext := hagrees.trans (hresults.unread htext)
  unparsed source diagnostic htext hparse :=
    hagrees.trans (hresults.unparsed source diagnostic htext hparse)
  tree source node htext hparse htree :=
    hagrees.trans (hresults.tree source node htext hparse htree)
  rejected source node diagnostic htext hparse htree hcompile :=
    hagrees.trans (hresults.rejected source node diagnostic htext hparse htree hcompile)
  accepted source node text htext hparse htree hcompile := by
    obtain ⟨hfiles, houtput⟩ := hresults.accepted source node text htext hparse htree hcompile
    exact ⟨hagrees.files.trans hfiles, hagrees.output.trans houtput⟩

/-- A text is compiled by its tree. -/
theorem compile_of_parse (hparse : Script.parse source = .ok node) (form : CompileOptions) :
    compile source form = compileTree node form := by
  rw [compile, hparse]
  rfl

/-- A program that is not accepted is neither printed nor written. -/
theorem emit_of_error {diagnostic : Diagnostic}
    (hcompile : compileTree node ⟨options.minify⟩ = .error diagnostic) (disk : Disk) :
    (emit Disk.host filter options path node disk).2.Agrees disk := by
  simp only [emit, hcompile]
  rw [bind_run]
  exact journal_agrees filter _ disk

/-- A program that is accepted is printed and written. -/
theorem emit_of_ok {text : String} (hcompile : compileTree node ⟨options.minify⟩ = .ok text)
    (disk : Disk) :
    (emit Disk.host filter options path node disk).2.files = (disk.store path text).files ∧
      (emit Disk.host filter options path node disk).2.output = disk.output ++ text ++ "\n" := by
  have hfirst := journal_agrees filter ((treeJournal node).map LogEvent.entry) disk
  simp only [emit, hcompile]
  simp only [bind_run, writeFile_run]
  refine ⟨(journal_agrees filter _ _).files.trans ?_, (journal_agrees filter _ _).output.trans ?_⟩
  · exact (hfirst.store path text).files
  · exact (congrArg (· ++ (text ++ "\n")) hfirst.output).trans String.append_assoc.symm

/-- A file that cannot be read leaves no trace. -/
theorem execute_of_unread (htext : disk.text? options.input = none) :
    (execute Disk.host filter options disk).2.Agrees disk := by
  obtain ⟨error, hread⟩ := readText_of_none htext
  simp only [execute, bind_run, hread]
  exact ⟨rfl, rfl⟩

/-- Without a tree nothing is written. -/
theorem execute_of_unparsed {diagnostic : Diagnostic}
    (htext : disk.text? options.input = some source)
    (hparse : Script.parse source = .error diagnostic) :
    (execute Disk.host filter options disk).2.Agrees disk := by
  simp only [execute, bind_run, readText_of_some htext, hparse]
  exact journal_agrees filter _ disk

/-- The tree is written if it is asked for. -/
theorem execute_of_tree (htext : disk.text? options.input = some source)
    (hparse : Script.parse source = .ok node) (htree : options.tree = true) :
    (execute Disk.host filter options disk).2.Agrees
      (disk.store (treePath options) node.toJson.pretty) := by
  simp only [execute, bind_run, readText_of_some htext, hparse, htree, if_true, writeTree_run]
  exact (journal_agrees filter _ disk).store _ _

/-- A program is compiled after its syntax tree has been written. -/
theorem execute_of_program (htext : disk.text? options.input = some source)
    (hparse : Script.parse source = .ok node) (htree : options.tree = false) :
    ∃ middle : Disk, middle.Agrees (disk.store (treePath options) node.toJson.pretty) ∧
      execute Disk.host filter options disk =
        emit Disk.host filter options (outputPath options) node middle := by
  refine ⟨_, (journal_agrees filter ((readingJournal source).map LogEvent.entry) disk).store _ _,
    ?_⟩
  simp only [execute, bind_run, readText_of_some htext, hparse, htree, Bool.false_eq_true, if_false,
    writeTree_run]
  rfl

/-- Compiling a file writes all of its results or none. -/
theorem execute_allOrNothing (disk : Disk) :
    AllOrNothing options disk (execute Disk.host filter options disk).2 where
  unread := execute_of_unread filter options
  unparsed _ _ := execute_of_unparsed filter options
  tree _ _ := execute_of_tree filter options
  rejected source node diagnostic htext hparse htree hcompile := by
    rw [compile_of_parse hparse] at hcompile
    obtain ⟨middle, hmiddle, hrun⟩ := execute_of_program filter options htext hparse htree
    rw [hrun]
    exact (emit_of_error filter options hcompile middle).trans hmiddle
  accepted source node text htext hparse htree hcompile := by
    rw [compile_of_parse hparse] at hcompile
    obtain ⟨middle, hmiddle, hrun⟩ := execute_of_program filter options htext hparse htree
    obtain ⟨hfiles, houtput⟩ := emit_of_ok filter options hcompile middle
    rw [hrun]
    refine ⟨hfiles.trans (hmiddle.store _ text).files, houtput.trans ?_⟩
    rw [hmiddle.output]
    rfl

/-- A command line has the results of the compilation that it asks for. -/
theorem run_allOrNothing {arguments : List String} {options : Options}
    (hrequest : Request.ofArguments arguments = .ok (.compile options)) (setting : Option String)
    (disk : Disk) : AllOrNothing options disk (run Disk.host setting arguments disk).2 := by
  have hexecute := execute_allOrNothing (.choose setting options.verbosity) options disk
  simp only [run, hrequest, bind_run]
  cases (execute Disk.host (.choose setting options.verbosity) options disk).1 with
  | ok _ => exact hexecute
  | error failure => exact hexecute.of_agrees (printErrors_agrees failure.report _)

/-! ## The paths that are written -/

/-- The tree does not replace the input. -/
theorem treePath_ne : treePath options ≠ options.input :=
  Path.withoutSourceExtension_append_ne (c := 'n') rfl (by decide) options.input

/-- Nor does the output. -/
theorem outputPath_ne (houtput : options.output = none) : outputPath options ≠ options.input := by
  rw [outputPath, houtput]
  exact Path.withoutSourceExtension_append_ne (c := 'c') rfl (by decide) options.input

/-- The command writes all of its results or none, with any options and for any source file: if
the source cannot be read or parsed, no file changes and nothing is printed; else the syntax tree
is written, and beside it, unless only the tree is asked for or the program is not accepted, the
compiled text, which is printed with the end of a line.  The tree never takes the place of the
source, and the text does so only if the command line says so.  Both paths begin with the path of
the source without the extension of source files; but of a file whose name is the extension behind
a single dot, two dots are left. -/
theorem run_writes_all_or_nothing (options : Options) (disk : Disk) :
    (∀ filter, AllOrNothing options disk (execute Disk.host filter options disk).2) ∧
    (∀ setting arguments, Request.ofArguments arguments = .ok (.compile options) →
      AllOrNothing options disk (run Disk.host setting arguments disk).2) ∧
    treePath options ≠ options.input ∧
    (options.output = none → outputPath options ≠ options.input) ∧
    (∀ before name after, Path.NamesSource options.input before name after →
      Path.withoutSourceExtension options.input =
        String.ofList (before ++ if name = ['.'] ∧ after = [] then ['.', '.'] else name)) ∧
    ((¬∃ before name after, Path.NamesSource options.input before name after) →
      Path.withoutSourceExtension options.input = options.input) := by
  refine ⟨fun filter => execute_allOrNothing filter options disk, ?_, treePath_ne options,
    outputPath_ne options, ?_, Path.withoutSourceExtension_of_not_namesSource⟩
  · intro setting arguments hrequest
    exact run_allOrNothing hrequest setting disk
  · intro before name after hnames
    exact Path.withoutSourceExtension_of_namesSource hnames

/-- A disk with one source file. -/
def diskWith (path source : String) : Disk :=
  ⟨fun other => if other = path then .ok source.toUTF8 else .error .notFound, "", ""⟩

theorem text?_diskWith (path source : String) :
    (diskWith path source).text? path = some source := by
  simp only [diskWith, Disk.text?, if_true, String.fromUTF8?, String.toUTF8_eq_toByteArray,
    dif_pos source.isValidUTF8]
  rfl

/-- A program with a single rule. -/
def gameSource : String :=
  "rule \"R\": Event.global() \x7b\x7d"

/-- The options for a source file in a directory, with minified output. -/
def gameOptions : Options := ⟨"dir/game.ows", none, false, true, 0⟩

/-- The tree and the text of an accepted program are written beside it. -/
theorem run_writes_all_or_nothing_game :
    Request.ofArguments ["-m", "dir/game.ows"] = .ok (.compile gameOptions) ∧
    Path.NamesSource gameOptions.input "dir/".toList "game".toList [] ∧
    ∃ node text, Script.parse gameSource = .ok node ∧ compile gameSource ⟨true⟩ = .ok text ∧
      (run Disk.host none ["-m", "dir/game.ows"] (diskWith "dir/game.ows" gameSource)).2.files =
        (((diskWith "dir/game.ows" gameSource).store "dir/game.json" node.toJson.pretty).store
          "dir/game.owc" text).files ∧
      (run Disk.host none ["-m", "dir/game.ows"] (diskWith "dir/game.ows" gameSource)).2.output =
        text ++ "\n" := by
  obtain ⟨text, hcompile⟩ : ∃ text, compile gameSource ⟨true⟩ = .ok text :=
    ⟨"rule(\"r\")\x7bevent\x7bongoing-global;\x7dactions\x7b\x7d\x7d", by decide +kernel⟩
  obtain ⟨node, hparse, _⟩ := Except.bind_eq_ok.1 hcompile
  have hnames : Path.NamesSource gameOptions.input "dir/".toList "game".toList [] :=
    ⟨by decide, by simp, by decide, by decide, .nil⟩
  have hrequest : Request.ofArguments ["-m", "dir/game.ows"] = .ok (.compile gameOptions) := by
    decide +kernel
  obtain ⟨_, hrun, _, _, hstem, _⟩ :=
    run_writes_all_or_nothing gameOptions (diskWith "dir/game.ows" gameSource)
  obtain ⟨hfiles, houtput⟩ := (hrun none _ hrequest).accepted gameSource node text
    (text?_diskWith _ _) hparse rfl hcompile
  have hjson : treePath gameOptions = "dir/game.json" := by
    rw [treePath, hstem _ _ _ hnames]
    decide
  have howc : outputPath gameOptions = "dir/game.owc" := by
    rw [outputPath, hstem _ _ _ hnames]
    decide
  rw [hjson, howc] at hfiles
  refine ⟨hrequest, hnames, node, text, hparse, hcompile, hfiles, houtput.trans ?_⟩
  simp [diskWith]

/-- The options for a source file whose name is the extension behind a dot. -/
def dottedOptions : Options := ⟨"..ows", none, false, false, 0⟩

/-- The name of this source file in front of the extension is a single dot, but the paths that are
written begin with two: nothing is written under the name with another extension. -/
theorem dotted_source_keeps_dots :
    Request.ofArguments ["..ows"] = .ok (.compile dottedOptions) ∧
    Path.NamesSource dottedOptions.input [] ['.'] [] ∧
    (run Disk.host none ["..ows"] (diskWith "..ows" "var a;")).2.files "..json" =
      .error .notFound ∧
    (run Disk.host none ["..ows"] (diskWith "..ows" "var a;")).2.files "..owc" =
      .error .notFound ∧
    (run Disk.host none ["..ows"] (diskWith "..ows" "var a;")).2.files "...owc" =
      .ok "".toUTF8 := by
  have hcompile : compile "var a;" ⟨false⟩ = .ok "" := by decide +kernel
  obtain ⟨node, hparse, _⟩ := Except.bind_eq_ok.1 hcompile
  have hnames : Path.NamesSource dottedOptions.input [] ['.'] [] :=
    ⟨by decide, by simp, by decide, by decide, .nil⟩
  have hrequest : Request.ofArguments ["..ows"] = .ok (.compile dottedOptions) := by
    decide +kernel
  obtain ⟨hfiles, _⟩ := (run_allOrNothing hrequest none (diskWith "..ows" "var a;")).accepted
    "var a;" node "" (text?_diskWith _ _) hparse rfl hcompile
  have hstem : Path.withoutSourceExtension dottedOptions.input = ".." :=
    Path.withoutSourceExtension_of_namesSource hnames
  have hjson : treePath dottedOptions = "...json" := by
    rw [treePath, hstem]
    decide
  have howc : outputPath dottedOptions = "...owc" := by
    rw [outputPath, hstem]
    decide
  rw [hjson, howc] at hfiles
  refine ⟨hrequest, hnames, ?_, ?_, ?_⟩
  · rw [hfiles]
    simp [Disk.store, diskWith]
  · rw [hfiles]
    simp [Disk.store, diskWith]
  · rw [hfiles]
    simp [Disk.store]

end Command
end Workshop

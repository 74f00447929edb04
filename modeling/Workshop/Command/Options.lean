import Workshop.Journal

/-!
# Command line options

The words of a command line are read from left to right.  Short flags can be joined, the value of
an option can be joined to it, and after `--` every word is a path.

Main definition: `Request.ofArguments`: what a command line asks for.
-/

namespace Workshop

/-- The options of the compiler command. -/
structure Options where
  /-- The path of the source file. -/
  input : String
  /-- The path of the compiled file, if it is given. -/
  output : Option String
  /-- Whether only the syntax tree is written. -/
  tree : Bool
  /-- Whether the compiled text is minified. -/
  minify : Bool
  /-- How often more journal entries were asked for. -/
  verbosity : Nat
deriving DecidableEq, Repr

/-- What a command line asks for. -/
inductive Request where
  | compile (options : Options)
  | help
  | version
deriving DecidableEq, Repr

/-- Why a command line is refused. -/
inductive UsageError where
  | missingInput
  | unexpectedArgument (word : String)
  | missingValue (option : String)
  | unexpectedValue (option : String)
  | repeatedOption (option : String)
deriving DecidableEq, Repr

/-- The wording of a usage error. -/
def UsageError.message : UsageError → String
  | .missingInput => "a source file is required"
  | .unexpectedArgument word => "unexpected argument '" ++ word ++ "'"
  | .missingValue option => "a value is required for '" ++ option ++ "'"
  | .unexpectedValue option => "'" ++ option ++ "' takes no value"
  | .repeatedOption option => "'" ++ option ++ "' cannot be given more than once"

namespace Request

/-- The options read so far. -/
structure Draft where
  input : Option String := none
  output : Option String := none
  tree : Bool := false
  minify : Bool := false
  verbosity : Nat := 0
deriving DecidableEq, Repr

/-- Either the reading goes on with more options, or help or the version is asked for. -/
inductive Progress where
  | more (draft : Draft)
  | done (request : Request)
  /-- The next word is the path of the output. -/
  | outputNext (draft : Draft)

/-- The result of reading a word. -/
abbrev Step := Except UsageError Progress

namespace Draft

/-- Takes the path of the source file. -/
def withInput (draft : Draft) (word : String) : Except UsageError Draft :=
  if word.isEmpty then .error (.missingValue "input")
  else if draft.input.isSome then .error (.unexpectedArgument word)
  else .ok { draft with input := some word }

/-- Takes the path of the output. -/
def withOutput (draft : Draft) (value : String) : Except UsageError Draft :=
  if value.isEmpty then .error (.missingValue "--output")
  else if draft.output.isSome then .error (.repeatedOption "--output")
  else .ok { draft with output := some value }

/-- Sets the flag for trees. -/
def withTree (draft : Draft) : Except UsageError Draft :=
  if draft.tree then .error (.repeatedOption "--tree") else .ok { draft with tree := true }

/-- Sets the flag for minified output. -/
def withMinify (draft : Draft) : Except UsageError Draft :=
  if draft.minify then .error (.repeatedOption "--minify") else .ok { draft with minify := true }

/-- Asks for more journal entries. -/
def moreVerbose (draft : Draft) : Draft :=
  { draft with verbosity := draft.verbosity + 1 }

/-- The request of a command line that has been read to its end. -/
def finish (draft : Draft) : Except UsageError Request :=
  match draft.input with
  | none => .error .missingInput
  | some input =>
    .ok (.compile ⟨input, draft.output, draft.tree, draft.minify, draft.verbosity⟩)

/-- Reads joined short flags.  What follows the flag for the output is its path. -/
def shortFlags (draft : Draft) : List Char → Step
  | [] => .ok (.more draft)
  | flag :: rest =>
    if flag = 'm' then do (← draft.withMinify).shortFlags rest
    else if flag = 't' then do (← draft.withTree).shortFlags rest
    else if flag = 'v' then draft.moreVerbose.shortFlags rest
    else if flag = 'h' then .ok (.done .help)
    else if flag = 'V' then .ok (.done .version)
    else if flag = 'o' then
      match rest with
      | [] => .ok (.outputNext draft)
      | first :: others => do
        let value := if first = '=' then others else first :: others
        pure (.more (← draft.withOutput (String.ofList value)))
    else .error (.unexpectedArgument (String.ofList ['-', flag]))

/-- Reads a flag that takes no value. -/
def plainFlag (flag : String) (value : Option String) (step : Except UsageError Draft) : Step :=
  match value with
  | some _ => .error (.unexpectedValue flag)
  | none => do pure (.more (← step))

/-- Reads a long flag with the value that is joined to it, if there is one. -/
def longFlag (draft : Draft) (name : String) (value : Option String) : Step :=
  if name = "output" then
    match value with
    | some value => do pure (.more (← draft.withOutput value))
    | none => .ok (.outputNext draft)
  else if name = "tree" then plainFlag "--tree" value draft.withTree
  else if name = "minify" then plainFlag "--minify" value draft.withMinify
  else if name = "verbose" then plainFlag "--verbose" value (.ok draft.moreVerbose)
  else if name = "help" && value.isNone then .ok (.done .help)
  else if name = "version" && value.isNone then .ok (.done .version)
  else .error (.unexpectedArgument ("--" ++ name))

/-- Reads one word: a long flag, short flags, or the path of the source file. -/
def word (draft : Draft) (text : String) : Step :=
  match text.toList with
  | '-' :: '-' :: chars =>
    let name := String.ofList (chars.takeWhile fun c => c != '=')
    match chars.dropWhile fun c => c != '=' with
    | _ :: value => draft.longFlag name (some (String.ofList value))
    | [] => draft.longFlag name none
  | '-' :: flag :: flags => draft.shortFlags (flag :: flags)
  | _ => do pure (.more (← draft.withInput text))

end Draft

/-- Whether a word is a flag and not a value. -/
def isFlag (text : String) : Bool :=
  match text.toList with
  | '-' :: _ :: _ => true
  | _ => false

/-- Reads the words after `--`, all of which are paths. -/
def readPaths (draft : Draft) : List String → Except UsageError Request
  | [] => draft.finish
  | text :: rest => do readPaths (← draft.withInput text) rest

/-- Reads the words of a command line.  The flag `wantsOutput` says that the next word is the path
of the output. -/
def readWords (draft : Draft) (wantsOutput : Bool) : List String → Except UsageError Request
  | [] => if wantsOutput then .error (.missingValue "--output") else draft.finish
  | text :: rest =>
    if wantsOutput then
      if isFlag text then .error (.missingValue "--output")
      else do readWords (← draft.withOutput text) false rest
    else if text = "--" then readPaths draft rest
    else
      match draft.word text with
      | .error error => .error error
      | .ok (.done request) => .ok request
      | .ok (.more draft) => readWords draft false rest
      | .ok (.outputNext draft) => readWords draft true rest

/-- What a command line asks for. -/
def ofArguments (arguments : List String) : Except UsageError Request :=
  readWords {} false arguments

end Request

/-! ## Which journal entries are shown -/

/-- The least severe level that is shown, or none if nothing is. -/
abbrev LogFilter := Option LogLevel

namespace LogFilter

/-- The filter with the given name, in capitals or small letters. -/
def ofText? (text : String) : Option LogFilter :=
  let name := text.toList.map Char.toUpper
  if name = "OFF".toList then some none
  else (LogLevel.all.find? fun level => level.text.toList == name).map some

/-- The filter that a number of verbosity flags asks for. -/
def ofVerbosity : Nat → LogFilter
  | 0 => some .warn
  | 1 => some .info
  | 2 => some .debug
  | _ => some .trace

/-- The filter in force.  A setting of the environment wins over the command line, if it names a
filter. -/
def choose (setting : Option String) (verbosity : Nat) : LogFilter :=
  (setting.bind ofText?).getD (ofVerbosity verbosity)

/-- Whether an entry is shown. -/
def shows (filter : LogFilter) (entry : LogEntry) : Bool :=
  filter.any fun level => entry.level.rank ≤ level.rank

end LogFilter

/-- A journal entry as a line of text.  The level is five characters wide. -/
def LogEntry.line (entry : LogEntry) : String :=
  let padding := List.replicate (5 - entry.level.text.length) ' '
  entry.level.text ++ String.ofList padding ++ " [" ++ entry.origin.text ++ "] " ++ entry.message

end Workshop

import Workshop.Script.Node
import Workshop.Script.Token
import Workshop.Text.Quoted

/-!
# The journal

Reading and compiling a script keeps a journal of what was done.  Every entry has a level, and a
reader chooses the least severe level that is shown.
-/

namespace Workshop

/-- How important a journal entry is. -/
inductive LogLevel where
  | error
  | warn
  | info
  | debug
  | trace
deriving DecidableEq, Repr

namespace LogLevel

/-- All levels, the most severe first. -/
def all : List LogLevel := [error, warn, info, debug, trace]

/-- A level as it is written in the journal. -/
def text : LogLevel → String
  | error => "ERROR"
  | warn => "WARN"
  | info => "INFO"
  | debug => "DEBUG"
  | trace => "TRACE"

/-- The rank of a level; more severe levels have lower ranks. -/
def rank : LogLevel → Nat
  | error => 1
  | warn => 2
  | info => 3
  | debug => 4
  | trace => 5

end LogLevel

/-- The part of the program that makes a journal entry. -/
inductive Origin where
  | lexer
  | compiler
  | command
deriving DecidableEq, Repr

/-- A part of the program as it is written in the journal. -/
def Origin.text : Origin → String
  | .lexer => "ows_core::lexer"
  | .compiler => "ows_core::compiler"
  | .command => "ows_cli"

/-- A journal entry in words. -/
structure LogEntry where
  level : LogLevel
  origin : Origin
  message : String
deriving DecidableEq, Repr

/-- What the journal tells about a script. -/
inductive LogEvent where
  /-- A token was read. -/
  | lexed (token : Token)
  /-- A variable was declared. -/
  | declared (domain : Domain) (name typeName : String) (slot : Slot)
  /-- A constant was defined. -/
  | defined (name text typeName : String)
  /-- The work on a rule began. -/
  | ruleBegun (name event : String)
  /-- A bank was selected. -/
  | bankSelected (domain : Domain) (bank : Bank)
  /-- The type of a variable became known. -/
  | inferred (name typeName : String)
deriving DecidableEq, Repr

/-- The entry for an event. -/
def LogEvent.entry : LogEvent → LogEntry
  | .lexed token =>
    ⟨.trace, .lexer, "lexed " ++ token.kind.text ++ " " ++ Text.quoted token.text ++ " at " ++
      token.position.text⟩
  | .declared domain name typeName slot =>
    ⟨.info, .compiler, "declared " ++ domain.keyword ++ " variable '" ++ name ++ "' (" ++
      typeName ++ ") at slot " ++ slot.text⟩
  | .defined name text typeName =>
    ⟨.debug, .compiler, "constant '" ++ name ++ "' = " ++ text ++ " (" ++ typeName ++ ")"⟩
  | .ruleBegun name event =>
    ⟨.debug, .compiler, "compiling rule " ++ Text.quoted name ++ " on " ++ event⟩
  | .bankSelected domain bank =>
    ⟨.debug, .compiler, "using bank " ++ bank.text ++ " for " ++ domain.title ++ " variables"⟩
  | .inferred name typeName =>
    ⟨.debug, .compiler, "'" ++ name ++ "' inferred as " ++ typeName⟩

/-- The entries that are at least as severe as the given level. -/
def atLevel (level : LogLevel) (entries : List LogEntry) : List LogEntry :=
  entries.filter fun entry => entry.level.rank ≤ level.rank

end Workshop

import Workshop.Command.Run

/-!
# The command line program

Runs the compiler command on the files of the machine.
-/

namespace Workshop
namespace Machine

/-- Whether a code stands for the error with the given number.  Some operations report the number
itself, others its negative. -/
def isNumber (number code : UInt32) : Bool :=
  code == number || code == 0 - number

/-- The file error that an error of the machine stands for. -/
def fileErrorOf (error : IO.Error) : FileError :=
  match error with
  | .noFileOrDirectory _ _ _ => .notFound
  | .alreadyExists _ _ _ => .alreadyExists
  | .invalidArgument _ code _ => if isNumber 36 code then .nameTooLong else .other (toString error)
  | .inappropriateType _ code _ => if isNumber 21 code then .isADirectory else .notADirectory
  | other => .other (toString other)

/-- The outcome of an operation on files. -/
def attempt {α : Type} (operation : IO α) : IO (Except FileError α) := do
  try
    let result ← operation
    pure (.ok result)
  catch error => pure (.error (fileErrorOf error))

/-- The host that works on the files of the machine. -/
def host : Host IO where
  read path := attempt (IO.FS.readBinFile path)
  write path content := attempt (IO.FS.writeBinFile path content)
  makeDirectory path := attempt (IO.FS.createDir path)
  isDirectory path := do
    match ← attempt (IO.FS.readBinFile path) with
    | .error .isADirectory => pure true
    | _ => pure false
  print text := IO.print text
  printError line := IO.eprintln line

end Machine
end Workshop

/-- Runs the compiler command. -/
def main (arguments : List String) : IO UInt32 := do
  let setting ← IO.getEnv "RUST_LOG"
  Workshop.Command.run Workshop.Machine.host setting arguments

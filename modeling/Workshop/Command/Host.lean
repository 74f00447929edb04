/-!
# Hosts

The compiler command reads and writes files and prints text through a host.  The same command runs
on the files of a machine and on a tree of files in memory.

Main definitions:

- `Host`: the operations that a command needs.
- `FileTree`: files and directories in memory.
- `World.host`: the host that works on a tree.
-/

namespace Workshop

/-- Why a file operation fails. -/
inductive FileError where
  | notFound
  | alreadyExists
  | notADirectory
  | isADirectory
  | nameTooLong
  /-- The content of a file is not text. -/
  | notText
  /-- Another reason, in the words of the host. -/
  | other (text : String)
deriving DecidableEq, Repr

/-- The wording of a file error. -/
def FileError.message : FileError → String
  | .notFound => "No such file or directory (os error 2)"
  | .alreadyExists => "File exists (os error 17)"
  | .notADirectory => "Not a directory (os error 20)"
  | .isADirectory => "Is a directory (os error 21)"
  | .nameTooLong => "File name too long (os error 36)"
  | .notText => "stream did not contain valid UTF-8"
  | .other text => text

/-- What a command can do to its surroundings. -/
structure Host (m : Type → Type) where
  /-- Reads a file. -/
  read : String → m (Except FileError ByteArray)
  /-- Writes a file, in the place of one that is there. -/
  write : String → ByteArray → m (Except FileError Unit)
  /-- Makes a directory in one that is there. -/
  makeDirectory : String → m (Except FileError Unit)
  /-- Whether a path leads to a directory. -/
  isDirectory : String → m Bool
  /-- Prints text. -/
  print : String → m Unit
  /-- Prints a line where errors go. -/
  printError : String → m Unit

/-! ## Files in memory -/

/-- A directory, or a file with its content. -/
inductive FileEntry where
  | directory
  | file (content : ByteArray)

/-- Whether there is a directory. -/
def FileEntry.isDirectory : FileEntry → Bool
  | .directory => true
  | .file _ => false

/-- Files and directories, named by the parts of their paths from the directory that the tree
stands for.  What lies outside has a place too: one that starts with the two dots of a directory
above, or with the slash of the outermost directory. -/
structure FileTree where
  entries : List (List String × FileEntry)

namespace FileTree

/-- A tree without files. -/
def empty : FileTree := ⟨[]⟩

/-- Whether a place is the directory of the tree, one above it, or the outermost one.  These are
always there. -/
def isGiven (place : List String) : Bool :=
  place.all (· == "..") || place == ["/"]

/-- Whether a place lies in the directory of the tree. -/
def isInside (place : List String) : Bool :=
  place.head? != some ".." && place.head? != some "/"

/-- The place of the directory that a place lies in. -/
def above (place : List String) : List String :=
  if place == ["/"] then place
  else if place.all (· == "..") then place ++ [".."]
  else place.dropLast

/-- What there is at a place. -/
def find? (tree : FileTree) (place : List String) : Option FileEntry :=
  if isGiven place then some .directory
  else (tree.entries.find? fun entry => entry.1 == place).map Prod.snd

/-- Puts something at a place. -/
def insert (tree : FileTree) (place : List String) (entry : FileEntry) : FileTree :=
  ⟨tree.entries.filter (fun present => present.1 != place) ++ [(place, entry)]⟩

/-- The files and directories in the directory of the tree. -/
def inside (tree : FileTree) : List (List String × FileEntry) :=
  tree.entries.filter fun entry => isInside entry.1

/-- How many bytes the name of a file may have. -/
def nameLimit : Nat := 255

/-- How many bytes a path may have. -/
def pathLimit : Nat := 4095

/-- Whether a name has more bytes than the name of a file may have. -/
def isTooLong (name : String) : Bool :=
  nameLimit < name.utf8ByteSize

/-- Follows the parts of a path.  Every part but the last has to lead to a directory. -/
def follow (tree : FileTree) : List String → List String → Except FileError (List String)
  | place, [] => .ok place
  | place, part :: rest =>
    match tree.find? place with
    | none => .error .notFound
    | some (.file _) => .error .notADirectory
    | some .directory =>
      if part = "" || part = "." then tree.follow place rest
      else if part = ".." then tree.follow (above place) rest
      else if isTooLong part then .error .nameTooLong
      else tree.follow (place ++ [part]) rest

/-- The parts of a path. -/
def parts (path : String) : List String :=
  path.splitOn "/"

/-- The place where the parts of a path begin. -/
def origin (path : String) : List String :=
  if path.toList.head? = some '/' then ["/"] else []

/-- The place that some leading parts of a path lead to, unless the path is too long. -/
def locate (tree : FileTree) (path : String) (leading : List String) :
    Except FileError (List String) :=
  if pathLimit < path.utf8ByteSize then .error .nameTooLong
  else tree.follow (origin path) leading

/-- The content of a file. -/
def read (tree : FileTree) (path : String) : Except FileError ByteArray := do
  let place ← tree.locate path (parts path)
  match tree.find? place with
  | none => throw .notFound
  | some .directory => throw .isADirectory
  | some (.file content) => pure content

/-- The directory that a path leads into, the last part of the path, and whether slashes follow
that part. -/
def target (tree : FileTree) (path : String) :
    Except FileError (List String × String × Bool) := do
  let reversed := (parts path).reverse
  match reversed.dropWhile String.isEmpty with
  | [] => pure ([], "", true)
  | last :: before =>
    let place ← tree.locate path before.reverse
    match tree.find? place with
    | none => throw .notFound
    | some (.file _) => throw .notADirectory
    | some .directory => pure (place, last, (reversed.head?.map String.isEmpty).getD false)

/-- Whether a part of a path leads to a directory that is already there. -/
def isStanding (part : String) : Bool :=
  part = "" || part = "." || part = ".."

/-- Writes a file. -/
def write (tree : FileTree) (path : String) (content : ByteArray) : Except FileError FileTree := do
  let (place, last, slashed) ← tree.target path
  if isStanding last || slashed then throw .isADirectory
  else if isTooLong last then throw .nameTooLong
  else if (tree.find? (place ++ [last])).any (·.isDirectory) then throw .isADirectory
  else pure (tree.insert (place ++ [last]) (.file content))

/-- Makes a directory. -/
def makeDirectory (tree : FileTree) (path : String) : Except FileError FileTree := do
  let (place, last, _) ← tree.target path
  if isStanding last then throw .alreadyExists
  else if isTooLong last then throw .nameTooLong
  else if (tree.find? (place ++ [last])).isSome then throw .alreadyExists
  else pure (tree.insert (place ++ [last]) .directory)

/-- Whether a path leads to a directory. -/
def isDirectory (tree : FileTree) (path : String) : Bool :=
  match tree.locate path (parts path) with
  | .ok place => (tree.find? place).any (·.isDirectory)
  | .error _ => false

end FileTree

/-- A tree of files, the text printed so far, and the text printed where errors go. -/
structure World where
  files : FileTree
  output : String
  errors : String

namespace World

/-- Changes the files, if that is possible. -/
def changeFiles (f : FileTree → Except FileError FileTree) : StateM World (Except FileError Unit) :=
  fun world =>
    match f world.files with
    | .ok files => (.ok (), { world with files := files })
    | .error error => (.error error, world)

/-- The host that works on a tree of files in memory. -/
def host : Host (StateM World) where
  read path := fun world => (world.files.read path, world)
  write path content := changeFiles (·.write path content)
  makeDirectory path := changeFiles (·.makeDirectory path)
  isDirectory path := fun world => (world.files.isDirectory path, world)
  print text := fun world => ((), { world with output := world.output ++ text })
  printError line := fun world => ((), { world with errors := world.errors ++ line ++ "\n" })

end World
end Workshop

/-!
# File paths

Paths are texts whose parts are separated by slashes.  Repeated slashes and idle dots between the
parts have no meaning.
-/

namespace Workshop
namespace Path

/-- A reversed path without the slashes and idle dots at its end. -/
def trimReversed : List Char → List Char
  | [] => []
  | c :: rest =>
    if c = '/' then trimReversed rest
    else if c = '.' then
      match rest with
      | [] => [c]
      | d :: rest => if d = '/' then trimReversed rest else c :: d :: rest
    else c :: rest

/-- A path cut before its last part. -/
def cut (path : String) : List Char × List Char :=
  let reversed := trimReversed path.toList.reverse
  ((reversed.dropWhile fun c => c != '/').reverse, (reversed.takeWhile fun c => c != '/').reverse)

/-- The path of the directory that a path lies in.  It is empty for the directory the program
runs in. -/
def parent? (path : String) : Option String :=
  let (before, last) := cut path
  if last.isEmpty then none else some (String.ofList (trimReversed before.reverse).reverse)

/-- A file name cut at its last dot, if it has an extension.  A dot at the start of the name does
not begin one. -/
def cutExtension? (name : List Char) : Option (List Char × List Char) :=
  let reversed := name.reverse
  let extension := (reversed.takeWhile fun c => c != '.').reverse
  match reversed.dropWhile fun c => c != '.' with
  | _ :: stem => if stem.isEmpty || name = ['.', '.'] then none else some (stem.reverse, extension)
  | [] => none

/-- A file name that has lost its extension.  The dot before the extension is lost with it, unless
the stem is a dot itself and the path ends with the extension: the two dots do not name a file, and
both stay. -/
def bareName (stem : List Char) (isEnd : Bool) : List Char :=
  if stem = ['.'] && isEnd then ['.', '.'] else stem

/-- A path without the extension of source files, if it has that one. -/
def withoutSourceExtension (path : String) : String :=
  let (before, last) := cut path
  match cutExtension? last with
  | some (stem, extension) =>
    if extension = "ows".toList then
      String.ofList (before ++ bareName stem (before ++ last = path.toList))
    else path
  | none => path

end Path
end Workshop

/-!
# Indented lines

Text is laid out as lines between marks that change the indentation.  A line begins with one
tabulator for every level.
-/

namespace Workshop

/-- A line of text, or a mark between lines. -/
inductive Line where
  | text (content : String)
  /-- The lines that follow are one level deeper. -/
  | indent
  /-- The lines that follow are one level less deep. -/
  | dedent
  /-- An empty line. -/
  | blank
deriving DecidableEq, Repr

namespace Line

/-- A line that ends a statement. -/
def statement (content : String) : Line :=
  text (content ++ ";")

/-- The lines from the given level on.  A line break stands before every line of text but the
first. -/
def write : Nat → Bool → List Line → List Char
  | _, _, [] => []
  | level, isFirst, text content :: rest =>
    (if isFirst then [] else ['\n']) ++ List.replicate level '\t' ++ content.toList ++
      write level false rest
  | level, isFirst, indent :: rest => write (level + 1) isFirst rest
  | level, isFirst, dedent :: rest => write (level - 1) isFirst rest
  | level, isFirst, blank :: rest => '\n' :: write level isFirst rest

/-- The text of lines that start at the given level. -/
def render (lines : List Line) (level : Nat) : String :=
  String.ofList (write level true lines)

/-- A named section: its lines one level deeper, between braces. -/
def inSection (name : String) (body : List Line) : List Line :=
  [text name, text "\x7b", indent] ++ body ++ [dedent, text "\x7d"]

end Line
end Workshop

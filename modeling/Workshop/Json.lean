/-!
# JSON documents

A small model of JSON without numbers, and its layout on several lines: two spaces of indentation
for every level, one element or field to a line, and `[]` for an array without elements.
-/

namespace Workshop

/-- A JSON document without numbers.  The fields of an object keep their order. -/
inductive Json where
  | null
  | bool (value : Bool)
  | string (value : String)
  | array (items : List Json)
  | object (fields : List (String × Json))

namespace Json

/-- How one character is written inside a string: quotes, backslashes and control characters are
escaped, everything else stands for itself. -/
def escapedChar (c : Char) : List Char :=
  if c = '"' then ['\\', '"']
  else if c = '\\' then ['\\', '\\']
  else if c = '\x08' then ['\\', 'b']
  else if c = '\x0c' then ['\\', 'f']
  else if c = '\n' then ['\\', 'n']
  else if c = '\r' then ['\\', 'r']
  else if c = '\t' then ['\\', 't']
  else if c.toNat < 0x20 then
    ['\\', 'u', '0', '0', Nat.digitChar (c.toNat / 16), Nat.digitChar (c.toNat % 16)]
  else [c]

/-- A string between quotes. -/
def quote (text : String) : List Char :=
  '"' :: (text.toList.flatMap escapedChar ++ ['"'])

/-- The start of a line at the given level. -/
def newLine (level : Nat) : List Char :=
  '\n' :: List.replicate (2 * level) ' '

mutual

/-- A document written at the given level of nesting. -/
def write (level : Nat) : Json → List Char
  | null => "null".toList
  | bool value => (if value then "true" else "false").toList
  | string value => quote value
  | array items =>
    if items.isEmpty then ['[', ']']
    else '[' :: (writeItems (level + 1) items ++ newLine level ++ [']'])
  | object fields =>
    if fields.isEmpty then ['\x7b', '\x7d']
    else '\x7b' :: (writeFields (level + 1) fields ++ newLine level ++ ['\x7d'])
termination_by structural document => document

/-- The elements of an array, each on a line of its own, with commas between them. -/
def writeItems (level : Nat) : List Json → List Char
  | [] => []
  | item :: rest =>
    newLine level ++ write level item ++ (if rest.isEmpty then [] else [',']) ++
      writeItems level rest
termination_by structural items => items

/-- The fields of an object, each on a line of its own, with commas between them. -/
def writeFields (level : Nat) : List (String × Json) → List Char
  | [] => []
  | (key, value) :: rest =>
    newLine level ++ quote key ++ [':', ' '] ++ write level value ++
      (if rest.isEmpty then [] else [',']) ++ writeFields level rest
termination_by structural fields => fields

end

/-- The document laid out on several lines, without a line break at the end. -/
def pretty (document : Json) : String :=
  String.ofList (document.write 0)

end Json
end Workshop

/-!
# Lines

A line of a text ends with a line feed, which a carriage return may precede.  The last line may
lack its end.
-/

namespace Workshop
namespace Text

/-- A reversed line without the carriage return at its end. -/
def dropReturn : List Char → List Char
  | [] => []
  | c :: rest => if c = '\r' then rest else c :: rest

/-- The lines of a text, after a line has been begun.  The begun line is reversed. -/
def linesFrom : List Char → List Char → List String
  | begun, [] => if begun.isEmpty then [] else [String.ofList begun.reverse]
  | begun, c :: rest =>
    if c = '\n' then String.ofList (dropReturn begun).reverse :: linesFrom [] rest
    else linesFrom (c :: begun) rest

/-- The lines of a text, without their ends. -/
def lines (text : String) : List String :=
  linesFrom [] text.toList

end Text
end Workshop

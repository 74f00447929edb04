import Workshop.Storage.Bank

/-!
# Terms of the output

The texts of variable accesses and literals in compiled rules.
-/

namespace Workshop
namespace Term

/-- The player an event concerns. -/
def eventPlayer : String := "Event Player"

/-- Reads a global variable. -/
def readGlobal (slot : Slot) : String :=
  "Value In Array(Global Variable(" ++ slot.bank.text ++ "), " ++ toString slot.index ++ ")"

/-- Gives a global variable a value. -/
def writeGlobal (slot : Slot) (value : String) : String :=
  "Set Global Variable At Index(" ++ slot.bank.text ++ ", " ++ toString slot.index ++ ", " ++
    value ++ ")"

/-- Reads a variable of a player. -/
def readPlayer (player : String) (slot : Slot) : String :=
  "Value In Array(Player Variable(" ++ player ++ ", " ++ slot.bank.text ++ "), " ++
    toString slot.index ++ ")"

/-- Gives a variable of a player a value. -/
def writePlayer (player : String) (slot : Slot) (value : String) : String :=
  "Set Player Variable At Index(" ++ player ++ ", " ++ slot.bank.text ++ ", " ++
    toString slot.index ++ ", " ++ value ++ ")"

/-- A truth value. -/
def boolean (value : Bool) : String :=
  if value then "True" else "False"

/-- The body of a string literal with every bare double quote escaped.  A backslash and the
character after it stay as they are. -/
def escapeQuotes : List Char → List Char
  | [] => []
  | c :: rest =>
    if c = '\\' then
      match rest with
      | [] => [c]
      | d :: rest => c :: d :: escapeQuotes rest
    else if c = '"' then '\\' :: '"' :: escapeQuotes rest
    else c :: escapeQuotes rest

/-- A string literal, given its body in the source text. -/
def customString (body : String) : String :=
  "Custom String(\"" ++ String.ofList (escapeQuotes body.toList) ++ "\")"

end Term
end Workshop

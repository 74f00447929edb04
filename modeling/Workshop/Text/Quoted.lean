import Workshop.Text.Printable
import Workshop.Text.GraphemeExtend

/-!
# Quoted text

Diagnostics show pieces of source text between double quotes.  A quoted text stays on one line
and shows every character: the quote, the backslash and the common control characters have short
escapes, and whatever has no visible form of its own is written by its code point.
-/

namespace Workshop
namespace Text

/-- A character written by its code point, such as `\u{feff}`. -/
def codePointEscape (c : Char) : List Char :=
  ['\\', 'u', '\x7b'] ++ Nat.toDigits 16 c.toNat ++ ['\x7d']

/-- The voiced and semi-voiced sound marks of halfwidth syllables.  They continue a grapheme but
take a place of their own. -/
def isHalfwidthSoundMark (c : Char) : Bool :=
  c.toNat == 0xFF9E || c.toNat == 0xFF9F

/-- Whether a character would run into the one before it. -/
def isAttached (c : Char) : Bool :=
  isGraphemeExtend c && !isHalfwidthSoundMark c

/-- How one character is written inside a quoted text. -/
def quotedChar (c : Char) : List Char :=
  if c = '\x00' then ['\\', '0']
  else if c = '\t' then ['\\', 't']
  else if c = '\n' then ['\\', 'n']
  else if c = '\r' then ['\\', 'r']
  else if c = '"' then ['\\', '"']
  else if c = '\\' then ['\\', '\\']
  else if isAttached c || !isPrintable c then codePointEscape c
  else [c]

/-- The text between double quotes, with everything unprintable escaped. -/
def quoted (text : String) : String :=
  String.ofList ('"' :: (text.toList.flatMap quotedChar ++ ['"']))

end Text
end Workshop

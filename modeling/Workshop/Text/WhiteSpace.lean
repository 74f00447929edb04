import Workshop.Text.CodeRange

/-!
# White space

The characters that separate words in any script: tabulators, line breaks, the spaces of all
widths, and the line and paragraph separators.
-/

namespace Workshop
namespace Text

/-- The white space code points, as inclusive ranges in increasing order. -/
def whiteSpaceRanges : List CodeRange := [
  (0x9, 0xD), (0x20, 0x20), (0x85, 0x85), (0xA0, 0xA0), (0x1680, 0x1680), (0x2000, 0x200A),
  (0x2028, 0x2029), (0x202F, 0x202F), (0x205F, 0x205F), (0x3000, 0x3000)]

/-- Whether a character is white space. -/
def isWhiteSpace (c : Char) : Bool :=
  inRanges whiteSpaceRanges c

/-- Every blank of plain text is white space. -/
theorem isWhiteSpace_of_isWhitespace {c : Char} (h : c.isWhitespace = true) :
    isWhiteSpace c = true := by
  simp only [Char.isWhitespace, Bool.or_eq_true, decide_eq_true_eq] at h
  rcases h with ((rfl | rfl) | rfl) | rfl <;> decide

end Text
end Workshop

/-!
# Ranges of code points

Character classes that follow a table are written as lists of inclusive ranges of code points.
-/

namespace Workshop
namespace Text

/-- An inclusive range of code points, from the first to the last. -/
abbrev CodeRange := Nat × Nat

/-- Whether a character lies in one of the ranges. -/
def inRanges (ranges : List CodeRange) (c : Char) : Bool :=
  ranges.any fun range => range.1 ≤ c.toNat && c.toNat ≤ range.2

theorem inRanges_eq_true_iff {ranges : List CodeRange} {c : Char} :
    inRanges ranges c = true ↔ ∃ range ∈ ranges, range.1 ≤ c.toNat ∧ c.toNat ≤ range.2 := by
  simp [inRanges]

end Text
end Workshop

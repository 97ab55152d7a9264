import BoolQuery.Text.Ranges

/-!
# Blank characters

The characters that separate the tokens of a query: those with the Unicode
property White_Space.
-/

namespace BoolQuery.Text

/-- The blank characters as ranges of code points, in ascending order. -/
def blankRanges : Ranges := [
  (0x9, 0xD), (0x20, 0x20), (0x85, 0x85), (0xA0, 0xA0), (0x1680, 0x1680), (0x2000, 0x200A),
  (0x2028, 0x2029), (0x202F, 0x202F), (0x205F, 0x205F), (0x3000, 0x3000)]

/-- A character that separates tokens. -/
@[irreducible]
def isBlank (c : Char) : Bool :=
  Ranges.contains blankRanges c.toNat

theorem ascending_blankRanges : Ranges.Ascending 0 blankRanges = true := by decide

/-- The blank characters are those of the ranges. -/
theorem isBlank_iff (c : Char) :
    isBlank c = true ↔ ∃ r ∈ blankRanges, r.1 ≤ c.toNat ∧ c.toNat ≤ r.2 := by
  rw [isBlank]
  exact Ranges.contains_iff ascending_blankRanges c.toNat

end BoolQuery.Text

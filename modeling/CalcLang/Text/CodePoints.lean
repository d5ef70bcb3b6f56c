/-!
# Sets of code points

A property of characters is given by the code points that have it, as a table of ranges.
-/

namespace CalcLang.Text

/-- A set of code points: the inclusive ranges that it consists of. -/
abbrev CodePoints := List (Nat × Nat)

/-- Whether a character is in a set. -/
def CodePoints.contains (ranges : CodePoints) (c : Char) : Bool :=
  ranges.any fun r => r.1 ≤ c.toNat && c.toNat ≤ r.2

/-- A character is in a set if and only if it is in one of the ranges. -/
theorem CodePoints.contains_iff {ranges : CodePoints} {c : Char} :
    ranges.contains c ↔ ∃ r ∈ ranges, r.1 ≤ c.toNat ∧ c.toNat ≤ r.2 := by
  simp [contains]

end CalcLang.Text

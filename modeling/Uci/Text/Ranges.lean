/-!
# Sets of characters given by ranges

A property of characters is a list of ranges of code points, ends included, in
increasing order. Each property of the character standard that the library
needs is one such list in a module of its own.
-/

namespace Uci
namespace Text

/-- Ranges of code points, both ends included. -/
abbrev Ranges := List (Nat × Nat)

/-- A character belongs to the ranges if one of them holds its code point. -/
def Ranges.contains (ranges : Ranges) (c : Char) : Bool :=
  ranges.any fun (low, high) => low ≤ c.toNat && c.toNat ≤ high

/-- Membership, said without the order of the ranges. -/
theorem Ranges.contains_iff {ranges : Ranges} {c : Char} :
    ranges.contains c = true ↔ ∃ r ∈ ranges, r.1 ≤ c.toNat ∧ c.toNat ≤ r.2 := by
  simp [Ranges.contains]

end Text
end Uci

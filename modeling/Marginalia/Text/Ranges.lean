/-!
# Sets of characters as ranges of code points

A character class of the standard is written down once, as an ascending list of closed ranges of
code points. This file fixes how such a table is read:

* `Ranges.has` asks whether a character lies in one of the ranges;
* `Ranges.has_iff` says the same as a proposition, for statements about classes.
-/

namespace Marginalia.Text

/-- A set of code points, as a list of closed ranges. -/
abbrev Ranges := List (Nat × Nat)

/-- Whether a character lies in one of the ranges. -/
def Ranges.has (ranges : Ranges) (c : Char) : Bool :=
  ranges.any fun r => r.1 ≤ c.toNat && c.toNat ≤ r.2

theorem Ranges.has_iff (ranges : Ranges) (c : Char) :
    ranges.has c = true ↔ ∃ r ∈ ranges, r.1 ≤ c.toNat ∧ c.toNat ≤ r.2 := by
  simp [Ranges.has, List.any_eq_true]

end Marginalia.Text

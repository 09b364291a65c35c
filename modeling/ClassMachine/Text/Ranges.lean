/-!
# Sets of characters as ranges of code points
-/

namespace ClassMachine.Text

/-- Membership in one of the closed ranges. -/
def inRanges (ranges : List (Nat × Nat)) (c : Char) : Bool :=
  ranges.any fun (first, last) => first ≤ c.toNat && c.toNat ≤ last

end ClassMachine.Text

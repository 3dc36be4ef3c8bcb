/-!
# Ranges of characters

A class of characters given by the ranges of its code points, both ends included.
-/
namespace RegisterForm.Text

def inRanges (ranges : List (Nat × Nat)) (c : Char) : Bool :=
  ranges.any fun r => decide (r.1 ≤ c.toNat) && decide (c.toNat ≤ r.2)

end RegisterForm.Text

/-!
# Sets of characters

A set of characters is kept as the lengths of the stretches of code points that lie in turn outside
and inside it, from the first code point on.
-/

namespace Hantec.Text

/-- The lengths of the stretches outside and inside the set. -/
structure CharSet where
  stretches : List Nat

namespace CharSet

/-- Whether the code point at distance `n` is inside, given whether the first stretch is. -/
def holds (inside : Bool) : Nat → List Nat → Bool
  | _, [] => inside
  | n, k :: ks => if n < k then inside else holds (!inside) (n - k) ks

def contains (s : CharSet) (c : Char) : Bool := holds false c.toNat s.stretches

end CharSet

end Hantec.Text

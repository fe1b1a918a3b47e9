import Hantec.Text.Case

/-!
# The same character up to case

Two characters are the same up to case when their lower case forms are equal or have
a common upper case form.
-/

namespace Hantec.Text

/-- Lower case characters with a common upper case form, where there are several of them. -/
def caseSiblings : List (List Nat) :=
  [[0x69, 0x131], [0x73, 0x17f], [0xb5, 0x3bc], [0x345, 0x3b9, 0x1fbe], [0x390, 0x1fd3],
   [0x3b0, 0x1fe3], [0x3b2, 0x3d0], [0x3b5, 0x3f5], [0x3b8, 0x3d1], [0x3ba, 0x3f0], [0x3c0, 0x3d6],
   [0x3c1, 0x3f1], [0x3c2, 0x3c3], [0x3c6, 0x3d5], [0x432, 0x1c80], [0x434, 0x1c81],
   [0x43e, 0x1c82], [0x441, 0x1c83], [0x442, 0x1c84, 0x1c85], [0x44a, 0x1c86], [0x463, 0x1c87],
   [0x1c88, 0xa64b], [0x1e61, 0x1e9b], [0xfb05, 0xfb06]]

/-- The code points whose lower case is `n`, apart from `n` itself. -/
def capitalsOf (n : Nat) : List Nat := lowerRuns.toList.filterMap (·.source? n)

/-- The code points that are the same as `c` up to case. -/
def caseVariants (c : Char) : List Nat :=
  let low := (lowerChar c).toNat
  ((caseSiblings.find? (·.contains low)).getD [low]).flatMap fun n => n :: capitalsOf n

/-- The code points that are the same as `c` up to case of ASCII letters. -/
def asciiVariants (c : Char) : List Nat := [c.toLower.toNat, c.toUpper.toNat]

end Hantec.Text

/-!
# Dyadic rationals

A finite number of the language is a whole number times a power of two. This
module takes numbers apart, puts them together again, and rounds them to whole
numbers.
-/

namespace Hantec

/-- The rational `mant * 2 ^ exp`, or its negative. The sign of zero is kept. -/
structure Dyadic where
  neg : Bool
  mant : Nat
  exp : Int
  deriving DecidableEq, Repr

namespace Dyadic

/-- The parts of a finite number; infinities and NaN have none. -/
def ofFloat? (x : Float) : Option Dyadic :=
  let bits := x.toBits.toNat
  let neg := Nat.pow 2 63 ≤ bits
  let field : Nat := bits / Nat.pow 2 52 % 2048
  let frac : Nat := bits % Nat.pow 2 52
  if field = 2047 then none
  else if field = 0 then some ⟨neg, frac, -1074⟩
  else some ⟨neg, Nat.pow 2 52 + frac, (field : Int) - 1075⟩

/-- How far a mantissa of at most 53 bits can be shifted up so that the exponent stays in range. -/
def room (d : Dyadic) : Nat := min (53 - (d.mant.log2 + 1)) (d.exp + 1074).toNat

/-- The number with these parts, for a mantissa below `2 ^ 53` and an exponent from -1074 on
that does not exceed the range. -/
def toFloat (d : Dyadic) : Float :=
  let sign := if d.neg then Nat.pow 2 63 else 0
  if d.mant = 0 then Float.ofBits (UInt64.ofNat sign)
  else
    let mant := d.mant * Nat.pow 2 d.room
    let exp := d.exp - d.room
    let body :=
      if mant < Nat.pow 2 52 then mant
      else (exp + 1075).toNat * Nat.pow 2 52 + (mant - Nat.pow 2 52)
    Float.ofBits (UInt64.ofNat (sign + body))

def signed (d : Dyadic) : Int := if d.neg then -d.mant else d.mant

/-- The greatest whole number that is not above the rational. -/
def floor (d : Dyadic) : Int :=
  if 0 ≤ d.exp then d.signed * Int.pow 2 d.exp.toNat
  else d.signed.fdiv (Int.pow 2 (-d.exp).toNat)

/-- The least whole number that is not below the rational. -/
def ceil (d : Dyadic) : Int :=
  if 0 ≤ d.exp then d.signed * Int.pow 2 d.exp.toNat
  else -(-d.signed).fdiv (Int.pow 2 (-d.exp).toNat)

/-- The whole number next to the rational on the side of zero. -/
def trunc (d : Dyadic) : Int :=
  if 0 ≤ d.exp then d.signed * Int.pow 2 d.exp.toNat
  else d.signed.tdiv (Int.pow 2 (-d.exp).toNat)

/-- The size of the rational, if that is a whole number. -/
def whole? (d : Dyadic) : Option Nat :=
  let up := d.mant * Nat.pow 2 d.exp.toNat
  let down := Nat.pow 2 (-d.exp).toNat
  if up % down = 0 then some (up / down) else none

/-- Whether the rational is a whole number. -/
def isWhole (d : Dyadic) : Bool := d.floor == d.ceil

end Dyadic

end Hantec

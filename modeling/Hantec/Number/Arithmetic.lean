import Hantec.Number.Dyadic
import Hantec.Number.Reading

/-!
# Arithmetic

Remainder, power and rounding. The remainder has the sign of the dividend and is
exact. Rounding to whole numbers gives plus zero for zero.
-/

namespace Hantec.Number

/-- The exact remainder of two finite numbers, the second of which is not zero. -/
def remainder (a b : Dyadic) : Dyadic :=
  let exp := min a.exp b.exp
  let m := a.mant * Nat.pow 2 (a.exp - exp).toNat
  let n := b.mant * Nat.pow 2 (b.exp - exp).toNat
  ⟨a.neg, m % n, exp⟩

def modulo (a b : Float) : Float :=
  match Dyadic.ofFloat? a, Dyadic.ofFloat? b with
  | some x, some y => if y.mant = 0 then nan else (remainder x y).toFloat
  | some _, none => if b.isNaN then nan else a
  | none, _ => nan

/-- Powers. An undefined exponent and an infinite exponent of one or minus one give NaN. -/
def power (a b : Float) : Float :=
  if b.isNaN || (a.abs == 1 && b.isInf) then nan else Float.pow a b

/-- Applies a rounding to the finite numbers. -/
def roundBy (f : Dyadic → Int) (x : Float) : Float :=
  match Dyadic.ofFloat? x with
  | some d => Float.ofInt (f d)
  | none => x

def floor (x : Float) : Float := roundBy Dyadic.floor x

def ceil (x : Float) : Float := roundBy Dyadic.ceil x

/-- The nearest whole number, of two the greater. -/
def round (x : Float) : Float :=
  if x.isFinite then floor (x + 0.5) else x

/-- The whole part of a finite number. -/
def trunc? (x : Float) : Option Int := (Dyadic.ofFloat? x).map Dyadic.trunc

/-- A whole number that is not negative, as an index. -/
def toIndex? (x : Float) : Option Nat :=
  match Dyadic.ofFloat? x with
  | some d => if d.isWhole && 0 ≤ d.floor then some d.floor.toNat else none
  | none => none

end Hantec.Number

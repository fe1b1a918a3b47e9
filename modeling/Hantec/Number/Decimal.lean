import Hantec.Number.Dyadic

/-!
# Shortest decimals

Of all decimals that read back as a given number, the one with the fewest digits
and, among these, the one nearest to the number. The search goes through the
decimal grids from coarse to fine and looks at the two grid points next to the
number.
-/

namespace Hantec

/-- The rational `coef * 10 ^ exp`. -/
structure Decimal where
  coef : Nat
  exp : Int
  deriving DecidableEq, Repr

namespace Decimal

def digits (d : Decimal) : List Char := Nat.toDigits 10 d.coef

/-- The exponent of the first digit. -/
def lead (d : Decimal) : Int := d.exp + (d.digits.length - 1 : Nat)

/-- Drops up to `fuel` trailing zeros of the coefficient. -/
def strip : Nat → Decimal → Decimal
  | 0, d => d
  | fuel + 1, d =>
    if d.coef ≠ 0 ∧ d.coef % 10 = 0 then strip fuel ⟨d.coef / 10, d.exp + 1⟩ else d

end Decimal

/-- The numbers that read back as `m * 2 ^ q`: all rationals between `lo / den` and `hi / den`,
the two ends included exactly if `closed`. The number itself is `mid / den`. -/
structure Rounding where
  lo : Nat
  mid : Nat
  hi : Nat
  den : Nat
  closed : Bool

namespace Rounding

/-- The interval of a positive number. Below a power of two the numbers stand twice as close. -/
def ofDyadic (d : Dyadic) : Rounding :=
  let lower := if d.mant = Nat.pow 2 52 ∧ d.exp ≠ -1074 then 1 else 2
  let scale := Nat.pow 2 (d.exp - 2).toNat
  ⟨(4 * d.mant - lower) * scale, 4 * d.mant * scale, (4 * d.mant + 2) * scale,
    Nat.pow 2 (2 - d.exp).toNat, d.mant % 2 = 0⟩

/-- The interval with everything multiplied by `10 ^ k`. -/
def scale (r : Rounding) (k : Int) : Rounding :=
  let up := Nat.pow 10 k.toNat
  ⟨r.lo * up, r.mid * up, r.hi * up, r.den * Nat.pow 10 (-k).toNat, r.closed⟩

/-- Whether the whole number `n` lies in the interval. -/
def holds (r : Rounding) (n : Nat) : Bool :=
  if r.closed then r.lo ≤ n * r.den && n * r.den ≤ r.hi
  else r.lo < n * r.den && n * r.den < r.hi

/-- The least `k` from `j` on, tried `fuel` times, with `10 ^ k` times the number at least one. -/
def leadBelow (r : Rounding) : Nat → Nat → Nat
  | 0, j => j
  | fuel + 1, j => if r.den ≤ r.mid * Nat.pow 10 j then j else leadBelow r fuel (j + 1)

/-- The exponent of the first decimal digit of the number. -/
def lead (r : Rounding) : Int :=
  if r.den ≤ r.mid then ((Nat.toDigits 10 (r.mid / r.den)).length - 1 : Nat)
  else -(r.leadBelow 400 0 : Int)

/-- The whole number of the interval that is nearest to the middle, an even one if two are. -/
def nearest? (r : Rounding) : Option Nat :=
  let below := r.mid / r.den
  let above := below + 1
  let toBelow := r.mid - below * r.den
  let toAbove := above * r.den - r.mid
  let belowFirst := toBelow < toAbove || (toBelow == toAbove && below % 2 == 0)
  match r.holds below, r.holds above with
  | true, true => some (if belowFirst then below else above)
  | true, false => some below
  | false, true => some above
  | false, false => none

/-- The first decimal of the interval, on grids from `10 ^ k` on downwards. -/
def search (r : Rounding) : Nat → Int → Decimal
  | 0, k => ⟨(r.scale (-k)).mid / (r.scale (-k)).den, k⟩
  | fuel + 1, k =>
    match (r.scale (-k)).nearest? with
    | some n => ⟨n, k⟩
    | none => search r fuel (k - 1)

end Rounding

/-- The shortest decimal of the size of a number. -/
def Dyadic.shortest (d : Dyadic) : Decimal :=
  if d.mant = 0 then ⟨0, 0⟩
  else
    let r := Rounding.ofDyadic d
    Decimal.strip 20 (r.search 17 r.lead)

end Hantec

import Hantec.Text.Blank
import Hantec.Text.Digit

/-!
# Reading numbers

A text denotes a number when it is blank, a decimal with an optional exponent,
an infinity, or digits of base 16, 8 or 2 after a mark. Every other text denotes
NaN. Only digits after a mark can be too large: a decimal beyond the range of
numbers is an infinity.
-/

namespace Hantec.Number

/-- The whole number written by the digits in base ten. -/
def ofDigits (ds : List Nat) : Nat := ds.foldl (fun n d => 10 * n + d) 0

/-- The number nearest to `coef * 10 ^ exp`. Exponents far beyond the range are not computed. -/
def ofDecimal (coef : Nat) (exp : Int) : Float :=
  let lead := exp + (Nat.toDigits 10 coef).length
  if coef = 0 || lead < -400 then 0
  else if 400 < lead then 1 / 0
  else Float.ofScientific coef (exp < 0) exp.natAbs

/-- The least whole number without a nearest number. -/
def tooLarge : Nat := Nat.pow 2 1024 - Nat.pow 2 970

/-- The number nearest to a whole number, if there is one. -/
def ofInt? (n : Int) : Option Float :=
  if n.natAbs < tooLarge then some (Float.ofInt n) else none

/-- The values of the decimal digits that the characters start with, and what follows them. -/
def spanDigits : List Char → List Nat × List Char
  | [] => ([], [])
  | c :: cs =>
    match Text.digitValue? c with
    | some d => let (ds, rest) := spanDigits cs; (d :: ds, rest)
    | none => ([], c :: cs)

/-- A sign and what follows it; `true` stands for minus. -/
def spanSign : List Char → Bool × List Char
  | '+' :: cs => (false, cs)
  | '-' :: cs => (true, cs)
  | cs => (false, cs)

/-- The exponent at the end of a decimal; none if something else stands there. -/
def exponent? : List Char → Option Int
  | [] => some 0
  | c :: cs =>
    if c == 'e' || c == 'E' then
      let (neg, cs) := spanSign cs
      match spanDigits cs with
      | ([], _) => none
      | (ds, []) => some (if neg then -(ofDigits ds) else ofDigits ds)
      | _ => none
    else none

/-- Digits, a point and digits, of which one group may be absent, and an exponent. -/
def unsigned? (cs : List Char) : Option Float :=
  let (whole, rest) := spanDigits cs
  let (frac, rest) :=
    match rest with
    | '.' :: rest => spanDigits rest
    | _ => ([], rest)
  if whole.isEmpty && frac.isEmpty then none
  else (exponent? rest).map fun e => ofDecimal (ofDigits (whole ++ frac)) (e - frac.length)

def decimal? (cs : List Char) : Option Float :=
  let (neg, cs) := spanSign cs
  (unsigned? cs).map fun x => if neg then -x else x

/-- The value of a digit of a base up to 16. -/
def hexValue? (c : Char) : Option Nat :=
  if c.isDigit then some (c.toNat - '0'.toNat)
  else if 'a' ≤ c && c ≤ 'f' then some (c.toNat - 'a'.toNat + 10)
  else if 'A' ≤ c && c ≤ 'F' then some (c.toNat - 'A'.toNat + 10)
  else none

/-- The base that stands after a leading zero. -/
def base? (c : Char) : Option Nat :=
  match c with
  | 'x' | 'X' => some 16
  | 'o' | 'O' => some 8
  | 'b' | 'B' => some 2
  | _ => none

/-- The whole number written by the characters in a base, if all of them are its digits. -/
def ofBase? (base : Nat) (cs : List Char) : Option Nat :=
  cs.foldl (fun n c => do
    let n ← n
    let d ← hexValue? c
    if d < base then some (base * n + d) else none) (some 0)

def nan : Float := 0 / 0

def infinity : Float := 1 / 0

/-- The number that a text denotes. There is none for digits of another base that are too large. -/
def ofText? (s : String) : Option Float :=
  let cs := Text.trimChars s.toList
  match cs with
  | [] => some 0
  | _ =>
    match decimal? cs with
    | some x => some x
    | none =>
      match String.ofList cs with
      | "Infinity" | "+Infinity" => some infinity
      | "-Infinity" => some (-infinity)
      | _ =>
        match cs with
        | '0' :: mark :: d :: ds =>
          match base? mark with
          | none => some nan
          | some base =>
            match ofBase? base (d :: ds) with
            | none => some nan
            | some n => ofInt? n
        | _ => some nan

end Hantec.Number

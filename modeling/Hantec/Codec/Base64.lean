/-!
# Base64

Three bytes are written as four signs of six bits, with `=` in the place of missing
ones. Reading skips what is no sign and stops at the padding that completes a group.
-/

namespace Hantec.Codec

/-- The sign of a value below 64. -/
def base64Sign (n : Nat) : Char :=
  if n < 26 then Char.ofNat ('A'.toNat + n)
  else if n < 52 then Char.ofNat ('a'.toNat + (n - 26))
  else if n < 62 then Char.ofNat ('0'.toNat + (n - 52))
  else if n = 62 then '+'
  else '/'

def base64Value? (c : Char) : Option Nat :=
  if 'A' ≤ c && c ≤ 'Z' then some (c.toNat - 'A'.toNat)
  else if 'a' ≤ c && c ≤ 'z' then some (c.toNat - 'a'.toNat + 26)
  else if '0' ≤ c && c ≤ '9' then some (c.toNat - '0'.toNat + 52)
  else if c = '+' then some 62
  else if c = '/' then some 63
  else none

def encodeBase64 : List UInt8 → List Char
  | [] => []
  | [a] =>
    let a := a.toNat
    [base64Sign (a / 4), base64Sign (a % 4 * 16), '=', '=']
  | [a, b] =>
    let a := a.toNat
    let b := b.toNat
    [base64Sign (a / 4), base64Sign (a % 4 * 16 + b / 16), base64Sign (b % 16 * 4), '=']
  | a :: b :: c :: rest =>
    let x := a.toNat
    let y := b.toNat
    let z := c.toNat
    base64Sign (x / 4) :: base64Sign (x % 4 * 16 + y / 16) :: base64Sign (y % 16 * 4 + z / 64)
      :: base64Sign (z % 64) :: encodeBase64 rest

inductive Base64Error where
  | notAscii
  | lonelySign (count : Nat)
  | padding
  deriving DecidableEq, Repr

def Base64Error.message : Base64Error → String
  | .notAscii => "string argument should contain only ASCII characters"
  | .lonelySign n =>
    s!"Invalid base64-encoded string: number of data characters ({n}) cannot be 1 more "
      ++ "than a multiple of 4"
  | .padding => "Incorrect padding"

/-- The state of a reader inside a group of four signs. -/
inductive Base64Group where
  | zero
  | one (bits : Nat)
  | two (bits : Nat)
  | three (bits : Nat)

/-- Reads on inside a group, after `pads` paddings in a row and `count` bytes. -/
def decodeFrom (group : Base64Group) (pads count : Nat) :
    List Char → Except Base64Error (List UInt8)
  | [] =>
    match group with
    | .zero => .ok []
    | .one _ => .error (.lonelySign (count / 3 * 4 + 1))
    | _ => .error .padding
  | c :: cs =>
    if c = '=' then
      match group with
      | .two _ => if 1 ≤ pads then .ok [] else decodeFrom group (pads + 1) count cs
      | .three _ => .ok []
      | _ => decodeFrom group pads count cs
    else
      match base64Value? c with
      | none => decodeFrom group pads count cs
      | some v =>
        match group with
        | .zero => decodeFrom (.one v) 0 count cs
        | .one bits => do
          let rest ← decodeFrom (.two (v % 16)) 0 (count + 1) cs
          return UInt8.ofNat (bits * 4 + v / 16) :: rest
        | .two bits => do
          let rest ← decodeFrom (.three (v % 4)) 0 (count + 1) cs
          return UInt8.ofNat (bits * 16 + v / 4) :: rest
        | .three bits => do
          let rest ← decodeFrom .zero 0 (count + 1) cs
          return UInt8.ofNat (bits * 64 + v) :: rest

/-- The bytes that a text stands for, after missing padding has been added. -/
def decodeBase64 (s : String) : Except Base64Error (List UInt8) :=
  if s.toList.all (·.toNat < 128) then
    decodeFrom .zero 0 0 (s.toList ++ List.replicate ((4 - s.length % 4) % 4) '=')
  else .error .notAscii

end Hantec.Codec

import Hantec.Number.Decimal
import Hantec.Number.Reading

/-!
# Written numbers

Two ways of writing a number in its shortest digits: the one of syntax files, in
which a number never looks like a whole number, and the one that scripts see,
in which whole numbers below `10 ^ 21` are plain.
-/

namespace Hantec.Number

def zeros (n : Nat) : List Char := List.replicate n '0'

/-- The digits with the point after the digit of exponent zero. -/
def positional (d : Decimal) : List Char :=
  let ds := d.digits
  if 0 ≤ d.exp then ds ++ zeros d.exp.toNat
  else if 0 ≤ d.lead then
    ds.take (d.lead + 1).toNat ++ '.' :: ds.drop (d.lead + 1).toNat
  else '0' :: '.' :: zeros (-d.lead - 1).toNat ++ ds

/-- The digits with the point after the first of them. -/
def mantissa (d : Decimal) : List Char :=
  match d.digits with
  | [] => []
  | [c] => [c]
  | c :: cs => c :: '.' :: cs

/-- The sign of an exponent and its digits, at least `width` of them. -/
def exponent (width : Nat) (e : Int) : List Char :=
  let ds := Nat.toDigits 10 e.natAbs
  (if e < 0 then '-' else '+') :: zeros (width - ds.length) ++ ds

/-- In a syntax file the exponents from -4 to 15 are written out, and a point is always there. -/
def writtenInFile (d : Decimal) : List Char :=
  if -4 ≤ d.lead && d.lead < 16 then
    if 0 ≤ d.exp then positional d ++ ['.', '0'] else positional d
  else mantissa d ++ 'e' :: exponent 2 d.lead

/-- The text of a number in syntax files. -/
def toFileText (x : Float) : String :=
  match Dyadic.ofFloat? x with
  | some d =>
    let body := writtenInFile d.shortest
    String.ofList (if d.neg then '-' :: body else body)
  | none => if x.isNaN then "NaN" else if 0 < x then "Infinity" else "-Infinity"

/-! ## Texts in scripts

They are made from the texts in syntax files. -/

def mantissaOf (text : List Char) : List Char := text.takeWhile (· != 'e')

def exponentOf (text : List Char) : Int := (exponent? (text.dropWhile (· != 'e'))).getD 0

def minusOf (text : List Char) : List Char := if text.head? == some '-' then ['-'] else []

/-- The digits of the mantissa, without the sign and the point. -/
def figuresOf (text : List Char) : List Char :=
  ((mantissaOf text).dropWhile (· == '-')).filter (· != '.')

/-- The text of a whole number, with all its digits and no point. -/
def plainText (text : List Char) : List Char :=
  if text.contains 'e' then
    minusOf text ++ figuresOf text ++
      zeros (exponentOf text - (figuresOf text).length + 1).toNat
  else if ['.', '0'].isSuffixOf text then text.take (text.length - 2)
  else text

/-- A text with an exponent only from `10 ^ 21` on and below `10 ^ -6`, and without zeros before the
digits of the exponent. -/
def scaledText (text : List Char) : List Char :=
  let exp := exponentOf text
  if !text.contains 'e' then text
  else if -7 < exp && exp < 0 then
    minusOf text ++ '0' :: '.' :: zeros (-exp - 1).toNat ++ figuresOf text
  else mantissaOf text ++ 'e' :: (if 0 < exp then '+' else '-') :: Nat.toDigits 10 exp.natAbs

/-- The text of a number in scripts. -/
def toText (x : Float) : String :=
  match Dyadic.ofFloat? x with
  | some d =>
    let text := (toFileText x).toList
    match d.whole? with
    | some n =>
      if n < Nat.pow 2 53 then toString (if d.neg then -n else n : Int)
      else String.ofList (if n < Nat.pow 10 21 then plainText text else scaledText text)
    | none => String.ofList (scaledText text)
  | none => if x.isNaN then "NaN" else if 0 < x then "Infinity" else "-Infinity"

/-- The text of a number that stands where a name is due. -/
def toLabel (x : Float) : String :=
  if x.isFinite then toFileText x
  else if x.isNaN then "nan" else if 0 < x then "inf" else "-inf"

end Hantec.Number

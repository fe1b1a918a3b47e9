import Hantec.Text.Printable

/-!
# Quoted texts

A text as it stands in an error message: in single quotes, or in double quotes
when it holds a single quote and no double quote, with escapes for whatever
cannot be shown.
-/

namespace Hantec.Text

/-- The number in hexadecimal, padded with zeros to `width` digits. -/
def hexPadded (width n : Nat) : String :=
  let ds := Nat.toDigits 16 n
  String.ofList (List.replicate (width - ds.length) '0' ++ ds)

/-- A character inside a text quoted by `q`. -/
def escapeChar (q c : Char) : String :=
  if c == q || c == '\\' then String.ofList ['\\', c]
  else if c == '\t' then "\\t"
  else if c == '\n' then "\\n"
  else if c == '\r' then "\\r"
  else if isPrintable c then String.singleton c
  else if c.toNat < 0x100 then "\\x" ++ hexPadded 2 c.toNat
  else if c.toNat < 0x10000 then "\\u" ++ hexPadded 4 c.toNat
  else "\\U" ++ hexPadded 8 c.toNat

def quote (s : String) : String :=
  let cs := s.toList
  let q := if cs.contains '\'' && !cs.contains '"' then '"' else '\''
  String.singleton q ++ String.join (cs.map (escapeChar q)) ++ String.singleton q

end Hantec.Text

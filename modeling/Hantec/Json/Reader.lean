import Hantec.Dict
import Hantec.Json
import Hantec.Number.Reading

/-!
# Reading JSON

Besides JSON the reader takes `NaN`, `Infinity` and `-Infinity` as numbers. Of two
values under one key of an object the last one counts.
-/

namespace Hantec

/-- Why a text is not read as a JSON value. -/
inductive JsonError where
  | malformed
  | tooManyDigits (count : Nat)
  deriving DecidableEq, Repr

def JsonError.message : JsonError → String
  | .malformed => "malformed JSON"
  | .tooManyDigits n =>
    s!"Exceeds the limit (4300 digits) for integer string conversion: value has {n} digits; "
      ++ "use sys.set_int_max_str_digits() to increase the limit"

namespace Json

/-- The largest number of digits of a whole number. -/
def digitLimit : Nat := 4300

def isBlank (c : Char) : Bool := c == ' ' || c == '\t' || c == '\n' || c == '\r'

def skipBlanks (cs : List Char) : List Char := cs.dropWhile isBlank

def digitsValue (cs : List Char) : Nat := Number.ofDigits (cs.map (·.toNat - '0'.toNat))

/-- What a text is made of: characters, and the units that `\u` gives by number. -/
inductive TextUnit where
  | char (c : Char)
  | unit (n : Nat)

/-- The value of four hexadecimal digits. -/
def hexUnit? (a b c d : Char) : Option Nat := do
  return 4096 * (← Number.hexValue? a) + 256 * (← Number.hexValue? b) +
    16 * (← Number.hexValue? c) + (← Number.hexValue? d)

/-- The character that a backslash and `c` stand for. -/
def escaped? (c : Char) : Option Char :=
  match c with
  | '"' => some '"'
  | '\\' => some '\\'
  | '/' => some '/'
  | 'b' => some '\x08'
  | 'f' => some '\x0c'
  | 'n' => some '\n'
  | 'r' => some '\r'
  | 't' => some '\t'
  | _ => none

/-- The units of a text up to its closing quote, and what follows it. -/
def readUnits : List Char → Option (List TextUnit × List Char)
  | [] => none
  | '"' :: rest => some ([], rest)
  | '\\' :: 'u' :: a :: b :: c :: d :: rest => do
    let n ← hexUnit? a b c d
    let (us, rest) ← readUnits rest
    return (.unit n :: us, rest)
  | '\\' :: c :: rest => do
    let e ← escaped? c
    let (us, rest) ← readUnits rest
    return (.char e :: us, rest)
  | c :: rest =>
    if c.toNat < 0x20 || c == '\\' then none
    else do
      let (us, rest) ← readUnits rest
      return (.char c :: us, rest)

def isHighSurrogate (n : Nat) : Bool := 0xd800 ≤ n && n < 0xdc00

def isLowSurrogate (n : Nat) : Bool := 0xdc00 ≤ n && n < 0xe000

/-- The character of a unit by itself. Half of a surrogate pair is no character. -/
def unitChar (n : Nat) : Char :=
  if isHighSurrogate n || isLowSurrogate n then '�' else Char.ofNat n

/-- Joins the two halves of each surrogate pair. -/
def joinUnits : List TextUnit → List Char
  | [] => []
  | .char c :: us => c :: joinUnits us
  | .unit n :: .unit m :: us =>
    if isHighSurrogate n && isLowSurrogate m then
      Char.ofNat (0x10000 + (n - 0xd800) * 1024 + (m - 0xdc00)) :: joinUnits us
    else unitChar n :: joinUnits (.unit m :: us)
  | .unit n :: us => unitChar n :: joinUnits us

def readText (cs : List Char) : Except JsonError (String × List Char) :=
  match readUnits cs with
  | some (us, rest) => .ok (String.ofList (joinUnits us), rest)
  | none => .error .malformed

/-- The digits after a point, if at least one is there. -/
def spanFraction : List Char → Option (List Char) × List Char
  | '.' :: cs =>
    if (cs.takeWhile Char.isDigit).isEmpty then (none, '.' :: cs)
    else (some (cs.takeWhile Char.isDigit), cs.dropWhile Char.isDigit)
  | cs => (none, cs)

/-- The exponent, if it has at least one digit. -/
def spanExponent (cs : List Char) : Option Int × List Char :=
  match cs with
  | e :: rest =>
    if e == 'e' || e == 'E' then
      let (neg, digits) := Number.spanSign rest
      if (digits.takeWhile Char.isDigit).isEmpty then (none, cs)
      else
        let n : Int := digitsValue (digits.takeWhile Char.isDigit)
        (some (if neg then -n else n), digits.dropWhile Char.isDigit)
    else (none, cs)
  | [] => (none, [])

/-- A number without its sign: no digit but zero itself follows a leading zero. -/
def readUnsigned (neg : Bool) (cs : List Char) : Except JsonError (Json × List Char) :=
  let whole := if cs.head? == some '0' then ['0'] else cs.takeWhile Char.isDigit
  let rest := cs.drop whole.length
  if whole.isEmpty then .error .malformed
  else
    let (frac, rest) := spanFraction rest
    let (exp, rest) := spanExponent rest
    if frac.isNone && exp.isNone then
      if digitLimit < whole.length then .error (.tooManyDigits whole.length)
      else
        let n : Int := digitsValue whole
        .ok (.int (if neg then -n else n), rest)
    else
      let fracDigits := frac.getD []
      let x := Number.ofDecimal (digitsValue (whole ++ fracDigits))
        (exp.getD 0 - fracDigits.length)
      .ok (.num (if neg then -x else x), rest)

/-- Words that stand for a value. -/
def words : List (String × Json) :=
  [("null", .null), ("true", .bool true), ("false", .bool false), ("NaN", .num Number.nan),
   ("Infinity", .num Number.infinity), ("-Infinity", .num (-Number.infinity))]

/-- The value of the word that the characters start with, and what follows it. -/
def readWord? (cs : List Char) : Option (Json × List Char) :=
  words.findSome? fun (w, j) =>
    if w.toList.isPrefixOf cs then some (j, cs.drop w.length) else none

def readKey : List Char → Except JsonError (String × List Char)
  | '"' :: rest => readText rest
  | _ => .error .malformed

mutual

/-- The value that the characters start with, and what follows it. -/
def readValue : Nat → List Char → Except JsonError (Json × List Char)
  | 0, _ => .error .malformed
  | n + 1, cs =>
    match cs with
    | '"' :: rest => do
      let (s, rest) ← readText rest
      return (.str s, rest)
    | '[' :: rest =>
      match skipBlanks rest with
      | ']' :: rest => .ok (.arr [], rest)
      | rest => do
        let (js, rest) ← readItems n rest
        return (.arr js, rest)
    | '\x7b' :: rest =>
      match skipBlanks rest with
      | '\x7d' :: rest => .ok (.obj [], rest)
      | rest => do
        let (es, rest) ← readEntries n rest
        return (.obj (Dict.ofList es).entries, rest)
    | cs =>
      match readWord? cs with
      | some r => .ok r
      | none =>
        match cs with
        | '-' :: rest => readUnsigned true rest
        | cs => readUnsigned false cs

/-- At least one item, and the closing bracket. -/
def readItems : Nat → List Char → Except JsonError (List Json × List Char)
  | 0, _ => .error .malformed
  | n + 1, cs => do
    let (j, rest) ← readValue n cs
    match skipBlanks rest with
    | ',' :: rest =>
      let (js, rest) ← readItems n (skipBlanks rest)
      return (j :: js, rest)
    | ']' :: rest => return ([j], rest)
    | _ => .error .malformed

/-- At least one entry, and the closing brace. -/
def readEntries : Nat → List Char → Except JsonError (List (String × Json) × List Char)
  | 0, _ => .error .malformed
  | n + 1, cs => do
    let (k, rest) ← readKey cs
    match skipBlanks rest with
    | ':' :: rest =>
      let (j, rest) ← readValue n (skipBlanks rest)
      match skipBlanks rest with
      | ',' :: rest =>
        let (es, rest) ← readEntries n (skipBlanks rest)
        return ((k, j) :: es, rest)
      | '\x7d' :: rest => return ([(k, j)], rest)
      | _ => .error .malformed
    | _ => .error .malformed

end

/-- The value that is all of the text, blanks around it apart. -/
def parse (text : String) : Except JsonError Json := do
  let cs := skipBlanks text.toList
  let (j, rest) ← readValue (2 * cs.length + 2) cs
  if (skipBlanks rest).isEmpty then return j else .error .malformed

end Json

end Hantec

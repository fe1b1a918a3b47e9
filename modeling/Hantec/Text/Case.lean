import Hantec.Text.Case.Table

/-!
# Upper and lower case

Full case mapping of texts: one character may become several, and a capital
sigma becomes a final sigma at the end of a word.
-/

namespace Hantec.Text

def CaseRun.covers (r : CaseRun) (n : Nat) : Bool :=
  r.first ≤ n && n ≤ r.last && (n - r.first) % r.stride == 0

def CaseRun.apply (r : CaseRun) (n : Nat) : Nat := (n + r.shift).toNat

/-- The code point that the run moves to `n`. -/
def CaseRun.source? (r : CaseRun) (n : Nat) : Option Nat :=
  let m := ((n : Int) - r.shift).toNat
  if r.covers m && r.apply m == n then some m else none

/-- The index of the first run between `lo` and `hi` that starts above `n`. -/
def searchRuns (a : Array CaseRun) (n : Nat) : Nat → Nat → Nat → Nat
  | 0, lo, _ => lo
  | fuel + 1, lo, hi =>
    if lo < hi then
      let mid := (lo + hi) / 2
      match a[mid]? with
      | none => lo
      | some r =>
        if r.first ≤ n then searchRuns a n fuel (mid + 1) hi else searchRuns a n fuel lo mid
    else lo

/-- The image of a code point, itself where no run covers it. -/
def mapRuns (a : Array CaseRun) (n : Nat) : Nat :=
  match a[searchRuns a n (a.size.log2 + 2) 0 a.size - 1]? with
  | some r => if r.covers n then r.apply n else n
  | none => n

/-- Simple lower case, one character for one. -/
def lowerChar (c : Char) : Char :=
  if c.toNat < 0x80 then c.toLower else Char.ofNat (mapRuns lowerRuns c.toNat)

/-- Full lower case of a character outside any context. -/
def lowerFull (c : Char) : List Char :=
  if c.toNat == 0x130 then ['i', Char.ofNat 0x307] else [lowerChar c]

def upperFull (c : Char) : List Char :=
  if c.toNat < 0x80 then [c.toUpper]
  else match upperExceptions.find? (·.1 == c.toNat) with
    | some (_, ns) => ns.map Char.ofNat
    | none => [((lowerRuns.toList.findSome? (·.source? c.toNat)).map Char.ofNat).getD c]

/-- The first character that is not passed over is cased. -/
def nextIsCased (cs : List Char) : Bool :=
  match cs.dropWhile caseIgnorable.contains with
  | [] => false
  | c :: _ => cased.contains c

def capitalSigma : Char := 'Σ'

/-- Lower case of the characters `cs` that stand after the characters `before`, nearest first. -/
def lowerAfter : List Char → List Char → List Char
  | _, [] => []
  | before, c :: cs =>
    (if c == capitalSigma then
      [if nextIsCased before && !nextIsCased cs then 'ς' else 'σ']
    else lowerFull c) ++ lowerAfter (c :: before) cs

def lower (s : String) : String := String.ofList (lowerAfter [] s.toList)

def upper (s : String) : String := String.ofList (s.toList.flatMap upperFull)

end Hantec.Text

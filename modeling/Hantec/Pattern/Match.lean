import Hantec.Pattern.Parser
import Hantec.Text.CaseFold

/-!
# Matching

A matcher takes a place in a text, the marks of the groups so far, and a continuation for
what stands after the pattern. It tries the possibilities in order and yields the
first for which the continuation succeeds. An optional repetition is tried only if
the one before it was not at the same place.
-/

namespace Hantec.Pattern

/-- Where the groups start and end, at twice the number of the group and after it. -/
abbrev Marks := List (Option Nat)

/-- A place in a text and the marks there. -/
abbrev Spot := Nat × Marks

/-- What has to succeed after a pattern. -/
abbrev Cont := Nat → Marks → Option Spot

/-- Whether a character is of a class. -/
def CharClass.contains (k : CharClass) (ascii : Bool) (c : Char) : Bool :=
  match k, ascii with
  | .digit, false => Text.isDecimal c
  | .digit, true => c.isDigit
  | .space, false => Text.isBlank c
  | .space, true => Text.isAsciiBlank c
  | .word, false => Text.isWord c
  | .word, true => Text.isAsciiWord c

/-- The lower case of a character under the given switches. -/
def foldCase (flags : Flags) (c : Char) : Char :=
  if flags.ascii then c.toLower else Text.lowerChar c

/-- The code points that are the same as `c` under the given switches. -/
def variants (flags : Flags) (c : Char) : List Nat :=
  if !flags.ignoreCase then [c.toNat]
  else if flags.ascii then Text.asciiVariants c
  else Text.caseVariants c

def SetItem.contains (flags : Flags) (c : Char) (codes : List Nat) : SetItem → Bool
  | .single n => codes.contains n
  | .range lo hi => codes.any fun n => lo ≤ n && n ≤ hi
  | .category k negated =>
    k.contains flags.ascii (if flags.ignoreCase then foldCase flags c else c) != negated

def setContains (flags : Flags) (negated : Bool) (items : List SetItem) (c : Char) : Bool :=
  let codes := variants flags c
  items.any (·.contains flags c codes) != negated

/-- The test that a part for one character makes. -/
def charTest? (flags : Flags) : Node → Option (Char → Bool)
  | .literal n => some (setContains flags false [.single n])
  | .any => some fun c => flags.dotAll || c != '\n'
  | .set negated items => some (setContains flags negated items)
  | _ => none

def isWordAt (text : Array Char) (ascii : Bool) (i : Nat) : Bool :=
  match text[i]? with
  | some c => CharClass.word.contains ascii c
  | none => false

/-- Whether a word starts or ends at a place. -/
def isBoundary (text : Array Char) (ascii : Bool) (p : Nat) : Bool :=
  (0 < p && isWordAt text ascii (p - 1)) != isWordAt text ascii p

def Anchor.holds (text : Array Char) (flags : Flags) (p : Nat) : Anchor → Bool
  | .textStart => p == 0
  | .textEnd => p == text.size
  | .lineStart => p == 0 || (flags.multiline && text[p - 1]? == some '\n')
  | .lineEnd =>
    p == text.size || (text[p]? == some '\n' && (flags.multiline || p + 1 == text.size))
  | .boundary => isBoundary text flags.ascii p
  | .notBoundary => text.size != 0 && !isBoundary text flags.ascii p

/-- The number of characters from a place on that pass a test, at most `limit`. -/
def runLength (text : Array Char) (test : Char → Bool) (p : Nat) : Nat → Nat
  | 0 => 0
  | limit + 1 =>
    match text[p]? with
    | some c => if test c then runLength text test (p + 1) limit + 1 else 0
    | none => 0

/-- Tries the continuation after `lo + n`, …, `lo` characters. -/
def tryDown (k : Cont) (marks : Marks) (p lo : Nat) : Nat → Option Spot
  | 0 => k (p + lo) marks
  | n + 1 =>
    match k (p + lo + (n + 1)) marks with
    | some r => some r
    | none => tryDown k marks p lo n

/-- Tries the continuation at `p` and the `n` places after it. -/
def tryUp (k : Cont) (marks : Marks) (p : Nat) : Nat → Option Spot
  | 0 => k p marks
  | n + 1 =>
    match k p marks with
    | some r => some r
    | none => tryUp k marks (p + 1) n

/-- Repeats of a test on single characters. -/
def repeatChars (text : Array Char) (test : Char → Bool) (kind : RepeatKind) (lo : Nat)
    (hi : Option Nat) (p : Nat) (marks : Marks) (k : Cont) : Option Spot :=
  let room := text.size - p
  let n := runLength text test p (min room (hi.getD room))
  if n < lo then none
  else
    match kind with
    | .greedy => tryDown k marks p lo (n - lo)
    | .lazy => tryUp k marks (p + lo) (n - lo)
    | .possessive => k (p + n) marks

/-- Whether one more repetition is allowed after `count` of them. -/
def mayRepeat (hi : Option Nat) (count : Nat) : Bool :=
  match hi with
  | none => true
  | some n => count < n

/-- As many repetitions as possible. The last optional one started at `last`. -/
def repeatGreedy (m : Nat → Marks → Cont → Option Spot) (lo : Nat) (hi : Option Nat) (k : Cont) :
    Nat → Nat → Option Nat → Cont
  | 0, _, _, p, marks => k p marks
  | fuel + 1, count, last, p, marks =>
    if count < lo then m p marks (repeatGreedy m lo hi k fuel (count + 1) last)
    else
      let more :=
        if mayRepeat hi count && last != some p then
          m p marks (repeatGreedy m lo hi k fuel (count + 1) (some p))
        else none
      match more with
      | some r => some r
      | none => k p marks

/-- As few repetitions as possible. -/
def repeatLazy (m : Nat → Marks → Cont → Option Spot) (lo : Nat) (hi : Option Nat) (k : Cont) :
    Nat → Nat → Option Nat → Cont
  | 0, _, _, p, marks => k p marks
  | fuel + 1, count, last, p, marks =>
    if count < lo then m p marks (repeatLazy m lo hi k fuel (count + 1) last)
    else
      match k p marks with
      | some r => some r
      | none =>
        if mayRepeat hi count && last != some p then
          m p marks (repeatLazy m lo hi k fuel (count + 1) (some p))
        else none

/-- As many repetitions as possible, none of which is given up again. -/
def repeatPossessive (m : Nat → Marks → Cont → Option Spot) (lo : Nat) (hi : Option Nat)
    (k : Cont) : Nat → Nat → Cont
  | 0, _, p, marks => k p marks
  | fuel + 1, count, p, marks =>
    if count < lo || mayRepeat hi count then
      match m p marks (fun p marks => some (p, marks)) with
      | some (q, marks') =>
        if lo ≤ count && q == p then k q marks'
        else repeatPossessive m lo hi k fuel (count + 1) q marks'
      | none => if count < lo then none else k p marks
    else k p marks

/-- The text that a group has matched. -/
def span? (marks : Marks) (id : Nat) : Option (Nat × Nat) :=
  match marks.getD (2 * id) none, marks.getD (2 * id + 1) none with
  | some i, some j => if i ≤ j then some (i, j) else none
  | _, _ => none

/-- Whether the text goes on at `p` with the `n` characters from `i` on. -/
def repeatsText (text : Array Char) (flags : Flags) (i p : Nat) : Nat → Bool
  | 0 => true
  | n + 1 =>
    match text[i]?, text[p]? with
    | some c, some d =>
      (c == d || (flags.ignoreCase && foldCase flags c == foldCase flags d))
        && repeatsText text flags (i + 1) (p + 1) n
    | _, _ => false

mutual

def matchNode (text : Array Char) (flags : Flags) : Node → Nat → Marks → Cont → Option Spot
  | .literal n, p, marks, k =>
    match text[p]? with
    | some c => if setContains flags false [.single n] c then k (p + 1) marks else none
    | none => none
  | .any, p, marks, k =>
    match text[p]? with
    | some c => if flags.dotAll || c != '\n' then k (p + 1) marks else none
    | none => none
  | .set negated items, p, marks, k =>
    match text[p]? with
    | some c => if setContains flags negated items c then k (p + 1) marks else none
    | none => none
  | .anchor a, p, marks, k => if a.holds text flags p then k p marks else none
  | .group none add del body, p, marks, k =>
    matchSeq text (flags.within add del) body p marks k
  | .group (some id) add del body, p, marks, k =>
    matchSeq text (flags.within add del) body p (marks.set (2 * id) (some p))
      fun q marks => k q (marks.set (2 * id + 1) (some q))
  | .branch alts, p, marks, k => matchAlts text flags alts p marks k
  | .iter kind lo hi body, p, marks, k =>
    let test := match body with
      | [n] => charTest? flags n
      | _ => none
    match test with
    | some test => repeatChars text test kind lo hi p marks k
    | none =>
      let m := fun p marks k => matchSeq text flags body p marks k
      let fuel := lo + text.size + 2
      match kind with
      | .greedy => repeatGreedy m lo hi k fuel 0 none p marks
      | .lazy => repeatLazy m lo hi k fuel 0 none p marks
      | .possessive => repeatPossessive m lo hi k fuel 0 p marks
  | .reference id, p, marks, k =>
    match span? marks id with
    | some (i, j) => if repeatsText text flags i p (j - i) then k (p + (j - i)) marks else none
    | none => none
  | .condition id yes no, p, marks, k =>
    if (span? marks id).isSome then matchSeq text flags yes p marks k
    else
      match no with
      | some no => matchSeq text flags no p marks k
      | none => k p marks
  | .look behind negated body, p, marks, k =>
    let back := behind.getD 0
    let found :=
      if p < back then none
      else matchSeq text flags body (p - back) marks fun q marks => some (q, marks)
    match found with
    | some (_, inner) => if negated then none else k p inner
    | none => if negated then k p marks else none
  | .atomic body, p, marks, k =>
    match matchSeq text flags body p marks fun q marks => some (q, marks) with
    | some (q, inner) => k q inner
    | none => none

def matchSeq (text : Array Char) (flags : Flags) : List Node → Nat → Marks → Cont → Option Spot
  | [], p, marks, k => k p marks
  | n :: ns, p, marks, k =>
    matchNode text flags n p marks fun p marks => matchSeq text flags ns p marks k

def matchAlts (text : Array Char) (flags : Flags) :
    List (List Node) → Nat → Marks → Cont → Option Spot
  | [], _, _, _ => none
  | a :: as, p, marks, k =>
    match matchSeq text flags a p marks k with
    | some r => some r
    | none => matchAlts text flags as p marks k

end

/-- A match: where it starts and ends, and the marks of its groups. -/
structure Found where
  start : Nat
  stop : Nat
  marks : Marks

namespace Compiled

/-- The match at a place; it is not empty if it has to advance. -/
def matchAt (c : Compiled) (text : Array Char) (advance : Bool) (p : Nat) : Option Found :=
  let marks := List.replicate (2 * c.groupCount + 2) none
  (matchSeq text c.flags c.body p marks fun q marks =>
    if advance && q == p then none else some (q, marks)).map fun (q, marks) => ⟨p, q, marks⟩

/-- The first match at a place or one of the `n` places after it. Only a match at the first place
has to advance. -/
def searchFrom (c : Compiled) (text : Array Char) (advance : Bool) (p : Nat) : Nat → Option Found
  | 0 => c.matchAt text advance p
  | n + 1 =>
    match c.matchAt text advance p with
    | some f => some f
    | none => searchFrom c text false (p + 1) n

/-- The first match in a text. -/
def search (c : Compiled) (text : Array Char) : Option Found :=
  c.searchFrom text false 0 text.size

/-- The matches from a place on, one after another; `n` bounds their number. -/
def allFrom (c : Compiled) (text : Array Char) (advance : Bool) (p : Nat) : Nat → List Found
  | 0 => []
  | n + 1 =>
    if text.size < p then []
    else
      match c.searchFrom text advance p (text.size - p) with
      | none => []
      | some f => f :: allFrom c text (f.start == f.stop) f.stop n

/-- All matches in a text that do not overlap. -/
def all (c : Compiled) (text : Array Char) : List Found :=
  c.allFrom text false 0 (2 * text.size + 2)

end Compiled

/-- The characters from one place to another. -/
def textBetween (text : Array Char) (i j : Nat) : List Char := (text.extract i j).toList

/-- The text of a match. -/
def Found.text (f : Found) (text : Array Char) : List Char := textBetween text f.start f.stop

/-- The text of a group, empty if the group has not matched. -/
def Found.group (f : Found) (text : Array Char) (id : Nat) : List Char :=
  match span? f.marks id with
  | some (i, j) => textBetween text i j
  | none => []

end Hantec.Pattern

import Hantec.Number.Reading
import Hantec.Pattern.Source
import Hantec.Pattern.Width
import Hantec.Text.Name

/-!
# From texts to patterns

Recursive descent over the pieces of the text. The routines that call each other take a
bound on their depth, which `parse` chooses larger than any pattern needs.
-/

namespace Hantec.Pattern

/-- A pattern that can be matched. -/
structure Compiled where
  flags : Flags
  groupCount : Nat
  body : List Node

/-- What an escape stands for: a character or a class. -/
inductive Escaped where
  | code (n : Nat)
  | category (k : CharClass) (negated : Bool)

def isOctal (c : Char) : Bool := '0' ≤ c && c ≤ '7'

def isHex (c : Char) : Bool := (Number.hexValue? c).isSome

def hexCode (cs : List Char) : Nat :=
  cs.foldl (fun n c => 16 * n + (Number.hexValue? c).getD 0) 0

def octalCode (cs : List Char) : Nat := cs.foldl (fun n c => 8 * n + (c.toNat - '0'.toNat)) 0

def decimalCode (cs : List Char) : Nat := cs.foldl (fun n c => 10 * n + (c.toNat - '0'.toNat)) 0

def controlCode? (c : Char) : Option Nat :=
  match c with
  | 'a' => some 7
  | 'b' => some 8
  | 'f' => some 12
  | 'n' => some 10
  | 'r' => some 13
  | 't' => some 9
  | 'v' => some 11
  | '\\' => some 92
  | _ => none

/-- The classes that have an escape, in a capital letter for all other characters. -/
def class? (c : Char) : Option Escaped :=
  match c with
  | 'd' => some (.category .digit false)
  | 'D' => some (.category .digit true)
  | 's' => some (.category .space false)
  | 'S' => some (.category .space true)
  | 'w' => some (.category .word false)
  | 'W' => some (.category .word true)
  | _ => none

def anchor? (c : Char) : Option Anchor :=
  match c with
  | 'A' => some .textStart
  | 'b' => some .boundary
  | 'B' => some .notBoundary
  | 'Z' => some .textEnd
  | _ => none

/-- An escape with `n` hexadecimal digits after `\c`. -/
def hexEscape (c : Char) (n : Nat) : Reader Nat := do
  let ds ← takeWhile isHex n
  let text := '\\' :: c :: ds
  if ds.length != n then fail (.incompleteEscape (String.ofList text)) text.length
  let code := hexCode ds
  if 0x110000 ≤ code then fail (.badEscape (String.ofList text)) text.length
  return code

/-- An escape by the name of a character, of which none is known. -/
def namedEscape : Reader Nat := do
  if !(← accept '\x7b') then fail (.missing "\x7b") 0
  let name ← takeName '\x7d' "character name"
  fail (.undefinedName (String.ofList name)) (name.length + 4)

/-- An escape by a number or a name, if `\c` starts one. -/
def codeEscape? (c : Char) : Reader (Option Nat) := do
  match c with
  | 'x' => return some (← hexEscape 'x' 2)
  | 'u' => return some (← hexEscape 'u' 4)
  | 'U' => return some (← hexEscape 'U' 8)
  | 'N' => return some (← namedEscape)
  | _ => return none

/-- The character `c` after a backslash that stands for itself. -/
def plainEscape (c : Char) : Reader Nat := do
  if c.isAlpha || c.isDigit then fail (.badEscape (String.ofList ['\\', c])) 2 else return c.toNat

/-- The escape `\c` in a set. -/
def setEscape (c : Char) : Reader Escaped := do
  match controlCode? c, class? c with
  | some n, _ => return .code n
  | none, some e => return e
  | none, none =>
    match ← codeEscape? c with
    | some n => return .code n
    | none =>
      if isOctal c then
        let ds := c :: (← takeWhile isOctal 2)
        let text := '\\' :: ds
        if 0xff < octalCode ds then fail (.octalRange (String.ofList text)) text.length
        return .code (octalCode ds)
      else return .code (← plainEscape c)

/-- Whether a group with this number is complete. -/
def isClosed (id : Nat) : Reader Bool := return ((← get).groups.getD id none).isSome

/-- Refuses a reference to a group that an assertion looking behind would have to match. -/
def checkLookbehind (id : Nat) : Reader Unit := do
  match (← get).lookbehind with
  | none => return
  | some n =>
    if !(← isClosed id) then fail .openGroup 0
    if n ≤ id then fail .lookbehindGroup 0

/-- A reference to a group by the digits after the backslash. -/
def groupEscape (ds : List Char) : Reader Node := do
  let id := decimalCode ds
  if (← get).groups.length ≤ id then fail (.invalidGroup id) ds.length
  if !(← isClosed id) then fail .openGroup (ds.length + 1)
  checkLookbehind id
  return .reference id

/-- A digit after a backslash: a character by three octal digits, or else a group. -/
def digitEscape (c : Char) : Reader Node := do
  let more ← takeWhile Char.isDigit 1
  match more with
  | [d] =>
    if isOctal c && isOctal d then
      match ← takeWhile isOctal 1 with
      | [e] =>
        let code := octalCode [c, d, e]
        if 0xff < code then fail (.octalRange (String.ofList ['\\', c, d, e])) 4
        return .literal code
      | _ => groupEscape [c, d]
    else groupEscape [c, d]
  | _ => groupEscape [c]

/-- The escape `\c` outside a set. -/
def escape (c : Char) : Reader Node := do
  match anchor? c, class? c, controlCode? c with
  | some a, _, _ => return .anchor a
  | none, some (.category k neg), _ => return .set false [.category k neg]
  | none, some (.code n), _ => return .literal n
  | none, none, some n => return .literal n
  | none, none, none =>
    match ← codeEscape? c with
    | some n => return .literal n
    | none =>
      if c == '0' then return .literal (octalCode (c :: (← takeWhile isOctal 2)))
      else if c.isDigit then digitEscape c
      else return .literal (← plainEscape c)

/-- One piece of a set. -/
def setPiece (cs : List Char) : Reader Escaped := do
  match cs with
  | ['\\', c] => setEscape c
  | [c] => return .code c.toNat
  | _ => return .code 0

def Escaped.toItem : Escaped → SetItem
  | .code n => .single n
  | .category k neg => .category k neg

/-- The members of a set up to its end. It started at `start`; `n` bounds their number. -/
def setItems (start : Nat) (done : List SetItem) : Nat → Reader (List SetItem)
  | 0 => fail .unterminatedSet 0
  | n + 1 => do
    match ← take with
    | none => fail .unterminatedSet ((← place) - start)
    | some this =>
      if this == [']'] && !done.isEmpty then return done
      let lo ← setPiece this
      if !(← accept '-') then setItems start (done ++ [lo.toItem]) n
      else
        match ← take with
        | none => fail .unterminatedSet ((← place) - start)
        | some [']'] => return done ++ [lo.toItem, .single '-'.toNat]
        | some that =>
          let hi ← setPiece that
          let bad : Reader (List SetItem) :=
            fail (.badRange (String.ofList this) (String.ofList that))
              (this.length + 1 + that.length)
          match lo, hi with
          | .code a, .code b =>
            if b < a then bad else setItems start (done ++ [.range a b]) n
          | _, _ => bad

/-- A set, after its opening bracket. -/
def charSet : Reader Node := do
  let start := (← place) - 1
  let negated ← accept '^'
  let items ← setItems start [] ((← get).source.rest.length + 2)
  return .set negated items

/-- The numbers of a repeat in braces, after the opening brace. There are none where the brace
stands for itself. -/
def repeatBounds : Reader (Option (Nat × Option Nat)) := do
  if (← peek) == some ['\x7d'] then return none
  let before ← get
  let start := before.source.pos
  let size := before.source.rest.length + 1
  let lo ← takeWhile Char.isDigit size
  let hi ← if ← accept ',' then takeWhile Char.isDigit size else pure lo
  if !(← accept '\x7d') then
    set before
    return none
  if !lo.isEmpty && repeatLimit ≤ decimalCode lo then failAnywhere .tooManyRepeats
  if hi.isEmpty then return some (decimalCode lo, none)
  if repeatLimit ≤ decimalCode hi then failAnywhere .tooManyRepeats
  if decimalCode hi < decimalCode lo then fail .repeatOrder ((← place) - start)
  return some (decimalCode lo, some (decimalCode hi))

/-- A group without a number and switches is as good as its body. -/
def unwrap : Node → List Node
  | .group none add del body =>
    if add.isEmpty && del.isEmpty then body else [.group none add del body]
  | n => [n]

/-- The kind of a repeat, by the sign that may follow it. -/
def repeatKind : Reader RepeatKind := do
  let isLazy ← accept '?'
  if isLazy then return .lazy
  let isPossessive ← accept '+'
  return if isPossessive then .possessive else .greedy

/-- Repeats the last of the parts, which are kept with the last one first. The sign of the repeat
has `size` characters and ends at `start`. -/
def repeatLast (parts : List Node) (start size lo : Nat) (hi : Option Nat) :
    Reader (List Node) := do
  let back := (← place) - start + size
  match parts with
  | [] => fail .nothingToRepeat back
  | .anchor _ :: _ => fail .nothingToRepeat back
  | .iter _ _ _ _ :: _ => fail .multipleRepeat back
  | n :: ns =>
    return .iter (← repeatKind) lo hi (unwrap n) :: ns

/-- Refuses what is no name of a group; `back` characters stand after it. -/
def checkName (name : List Char) (back : Nat) : Reader Unit := do
  if !Text.isName name then
    fail (.badGroupName (String.ofList name)) (name.length + back)

def groupNamed (name : List Char) : Reader Nat := do
  match (← get).names.lookup (String.ofList name) with
  | some id => return id
  | none => fail (.unknownGroup (String.ofList name)) (name.length + 1)

/-- Starts a group with the next number. -/
def openGroup (name : Option (List Char)) : Reader Nat := do
  let st ← get
  let id := st.groups.length
  set { st with groups := st.groups ++ [none] }
  match name with
  | none => return id
  | some cs =>
    let text := String.ofList cs
    match st.names.lookup text with
    | some old => fail (.redefinedGroup text id old) (cs.length + 1)
    | none =>
      modify fun st => { st with names := st.names ++ [(text, id)] }
      return id

def closeGroup (id : Nat) (body : List Node) : Reader Unit :=
  modify fun st => { st with groups := st.groups.set id (some (widthSeq st.groups body)) }

/-- The number that a text denotes, with a sign if it has one. -/
def wholeNumber? (cs : List Char) : Option Int :=
  let (neg, ds) := Number.spanSign (Text.trimChars cs)
  match Number.spanDigits ds with
  | ([], _) => none
  | (ds, []) => some (if neg then -(Number.ofDigits ds : Int) else Number.ofDigits ds)
  | _ => none

/-- The number of groups that a pattern cannot have. -/
def groupLimit : Int := 1073741823

/-- The group that a condition depends on, after its opening parenthesis. -/
def conditionGroup : Reader Nat := do
  let name ← takeName ')' "group name"
  let back := name.length + 1
  if Text.isName name then groupNamed name
  else
    match wholeNumber? name with
    | none => fail (.badGroupName (String.ofList name)) back
    | some n =>
      if n < 0 then fail (.badGroupName (String.ofList name)) back
      if n = 0 then fail .badGroupNumber back
      if groupLimit ≤ n then fail (.invalidGroup n.toNat) back
      let pos ← place
      modify fun st =>
        if (st.conditions.lookup n.toNat).isSome then st
        else { st with conditions := st.conditions ++ [(n.toNat, pos - back)] }
      return n.toNat

/-- The letter of a switch in a list of switches, or the error for another character. -/
def flagOf (cs : List Char) (otherwise : Cause) : Reader Flags := do
  match cs with
  | [c] =>
    match Flags.ofChar? c with
    | some f => return f
    | none => fail (if Text.isLetter c then .unknownFlag else otherwise) 1
  | cs => fail otherwise cs.length

/-- The switches to turn on, from the one in `cs` on, and the sign after them. -/
def flagsOn (cs : List Char) (on : Flags) : Nat → Reader (Flags × Char)
  | 0 => fail .unexpectedEnd 0
  | n + 1 => do
    let f ← flagOf cs (.missing "-, : or )")
    if f.locale then fail .localeFlag 0
    let on := on.union f
    if f.meets .kinds && (on.minus f).meets .kinds then fail .clashingFlags 0
    match ← take with
    | none => fail (.missing "-, : or )") 0
    | some [')'] => return (on, ')')
    | some ['-'] => return (on, '-')
    | some [':'] => return (on, ':')
    | some cs => flagsOn cs on n

/-- The switches to turn off, from the one in `cs` on, up to a colon. -/
def flagsOff (cs : List Char) (off : Flags) (otherwise : Cause) : Nat → Reader Flags
  | 0 => fail .unexpectedEnd 0
  | n + 1 => do
    let f ← flagOf cs otherwise
    if f.meets .kinds then fail .kindFlagOff 0
    let off := off.union f
    match ← take with
    | none => fail (.missing ":") 0
    | some [':'] => return off
    | some cs => flagsOff cs off (.missing ":") n

/-- Switches after a question mark, from the one in `cs` on. There are none to scope where they hold
for the whole pattern. -/
def inlineFlags (cs : List Char) : Reader (Option (Flags × Flags)) := do
  let bound := (← get).source.rest.length + 2
  let (on, mark) ← if cs == ['-'] then pure ({}, '-') else flagsOn cs {} bound
  if mark == ')' then
    modify fun st => { st with flags := st.flags.union on }
    return none
  if on.template then fail .globalFlagOn 1
  let off ←
    if mark == '-' then
      match ← take with
      | none => fail (.missing "flag") 0
      | some cs => flagsOff cs {} (.missing "flag") bound
    else pure {}
  if off.template then fail .globalFlagOff 1
  if on.meets off then fail .flagOnAndOff 1
  return some (on, off)

/-- Passes a comment that started at `start`. -/
def skipComment (start : Nat) : Nat → Reader Unit
  | 0 => return
  | n + 1 => do
    if (← peek).isNone then fail .unterminatedComment ((← place) - start)
    if (← take) == some [')'] then return else skipComment start n

/-- Passes the rest of a line. -/
def skipLine : Nat → Reader Unit
  | 0 => return
  | n + 1 => do
    match ← take with
    | none => return
    | some ['\n'] => return
    | some _ => skipLine n

/-- What stands after the opening parenthesis of a group. -/
inductive GroupHead where
  | capture (name : Option (List Char))
  | plain (add del : Flags)
  | atomic
  | look (behind negated : Bool)
  | condition (id : Nat)
  | reference (id : Nat)
  | nothing
  | switches

/-- The head of a group after a question mark and `P`. -/
def namedExtension : Reader GroupHead := do
  match ← take with
  | none => fail .unexpectedEnd 0
  | some ['<'] =>
    let name ← takeName '>' "group name"
    checkName name 1
    return .capture (some name)
  | some ['='] =>
    let name ← takeName ')' "group name"
    checkName name 1
    let id ← groupNamed name
    if !(← isClosed id) then fail .openGroup (name.length + 1)
    checkLookbehind id
    return .reference id
  | some cs => fail (.unknownExtension (String.ofList ('P' :: cs))) (cs.length + 2)

/-- The head of a group after its question mark; the group started at `start`. -/
def extension (start : Nat) : Reader GroupHead := do
  match ← take with
  | none => fail .unexpectedEnd 0
  | some ['P'] => namedExtension
  | some [':'] => return .plain {} {}
  | some ['#'] =>
    skipComment start ((← get).source.rest.length + 2)
    return .nothing
  | some ['='] => return .look false false
  | some ['!'] => return .look false true
  | some ['<'] =>
    match ← take with
    | none => fail .unexpectedEnd 0
    | some ['='] => return .look true false
    | some ['!'] => return .look true true
    | some cs => fail (.unknownExtension (String.ofList ('<' :: cs))) (cs.length + 2)
  | some ['('] => return .condition (← conditionGroup)
  | some ['>'] => return .atomic
  | some cs =>
    let known := match cs with
      | [c] => c == '-' || (Flags.ofChar? c).isSome
      | _ => false
    if known then
      match ← inlineFlags cs with
      | none => return .switches
      | some (add, del) => return .plain add del
    else fail (.unknownExtension (String.ofList cs)) (cs.length + 1)

def closing (start : Nat) : Reader Unit := do
  if !(← accept ')') then fail .unterminatedGroup ((← place) - start)

/-- Starts to look behind, unless that goes on already. -/
def enterLookbehind (behind : Bool) : Reader (Option Nat) := do
  let st ← get
  if behind && st.lookbehind.isNone then
    set { st with lookbehind := some st.groups.length }
  return st.lookbehind

def isSkipped (c : Char) : Bool :=
  c == ' ' || c == '\t' || c == '\n' || c == '\r' || c == '\x0b' || c == '\x0c'

/-- Several alternatives as one part. -/
def alternatives : List (List Node) → List Node
  | [body] => body
  | bodies => [.branch bodies]

mutual

/-- Alternatives. At the top the switches at the start of the pattern hold for all of them. -/
def readAlternatives : Nat → Bool → Bool → Bool → Reader (List (List Node))
  | 0, _, _, _ => fail .unexpectedEnd 0
  | n + 1, verbose, top, first => do
    let body ← readSequence n verbose (top && first) []
    if ← accept '|' then
      let st ← get
      let verbose := if top then st.flags.verbose else verbose
      return body :: (← readAlternatives n verbose top false)
    else return [body]

/-- Parts one after another; those before are kept with the last one first. -/
def readSequence : Nat → Bool → Bool → List Node → Reader (List Node)
  | 0, _, _, _ => fail .unexpectedEnd 0
  | n + 1, verbose, first, parts => do
    match ← peek with
    | none | some ['|'] | some [')'] => return parts.reverse.flatMap unwrap
    | some this =>
      let _ ← take
      match this with
      | ['\\', c] => readSequence n verbose first ((← escape c) :: parts)
      | [c] =>
        if verbose && isSkipped c then readSequence n verbose first parts
        else if verbose && c == '#' then
          skipLine ((← get).source.rest.length + 2)
          readSequence n verbose first parts
        else
          match c with
          | '[' => readSequence n verbose first ((← charSet) :: parts)
          | '*' => readSequence n verbose first (← repeatLast parts (← place) 1 0 none)
          | '+' => readSequence n verbose first (← repeatLast parts (← place) 1 1 none)
          | '?' => readSequence n verbose first (← repeatLast parts (← place) 1 0 (some 1))
          | '\x7b' =>
            let start ← place
            match ← repeatBounds with
            | none => readSequence n verbose first (.literal c.toNat :: parts)
            | some (lo, hi) =>
              readSequence n verbose first (← repeatLast parts start 1 lo hi)
          | '.' => readSequence n verbose first (.any :: parts)
          | '^' => readSequence n verbose first (.anchor .lineStart :: parts)
          | '$' => readSequence n verbose first (.anchor .lineEnd :: parts)
          | '(' =>
            let start := (← place) - 1
            let head ← if ← accept '?' then extension start else pure (.capture none)
            match head with
            | .switches =>
              if !first || !parts.isEmpty then fail .lateFlags ((← place) - start)
              let st ← get
              readSequence n st.flags.verbose first parts
            | head =>
              let part ← readGroup n verbose start head
              readSequence n verbose first (part ++ parts)
          | c => readSequence n verbose first (.literal c.toNat :: parts)
      | _ => readSequence n verbose first parts

/-- The rest of a group that started at `start`. -/
def readGroup : Nat → Bool → Nat → GroupHead → Reader (List Node)
  | 0, _, _, _ => fail .unexpectedEnd 0
  | n + 1, verbose, start, head => do
    match head with
    | .nothing | .switches => return []
    | .reference id => return [.reference id]
    | .capture name =>
      let id ← openGroup name
      let body := alternatives (← readAlternatives n verbose false false)
      closing start
      closeGroup id body
      return [.group (some id) {} {} body]
    | .plain add del =>
      let inner := (verbose || add.verbose) && !del.verbose
      let body := alternatives (← readAlternatives n inner false false)
      closing start
      return [.group none add del body]
    | .atomic =>
      let body := alternatives (← readAlternatives n verbose false false)
      closing start
      return [.atomic body]
    | .look behind negated =>
      let before ← enterLookbehind behind
      let body := alternatives (← readAlternatives n verbose false false)
      if behind then modify fun st => { st with lookbehind := before }
      closing start
      return [.look (if behind then some 0 else none) negated body]
    | .condition id =>
      checkLookbehind id
      let yes ← readSequence n verbose false []
      let no ←
        if ← accept '|' then
          let no ← readSequence n verbose false []
          if (← peek) == some ['|'] then fail .tooManyBranches 0
          pure (some no)
        else pure none
      closing start
      return [.condition id yes no]

end

def readPattern (bound : Nat) : Reader (List Node) := do
  let body := alternatives (← readAlternatives bound false true true)
  let st ← get
  if st.flags.ascii && st.flags.unicode then failAnywhere .clashingKinds
  if (← peek).isSome then fail .unbalanced 0
  match st.conditions.find? (fun c => st.groups.length ≤ c.1) with
  | some (id, pos) => throw ⟨.invalidGroup id, st.source.pattern, some pos⟩
  | none => return body

/-- The pattern that a text spells. -/
def parse (pattern : String) : Except Error Compiled := do
  let source ← Source.ofPattern pattern
  let bound := 4 * pattern.length + 8
  let (body, st) ← (readPattern bound).run ⟨source, {}, [], [none], none, []⟩
  match settleSeq st.groups st.flags body with
  | .ok body => return ⟨st.flags, st.groups.length - 1, body⟩
  | .error cause => throw ⟨cause, pattern, none⟩

end Hantec.Pattern

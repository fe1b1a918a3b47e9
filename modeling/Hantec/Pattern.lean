import Hantec.Text.Quoted

/-!
# Patterns

Regular expressions with groups, references to groups, assertions on what stands before and
after, conditions on groups, and greedy, lazy and possessive repeats.
-/

namespace Hantec.Pattern

/-- Switches that change what a pattern matches. -/
structure Flags where
  ignoreCase : Bool := false
  locale : Bool := false
  multiline : Bool := false
  dotAll : Bool := false
  verbose : Bool := false
  ascii : Bool := false
  template : Bool := false
  unicode : Bool := false
  deriving DecidableEq, Repr, Inhabited

namespace Flags

/-- The switches that are on in one of two sets. -/
def union (f g : Flags) : Flags :=
  ⟨f.ignoreCase || g.ignoreCase, f.locale || g.locale, f.multiline || g.multiline,
    f.dotAll || g.dotAll, f.verbose || g.verbose, f.ascii || g.ascii, f.template || g.template,
    f.unicode || g.unicode⟩

/-- The switches of `f` that are not in `g`. -/
def minus (f g : Flags) : Flags :=
  ⟨f.ignoreCase && !g.ignoreCase, f.locale && !g.locale, f.multiline && !g.multiline,
    f.dotAll && !g.dotAll, f.verbose && !g.verbose, f.ascii && !g.ascii,
    f.template && !g.template, f.unicode && !g.unicode⟩

/-- Whether a switch is in both sets. -/
def meets (f g : Flags) : Bool := f != f.minus g

def isEmpty (f : Flags) : Bool := f == {}

/-- The switches that choose a kind of text, of which only one can be on. -/
def kinds : Flags := { ascii := true, locale := true, unicode := true }

/-- The switch of a letter. -/
def ofChar? (c : Char) : Option Flags :=
  match c with
  | 'i' => some { ignoreCase := true }
  | 'L' => some { locale := true }
  | 'm' => some { multiline := true }
  | 's' => some { dotAll := true }
  | 'x' => some { verbose := true }
  | 'a' => some { ascii := true }
  | 't' => some { template := true }
  | 'u' => some { unicode := true }
  | _ => none

/-- The switches inside a group that adds some and removes others. -/
def within (f add del : Flags) : Flags :=
  ((if add.meets kinds then f.minus kinds else f).union add).minus del

end Flags

/-- Classes of characters with a letter of their own. -/
inductive CharClass where
  | digit | space | word
  deriving DecidableEq, Repr

/-- A member of a set of characters, given by code points. -/
inductive SetItem where
  | single (code : Nat)
  | range (lo hi : Nat)
  | category (k : CharClass) (negated : Bool)
  deriving DecidableEq, Repr

/-- Conditions on a place in a text. -/
inductive Anchor where
  | lineStart | lineEnd | textStart | textEnd | boundary | notBoundary
  deriving DecidableEq, Repr

inductive RepeatKind where
  | greedy | lazy | possessive
  deriving DecidableEq, Repr

/-- The parts of a pattern; a list of them is matched one after another. -/
inductive Node where
  | literal (code : Nat)
  | any
  | set (negated : Bool) (items : List SetItem)
  | anchor (a : Anchor)
  | group (id : Option Nat) (add del : Flags) (body : List Node)
  | branch (alternatives : List (List Node))
  | iter (kind : RepeatKind) (min : Nat) (max : Option Nat) (body : List Node)
  | reference (id : Nat)
  | condition (id : Nat) (yes : List Node) (no : Option (List Node))
  /-- Looks ahead, or behind by a number of characters. -/
  | look (behind : Option Nat) (negated : Bool) (body : List Node)
  | atomic (body : List Node)
  deriving Inhabited

/-- What is wrong with a pattern. -/
inductive Cause where
  | trailingBackslash
  | badEscape (text : String)
  | incompleteEscape (text : String)
  | octalRange (text : String)
  | missing (what : String)
  | unterminatedName (terminator : Char)
  | undefinedName (name : String)
  | openGroup
  | lookbehindGroup
  | invalidGroup (n : Nat)
  | unterminatedSet
  | badRange (lo hi : String)
  | repeatOrder
  | nothingToRepeat
  | multipleRepeat
  | unexpectedEnd
  | unknownExtension (text : String)
  | unterminatedComment
  | unterminatedGroup
  | badGroupName (name : String)
  | unknownGroup (name : String)
  | badGroupNumber
  | redefinedGroup (name : String) (new old : Nat)
  | tooManyBranches
  | lateFlags
  | localeFlag
  | clashingFlags
  | unknownFlag
  | globalFlagOn
  | globalFlagOff
  | kindFlagOff
  | flagOnAndOff
  | unbalanced
  | lookbehindWidth
  | lookbehindDepth
  | templateRepeat (kind : RepeatKind)
  | clashingKinds
  | tooManyRepeats
  deriving DecidableEq, Repr

def RepeatKind.name : RepeatKind → String
  | .greedy => "MAX_REPEAT"
  | .lazy => "MIN_REPEAT"
  | .possessive => "POSSESSIVE_REPEAT"

def Cause.text : Cause → String
  | .trailingBackslash => "bad escape (end of pattern)"
  | .badEscape s => s!"bad escape {s}"
  | .incompleteEscape s => s!"incomplete escape {s}"
  | .octalRange s => s!"octal escape value {s} outside of range 0-0o377"
  | .missing what => s!"missing {what}"
  | .unterminatedName c => s!"missing {c}, unterminated name"
  | .undefinedName s => s!"undefined character name {Text.quote s}"
  | .openGroup => "cannot refer to an open group"
  | .lookbehindGroup => "cannot refer to group defined in the same lookbehind subpattern"
  | .invalidGroup n => s!"invalid group reference {n}"
  | .unterminatedSet => "unterminated character set"
  | .badRange lo hi => s!"bad character range {lo}-{hi}"
  | .repeatOrder => "min repeat greater than max repeat"
  | .nothingToRepeat => "nothing to repeat"
  | .multipleRepeat => "multiple repeat"
  | .unexpectedEnd => "unexpected end of pattern"
  | .unknownExtension s => s!"unknown extension ?{s}"
  | .unterminatedComment => "missing ), unterminated comment"
  | .unterminatedGroup => "missing ), unterminated subpattern"
  | .badGroupName s => s!"bad character in group name {Text.quote s}"
  | .unknownGroup s => s!"unknown group name {Text.quote s}"
  | .badGroupNumber => "bad group number"
  | .redefinedGroup s new old =>
    s!"redefinition of group name {Text.quote s} as group {new}; was group {old}"
  | .tooManyBranches => "conditional backref with more than two branches"
  | .lateFlags => "global flags not at the start of the expression"
  | .localeFlag => "bad inline flags: cannot use 'L' flag with a str pattern"
  | .clashingFlags => "bad inline flags: flags 'a', 'u' and 'L' are incompatible"
  | .unknownFlag => "unknown flag"
  | .globalFlagOn => "bad inline flags: cannot turn on global flag"
  | .globalFlagOff => "bad inline flags: cannot turn off global flag"
  | .kindFlagOff => "bad inline flags: cannot turn off flags 'a', 'u' and 'L'"
  | .flagOnAndOff => "bad inline flags: flag turned on and off"
  | .unbalanced => "unbalanced parenthesis"
  | .lookbehindWidth => "look-behind requires fixed-width pattern"
  | .lookbehindDepth => "looks too much behind"
  | .templateRepeat k => s!"internal: unsupported template operator {k.name}"
  | .clashingKinds => "ASCII and UNICODE flags are incompatible"
  | .tooManyRepeats => "the repetition number is too large"

/-- A cause and, where one is known, the place in the pattern. -/
structure Error where
  cause : Cause
  pattern : String
  pos : Option Nat
  deriving DecidableEq, Repr

namespace Error

/-- Whether the pattern is ill-formed, and not only beyond a limit of the matcher. -/
def isMalformed (e : Error) : Bool :=
  match e.cause with
  | .clashingKinds | .tooManyRepeats => false
  | _ => true

/-- The cause, the place, and in a pattern of several lines the line and the column. -/
def message (e : Error) : String :=
  match e.pos with
  | none => e.cause.text
  | some pos =>
    let before := e.pattern.toList.take pos
    let line := before.count '\n' + 1
    let column := (before.reverse.takeWhile (· != '\n')).length + 1
    let place := s!"{e.cause.text} at position {pos}"
    if e.pattern.toList.contains '\n' then s!"{place} (line {line}, column {column})" else place

end Error

end Hantec.Pattern

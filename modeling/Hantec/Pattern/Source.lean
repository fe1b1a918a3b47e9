import Hantec.Pattern

/-!
# Reading the text of a pattern

A pattern is read piece by piece, with one piece of lookahead. A backslash and the character
after it are one piece.
-/

namespace Hantec.Pattern

structure Source where
  pattern : String
  /-- The piece of lookahead; none at the end. -/
  next : Option (List Char)
  rest : List Char
  /-- The place after the lookahead. -/
  index : Nat

namespace Source

/-- Takes the next piece of `rest` as the lookahead. -/
def advance (s : Source) : Except Error Source :=
  match s.rest with
  | [] => .ok { s with next := none }
  | ['\\'] => .error ⟨.trailingBackslash, s.pattern, some (s.pattern.length - 1)⟩
  | '\\' :: c :: cs => .ok { s with next := some ['\\', c], rest := cs, index := s.index + 2 }
  | c :: cs => .ok { s with next := some [c], rest := cs, index := s.index + 1 }

def ofPattern (pattern : String) : Except Error Source :=
  advance ⟨pattern, none, pattern.toList, 0⟩

/-- The place of the lookahead. -/
def pos (s : Source) : Nat := s.index - (s.next.getD []).length

end Source

/-- What is known about a pattern while it is read. -/
structure Progress where
  source : Source
  flags : Flags
  names : List (String × Nat)
  /-- The widths of the groups; those of open groups are not known yet. -/
  groups : List (Option (Nat × Nat))
  /-- The number of groups before the outermost assertion that looks behind. -/
  lookbehind : Option Nat
  /-- The groups that conditions refer to by number, with the places where they do. -/
  conditions : List (Nat × Nat)

abbrev Reader : Type → Type := StateT Progress (Except Error)

/-- Fails `back` characters before the lookahead. -/
def fail {α : Type} (cause : Cause) (back : Nat) : Reader α := do
  let s := (← get).source
  throw ⟨cause, s.pattern, some (s.pos - back)⟩

/-- Fails without a place. -/
def failAnywhere {α : Type} (cause : Cause) : Reader α := do
  throw ⟨cause, (← get).source.pattern, none⟩

def peek : Reader (Option (List Char)) := return (← get).source.next

def place : Reader Nat := return (← get).source.pos

/-- The lookahead, which is passed. -/
def take : Reader (Option (List Char)) := do
  let st ← get
  set { st with source := (← st.source.advance) }
  return st.source.next

/-- Passes the lookahead if it is the given character. -/
def accept (c : Char) : Reader Bool := do
  if (← peek) == some [c] then
    let _ ← take
    return true
  else return false

/-- At most `n` characters of a class. -/
def takeWhile (p : Char → Bool) : Nat → Reader (List Char)
  | 0 => return []
  | n + 1 => do
    match ← peek with
    | some [c] =>
      if p c then
        let _ ← take
        return c :: (← takeWhile p n)
      else return []
    | _ => return []

/-- The characters up to a terminator; `n` bounds their number. -/
def takeUntil (terminator : Char) (what : String) (done : List Char) : Nat → Reader (List Char)
  | 0 => fail .unexpectedEnd 0
  | n + 1 => do
    match ← take with
    | none =>
      if done.isEmpty then fail (.missing what) 0
      else fail (.unterminatedName terminator) done.length
    | some cs =>
      if cs == [terminator] then
        if done.isEmpty then fail (.missing what) 1 else return done
      else takeUntil terminator what (done ++ cs) n

/-- The name up to a terminator. -/
def takeName (terminator : Char) (what : String) : Reader (List Char) := do
  takeUntil terminator what [] ((← get).source.rest.length + 2)

end Hantec.Pattern

import Hantec.Json
import Hantec.Number.Written
import Hantec.Text.Quoted

/-!
# Writing JSON

Objects and arrays stand over several lines, with two blanks for each level. Texts
keep every character that JSON lets stand for itself.
-/

namespace Hantec.Json

/-- A character of a text, escaped where it has to be. -/
def writeChar (c : Char) : List Char :=
  match c with
  | '"' => ['\\', '"']
  | '\\' => ['\\', '\\']
  | '\n' => ['\\', 'n']
  | '\r' => ['\\', 'r']
  | '\t' => ['\\', 't']
  | '\x0c' => ['\\', 'f']
  | '\x08' => ['\\', 'b']
  | c => if c.toNat < 0x20 then '\\' :: 'u' :: (Text.hexPadded 4 c.toNat).toList else [c]

def writeText (s : String) : List Char := '"' :: s.toList.flatMap writeChar ++ ['"']

def newLine (level : Nat) : List Char := '\n' :: List.replicate (2 * level) ' '

mutual

/-- The value at the given level of nesting. -/
def write (level : Nat) : Json → List Char
  | .null => "null".toList
  | .bool true => "true".toList
  | .bool false => "false".toList
  | .int n => (toString n).toList
  | .num x => (Number.toFileText x).toList
  | .str s => writeText s
  | .arr [] => ['[', ']']
  | .arr (j :: js) =>
    '[' :: newLine (level + 1) ++ write (level + 1) j ++ writeItems (level + 1) js
      ++ newLine level ++ [']']
  | .obj [] => ['\x7b', '\x7d']
  | .obj ((k, j) :: es) =>
    '\x7b' :: newLine (level + 1) ++ writeText k ++ [':', ' '] ++ write (level + 1) j
      ++ writeEntries (level + 1) es ++ newLine level ++ ['\x7d']

/-- The items of an array after the first one. -/
def writeItems (level : Nat) : List Json → List Char
  | [] => []
  | j :: js => ',' :: newLine level ++ write level j ++ writeItems level js

/-- The entries of an object after the first one. -/
def writeEntries (level : Nat) : List (String × Json) → List Char
  | [] => []
  | (k, j) :: es =>
    ',' :: newLine level ++ writeText k ++ [':', ' '] ++ write level j ++ writeEntries level es

end

def render (j : Json) : String := String.ofList (j.write 0)

end Hantec.Json

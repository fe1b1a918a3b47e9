/-!
# Splitting and joining texts

A text is cut at the leftmost occurrences of a separator that do not overlap.
-/

namespace Hantec.Text

/-- Puts a character in front of the first piece. -/
def consHead (c : Char) : List (List Char) → List (List Char)
  | [] => [[c]]
  | p :: ps => (c :: p) :: ps

/-- Cuts the characters at the occurrences of `sep`; the first `skip` of them still belong
to an occurrence. -/
def splitFrom (sep : List Char) : Nat → List Char → List (List Char)
  | _, [] => [[]]
  | skip + 1, _ :: cs => splitFrom sep skip cs
  | 0, c :: cs =>
    if sep.isPrefixOf (c :: cs) then [] :: splitFrom sep (sep.length - 1) cs
    else consHead c (splitFrom sep 0 cs)

/-- The pieces of a text between the occurrences of `sep`. An empty separator cuts between
all characters. -/
def split (s sep : String) : List String :=
  if sep.isEmpty then s.toList.map String.singleton
  else (splitFrom sep.toList 0 s.toList).map String.ofList

def join (sep : String) (ps : List String) : String := sep.intercalate ps

/-- The text with every occurrence of `old` replaced, those of an empty one between the
characters only. -/
def replace (s old new : String) : String := join new (split s old)

def containsChars (part : List Char) : List Char → Bool
  | [] => part.isEmpty
  | c :: cs => part.isPrefixOf (c :: cs) || containsChars part cs

def contains (s part : String) : Bool := containsChars part.toList s.toList

/-- The characters from `start` up to `stop`. -/
def slice (s : String) (start stop : Nat) : String :=
  String.ofList ((s.toList.take stop).drop start)

end Hantec.Text

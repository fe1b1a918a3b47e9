/-!
# Paths

A path is a text whose parts are separated by slashes. A path that starts with
a slash is taken from the root, any other one from a working directory.
-/

namespace Hantec.Path

/-- The parts of a text between slashes. -/
def splitSlashes : List Char → List (List Char)
  | [] => [[]]
  | '/' :: cs => [] :: splitSlashes cs
  | c :: cs =>
    match splitSlashes cs with
    | [] => [[c]]
    | p :: ps => (c :: p) :: ps

/-- The parts between slashes as they are, empty ones too. -/
def rawParts (path : String) : List String := (splitSlashes path.toList).map String.ofList

def isAbsolute (path : String) : Bool := path.toList.head? == some '/'

/-- The slashes that a path in normal form starts with. Exactly two of them are kept. -/
def rootText (path : String) : String :=
  let slashes := (path.toList.takeWhile (· == '/')).length
  if slashes = 0 then "" else if slashes = 2 then "//" else "/"

/-- The parts of a path that name something. -/
def parts (path : String) : List String :=
  (rawParts path).filter fun p => p != "" && p != "."

/-- The path with the given root and parts; a path without either is a dot. -/
def render (root : String) (parts : List String) : String :=
  if root == "" && parts.isEmpty then "." else root ++ "/".intercalate parts

/-- The normal form of a path: no empty parts, no dots. -/
def normal (path : String) : String := render (rootText path) (parts path)

/-- The path `p` seen from the directory `base`, in normal form. -/
def under (base p : String) : String :=
  if isAbsolute p then normal p else render (rootText base) (parts base ++ parts p)

/-- The directory of a path in normal form. -/
def directory (path : String) : String := render (rootText path) (parts path).dropLast

end Hantec.Path

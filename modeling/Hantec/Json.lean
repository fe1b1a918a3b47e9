/-!
# JSON values

Numbers written without point and exponent are kept as whole numbers of any size.
-/

namespace Hantec

inductive Json where
  | null
  | bool (b : Bool)
  | int (n : Int)
  | num (x : Float)
  | str (s : String)
  | arr (items : List Json)
  | obj (entries : List (String × Json))
  deriving Inhabited

namespace Json

/-- The value under a key of an object. -/
def get? (j : Json) (k : String) : Option Json :=
  match j with
  | .obj es => es.lookup k
  | _ => none

end Json

end Hantec

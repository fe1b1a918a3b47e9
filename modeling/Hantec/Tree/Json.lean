import Hantec.Tree
import Hantec.Number.Written

/-!
# Node trees as JSON

A node is an object with the name of its kind under `type` and its fields. Other
keys are ignored, and a statement without a line has line zero. A whole number that
is the value of a literal becomes a number of the language.
-/

namespace Hantec

/-- The kind of node that the entries of an object name. -/
def nodeKind (es : List (String × Json)) : Except TreeError NodeKind :=
  match es.lookup "type" with
  | none | some .null => .error (.unknownKind "None")
  | some (.bool b) => .error (.unknownKind (if b then "True" else "False"))
  | some (.int n) => .error (.unknownKind (toString n))
  | some (.num x) => .error (.unknownKind (Number.toLabel x))
  | some (.str s) =>
    match NodeKind.ofName? s with
    | some k => .ok k
    | none => .error (.unknownKind s)
  | some (.arr _) => .error (.compoundKind "list")
  | some (.obj _) => .error (.compoundKind "dict")

namespace Tree

/-- The node with a whole number in a literal turned into a number of the language. -/
def normalNode (k : NodeKind) (fs : List Tree) : Except TreeError Tree :=
  match k, fs with
  | .literal, [.int n] =>
    match Number.ofInt? n with
    | some x => .ok (.node .literal [.num x])
    | none => .error .tooLarge
  | k, fs => .ok (.node k fs)

mutual

def ofJson : Json → Except TreeError Tree
  | .null => .ok .null
  | .bool b => .ok (.bool b)
  | .int n => .ok (.int n)
  | .num x => .ok (.num x)
  | .str s => .ok (.str s)
  | .arr js => do return .list (← ofItems js)
  | .obj es => do
    let k ← nodeKind es
    let fs ← k.fields.mapM fun f =>
      match ofField f es with
      | some t => t
      | none => if f = "line" then .ok (.int 0) else .error (.missingField k f)
    normalNode k fs

def ofItems : List Json → Except TreeError (List Tree)
  | [] => .ok []
  | j :: js => do return (← ofJson j) :: (← ofItems js)

/-- The tree of the entry with key `f`. -/
def ofField (f : String) : List (String × Json) → Option (Except TreeError Tree)
  | [] => none
  | (k, j) :: es => if k = f then some (ofJson j) else ofField f es

end

mutual

def toJson : Tree → Json
  | .null => .null
  | .bool b => .bool b
  | .int n => .int n
  | .num x => .num x
  | .str s => .str s
  | .list ts => .arr (toItems ts)
  | .node k ts => .obj (("type", .str k.name) :: k.fields.zip (toItems ts))

def toItems : List Tree → List Json
  | [] => []
  | t :: ts => toJson t :: toItems ts

end

/-- The body of a stored program. -/
def ofProgramJson (j : Json) : Except TreeError Tree :=
  match j.get? "type" with
  | some (.str "Program") =>
    match j.get? "body" with
    | some b => ofJson b
    | none => .error .noBody
  | _ => .error .notProgram

/-- The stored form of a program with the given body. -/
def toProgramJson (body : Tree) : Json :=
  .obj [("type", .str "Program"), ("body", body.toJson)]

end Tree

end Hantec

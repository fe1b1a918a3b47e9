import Hantec.Path
import Hantec.Text.Quoted
import Hantec.Text.Utf8

/-!
# Disks

A disk is a tree of directories and files below one home directory, which is also the
working directory. Of what lies outside, only the directories on the way from
the root to the home exist.
-/

namespace Hantec

inductive DiskCause where
  | noEntry
  | notDirectory
  | isDirectory
  | nameTooLong
  deriving DecidableEq, Repr

namespace DiskCause

def number : DiskCause → Nat
  | .noEntry => 2
  | .notDirectory => 20
  | .isDirectory => 21
  | .nameTooLong => 36

def text : DiskCause → String
  | .noEntry => "No such file or directory"
  | .notDirectory => "Not a directory"
  | .isDirectory => "Is a directory"
  | .nameTooLong => "File name too long"

end DiskCause

/-- A failed operation and the path that it was asked for. -/
structure DiskError where
  cause : DiskCause
  path : String
  deriving DecidableEq, Repr

def DiskError.message (e : DiskError) : String :=
  s!"[Errno {e.cause.number}] {e.cause.text}: {Text.quote e.path}"

/-- What an entry of a disk is. -/
inductive DiskNode where
  | dir
  | file (bytes : List UInt8)
  deriving DecidableEq, Repr

/-- No two entries have the same path. -/
class DistinctPaths (nodes : List (List String × DiskNode)) : Prop where
  nodup : (nodes.map Prod.fst).Nodup

instance : DistinctPaths [] := ⟨List.nodup_nil⟩

/-- The entries below the home, each with its path from there. -/
structure Disk where
  home : List String
  nodes : List (List String × DiskNode)
  [distinct : DistinctPaths nodes]

attribute [instance] Disk.distinct

namespace Disk

/-- The path from the home to a place below it. -/
def belowHome? : List String → List String → Option (List String)
  | [], place => some place
  | _ :: _, [] => none
  | h :: hs, p :: ps => if h = p then belowHome? hs ps else none

/-- What stands at a place, which is given by its parts from the root on. -/
def nodeAt (d : Disk) (place : List String) : Option DiskNode :=
  if place.isPrefixOf d.home then some .dir
  else (belowHome? d.home place).bind fun key => d.nodes.lookup key

/-- The longest name of an entry, in bytes. -/
def nameLimit : Nat := 255

/-- The longest path, in bytes. -/
def pathLimit : Nat := 4095

/-- Goes from a place along the parts of a path. A missing last part is reported as nothing at
the place where it would stand. -/
def walk (d : Disk) (place : List String) :
    List String → Except DiskCause (List String × Option DiskNode)
  | [] => .ok (place, d.nodeAt place)
  | p :: ps =>
    match d.nodeAt place with
    | none => .error .noEntry
    | some (.file _) => .error .notDirectory
    | some .dir =>
      if p == "" || p == "." then walk d place ps
      else if p == ".." then walk d place.dropLast ps
      else if nameLimit < p.utf8ByteSize then .error .nameTooLong
      else walk d (place ++ [p]) ps

/-- The place that a path leads to, and what stands there. -/
def resolve (d : Disk) (path : String) : Except DiskCause (List String × Option DiskNode) :=
  if path.isEmpty then .error .noEntry
  else if pathLimit < path.utf8ByteSize then .error .nameTooLong
  else d.walk (if Path.isAbsolute path then [] else d.home) (Path.rawParts path)

/-- What a path leads to. -/
def find (d : Disk) (path : String) : Except DiskError DiskNode :=
  match d.resolve path with
  | .ok (_, some n) => .ok n
  | .ok (_, none) => .error ⟨.noEntry, path⟩
  | .error e => .error ⟨e, path⟩

def exists? (d : Disk) (path : String) : Bool := (d.find path).toOption.isSome

def readBytes (d : Disk) (path : String) : Except DiskError (List UInt8) :=
  match d.find path with
  | .ok (.file bs) => .ok bs
  | .ok .dir => .error ⟨.isDirectory, path⟩
  | .error e => .error e

/-- Replaces or adds the entry with the given path from the home. -/
def putNode (key : List String) (n : DiskNode) :
    List (List String × DiskNode) → List (List String × DiskNode)
  | [] => [(key, n)]
  | e :: es => if e.1 = key then (key, n) :: es else e :: putNode key n es

theorem keys_putNode (key : List String) (n : DiskNode) (es : List (List String × DiskNode)) :
    (putNode key n es).map Prod.fst =
      if key ∈ es.map Prod.fst then es.map Prod.fst else es.map Prod.fst ++ [key] := by
  induction es with
  | nil => rfl
  | cons e es ih =>
    rw [putNode]
    by_cases he : e.1 = key
    · simp [he]
    · rw [if_neg he, List.map_cons, ih, List.map_cons]
      split
      case isTrue h => simp [h]
      case isFalse h => simp [h, Ne.symm he]

instance (key : List String) (n : DiskNode) (es : List (List String × DiskNode))
    [hes : DistinctPaths es] : DistinctPaths (putNode key n es) where
  nodup := by
    rw [keys_putNode]
    split
    case isTrue => exact hes.nodup
    case isFalse hnew =>
      refine List.nodup_append.2 ⟨hes.nodup, by simp, ?_⟩
      rintro a ha b hb rfl
      exact hnew (List.mem_singleton.1 hb ▸ ha)

def put (d : Disk) (key : List String) (n : DiskNode) : Disk := ⟨d.home, putNode key n d.nodes⟩

/-- The bytes become the content of a file, which is made if it is not there. -/
def writeBytes (d : Disk) (path : String) (bs : List UInt8) : Except DiskError Disk :=
  match d.resolve path with
  | .error e => .error ⟨e, path⟩
  | .ok (_, some .dir) => .error ⟨.isDirectory, path⟩
  | .ok (place, _) =>
    match belowHome? d.home place with
    | some key => .ok (d.put key (.file bs))
    | none => .error ⟨.noEntry, path⟩

/-- The bytes of a file after others have been written over it from `offset` on. A gap is filled
with zeros. -/
def overwrite (old : List UInt8) (offset : Nat) (new : List UInt8) : List UInt8 :=
  old.take offset ++ List.replicate (offset - old.length) 0 ++ new
    ++ old.drop (offset + new.length)

/-- Writes into a file from `offset` on. -/
def writeAt (d : Disk) (path : String) (offset : Nat) (bs : List UInt8) : Except DiskError Disk :=
  d.writeBytes path (overwrite ((d.readBytes path).toOption.getD []) offset bs)

/-- The name of a path from the home if it stands directly in the directory `dir`. -/
def childOf? : List String → List String → Option String
  | [], [name] => some name
  | k :: ks, p :: ps => if k = p then childOf? ks ps else none
  | _, _ => none

/-- The names in the directory at a place. -/
def children (d : Disk) (place : List String) : List String :=
  match belowHome? d.home place with
  | some dir => d.nodes.filterMap fun (key, _) => childOf? dir key
  | none => (d.home.drop place.length).take 1

/-- The names in a directory, in the order of their characters. -/
def list (d : Disk) (path : String) : Except DiskError (List String) :=
  match d.resolve path with
  | .error e => .error ⟨e, path⟩
  | .ok (_, none) => .error ⟨.noEntry, path⟩
  | .ok (_, some (.file _)) => .error ⟨.notDirectory, path⟩
  | .ok (place, some .dir) => .ok ((d.children place).mergeSort (fun a b => !(b < a)))

/-- The number of directories in the directory at a place. -/
def subdirectories (d : Disk) (place : List String) : Nat :=
  ((d.children place).filter fun name => d.nodeAt (place ++ [name]) == some .dir).length

def homeText (d : Disk) : String := Path.render "/" d.home

/-- Adds a directory and those above it. -/
def addDir (d : Disk) (key : List String) : Disk :=
  (List.range key.length).foldl (fun d i =>
    let dir := key.take (i + 1)
    if (d.nodes.lookup dir).isSome then d else d.put dir .dir) d

/-- Adds a file and the directories above it. -/
def addFile (d : Disk) (key : List String) (bs : List UInt8) : Disk :=
  let d := d.addDir key.dropLast
  d.put key (.file bs)

/-- The files with their paths from the home. -/
def files (d : Disk) : List (String × List UInt8) :=
  d.nodes.filterMap fun (key, n) =>
    match n with
    | .file bs => some ("/".intercalate key, bs)
    | .dir => none

end Disk

/-- Line ends of two characters or of a carriage return become single line feeds. -/
def unifyLines : List Char → List Char
  | '\r' :: '\n' :: cs => '\n' :: unifyLines cs
  | '\r' :: cs => '\n' :: unifyLines cs
  | c :: cs => c :: unifyLines cs
  | [] => []

/-- The text that the bytes of a file hold. -/
def fileText (bs : List UInt8) : Except Text.Utf8Error String := do
  return String.ofList (unifyLines (← Text.decodeUtf8 bs).toList)

end Hantec

import Hantec.Run.Builtins.Core

/-!
# Builtins on files

Scripts can use files only if they are allowed to. Each operation is done by a worker.
-/

namespace Hantec

/-- Goes on only if scripts may use files, and then with a settled disk. -/
def checkFileAccess : Proc Unit := do
  if (← Proc.config).fileAccess then Proc.settleTrace
  else
    Proc.raiseError "CapabilityError" "filesystem access is disabled (run with --unsafe-fs)"

/-- Has a worker do something on the disk. -/
def onDisk {α : Type} (f : Disk → α) : Proc α := do
  checkFileAccess
  let a ← Proc.onWorld fun w => (f w.disk, w)
  Proc.wait .worker
  return a

/-- Raises what went wrong with a path. -/
def diskFailure {α : Type} (verb path : String) (e : DiskError) : Proc α :=
  Proc.raiseError "IOError" s!"cannot {verb} {path}: {e.cause.text}"

/-- Whether the path has a character that none can have. -/
def hasNullByte (path : String) : Bool := path.toList.contains '\x00'

def readFile (path : String) : Proc Value := do
  let bytes ← onDisk (·.readBytes (Path.normal path))
  if hasNullByte path then Proc.fault .nullByte
  else
    match bytes with
    | .error e => diskFailure "read" path e
    | .ok bytes =>
      match fileText bytes with
      | .ok s => return .str s
      | .error e => Proc.fault (.utf8 e)

/-- Writes to a file and tells what went wrong, if anything did. -/
def writeTo (path data : String) (w : World) : Option DiskError × World :=
  match w.disk.writeBytes path (Text.encodeUtf8 data) with
  | .ok disk => (none, { w with disk := disk })
  | .error e => (some e, w)

def writeFile (path data : String) : Proc Value := do
  checkFileAccess
  if hasNullByte path then
    Proc.wait .worker
    Proc.fault .nullByte
  else
    let failure ← Proc.onWorld (writeTo (Path.normal path) data)
    Proc.wait .worker
    match failure with
    | none => return .bool true
    | some e => diskFailure "write" path e

def listDirectory (path : String) : Proc Value := do
  let names ← onDisk (·.list path)
  if hasNullByte path then Proc.fault .nullByte
  else
    match names with
    | .error e => diskFailure "list" path e
    | .ok names => Proc.newArray (names.map .str)

/-- The size, the mode and the number of links of an entry. -/
def entryNumbers (disk : Disk) (path : String) : DiskNode → Nat × Nat × Nat
  | .file bytes => (bytes.length, 0o100644, 1)
  | .dir =>
    let inside := ((disk.resolve path).toOption.map fun p => disk.subdirectories p.1).getD 0
    (4096, 0o40755, 2 + inside)

/-- What is known about an entry of a disk. All its times are the given one. -/
def entryInfo (disk : Disk) (path : String) (clock : Float) (node : DiskNode) :
    List (String × Value) :=
  let (size, mode, links) := entryNumbers disk path node
  let number (n : Nat) : Value := .num (Float.ofNat n)
  let time := Calendar.timestamp ((Number.trunc? clock).getD 0).toNat
  [("isFile", .bool (node != .dir)), ("isDirectory", .bool (node == .dir)),
   ("size", number size), ("dev", number 1), ("ino", number 1), ("mode", number mode),
   ("nlink", number links), ("uid", number 0), ("gid", number 0), ("rdev", number 0),
   ("blksize", number 4096), ("blocks", number ((size + 4095) / 4096 * 8)),
   ("atimeMs", .num clock), ("mtimeMs", .num clock), ("ctimeMs", .num clock),
   ("birthtimeMs", .num clock), ("atime", .str time), ("mtime", .str time),
   ("ctime", .str time), ("birthtime", .str time)]

def fileInfo (path : String) : Proc Value := do
  let found ← onDisk fun disk => (disk.find path).map (disk, ·)
  if hasNullByte path then Proc.fault .nullByte
  else
    match found with
    | .error e => diskFailure "stat" path e
    | .ok (disk, node) => do
      let clock ← Proc.onWorld fun w => (w.clock, w)
      Proc.newObject (Dict.ofList (entryInfo disk path clock node))

def FileFn.run (f : FileFn) (args : List Value) : Proc Value :=
  match f with
  | .exists => do
    let path ← textArgument args 0
    return .bool (← onDisk fun disk => !hasNullByte path && disk.exists? path)
  | .read => do readFile (← textArgument args 0)
  | .write => do
    let path ← textArgument args 0
    writeFile path (← textArgument args 1)
  | .list => do listDirectory (← textArgument args 0)
  | .info => do fileInfo (← textArgument args 0)

end Hantec

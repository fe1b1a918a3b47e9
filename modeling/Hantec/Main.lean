import Hantec.Cli.Command
import Std.Time.DateTime.Timestamp

/-!
# The program

The outer layer of the command line: it takes the files below the working directory, runs the
command on them, prints what the command prints, and writes back the files that have changed.
-/

namespace Hantec.Cli

/-- More moves than any command takes. -/
def moveLimit : Nat := Nat.pow 2 60

/-- Adds an entry of a directory, with all that is in it, to a disk. -/
partial def addEntry (key : List String) (d : Disk) (e : IO.FS.DirEntry) : IO Disk := do
  let key := key ++ [e.fileName]
  try
    match (← e.path.symlinkMetadata).type with
    | .dir => (← e.path.readDir).foldlM (addEntry key) (d.addDir key)
    | .file => return d.addFile key (← IO.FS.readBinFile e.path).toList
    | _ => return d
  catch _ => return d

/-- The files below the working directory. -/
def readDisk : IO Disk := do
  let dir ← IO.currentDir
  (← dir.readDir).foldlM (addEntry []) ⟨Path.parts dir.toString, []⟩

/-- Writes the files that have changed. -/
def writeDisk (old new : Disk) : IO Unit := do
  for (path, bytes) in new.files do
    if old.files.lookup path != some bytes then
      IO.FS.createDirAll (Path.directory path)
      IO.FS.writeBinFile path ⟨bytes.toArray⟩

/-- A name and its value, divided by an equals sign. -/
def readVariable (text : String) : String × String :=
  let cs := text.toList
  (String.ofList (cs.takeWhile (· != '=')), String.ofList ((cs.dropWhile (· != '=')).drop 1))

/-- The variables of the process, where they can be read. -/
def readEnvironment : IO (List (String × String)) := do
  try
    let bytes ← IO.FS.readBinFile "/proc/self/environ"
    return (Text.split (Text.decodeLenient bytes.toList) "\x00").map readVariable
  catch _ => return []

/-- The world as it is now. Pages of the web are out of reach. -/
def readWorld : IO World := do
  let now ← Std.Time.Timestamp.now
  let seed ← IO.getRandomBytes 8
  return {
    output := #[]
    disk := ← readDisk
    web := .empty
    environment := ← readEnvironment
    clock := Float.ofInt now.toMillisecondsSinceUnixEpoch.val
    seed := seed.toList.foldl (fun n b => 256 * n + b.toNat) 0 }

/-- Prints what has been printed since the last time. -/
def flushOutput (w : World) : IO World := do
  IO.print w.outputText
  (← IO.getStdout).flush
  return { w with output := #[] }

/-- The status of the process for a failure that nothing has caught. -/
def failureStatus (f : Failure) : IO UInt32 := do
  match f with
  | .exit code => return (code % 256).toNat.toUInt32
  | .fault f => IO.eprintln f.message
  | .overflow => IO.eprintln "nested without an end"
  | .raised _ _ => pure ()
  return 1

/-- Asks for lines and takes them until there are no more. -/
partial def converse (p : Prompt) : IO UInt32 := do
  let w ← flushOutput (p.state.world.print promptText)
  let p := { p with state := { p.state with world := w } }
  let line ← (← IO.getStdin).getLine
  if line.isEmpty then
    IO.println ""
    return 0
  else
    match p.feed moveLimit line with
    | none => return 1
    | some (failure, q) =>
      let w ← flushOutput q.state.world
      q.reports.forM (IO.eprint ·)
      writeDisk p.state.world.disk w.disk
      match failure with
      | some f => failureStatus f
      | none => converse { q with state := { q.state with world := w }, reports := #[] }

def startPrompt (o : Options) (w : World) : IO UInt32 := do
  match State.start (o.config none) w with
  | .error e => failureStatus (.fault (.disk e))
  | .ok s =>
    writeDisk w.disk s.world.disk
    converse (.start s)

/-- Runs a command that needs no input. -/
def runCommand (args : List String) (w : World) : IO UInt32 := do
  match run moveLimit args w "" with
  | none => return 1
  | some e =>
    let after ← flushOutput e.world
    IO.eprint e.errors
    writeDisk w.disk after.disk
    match e.result with
    | .ok status => return (status % 256).toNat.toUInt32
    | .error f => failureStatus f

end Hantec.Cli

def main (args : List String) : IO UInt32 := do
  let w ← Hantec.Cli.readWorld
  match Hantec.Cli.Options.read args with
  | .ok o =>
    if o.startsPrompt then Hantec.Cli.startPrompt o w else Hantec.Cli.runCommand args w
  | .error _ => Hantec.Cli.runCommand args w

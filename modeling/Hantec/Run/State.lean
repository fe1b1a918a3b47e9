import Hantec.Heap
import Hantec.Loader

/-!
# The state of a run

A run changes a heap and the world around it. Some settings are fixed when it starts.
-/

namespace Hantec

/-- What is fixed when a run starts. -/
structure Config where
  loader : Loader
  /-- Whether imported sources can be compiled. -/
  compiles : Bool
  /-- How much is traced. -/
  traceLevel : Nat
  /-- Whether scripts may use files. -/
  fileAccess : Bool
  arguments : List String

/-- A trace on its way to its file. -/
structure Trace where
  /-- How far the file has been written. -/
  offset : Nat
  /-- The lines that are still to be written, the last one first. -/
  pending : List String

namespace Trace

def start : Trace := ⟨0, []⟩

def add (t : Trace) (line : String) : Trace := { t with pending := line :: t.pending }

/-- The bytes that are still to be written. -/
def pendingBytes (t : Trace) : List UInt8 :=
  Text.encodeUtf8 (t.pending.reverse.foldl (fun text line => text ++ line ++ "\n") "")

/-- The file that a trace goes to. -/
def file : String := "debug.txt"

/-- Writes what is pending to the disk. -/
def settle (t : Trace) (d : Disk) : Trace × Disk :=
  if t.pending.isEmpty then (t, d)
  else
    let bytes := t.pendingBytes
    match d.writeAt file t.offset bytes with
    | .ok d => (⟨t.offset + bytes.length, []⟩, d)
    | .error _ => (⟨t.offset, []⟩, d)

end Trace

structure State where
  config : Config
  heap : Heap
  world : World
  /-- The trace, if there is one. -/
  traced : Option Trace
  /-- Whether a line of the trace is missing because a value in it has no text. -/
  torn : Bool

namespace State

def trace (s : State) (line : String) : State :=
  { s with traced := s.traced.map (·.add line) }

def tear (s : State) : State := { s with torn := true }

/-- Writes the trace to its file as far as it goes. This is done before anything reads a file
and at the end of a run. -/
def settle (s : State) : State :=
  match s.traced with
  | none => s
  | some t =>
    let (t, d) := t.settle s.world.disk
    { s with world := { s.world with disk := d }, traced := some t }

/-- The state of a fresh run. Its trace starts as an empty file. -/
def start (config : Config) (world : World) : Except DiskError State :=
  if config.traceLevel = 0 then .ok ⟨config, .initial, world, none, false⟩
  else do
    let disk ← world.disk.writeBytes Trace.file []
    return ⟨config, .initial, { world with disk := disk }, some .start, false⟩

end State

end Hantec

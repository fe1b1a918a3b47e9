import Hantec.Fault
import Hantec.Value
import Hantec.World

/-!
# Loading modules

Modules come from any function of their path, from files below a directory, or from the web. A
loader may make the program wait before it answers, and others have their turn while it does.
-/

namespace Hantec

/-- What a name stands for in a table of modules: a source, or a value to be thrown. -/
inductive Module where
  | source (text : String)
  | thrown (d : Datum)

/-- Why a module is not loaded. -/
inductive LoadError where
  | thrown (d : Datum)
  | fault (f : Fault)

/-- Where imported modules come from. -/
inductive Loader where
  | absent
  /-- A function of the path, which sleeps for some milliseconds, one time after the other, before
  it answers. -/
  | function (naps : String → List Float) (answer : String → Except LoadError String)
  /-- Files, relative to a directory or to the working directory. -/
  | files (base : Option String)
  /-- Addresses, relative to a base address if there is one. -/
  | web (base : Option String) (follows : Bool)
  /-- Addresses from the web, all else from files. -/
  | site (base : Option String) (follows : Bool)

/-- Whether a path is an address of the web. -/
def isUrl (path : String) : Bool := path.startsWith "http://" || path.startsWith "https://"

namespace World

def readText (w : World) (path : String) : Except Fault String :=
  if path.toList.contains '\x00' then .error .nullByte
  else
    match w.disk.readBytes path with
    | .error e => .error (.disk e)
    | .ok bytes =>
      match fileText bytes with
      | .ok text => .ok text
      | .error e => .error (.utf8 e)

/-- The text of a file relative to a directory. An empty one stands for the working directory. -/
def readBelow (w : World) (base : Option String) (path : String) : Except Fault String :=
  match base with
  | some dir => w.readText (Path.under (if dir.isEmpty then w.disk.homeText else dir) path)
  | none => w.readText (Path.under w.disk.homeText path)

/-- The text at an address relative to a base. -/
def fetch (w : World) (base : Option String) (follows : Bool) (path : String) :
    World × Except Fault String :=
  let url := match base with
    | some b => Url.join b path
    | none => path
  match w.web.fetch follows url with
  | (web, .ok text) => ({ w with web := web }, .ok text)
  | (web, .error e) => ({ w with web := web }, .error (.web e))

end World

namespace Loader

/-- Modules from a table, without any wait. -/
def table (modules : List (String × Module)) : Loader :=
  .function (fun _ => []) fun path =>
    match modules.lookup path with
    | some (.source text) => .ok text
    | some (.thrown d) => .error (.thrown d)
    | none => .error (.fault (.noModule path))

def isAbsent : Loader → Bool
  | .absent => true
  | _ => false

def ofFault : Except Fault String → Except LoadError String
  | .ok text => .ok text
  | .error f => .error (.fault f)

/-- What a program waits for until the loader answers. -/
def waits : Loader → String → List Delay
  | .absent, _ | .files _, _ => []
  | .function naps _, path => (naps path).map sleepDelay
  | .web _ _, _ => [.worker]
  | .site _ _, path => if isUrl path then [.worker] else []

/-- The source of a module. -/
def load (l : Loader) (path : String) (w : World) : World × Except LoadError String :=
  match l with
  | .absent => (w, .error (.fault (.noModule path)))
  | .function _ answer => (w, answer path)
  | .files base => (w, ofFault (w.readBelow base path))
  | .web base follows =>
    let (w, r) := w.fetch base follows path
    (w, ofFault r)
  | .site base follows =>
    if isUrl path then
      let (w, r) := w.fetch none follows path
      (w, ofFault r)
    else (w, ofFault (w.readBelow base path))

end Loader

end Hantec

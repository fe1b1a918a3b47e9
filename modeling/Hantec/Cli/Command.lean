import Hantec.Cli.Options
import Hantec.Cli.Prompt
import Hantec.Json.Writer
import Hantec.Program.Tree
import Hantec.Tree.Json

/-!
# Commands

A command runs a program file or a file with the tree of a program, writes such a tree, or
starts the prompt.
-/

namespace Hantec.Cli

/-- What has come of a command: its exit status, or a failure that nothing has caught. -/
structure Ended where
  world : World
  /-- The text on the error output. -/
  errors : String
  result : Except Failure Int

namespace Ended

def exit (w : World) (errors : String) (status : Int) : Ended := ⟨w, errors, .ok status⟩

/-- An exit that a script asks for is the status. -/
def fail (w : World) (errors : String) (f : Failure) : Ended :=
  match f with
  | .exit code => ⟨w, errors, .ok code⟩
  | f => ⟨w, errors, .error f⟩

end Ended

/-- The source at a path in normal form, unless there is nothing. -/
def readSource (w : World) (path : String) : Except Ended String :=
  let missing := Ended.exit w s!"Error: file {path} not found\n" 1
  if path.toList.contains '\x00' then .error missing
  else
    match w.disk.find path with
    | .error ⟨.nameTooLong, p⟩ => .error (.fail w "" (.fault (.disk ⟨.nameTooLong, p⟩)))
    | .error _ => .error missing
    | .ok _ =>
      match w.readText path with
      | .ok text => .ok text
      | .error f => .error (.fail w "" (.fault f))

/-- The program at a path in normal form. -/
def readProgram (w : World) (path : String) : Except Ended (List Stmt) := do
  match parseProgram (← readSource w path) with
  | .ok program => return program
  | .error e => .error (.exit w (e.message ++ "\n") 1)

/-- The program whose tree stands at a path in normal form. -/
def readTree (w : World) (path : String) : Except Ended (List Stmt) := do
  match Json.parse (← readSource w path) with
  | .error e => .error (.fail w "" (.fault (.json e)))
  | .ok j =>
    match Tree.ofProgramJson j with
    | .error e => .error (.fail w "" (.fault (.tree e)))
    | .ok body => return Tree.toProgram body

def fileDirectory (w : World) (path : String) : String :=
  match w.disk.resolve path with
  | .ok (place, _) => Path.render "/" place.dropLast
  | .error _ => w.disk.homeText

def Options.config (o : Options) (base : Option String) : Config :=
  { loader := .site base true
    compiles := true
    traceLevel := o.verbosity
    fileAccess := o.fileAccess
    arguments := o.arguments }

def runProgram (limit : Nat) (o : Options) (w : World) (path : String) (program : List Stmt) :
    Option Ended :=
  match State.start (o.config (some (fileDirectory w path))) w with
  | .error e => some (.fail w "" (.fault (.disk e)))
  | .ok s =>
    (s.run limit program).map fun e =>
      let w := e.state.world
      match e.result with
      | .ok () => .exit w "" 0
      | .error f =>
        match Prompt.failureReport e.state.heap f with
        | .ok text => .exit w text 1
        | .error f => .fail w "" f

/-- Writes the tree of the program at a path into a file beside it. -/
def emitTree (w : World) (path : String) : Ended :=
  match readProgram w path with
  | .error e => e
  | .ok program =>
    let target := path ++ ".ast.json"
    let text := (Tree.toProgramJson (programJsonTree program)).render
    match w.disk.writeBytes target (Text.encodeUtf8 text) with
    | .error e => .fail w "" (.fault (.disk e))
    | .ok disk => .exit ({ w with disk := disk }.print (target ++ "\n")) "" 0

def runPrompt (limit : Nat) (o : Options) (w : World) (input : String) : Option Ended :=
  match State.start (o.config none) w with
  | .error e => some (.fail w "" (.fault (.disk e)))
  | .ok s =>
    ((Prompt.start s).run limit (lines input)).map fun (failure, p) =>
      let errors := p.reports.foldl (· ++ ·) ""
      match failure with
      | none => .exit p.state.world errors 0
      | some f => .fail p.state.world errors f

/-- The text, unless it is empty. -/
def nonempty? (s : Option String) : Option String := s.filter (!·.isEmpty)

/-- Whether no file is given, so that the prompt is to start. -/
def Options.startsPrompt (o : Options) : Bool :=
  (nonempty? o.emitTree).isNone && (nonempty? o.runTree).isNone && (nonempty? o.program).isNone

/-- Does what the options ask for. -/
def perform (limit : Nat) (o : Options) (w : World) (input : String) : Option Ended :=
  match nonempty? o.emitTree, nonempty? o.runTree, nonempty? o.program with
  | some path, _, _ => some (emitTree w (Path.normal path))
  | none, some path, _ =>
    match readTree w (Path.normal path) with
    | .ok program => runProgram limit o w (Path.normal path) program
    | .error e => some e
  | none, none, some path =>
    match readProgram w (Path.normal path) with
    | .ok program => runProgram limit o w (Path.normal path) program
    | .error e => some e
  | none, none, none => runPrompt limit o w input

/-- Runs a command. There is no answer if it takes more than `limit` moves. -/
def run (limit : Nat) (args : List String) (w : World) (input : String) : Option Ended :=
  match Options.read args with
  | .ok o => perform limit o w input
  | .error .help => some (.exit (w.print helpText) "" 0)
  | .error (.wrong e) => some (.exit w e.report 2)

end Hantec.Cli

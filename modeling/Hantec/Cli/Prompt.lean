import Hantec.Session

/-!
# The prompt

Lines are collected until one of them ends an entry. The entry is then run, unless it breaks off
in the middle: then further lines belong to it.
-/

namespace Hantec.Cli

/-- What is asked before each line. -/
def promptText : String := "brn> "

/-- The word that ends a statement, backwards. -/
def endWord : List Char := "piča".toList.reverse

/-- Whether a line, given backwards and without the blanks at its end, ends an entry. -/
def endsEntryBackwards (cs : List Char) : Bool :=
  cs.head? == some '}' ||
    (endWord.isPrefixOf cs && !(cs.drop endWord.length).head?.any Text.isWord)

def endsEntry (line : String) : Bool :=
  endsEntryBackwards (line.toList.reverse.dropWhile Text.isBlank)

/-- A prompt between two lines. -/
structure Prompt where
  state : State
  /-- The lines of the entry so far. -/
  buffer : String
  /-- What has been reported, piece by piece. -/
  reports : Array String

namespace Prompt

def start (s : State) : Prompt := ⟨s, "", #[]⟩

def report (p : Prompt) (text : String) : Prompt := { p with reports := p.reports.push text }

/-- What is reported of a failed program, if it is a raised value. -/
def failureReport (h : Heap) : Failure → Except Failure String
  | .raised v line =>
    match Failure.report h v line with
    | .ok text => .ok s!"Runtime error: {text}\n"
    | .error t => .error t.toFailure
  | f => .error f

/-- How it goes on after an entry was run. The failure is one that ends the prompt. -/
def ran (p : Prompt) (e : Ending Unit) : Option Failure × Prompt :=
  let p := { p with state := e.state, buffer := "" }
  match e.result with
  | .ok () => (none, p)
  | .error f =>
    match failureReport e.state.heap f with
    | .ok text => (none, p.report text)
    | .error f => (some f, p)

/-- Takes a line. There is no answer if the entry takes more than `limit` moves. -/
def feed (limit : Nat) (p : Prompt) (line : String) : Option (Option Failure × Prompt) :=
  let p := { p with buffer := p.buffer ++ (if line.endsWith "\n" then line else line ++ "\n") }
  if !endsEntry line then some (none, p)
  else
    match parseProgram p.buffer with
    | .error e =>
      if e.isIncomplete then some (none, p)
      else some (none, { p with buffer := "" }.report (e.message ++ "\n"))
    | .ok program => (p.state.run limit program).map p.ran

/-- Prints to the output of the session. -/
def print (p : Prompt) (text : String) : Prompt :=
  { p with state := { p.state with world := p.state.world.print text } }

/-- Asks for and takes all the lines, and says good-bye when there are no more. -/
def run (limit : Nat) (p : Prompt) : List String → Option (Option Failure × Prompt)
  | [] => some (none, (p.print promptText).print "\n")
  | line :: lines =>
    match (p.print promptText).feed limit line with
    | some (none, p) => p.run limit lines
    | r => r

end Prompt

/-- The lines of a text, each with its line end; `line` holds the last one so far, backwards. -/
def linesFrom (line : List Char) : List Char → List String
  | [] => if line.isEmpty then [] else [String.ofList line.reverse]
  | '\n' :: cs => String.ofList ('\n' :: line).reverse :: linesFrom [] cs
  | c :: cs => linesFrom (c :: line) cs

/-- The lines of a text, each with its line end. -/
def lines (text : String) : List String := linesFrom [] text.toList

end Hantec.Cli

import Hantec.Text.Digit
import Hantec.Text.Quoted

/-!
# Options of the command line

The arguments of a command are read as switches and plain words. Long switches can be shortened
as long as only one of them is meant, and short ones can be written together. The plain words
of the first group without a switch in between are the program and the arguments of the script;
a double dash ends the switches.
-/

namespace Hantec.Cli

inductive Switch where
  | help
  | verbose
  | fileAccess
  | emitTree
  | runTree
  deriving DecidableEq, Repr

namespace Switch

/-- The ways to write the switches. -/
def spellings : List (String × Switch) :=
  [("-h", .help), ("--help", .help), ("-v", .verbose), ("--unsafe-fs", .fileAccess),
   ("--emit-ast", .emitTree), ("--ast", .runTree)]

/-- All spellings of a switch, as messages name it. -/
def title (s : Switch) : String :=
  "/".intercalate ((spellings.filter (·.2 == s)).map Prod.fst)

def takesValue : Switch → Bool
  | .emitTree | .runTree => true
  | _ => false

end Switch

/-- What is wrong with the arguments. -/
inductive OptionError where
  | ambiguous (given : String) (spellings : List String)
  | ignoredValue (s : Switch) (value : String)
  | missingValue (s : Switch)
  | conflict (s other : Switch)
  | unrecognized (words : List String)
  deriving DecidableEq, Repr

def OptionError.message : OptionError → String
  | .ambiguous given spellings =>
    let list := ", ".intercalate spellings
    s!"ambiguous option: {given} could match {list}"
  | .ignoredValue s value => s!"argument {s.title}: ignored explicit argument {Text.quote value}"
  | .missingValue s => s!"argument {s.title}: expected one argument"
  | .conflict s other => s!"argument {s.title}: not allowed with argument {other.title}"
  | .unrecognized words => "unrecognized arguments: " ++ " ".intercalate words

/-- Why no options are read: help is asked for, or something is wrong. -/
inductive OptionStop where
  | help
  | wrong (e : OptionError)
  deriving DecidableEq, Repr

/-- What an argument is; `attached` is the rest of the word of a switch. -/
inductive Word where
  | plain
  /-- The double dash that ends the switches. -/
  | divider
  | switch (s : Switch) (short : Bool) (attached : Option (List Char))
  | unknown
  deriving DecidableEq, Repr

/-- Digits, with a point before the last ones or without one. -/
def isUnsignedNumber (cs : List Char) : Bool :=
  match cs.dropWhile Text.isDecimal with
  | [] => !cs.isEmpty
  | '.' :: ds => !ds.isEmpty && ds.all Text.isDecimal
  | _ => false

/-- Whether a word is a negative number. One line end may follow. -/
def isNegativeNumber (cs : List Char) : Bool :=
  match cs with
  | '-' :: ds =>
    isUnsignedNumber (if ds.getLast? == some '\n' then ds.dropLast else ds)
  | _ => false

/-- The part of a word before the first equals sign, and what is attached after it. -/
def splitAttached (cs : List Char) : List Char × Option (List Char) :=
  match cs.dropWhile (· != '=') with
  | _ :: value => (cs.takeWhile (· != '='), some value)
  | [] => (cs, none)

/-- The switches that a word can stand for, with their spellings. -/
def candidates (cs : List Char) : List (String × Word) :=
  match cs with
  | '-' :: '-' :: _ =>
    let (start, attached) := splitAttached cs
    Switch.spellings.filterMap fun (name, s) =>
      if start.isPrefixOf name.toList then some (name, .switch s false attached) else none
  | cs =>
    Switch.spellings.filterMap fun (name, s) =>
      if name.toList == cs.take 2 then some (name, .switch s true (some (cs.drop 2)))
      else if cs.isPrefixOf name.toList then some (name, .switch s false none)
      else none

/-- The switch that is spelled out in full. -/
def exactly? (cs : List Char) (attached : Option (List Char)) : Option Word :=
  (Switch.spellings.lookup (String.ofList cs)).map fun s =>
    .switch s (cs[1]? != some '-') attached

/-- What a word that is no exact spelling stands for. -/
def guessWord (cs : List Char) : Except OptionStop Word :=
  match candidates cs with
  | [(_, w)] => .ok w
  | [] => .ok (if isNegativeNumber cs || cs.contains ' ' then .plain else .unknown)
  | many => .error (.wrong (.ambiguous (String.ofList cs) (many.map Prod.fst)))

/-- What a word before the divider is. -/
def readWord (word : String) : Except OptionStop Word :=
  let cs := word.toList
  if cs.head? != some '-' then .ok .plain
  else
    match exactly? cs none with
    | some w => .ok w
    | none =>
      if cs.length == 1 then .ok .plain
      else
        match splitAttached cs with
        | (start, some attached) =>
          match exactly? start (some attached) with
          | some w => .ok w
          | none => guessWord cs
        | (_, none) => guessWord cs

/-- What the words are. -/
def readWords : List String → Except OptionStop (List (String × Word))
  | [] => .ok []
  | "--" :: words => .ok (("--", .divider) :: words.map (·, .plain))
  | word :: words => do
    let w ← readWord word
    return (word, w) :: (← readWords words)

/-- How a word with switches ends. -/
inductive WordEnd where
  /-- The last switch can take the next word as its value. -/
  | pending
  | value (v : String)

/-- The switches that are written together in one word, and how it ends. -/
def expandChars (s : Switch) (short : Bool) :
    List Char → Except OptionStop (List Switch × WordEnd)
  | [] =>
    if s.takesValue then .ok ([s], .value "") else .error (.wrong (.ignoredValue s ""))
  | c :: cs =>
    if s.takesValue then .ok ([s], .value (String.ofList (c :: cs)))
    else
      let next := if short then Switch.spellings.lookup (String.ofList ['-', c]) else none
      match next, cs with
      | none, _ => .error (.wrong (.ignoredValue s (String.ofList (c :: cs))))
      | some t, [] => .ok ([s, t], .pending)
      | some t, d :: ds => do
        let (ts, e) ← expandChars t true (d :: ds)
        return (s :: ts, e)

def expand (s : Switch) (short : Bool) : Option (List Char) →
    Except OptionStop (List Switch × WordEnd)
  | none => .ok ([s], .pending)
  | some cs => expandChars s short cs

/-- What a command is asked to do. -/
structure Options where
  verbosity : Nat
  fileAccess : Bool
  emitTree : Option String
  runTree : Option String
  program : Option String
  arguments : List String
  deriving DecidableEq, Repr

/-- What has been read of the arguments. -/
structure Reading where
  options : Options
  /-- Whether the group of plain words has been read. -/
  grouped : Bool
  /-- Words that nothing can be made of. -/
  extras : List String

namespace Reading

def start : Reading := ⟨⟨0, false, none, none, none, []⟩, false, []⟩

/-- Takes the value of a switch that excludes another one. -/
def setExclusive (s other : Switch) (given : Option String) (r : Reading)
    (set : Options → Options) : Except OptionStop Reading :=
  if given.isSome then .error (.wrong (.conflict s other))
  else .ok { r with options := set r.options }

/-- Does what a switch asks for. -/
def apply (r : Reading) (s : Switch) (value : String) : Except OptionStop Reading :=
  match s with
  | .help => .error .help
  | .verbose => .ok { r with options := { r.options with verbosity := r.options.verbosity + 1 } }
  | .fileAccess => .ok { r with options := { r.options with fileAccess := true } }
  | .emitTree =>
    r.setExclusive .emitTree .runTree r.options.runTree ({ · with emitTree := some value })
  | .runTree =>
    r.setExclusive .runTree .emitTree r.options.emitTree ({ · with runTree := some value })

/-- Does what the switches of one word ask for; the value is that of the last one. -/
def applyAll (r : Reading) (value : String) : List Switch → Except OptionStop Reading
  | [] => .ok r
  | s :: ss => do (← r.apply s value).applyAll value ss

def addExtras (r : Reading) (words : List String) : Reading :=
  { r with extras := r.extras ++ words }

def isDivider (w : String × Bool) : Bool := w.2

/-- The first word of a group and the others. The divider goes with the first word if it stands
next to it. -/
def splitGroup (group : List (String × Bool)) :
    List (String × Bool) × List (String × Bool) :=
  let (before, others) := group.span isDivider
  let (after, rest) := (others.drop 1).span isDivider
  (before ++ others.take 1 ++ after, rest)

/-- The words of a part of a group, without the first double dash. -/
def groupWords (part : List (String × Bool)) : List String := (part.map Prod.fst).erase "--"

/-- Takes a group of plain words, in which the divider is marked. -/
def takeGroup (r : Reading) (group : List (String × Bool)) : Reading :=
  if r.grouped then r.addExtras (group.map Prod.fst)
  else
    let (first, others) := splitGroup group
    { r with
      grouped := true
      options := { r.options with
        program := (groupWords first).head?
        arguments := groupWords others } }

/-- Takes a group in front of a switch. -/
def closeGroup (r : Reading) (group : List (String × Bool)) : Reading :=
  if group.isEmpty then r else r.takeGroup group

end Reading

/-- Reads the words; `group` holds the plain ones since the last switch. -/
def readAll (r : Reading) (group : List (String × Bool)) :
    List (String × Word) → Except OptionStop Reading
  | [] => .ok (r.takeGroup group)
  | (word, .plain) :: words => readAll r (group ++ [(word, false)]) words
  | (word, .divider) :: words => readAll r (group ++ [(word, true)]) words
  | (word, .unknown) :: words => readAll ((r.closeGroup group).addExtras [word]) [] words
  | (_, .switch s short attached) :: words => do
    let r := r.closeGroup group
    let (switches, e) ← expand s short attached
    match e with
    | .value v => readAll (← r.applyAll v switches) [] words
    | .pending =>
      let last := switches.getLastD s
      if last.takesValue then
        match words with
        | (value, .plain) :: words => readAll (← r.applyAll value switches) [] words
        | _ => .error (.wrong (.missingValue last))
      else readAll (← r.applyAll "" switches) [] words

/-- The options that arguments stand for. -/
def Options.read (args : List String) : Except OptionStop Options := do
  let r ← readAll .start [] (← readWords args)
  if r.extras.isEmpty then return r.options else .error (.wrong (.unrecognized r.extras))

def usageText : String :=
  "usage: brno [-h] [-v] [--unsafe-fs]\n"
    ++ "            [--emit-ast BRNO_FILE | --ast AST_JSON_FILE]\n"
    ++ "            [program] [script_args ...]\n"

def helpText : String :=
  usageText ++ "\nBrnoScript interpreter\n\npositional arguments:\n"
    ++ "  program               BrnoScript program file (.brno) to execute\n"
    ++ "  script_args           arguments visible to the script as šichta.argv()\n"
    ++ "\noptions:\n"
    ++ "  -h, --help            show this help message and exit\n"
    ++ "  -v                    increase debug verbosity (can be repeated)\n"
    ++ "  --unsafe-fs           enable the šufle filesystem builtins\n"
    ++ "  --emit-ast BRNO_FILE  emit AST JSON for the given .brno file\n"
    ++ "  --ast AST_JSON_FILE   execute AST from a JSON file\n"

/-- What is printed when the arguments are wrong. -/
def OptionError.report (e : OptionError) : String := usageText ++ s!"brno: error: {e.message}\n"

end Hantec.Cli

import Hantec.Run.Eval

/-!
# Builtins outside the namespaces

Printing, throwing, types, and the makers of arrays and objects.
-/

namespace Hantec

def argument (args : List Value) (i : Nat) : Proc Value :=
  match args[i]? with
  | some v => pure v
  | none => Proc.fault .missingArgument

def textArgument (args : List Value) (i : Nat) : Proc String := do
  Proc.toText (← argument args i)

/-- The number of the argument with number `i`. -/
def numberArgument (args : List Value) (i : Nat) : Proc Float := do
  Proc.toNumber (← argument args i)

def twoArguments (args : List Value) : Proc (Value × Value) :=
  match args with
  | [a, b] => pure (a, b)
  | _ :: _ :: _ => Proc.fault (.tooManyParts 2)
  | args => Proc.fault (.tooFewParts 2 args.length)

def threeArguments (args : List Value) : Proc (Value × Value × Value) :=
  match args with
  | [a, b, c] => pure (a, b, c)
  | _ :: _ :: _ :: _ => Proc.fault (.tooManyParts 3)
  | args => Proc.fault (.tooFewParts 3 args.length)

/-- Throws a value. One that is no error has to have a text. -/
def throwValue (v : Value) : Proc Value := do
  match v with
  | .err _ _ _ => pure ()
  | v => let _ ← Proc.toText v
  Proc.raise v

/-- The entries of an object with the types of the values in place of these. -/
def typeEntries : List (String × Value) → Proc (List (String × Value))
  | [] => pure []
  | (k, v) :: es => do
    let type ← Proc.typeName v
    return (k, .str type) :: (← typeEntries es)

def CoreFn.run (f : CoreFn) (args : List Value) : Proc Value :=
  match f with
  | .print => do
    let v ← argument args 0
    let text ← Proc.ask (·.display v)
    Proc.print (text ++ "\n")
    return .null
  | .now => do return .num ((← Proc.onWorld World.readClock) / 1000)
  | .throw => do throwValue (← argument args 0)
  | .typeName => do
    let v ← argument args 0
    return .str (← Proc.typeName v)
  | .array => Proc.newArray args
  | .object => do
    let entries ← Proc.ask (·.pairEntries args)
    Proc.newObject (Dict.ofList entries)
  | .fieldTypes => do
    match ← argument args 0 with
    | .obj r =>
      let entries ← Proc.ask fun h => .ok (h.object r).entries
      Proc.newObject (Dict.ofList (← typeEntries entries))
    | _ => Proc.newObject .empty

end Hantec

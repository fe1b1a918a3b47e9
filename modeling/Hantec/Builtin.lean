/-!
# Builtins

The functions that every program can use, with their names and the number of arguments that
they take. Most of them are members of a namespace.
-/

namespace Hantec

inductive CoreFn where
  | print | now | throw | typeName | array | object | fieldTypes
  deriving DecidableEq, Repr

inductive TextFn where
  | part | replace | lower | upper | split | join | trim | contains | startsWith | endsWith
  | formatDate
  deriving DecidableEq, Repr

inductive ArrayFn where
  | isArray | get | push | pop | reverse | sort | map | filter | reduce | flatten | length
  deriving DecidableEq, Repr

inductive ObjectFn where
  | empty | get | put | keys | values | pairs | merge
  deriving DecidableEq, Repr

inductive MathFn where
  | abs | round | floor | ceil | power | sqrt | sin | cos | tan | min | max | random
  | randomBetween
  deriving DecidableEq, Repr

inductive TimeFn where
  | now | format | sleep | measure
  deriving DecidableEq, Repr

inductive PatternFn where
  | find | findAll | replace
  deriving DecidableEq, Repr

inductive CryptoFn where
  | uuid | encodeBase64 | decodeBase64 | sha256
  deriving DecidableEq, Repr

inductive ProcessFn where
  | arguments | environment | exit
  deriving DecidableEq, Repr

inductive FileFn where
  | exists | read | write | list | info
  deriving DecidableEq, Repr

inductive Builtin where
  | core (f : CoreFn)
  | text (f : TextFn)
  | array (f : ArrayFn)
  | object (f : ObjectFn)
  | math (f : MathFn)
  | time (f : TimeFn)
  | pattern (f : PatternFn)
  | crypto (f : CryptoFn)
  | process (f : ProcessFn)
  | file (f : FileFn)
  deriving DecidableEq, Repr

namespace Builtin

def namespaces : List (String × List (String × Builtin)) :=
  [("šmirgl", [("typy", .core .fieldTypes)]),
   ("text",
    [("díl", .text .part), ("nahrad", .text .replace), ("malý", .text .lower),
     ("velký", .text .upper), ("řež", .text .split), ("spojuj", .text .join),
     ("trim", .text .trim), ("obsahuje", .text .contains), ("zacina", .text .startsWith),
     ("končí", .text .endsWith), ("formátujDatum", .text .formatDate)]),
   ("šalát",
    [("je", .array .isArray), ("vem", .array .get), ("hoď", .array .push),
     ("sekni", .array .pop), ("otoč", .array .reverse), ("seřaď", .array .sort),
     ("mapuj", .array .map), ("filtruj", .array .filter), ("spočítej", .array .reduce),
     ("placka", .array .flatten), ("dl", .array .length)]),
   ("mapa",
    [("vytvor", .object .empty), ("vem", .object .get), ("dej", .object .put),
     ("keys", .object .keys), ("values", .object .values), ("páry", .object .pairs),
     ("spojit", .object .merge)]),
   ("matyš",
    [("abs", .math .abs), ("kolo", .math .round), ("pod", .math .floor), ("nad", .math .ceil),
     ("moc", .math .power), ("kořen", .math .sqrt), ("sin", .math .sin), ("cos", .math .cos),
     ("tan", .math .tan), ("min", .math .min), ("max", .math .max), ("náhoda", .math .random),
     ("náhodaMezi", .math .randomBetween)]),
   ("čas",
    [("teď", .time .now), ("formát", .time .format), ("usni", .time .sleep),
     ("odměř", .time .measure)]),
   ("regl",
    [("najdi", .pattern .find), ("všeci", .pattern .findAll), ("nahrad", .pattern .replace)]),
   ("krypto",
    [("uuid", .crypto .uuid), ("base64", .crypto .encodeBase64),
     ("zbase64", .crypto .decodeBase64), ("sha256", .crypto .sha256)]),
   ("šichta",
    [("argv", .process .arguments), ("env", .process .environment), ("konec", .process .exit)]),
   ("šufle",
    [("je", .file .exists), ("čti", .file .read), ("piš", .file .write),
     ("seznam", .file .list), ("info", .file .info)])]

/-- The builtins that are not members of a namespace, with the names that are bound to them. -/
def free : List (String × Builtin) :=
  [("vyblij", .core .print), ("řekni", .core .print), ("pisni", .core .print),
   ("fčil", .core .now), ("házej", .core .throw), ("typ", .core .typeName),
   ("__arr", .core .array), ("__obj", .core .object)]

/-- The name inside a namespace. -/
def memberName (members : List (String × Builtin)) (b : Builtin) : Option String :=
  (members.find? (·.2 == b)).map Prod.fst

/-- The full name. -/
def name (b : Builtin) : String :=
  match memberName free b with
  | some s => s
  | none =>
    (namespaces.findSome? fun (space, members) =>
      (memberName members b).map fun member => s!"{space}.{member}").getD ""

def ofName? (s : String) : Option Builtin :=
  match free.lookup s with
  | some b => some b
  | none =>
    namespaces.findSome? fun (space, members) =>
      members.findSome? fun (member, b) => if s == s!"{space}.{member}" then some b else none

/-- The number of arguments, if it is fixed. -/
def arity : Builtin → Option Nat
  | .core .array | .core .object | .array .sort | .math .min | .math .max => none
  | .core .now | .object .empty | .math .random | .time .now | .crypto .uuid
  | .process .arguments => some 0
  | .core _ => some 1
  | .text .part | .text .replace => some 3
  | .text .lower | .text .upper | .text .trim => some 1
  | .text _ => some 2
  | .array .get | .array .push | .array .map | .array .filter => some 2
  | .array .reduce => some 3
  | .array _ => some 1
  | .object .get | .object .merge => some 2
  | .object .put => some 3
  | .object _ => some 1
  | .math .power | .math .randomBetween => some 2
  | .math _ => some 1
  | .time .format => some 2
  | .time _ => some 1
  | .pattern .replace => some 3
  | .pattern _ => some 2
  | .crypto _ => some 1
  | .process _ => some 1
  | .file .write => some 2
  | .file _ => some 1

end Builtin

end Hantec

import Hantec.Pattern.Match

/-!
# Replacement templates

In a template `$$` stands for a dollar sign, `$&` for the whole match and `$` with one or two
digits for a group. Of two digits both count if there is such a group, else the first. All else
stands for itself, and what is put in is not read again.
-/

namespace Hantec.Pattern

/-- The template with its references filled in, for a match with text `whole` and `count` groups. -/
def expand (whole : List Char) (group : Nat → List Char) (count : Nat) : List Char → List Char
  | [] => []
  | '$' :: '$' :: cs => '$' :: expand whole group count cs
  | '$' :: '&' :: cs => whole ++ expand whole group count cs
  | '$' :: c :: d :: cs =>
    match Text.digitValue? c, Text.digitValue? d with
    | some m, some n =>
      if 0 < 10 * m + n && 10 * m + n ≤ count then
        group (10 * m + n) ++ expand whole group count cs
      else if 0 < m && m ≤ count then group m ++ d :: expand whole group count cs
      else '$' :: c :: d :: expand whole group count cs
    | some m, none =>
      if 0 < m && m ≤ count then group m ++ expand whole group count (d :: cs)
      else '$' :: c :: expand whole group count (d :: cs)
    | none, _ => '$' :: expand whole group count (c :: d :: cs)
  | ['$', c] =>
    match Text.digitValue? c with
    | some m => if 0 < m && m ≤ count then group m else ['$', c]
    | none => ['$', c]
  | c :: cs => c :: expand whole group count cs

namespace Compiled

/-- The characters from `p` on with the matches replaced by the filled in template. -/
def replaceFrom (c : Compiled) (text : Array Char) (template : List Char) (p : Nat) :
    List Found → List Char
  | [] => textBetween text p text.size
  | f :: fs =>
    textBetween text p f.start ++ expand (f.text text) (f.group text) c.groupCount template
      ++ replaceFrom c text template f.stop fs

/-- The text with every match replaced by the filled in template. -/
def replace (c : Compiled) (text template : String) : String :=
  let chars := text.toList.toArray
  String.ofList (c.replaceFrom chars template.toList 0 (c.all chars))

def findFirst (c : Compiled) (text : String) : Option String :=
  let chars := text.toList.toArray
  (c.search chars).map fun f => String.ofList (f.text chars)

def findAll (c : Compiled) (text : String) : List String :=
  let chars := text.toList.toArray
  (c.all chars).map fun f => String.ofList (f.text chars)

end Compiled

end Hantec.Pattern

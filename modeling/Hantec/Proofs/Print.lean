import Hantec.Proofs.Grammar

/-!
# Written programs

How a program is written with one blank between words and with parentheses around every
expression that is more than a literal or a name. The programs that can be written are the
well-formed ones: their names are no keywords, their texts have no quotes, and their parts
stand where the grammar has room for them.
-/

namespace Hantec

/-! ## Words -/

/-- How a token is written, apart from its place. -/
structure Word where
  kind : TokenKind
  lexeme : String
  literal : TokenLiteral

def Token.word (t : Token) : Word := ⟨t.kind, t.lexeme, t.literal⟩

/-- Whether a token has only one spelling. -/
def TokenKind.isFixed (k : TokenKind) : Bool := k ∉ [.identifier, .number, .string, .eof]

def TokenKind.spelling : TokenKind → String
  | .leftParen => "("
  | .rightParen => ")"
  | .leftBrace => "\x7b"
  | .rightBrace => "\x7d"
  | .leftBracket => "["
  | .rightBracket => "]"
  | .comma => ","
  | .dot => "."
  | .plus => "+"
  | .minus => "-"
  | .star => "*"
  | .slash => "/"
  | .percent => "%"
  | .bang => "!"
  | .bangEqual => "!="
  | .equal => "="
  | .equalEqual => "=="
  | .less => "<"
  | .lessEqual => "<="
  | .greater => ">"
  | .greaterEqual => ">="
  | .andAnd => "&&"
  | .orOr => "||"
  | .questionQuestion => "??"
  | .plusEqual => "+="
  | .minusEqual => "-="
  | .starEqual => "*="
  | .slashEqual => "/="
  | .percentEqual => "%="
  | .plusPlus => "++"
  | .minusMinus => "--"
  | .starStar => "**"
  | .pica => "piča"
  | .nech => "nech"
  | .rob => "rob"
  | .vrat => "vrat"
  | .esli => "esli"
  | .inak => "inak"
  | .salina => "šalina"
  | .vyblij => "vyblij"
  | .rozni => "rožni"
  | .zhasni => "zhasni"
  | .null => "null"
  | .vokno => "vokno"
  | .zkus => "zkus"
  | .chyt => "chyť"
  | .potom => "potom"
  | .vypadni => "vypadni"
  | .preskoc => "přeskoč"
  | .okruh => "okruh"
  | .identifier | .number | .string | .eof => ""

namespace Word

/-- The word of a token that has only one spelling. -/
def fixed (k : TokenKind) : Word := ⟨k, k.spelling, .none⟩

def name (s : String) : Word := ⟨.identifier, s, .text s⟩

def numeral (s : String) (x : Float) : Word := ⟨.number, s, .number x⟩

def quoted (s : String) : Word := ⟨.string, "\"" ++ s ++ "\"", .text s⟩

end Word

/-- The text of words with a blank between them. -/
def textOf (ws : List Word) : String := " ".intercalate (ws.map (·.lexeme))

def UnaryOp.kind : UnaryOp → TokenKind
  | .not => .bang
  | .neg => .minus
  | .other _ => .eof

def BinaryOp.kind : BinaryOp → TokenKind
  | .nullish => .questionQuestion
  | .or => .orOr
  | .and => .andAnd
  | .eq => .equalEqual
  | .ne => .bangEqual
  | .lt => .less
  | .le => .lessEqual
  | .gt => .greater
  | .ge => .greaterEqual
  | .add => .plus
  | .sub => .minus
  | .mul => .star
  | .div => .slash
  | .mod => .percent
  | .pow => .starStar
  | .other _ => .eof

def StepOp.kind : StepOp → TokenKind
  | .increment => .plusPlus
  | .decrement => .minusMinus

/-! ## Printing -/

namespace Print

def parens (ws : List Word) : List Word := .fixed .leftParen :: (ws ++ [.fixed .rightParen])

def braces (ws : List Word) : List Word := .fixed .leftBrace :: (ws ++ [.fixed .rightBrace])

/-- Items with commas between them. -/
def commas : List (List Word) → List Word
  | [] => []
  | [ws] => ws
  | ws :: vs :: rest => ws ++ .fixed .comma :: commas (vs :: rest)

def names (ns : List String) : List Word := parens (commas (ns.map fun n => [.name n]))

end Print

open Print

/-- Whether an expression is written without parentheses around it. -/
def Expr.isAtom : Expr → Bool
  | .constant _ | .variable _ => true
  | _ => false

/-- Whether an expression is a call of the printer. The printer's name is a keyword, so such a call is
a statement of its own. -/
def Expr.isPrint : Expr → Bool
  | .call (.variable n) [_] => n == printer
  | _ => false

/-- Parentheses around the words of an expression unless it is an atom. -/
def Expr.grouped (e : Expr) (ws : List Word) : List Word := if e.isAtom then ws else parens ws

/-- The words of a literal, where numbers are written by `numeral`. -/
def Constant.words (numeral : Float → String) : Constant → List Word
  | .null => [.fixed .null]
  | .bool b => [.fixed (if b then .rozni else .zhasni)]
  | .num x => [.numeral (numeral x) x]
  | .str s => [.quoted s]

section
variable (numeral : Float → String)

mutual

/-- The words of an expression, without the parentheses around it. -/
def Expr.words : Expr → List Word
  | .constant c => c.words numeral
  | .variable n => [if n = printer then .fixed .vyblij else .name n]
  | .assign n e => .name n :: .fixed .equal :: e.grouped e.words
  | .unary op e => .fixed op.kind :: e.grouped e.words
  | .binary op a b => a.grouped a.words ++ .fixed op.kind :: b.grouped b.words
  | .call f args => f.grouped f.words ++ parens (commas (itemWords args))
  | .step n op => [.name n, .fixed op.kind]
  | .member e n => e.grouped e.words ++ [.fixed .dot, .name n]
  | .function ps body => .fixed .rob :: (names ps ++ braces (bodyWords body))
  | .compound _ _ | .misplaced _ | .unlisted _ => []

def itemWords : List Expr → List (List Word)
  | [] => []
  | e :: es => e.grouped e.words :: itemWords es

def optionalWords : Option Expr → List Word
  | none => []
  | some e => e.grouped e.words

def valueWords : Option Expr → List Word
  | none => []
  | some e => .fixed .equal :: e.grouped e.words

def Stmt.words : Stmt → List Word
  | .mk _ f => f.words

def Form.words : Form → List Word
  | .expr e => (if e.isPrint then e.words else e.grouped e.words) ++ [.fixed .pica]
  | .declare n e => .fixed .nech :: .name n :: (valueWords e ++ [.fixed .pica])
  | .block body => braces (bodyWords body)
  | .cond e yes no =>
    .fixed .esli :: (parens (e.grouped e.words) ++ (yes.words ++ branchWords no))
  | .loop e s => .fixed .salina :: (parens (e.grouped e.words) ++ s.words)
  | .circuit init test step s =>
    .fixed .okruh :: .fixed .leftParen :: (initWords init ++ (optionalWords test ++
      .fixed .pica :: (optionalWords step ++ .fixed .rightParen :: s.words)))
  | .define n ps body => .fixed .rob :: .name n :: (names ps ++ braces (bodyWords body))
  | .ret e => .fixed .vrat :: (optionalWords e ++ [.fixed .pica])
  | .load e => .fixed .vokno :: (e.grouped e.words ++ [.fixed .pica])
  | .attempt body n handler finalizer =>
    .fixed .zkus :: (braces (bodyWords body) ++ (handlerWords n handler ++ finalizerWords finalizer))
  | .leave => [.fixed .vypadni, .fixed .pica]
  | .skip => [.fixed .preskoc, .fixed .pica]
  | .misplaced _ | .unlisted _ => []

def bodyWords : List Stmt → List Word
  | [] => []
  | s :: ss => s.words ++ bodyWords ss

def branchWords : Option Stmt → List Word
  | none => []
  | some s => .fixed .inak :: s.words

def initWords : Option Stmt → List Word
  | none => [.fixed .pica]
  | some s => s.words

def handlerWords (n : Option String) : Option (List Stmt) → List Word
  | none => []
  | some body =>
    .fixed .chyt :: (parens (n.toList.map .name) ++ braces (bodyWords body))

def finalizerWords : Option (List Stmt) → List Word
  | none => []
  | some body => .fixed .potom :: braces (bodyWords body)

end

/-- How a program is written. -/
def writtenText (p : List Stmt) : String := textOf (bodyWords numeral p)

end

/-! ## Programs without lines -/

mutual

/-- The expression with zero in the place of every line. -/
def Expr.unlined : Expr → Expr
  | .assign n e => .assign n e.unlined
  | .unary op e => .unary op e.unlined
  | .binary op a b => .binary op a.unlined b.unlined
  | .call f args => .call f.unlined (unlinedItems args)
  | .member e n => .member e.unlined n
  | .function ps body => .function ps (unlinedBody body)
  | e => e

def unlinedItems : List Expr → List Expr
  | [] => []
  | e :: es => e.unlined :: unlinedItems es

def unlinedExpr? : Option Expr → Option Expr
  | none => none
  | some e => some e.unlined

def Stmt.unlined : Stmt → Stmt
  | .mk _ f => .mk 0 f.unlined

def Form.unlined : Form → Form
  | .expr e => .expr e.unlined
  | .declare n init => .declare n (unlinedExpr? init)
  | .block body => .block (unlinedBody body)
  | .cond e yes no => .cond e.unlined yes.unlined (unlinedStmt? no)
  | .loop e s => .loop e.unlined s.unlined
  | .circuit init test step s =>
    .circuit (unlinedStmt? init) (unlinedExpr? test) (unlinedExpr? step) s.unlined
  | .define n ps body => .define n ps (unlinedBody body)
  | .ret e => .ret (unlinedExpr? e)
  | .load e => .load e.unlined
  | .attempt body n handler finalizer =>
    .attempt (unlinedBody body) n (unlinedBody? handler) (unlinedBody? finalizer)
  | f => f

def unlinedStmt? : Option Stmt → Option Stmt
  | none => none
  | some s => some s.unlined

/-- The program with zero in the place of every line. -/
def unlinedBody : List Stmt → List Stmt
  | [] => []
  | s :: ss => s.unlined :: unlinedBody ss

def unlinedBody? : Option (List Stmt) → Option (List Stmt)
  | none => none
  | some body => some (unlinedBody body)

end

attribute [simp] Expr.unlined unlinedItems unlinedExpr? Stmt.unlined Form.unlined unlinedStmt?
  unlinedBody unlinedBody?

/-! ## Well-formed programs -/

/-- Whether a text is a keyword or a name. -/
def isWord (s : String) : Bool :=
  match s.toList with
  | [] => false
  | c :: cs => isIdentStart c && cs.all isIdentPart

def IsName (s : String) : Prop := isWord s = true ∧ keyword? s = none

instance (s : String) : Decidable (IsName s) :=
  inferInstanceAs (Decidable (isWord s = true ∧ keyword? s = none))

/-- The text is a number literal with the value `x`: digits, perhaps with a point and more digits. -/
def IsNumeral (s : String) (x : Float) : Prop :=
  ∃ whole frac : List Char, whole ≠ [] ∧ whole.all Char.isDigit = true ∧ frac.all Char.isDigit = true ∧
    s.toList = whole ++ (if frac = [] then [] else '.' :: frac) ∧
    x = Number.ofDecimal (Number.ofDigits ((whole ++ frac).map (·.toNat - '0'.toNat)))
      (-(frac.length : Int))

/-- Every number that some literal denotes is written as such a literal. -/
def WritesNumbers (numeral : Float → String) : Prop :=
  ∀ x, (∃ s, IsNumeral s x) → IsNumeral (numeral x) x

open Grammar (Symbol)

/-- The trees that have a written form. Declarations stand only in lists of statements, and those
of variables also at the start of a circuit. -/
inductive WellFormed : (x : Symbol) → x.Tree → Prop where
  | null : WellFormed .expr (Expr.constant .null)
  | bool {b : Bool} : WellFormed .expr (Expr.constant (.bool b))
  | num {s : String} {x : Float} : IsNumeral s x → WellFormed .expr (Expr.constant (.num x))
  | str {s : String} : '"' ∉ s.toList → WellFormed .expr (Expr.constant (.str s))
  | ident {n : String} : IsName n → WellFormed .expr (Expr.variable n)
  | assign {n : String} {e : Expr} :
      IsName n → WellFormed .expr e → WellFormed .expr (Expr.assign n e)
  | unary {op : UnaryOp} {e : Expr} :
      op ∈ [UnaryOp.not, .neg] → WellFormed .expr e → WellFormed .expr (Expr.unary op e)
  | binary {op : BinaryOp} {a b : Expr} :
      op ∈ BinaryOp.all → WellFormed .expr a → WellFormed .expr b →
      WellFormed .expr (Expr.binary op a b)
  | call {f : Expr} {args : List Expr} :
      WellFormed .expr f → WellFormed .items args → WellFormed .expr (Expr.call f args)
  | step {n : String} {op : StepOp} : IsName n → WellFormed .expr (Expr.step n op)
  | member {e : Expr} {n : String} :
      WellFormed .expr e → IsName n → WellFormed .expr (Expr.member e n)
  | function {ps : List String} {body : List Stmt} :
      (∀ p ∈ ps, IsName p) → WellFormed .declarations body →
      WellFormed .expr (Expr.function ps body)
  | noItems : WellFormed .items []
  | nextItem {e : Expr} {es : List Expr} :
      WellFormed .expr e → WellFormed .items es → WellFormed .items (e :: es)
  | absent : WellFormed .optional none
  | present {e : Expr} : WellFormed .expr e → WellFormed .optional (some e)
  | noDeclarations : WellFormed .declarations []
  | nextDeclaration {s : Stmt} {ss : List Stmt} :
      WellFormed .declaration s → WellFormed .declarations ss → WellFormed .declarations (s :: ss)
  | declare {l : Int} {n : String} {e : Option Expr} :
      IsName n → WellFormed .optional e → WellFormed .letDecl (Stmt.mk l (.declare n e))
  | letDecl {s : Stmt} : WellFormed .letDecl s → WellFormed .declaration s
  | define {l : Int} {n : String} {ps : List String} {body : List Stmt} :
      IsName n → (∀ p ∈ ps, IsName p) → WellFormed .declarations body →
      WellFormed .declaration (Stmt.mk l (.define n ps body))
  | statement {s : Stmt} : WellFormed .statement s → WellFormed .declaration s
  | expr {l : Int} {e : Expr} : WellFormed .expr e → WellFormed .statement (Stmt.mk l (.expr e))
  | print {l : Int} {e : Expr} :
      WellFormed .expr e →
      WellFormed .statement (Stmt.mk l (.expr (.call (.variable printer) [e])))
  | block {l : Int} {body : List Stmt} :
      WellFormed .declarations body → WellFormed .statement (Stmt.mk l (.block body))
  | cond {l : Int} {e : Expr} {yes : Stmt} :
      WellFormed .expr e → WellFormed .statement yes →
      WellFormed .statement (Stmt.mk l (.cond e yes none))
  | condElse {l : Int} {e : Expr} {yes no : Stmt} :
      WellFormed .expr e → WellFormed .statement yes → yes.endsOpen = false →
      WellFormed .statement no → WellFormed .statement (Stmt.mk l (.cond e yes (some no)))
  | loop {l : Int} {e : Expr} {s : Stmt} :
      WellFormed .expr e → WellFormed .statement s → WellFormed .statement (Stmt.mk l (.loop e s))
  | noInit : WellFormed .init none
  | letInit {s : Stmt} : WellFormed .letDecl s → WellFormed .init (some s)
  | exprInit {l : Int} {e : Expr} :
      WellFormed .expr e → WellFormed .init (some (Stmt.mk l (.expr e)))
  | circuit {l : Int} {init : Option Stmt} {test step : Option Expr} {s : Stmt} :
      WellFormed .init init → WellFormed .optional test → WellFormed .optional step →
      WellFormed .statement s → WellFormed .statement (Stmt.mk l (.circuit init test step s))
  | ret {l : Int} {e : Option Expr} :
      WellFormed .optional e → WellFormed .statement (Stmt.mk l (.ret e))
  | load {l : Int} {e : Expr} : WellFormed .expr e → WellFormed .statement (Stmt.mk l (.load e))
  | noHandler : WellFormed .handler (none, none)
  | handler {n : Option String} {body : List Stmt} :
      (∀ m ∈ n, IsName m) → WellFormed .declarations body → WellFormed .handler (n, some body)
  | noFinalizer : WellFormed .finalizer none
  | finalizer {body : List Stmt} :
      WellFormed .declarations body → WellFormed .finalizer (some body)
  | attempt {l : Int} {body : List Stmt} {n : Option String}
      {handler finalizer : Option (List Stmt)} :
      WellFormed .declarations body → WellFormed .handler (n, handler) →
      WellFormed .finalizer finalizer →
      WellFormed .statement (Stmt.mk l (.attempt body n handler finalizer))
  | leave {l : Int} : WellFormed .statement (Stmt.mk l .leave)
  | skip {l : Int} : WellFormed .statement (Stmt.mk l .skip)

end Hantec

import Hantec.Program
import Hantec.Token.Scan

/-!
# From tokens to programs

Recursive descent with one token of lookahead. The levels of binary operators,
from the loosest to the tightest, are `??`, `||`, `&&`, equality, comparison, terms and
factors, all of them left-associative; then `**`, which is right-associative, the
unary operators, and calls, members and steps after an expression.

A routine reads the tokens at a position and moves the position. It takes a bound on its depth
first, and a bound that is used up is an outcome of its own, as is a position without a token.
The bound that `parseTokens` chooses is more than any parse needs.
-/

namespace Hantec

/-- What is wrong with a sequence of tokens. -/
inductive ParseCause where
  | expected (what : String)
  | assignTarget
  | stepTarget
  /-- Nothing is wrong with the tokens: the parser itself has stopped. -/
  | internal
  deriving DecidableEq, Repr

/-- A cause and the token where it was found. -/
structure ParseError where
  cause : ParseCause
  lexeme : String
  line : Nat
  column : Nat
  deriving DecidableEq, Repr

def ParseCause.message : ParseCause → String
  | .expected what => s!"expected {what}"
  | .assignTarget => "invalid assignment target"
  | .stepTarget => "'++' and '--' apply only to variables"
  | .internal => "internal error"

def ParseError.message (e : ParseError) : String :=
  s!"[PARSE] {e.cause.message} at token '{e.lexeme}' at {e.line}:{e.column}"

def ParseError.at (cause : ParseCause) (t : Token) : ParseError :=
  ⟨cause, t.lexeme, t.line, t.column⟩

/-- Why a routine stops without a result. -/
inductive Halt where
  | wrong (e : ParseError)
  /-- There is no token where one was looked for. -/
  | outOfRange
  /-- The bound is used up. -/
  | exhausted
  deriving DecidableEq, Repr

def Halt.at (cause : ParseCause) (t : Token) : Halt := .wrong (.at cause t)

def Halt.toError : Halt → ParseError
  | .wrong e => e
  | .outOfRange | .exhausted => ⟨.internal, "", 0, 0⟩

/-- A position in the tokens of a source. -/
structure Cursor where
  tokens : Array Token
  pos : Nat

abbrev Parser := StateT Cursor (Except Halt)

namespace Parser

def peek : Parser Token := fun c =>
  match c.tokens[c.pos]? with
  | some t => .ok (t, c)
  | none => .error .outOfRange

/-- The token before the position. -/
def previous : Parser Token := fun c =>
  match c.pos with
  | 0 => .error .outOfRange
  | i + 1 =>
    match c.tokens[i]? with
    | some t => .ok (t, c)
    | none => .error .outOfRange

/-- The token at the position, which moves on unless that is the end. -/
def advance : Parser Token := do
  let t ← peek
  if t.kind ≠ .eof then modify fun c => { c with pos := c.pos + 1 }
  return t

/-- Moves on, and looks back at the token. -/
def take : Parser Token := do
  let _ ← advance
  previous

/-- The value that `f` has for the next token. If there is one, the token is taken. -/
def accept? {α : Type} (f : TokenKind → Option α) : Parser (Option (Token × α)) := do
  match f (← peek).kind with
  | none => return none
  | some a => return some (← take, a)

/-- Whether the next token is of the given kind. If so, it is taken. -/
def accept (k : TokenKind) : Parser Bool := do
  if (← peek).kind = k then
    let _ ← advance
    return true
  else return false

/-- The next token, which has to be of the given kind. -/
def expect (k : TokenKind) (what : String) : Parser Token := do
  let t ← peek
  if t.kind = k then advance else throw (.at (.expected what) t)

/-- The word that ends a simple statement. -/
def terminator (what : String) : Parser Token := expect .pica s!"'piča' after {what}"

end Parser

/-- The binary operator that a token stands for at the given level. -/
def binaryOp? (level : Nat) (k : TokenKind) : Option BinaryOp :=
  match level, k with
  | 0, .questionQuestion => some .nullish
  | 1, .orOr => some .or
  | 2, .andAnd => some .and
  | 3, .equalEqual => some .eq
  | 3, .bangEqual => some .ne
  | 4, .less => some .lt
  | 4, .lessEqual => some .le
  | 4, .greater => some .gt
  | 4, .greaterEqual => some .ge
  | 5, .plus => some .add
  | 5, .minus => some .sub
  | 6, .star => some .mul
  | 6, .slash => some .div
  | 6, .percent => some .mod
  | _, _ => none

/-- The number of levels of left-associative operators. -/
def levelCount : Nat := 7

def unaryOp? (k : TokenKind) : Option UnaryOp :=
  match k with
  | .bang => some .not
  | .minus => some .neg
  | _ => none

def stepOp? (k : TokenKind) : Option StepOp :=
  match k with
  | .plusPlus => some .increment
  | .minusMinus => some .decrement
  | _ => none

/-- The assignment that a token stands for, with the operator that it applies before. -/
def assignOp? (k : TokenKind) : Option (Option BinaryOp) :=
  match k with
  | .equal => some none
  | .plusEqual => some (some .add)
  | .minusEqual => some (some .sub)
  | .starEqual => some (some .mul)
  | .slashEqual => some (some .div)
  | .percentEqual => some (some .mod)
  | _ => none

/-- The name that calls for an array literal go to. -/
def arrayMaker : String := "__arr"

/-- The name that calls for printing go to. -/
def printer : String := "vyblij"

def TokenLiteral.toConstant : TokenLiteral → Constant
  | .none => .null
  | .number x => .num x
  | .text s => .str s

/-- The value that an assignment stores. -/
def assigned (name : String) (op : Option BinaryOp) (value : Expr) : Expr :=
  match op with
  | none => value
  | some op => .binary op (.variable name) value

open Hantec.Parser

/-- At least one name, with commas between them. -/
def parseNames : Nat → Parser (List String)
  | 0 => throw .exhausted
  | n + 1 => do
    let name ← expect .identifier "parameter name"
    if ← accept .comma then return name.lexeme :: (← parseNames n)
    else return [name.lexeme]

/-- The parameters of a function, in parentheses. -/
def parseParams (n : Nat) : Parser (List String) := do
  let _ ← expect .leftParen "'('"
  if ← accept .rightParen then return []
  else
    let names ← parseNames n
    let _ ← expect .rightParen "')' after parameters"
    return names

mutual

/-- An expression: an assignment or an operand of the loosest level. -/
def parseExpr : Nat → Parser Expr
  | 0 => throw .exhausted
  | n + 1 => do
    let target ← parseLevel n 0
    match ← accept? assignOp? with
    | none => return target
    | some (t, op) =>
      match target with
      | .variable name => return .assign name (assigned name op (← parseExpr n))
      | _ => throw (.at .assignTarget t)

/-- Operands of the given level and the operators between them. -/
def parseLevel : Nat → Nat → Parser Expr
  | 0, _ => throw .exhausted
  | n + 1, level =>
    if level < levelCount then do
      let left ← parseLevel n (level + 1)
      parseOperands n level left
    else parsePower n

/-- The operators and operands that follow `left` at the given level. -/
def parseOperands : Nat → Nat → Expr → Parser Expr
  | 0, _, _ => throw .exhausted
  | n + 1, level, left => do
    match ← accept? (binaryOp? level) with
    | none => return left
    | some (_, op) =>
      let right ← parseLevel n (level + 1)
      parseOperands n level (.binary op left right)

def parsePower : Nat → Parser Expr
  | 0 => throw .exhausted
  | n + 1 => do
    let base ← parseUnary n
    if ← accept .starStar then return .binary .pow base (← parsePower n)
    else return base

def parseUnary : Nat → Parser Expr
  | 0 => throw .exhausted
  | n + 1 => do
    match ← accept? unaryOp? with
    | some (_, op) => return .unary op (← parseUnary n)
    | none =>
      let e ← parsePrimary n
      parseSuffixes n e

/-- The calls, members and steps that follow an expression. -/
def parseSuffixes : Nat → Expr → Parser Expr
  | 0, _ => throw .exhausted
  | n + 1, e => do
    if ← accept .leftParen then
      let args ← parseItems n .rightParen "')' after arguments"
      parseSuffixes n (.call e args)
    else if ← accept .dot then
      let name ← expect .identifier "member name after '.'"
      parseSuffixes n (.member e name.lexeme)
    else
      match ← accept? stepOp? with
      | none => return e
      | some (t, op) =>
        match e with
        | .variable name => parseSuffixes n (.step name op)
        | _ => throw (.at .stepTarget t)

/-- Expressions with commas between them, and the closing token. -/
def parseItems : Nat → TokenKind → String → Parser (List Expr)
  | 0, _, _ => throw .exhausted
  | n + 1, closing, what => do
    if ← accept closing then return []
    else parseMoreItems n closing what

/-- At least one expression, and the closing token. -/
def parseMoreItems : Nat → TokenKind → String → Parser (List Expr)
  | 0, _, _ => throw .exhausted
  | n + 1, closing, what => do
    let e ← parseExpr n
    if ← accept .comma then return e :: (← parseMoreItems n closing what)
    else
      let _ ← expect closing what
      return [e]

def parsePrimary : Nat → Parser Expr
  | 0 => throw .exhausted
  | n + 1 => do
    let t ← peek
    match t.kind with
    | .number | .string => return .constant (← take).literal.toConstant
    | .rozni =>
      let _ ← advance
      return .constant (.bool true)
    | .zhasni =>
      let _ ← advance
      return .constant (.bool false)
    | .null =>
      let _ ← advance
      return .constant .null
    | .identifier => return .variable (← take).lexeme
    | .leftParen =>
      let _ ← advance
      let e ← parseExpr n
      let _ ← expect .rightParen "')'"
      return e
    | .leftBracket =>
      let _ ← advance
      return .call (.variable arrayMaker) (← parseItems n .rightBracket "']' after array items")
    | .rob =>
      let _ ← advance
      let params ← parseParams n
      let _ ← expect .leftBrace "'\x7b' before function body"
      return .function params (← parseBody n)
    | _ => throw (.at (.expected "expression") t)

/-- Statements up to the closing brace. -/
def parseBody : Nat → Parser (List Stmt)
  | 0 => throw .exhausted
  | n + 1 => do
    let t ← peek
    if t.kind = .rightBrace ∨ t.kind = .eof then
      let _ ← expect .rightBrace "'\x7d'"
      return []
    else
      let s ← parseDeclaration n
      return s :: (← parseBody n)

/-- A declaration or a statement. -/
def parseDeclaration : Nat → Parser Stmt
  | 0 => throw .exhausted
  | n + 1 => do
    let t ← peek
    match t.kind with
    | .nech =>
      let _ ← advance
      parseLet n t.line
    | .rob =>
      let _ ← advance
      let name ← expect .identifier "function name"
      let params ← parseParams n
      let _ ← expect .leftBrace "'\x7b' before function body"
      return .mk t.line (.define name.lexeme params (← parseBody n))
    | _ => parseStatement n

/-- The rest of a variable declaration that starts at the given line. -/
def parseLet : Nat → Nat → Parser Stmt
  | 0, _ => throw .exhausted
  | n + 1, line => do
    let name ← expect .identifier "variable name"
    if ← accept .equal then
      let e ← parseExpr n
      let _ ← terminator "variable declaration"
      return .mk line (.declare name.lexeme (some e))
    else
      let _ ← terminator "variable declaration"
      return .mk line (.declare name.lexeme none)

/-- The condition of a statement that starts with the given keyword. -/
def parseCondition : Nat → String → Parser Expr
  | 0, _ => throw .exhausted
  | n + 1, word => do
    let _ ← expect .leftParen s!"'(' after '{word}'"
    let e ← parseExpr n
    let _ ← expect .rightParen "')' after condition"
    return e

/-- An expression, unless the next token is of the given kind. -/
def parseUnless : Nat → TokenKind → Parser (Option Expr)
  | 0, _ => throw .exhausted
  | n + 1, k => do
    if (← peek).kind = k then return none
    else return some (← parseExpr n)

/-- The first clause of a loop head, with its terminator. -/
def parseInit : Nat → Parser (Option Stmt)
  | 0 => throw .exhausted
  | n + 1 => do
    let t ← peek
    match t.kind with
    | .nech =>
      let _ ← advance
      return some (← parseLet n t.line)
    | .pica =>
      let _ ← advance
      return none
    | _ =>
      let e ← parseExpr n
      let _ ← terminator "loop initializer"
      return some (.mk t.line (.expr e))

/-- The part of a statement that handles errors, if there is one, with the name that it binds. -/
def parseHandler : Nat → Parser (Option String × Option (List Stmt))
  | 0 => throw .exhausted
  | n + 1 => do
    if ← accept .chyt then
      let _ ← expect .leftParen "'(' after 'chyť'"
      let name ← accept? fun k => if k = .identifier then some () else none
      let _ ← expect .rightParen "')'"
      let _ ← expect .leftBrace "'\x7b' after 'chyť(...)'"
      return (name.map (·.1.lexeme), some (← parseBody n))
    else return (none, none)

/-- The part of a statement that runs at its end, if there is one. -/
def parseFinalizer : Nat → Parser (Option (List Stmt))
  | 0 => throw .exhausted
  | n + 1 => do
    if ← accept .potom then
      let _ ← expect .leftBrace "'\x7b' after 'potom'"
      return some (← parseBody n)
    else return none

def parseStatement : Nat → Parser Stmt
  | 0 => throw .exhausted
  | n + 1 => do
    let t ← peek
    match t.kind with
    | .leftBrace =>
      let _ ← advance
      return .mk t.line (.block (← parseBody n))
    | .esli =>
      let _ ← advance
      let e ← parseCondition n "esli"
      let yes ← parseStatement n
      if ← accept .inak then return .mk t.line (.cond e yes (some (← parseStatement n)))
      else return .mk t.line (.cond e yes none)
    | .salina =>
      let _ ← advance
      let e ← parseCondition n "šalina"
      return .mk t.line (.loop e (← parseStatement n))
    | .okruh =>
      let _ ← advance
      let _ ← expect .leftParen "'(' after 'okruh'"
      let init ← parseInit n
      let test ← parseUnless n .pica
      let _ ← terminator "loop condition"
      let step ← parseUnless n .rightParen
      let _ ← expect .rightParen "')' after loop clauses"
      return .mk t.line (.circuit init test step (← parseStatement n))
    | .vrat =>
      let _ ← advance
      let e ← parseUnless n .pica
      let _ ← terminator "'vrat'"
      return .mk t.line (.ret e)
    | .vyblij =>
      let _ ← advance
      let _ ← expect .leftParen "'(' after 'vyblij'"
      let e ← parseExpr n
      let _ ← expect .rightParen "')'"
      let _ ← terminator "'vyblij(...)'"
      return .mk t.line (.expr (.call (.variable printer) [e]))
    | .vokno =>
      let _ ← advance
      let e ← parseExpr n
      let _ ← terminator "'vokno'"
      return .mk t.line (.load e)
    | .zkus =>
      let _ ← advance
      let _ ← expect .leftBrace "'\x7b' after 'zkus'"
      let body ← parseBody n
      let (name, handler) ← parseHandler n
      return .mk t.line (.attempt body name handler (← parseFinalizer n))
    | .vypadni =>
      let _ ← advance
      let _ ← terminator "'vypadni'"
      return .mk t.line .leave
    | .preskoc =>
      let _ ← advance
      let _ ← terminator "'přeskoč'"
      return .mk t.line .skip
    | _ =>
      let e ← parseExpr n
      let _ ← terminator "expression"
      return .mk t.line (.expr e)

end

/-- Declarations up to the end of the source. -/
def parseDeclarations : Nat → Parser (List Stmt)
  | 0 => throw .exhausted
  | n + 1 => do
    if (← peek).kind = .eof then return []
    else
      let s ← parseDeclaration n
      return s :: (← parseDeclarations n)

/-- The program that the tokens of a source make up. -/
def parseTokens (ts : List Token) : Except Halt (List Stmt) :=
  (parseDeclarations (16 * ts.length + 16)).run' ⟨ts.toArray, 0⟩

/-- Why a source is not a program. -/
inductive SourceError where
  | lex (e : LexError)
  | parse (e : ParseError)
  deriving DecidableEq, Repr

def SourceError.message : SourceError → String
  | .lex e => e.message
  | .parse e => e.message

/-- Whether a source breaks off before it is complete. -/
def SourceError.isIncomplete : SourceError → Bool
  | .lex _ => false
  | .parse e => e.lexeme.isEmpty

/-- The program that a source spells. -/
def parseProgram (source : String) : Except SourceError (List Stmt) :=
  match tokenize source with
  | .error e => .error (.lex e)
  | .ok ts =>
    match parseTokens ts with
    | .error h => .error (.parse h.toError)
    | .ok p => .ok p

end Hantec

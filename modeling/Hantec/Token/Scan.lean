import Hantec.Number.Reading
import Hantec.Text.Letter
import Hantec.Text.Quoted
import Hantec.Token

/-!
# From characters to tokens

A source is a sequence of pieces: tokens, single blanks and comments. Each piece
is found from its first character and what follows it. Operators are as long as
possible, and a comment that is not closed goes on to the end.
-/

namespace Hantec

/-- The characters that may stand between tokens. -/
def isGap (c : Char) : Bool := c == ' ' || c == '\t' || c == '\r' || c == '\n'

-- The digits of the language are those of ASCII.
export Char (isDigit)

def isIdentStart (c : Char) : Bool :=
  if c.toNat < 0x80 then c.isAlpha || c == '_' else Text.isLetter c

def isIdentPart (c : Char) : Bool :=
  if c.toNat < 0x80 then c.isAlphanum || c == '_' else Text.isLetter c || Text.isNumeral c

/-- Marks that are tokens by themselves. -/
def mark? (c : Char) : Option TokenKind :=
  match c with
  | '(' => some .leftParen
  | ')' => some .rightParen
  | '{' => some .leftBrace
  | '}' => some .rightBrace
  | '[' => some .leftBracket
  | ']' => some .rightBracket
  | '.' => some .dot
  | ',' => some .comma
  | _ => none

def twoCharOperator? (c d : Char) : Option TokenKind :=
  match c, d with
  | '+', '+' => some .plusPlus
  | '+', '=' => some .plusEqual
  | '-', '-' => some .minusMinus
  | '-', '=' => some .minusEqual
  | '*', '*' => some .starStar
  | '*', '=' => some .starEqual
  | '/', '=' => some .slashEqual
  | '%', '=' => some .percentEqual
  | '!', '=' => some .bangEqual
  | '=', '=' => some .equalEqual
  | '<', '=' => some .lessEqual
  | '>', '=' => some .greaterEqual
  | '&', '&' => some .andAnd
  | '|', '|' => some .orOr
  | '?', '?' => some .questionQuestion
  | _, _ => none

def operator? (c : Char) : Option TokenKind :=
  match c with
  | '+' => some .plus
  | '-' => some .minus
  | '*' => some .star
  | '/' => some .slash
  | '%' => some .percent
  | '!' => some .bang
  | '=' => some .equal
  | '<' => some .less
  | '>' => some .greater
  | _ => none

/-- The characters that are operators only when doubled. -/
def isDoubledOnly (c : Char) : Bool := c == '&' || c == '|' || c == '?'

/-- The number of characters up to and with the end of a block comment. It is all of them if the
comment has no end. -/
def commentLength : List Char → Nat
  | '*' :: '/' :: _ => 2
  | _ :: cs => commentLength cs + 1
  | [] => 0

/-- One piece of a source and the number of its characters. -/
inductive Piece where
  | gap (length : Nat)
  | token (kind : TokenKind) (literal : TokenLiteral) (length : Nat)

/-- The text up to the closing quote. -/
def scanText (cs : List Char) : Except LexCause Piece :=
  let body := cs.takeWhile (· != '"')
  if body.length < cs.length then
    .ok (.token .string (.text (String.ofList body)) (body.length + 2))
  else .error .unterminated

/-- Digits, with a point and more digits if these follow. -/
def scanNumber (cs : List Char) : Piece :=
  let whole := cs.takeWhile isDigit
  let frac :=
    match cs.dropWhile isDigit with
    | '.' :: rest => rest.takeWhile isDigit
    | _ => []
  let value := Number.ofDecimal (Number.ofDigits ((whole ++ frac).map (·.toNat - '0'.toNat)))
    (-(frac.length : Int))
  .token .number (.number value)
    (whole.length + if frac.isEmpty then 0 else frac.length + 1)

/-- A keyword or a name. -/
def scanWord (cs : List Char) : Piece :=
  let word := cs.takeWhile isIdentPart
  let text := String.ofList word
  match keyword? text with
  | some k => .token k .none word.length
  | none => .token .identifier (.text text) word.length

/-- An operator that starts with `c`, of which the two-character ones come first. -/
def scanOperator (c : Char) (cs : List Char) : Option Piece :=
  match cs.head?.bind (twoCharOperator? c) with
  | some k => some (.token k .none 2)
  | none => (operator? c).map (.token · .none 1)

/-- The piece that starts with `c` and goes on with `cs`. -/
def scanPiece (c : Char) (cs : List Char) : Except LexCause Piece :=
  if isGap c then .ok (.gap 1)
  else match mark? c with
    | some k => .ok (.token k .none 1)
    | none =>
      if c == '/' && cs.head? == some '/' then
        .ok (.gap (1 + (cs.takeWhile (· != '\n')).length))
      else if c == '/' && cs.head? == some '*' then
        .ok (.gap (2 + commentLength cs.tail))
      else match scanOperator c cs with
        | some p => .ok p
        | none =>
          if isDoubledOnly c then .error (.lone c)
          else if c == '"' then scanText cs
          else if isDigit c then .ok (scanNumber (c :: cs))
          else if isIdentStart c then .ok (scanWord (c :: cs))
          else .error (.unexpected c)

/-- The tokens of the characters from place `p` on, where the first `skip` characters belong to
the piece before them. -/
def scanFrom : Nat → Pos → List Char → Except LexError (List Token)
  | _, p, [] => .ok [⟨.eof, "", .none, p.line, p.column⟩]
  | skip + 1, p, c :: cs => scanFrom skip (p.next c) cs
  | 0, p, c :: cs =>
    match scanPiece c cs with
    | .error e => .error ⟨e, p⟩
    | .ok (.gap n) => scanFrom (n - 1) (p.next c) cs
    | .ok (.token kind literal n) =>
      (scanFrom (n - 1) (p.next c) cs).map
        (⟨kind, String.ofList ((c :: cs).take n), literal, p.line, p.column⟩ :: ·)

/-- The tokens of a source, with the end of the source as the last one. -/
def tokenize (source : String) : Except LexError (List Token) :=
  scanFrom 0 .start source.toList

def LexCause.message : LexCause → String
  | .unexpected c => s!"unexpected character {Text.quote (String.singleton c)}"
  | .lone c => s!"expected '{c}{c}', got a lone '{c}'"
  | .unterminated => "unterminated string literal"

def LexError.message (e : LexError) : String :=
  s!"[LEX] {e.cause.message} at {e.pos.line}:{e.pos.column}"

end Hantec

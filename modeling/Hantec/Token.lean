/-!
# Tokens

The words of the language: marks, operators, keywords, names, numbers and texts.
A token remembers how it is written and where it starts.
-/

namespace Hantec

inductive TokenKind where
  | leftParen | rightParen | leftBrace | rightBrace | leftBracket | rightBracket
  | comma | dot
  | plus | minus | star | slash | percent
  | bang | bangEqual | equal | equalEqual | less | lessEqual | greater | greaterEqual
  | andAnd | orOr | questionQuestion
  | plusEqual | minusEqual | starEqual | slashEqual | percentEqual
  | plusPlus | minusMinus | starStar
  | identifier | number | string
  | pica | nech | rob | vrat | esli | inak | salina | vyblij | rozni | zhasni | null
  | vokno | zkus | chyt | potom | vypadni | preskoc | okruh
  | eof
  deriving DecidableEq, Repr, Inhabited

/-- The value that a token carries besides its spelling. -/
inductive TokenLiteral where
  | none
  | number (x : Float)
  | text (s : String)
  deriving Repr, Inhabited

structure Token where
  kind : TokenKind
  lexeme : String
  literal : TokenLiteral
  line : Nat
  column : Nat
  deriving Repr, Inhabited

/-- The keywords and their spellings. -/
def keywords : List (String × TokenKind) :=
  [("piča", .pica), ("nech", .nech), ("rob", .rob), ("vrat", .vrat), ("esli", .esli),
   ("inak", .inak), ("šalina", .salina), ("vyblij", .vyblij), ("rožni", .rozni),
   ("zhasni", .zhasni), ("null", .null), ("vokno", .vokno), ("zkus", .zkus), ("chyť", .chyt),
   ("potom", .potom), ("vypadni", .vypadni), ("přeskoč", .preskoc), ("okruh", .okruh)]

/-- The keyword with this spelling. -/
def keyword? (s : String) : Option TokenKind := keywords.lookup s

/-- The place of a character: its line and its column, both counted from one. -/
structure Pos where
  line : Nat
  column : Nat
  deriving DecidableEq, Repr

namespace Pos

def start : Pos := ⟨1, 1⟩

def next (p : Pos) (c : Char) : Pos :=
  if c == '\n' then ⟨p.line + 1, 1⟩ else ⟨p.line, p.column + 1⟩

end Pos

/-- What is wrong with a source that cannot be read as tokens. -/
inductive LexCause where
  | unexpected (c : Char)
  | lone (c : Char)
  | unterminated
  deriving DecidableEq, Repr

structure LexError where
  cause : LexCause
  pos : Pos
  deriving DecidableEq, Repr

end Hantec

/-!
# UTF-8

Writing a text as bytes, and reading bytes strictly, with the place and the kind
of the first flaw, or leniently, with one replacement character for each flaw.
-/

namespace Hantec.Text

/-- What is wrong with a sequence of bytes. -/
inductive Utf8Flaw where
  | start
  | continuation
  | truncated
  deriving DecidableEq, Repr

def Utf8Flaw.describe : Utf8Flaw → String
  | .start => "invalid start byte"
  | .continuation => "invalid continuation byte"
  | .truncated => "unexpected end of data"

/-- The first flaw of a byte sequence: its kind, and the unreadable bytes from `first` on. -/
structure Utf8Error where
  flaw : Utf8Flaw
  first : Nat
  bytes : List UInt8
  deriving DecidableEq, Repr

/-- Two hexadecimal digits. -/
def hexByte (b : UInt8) : String :=
  String.ofList [Nat.digitChar (b.toNat / 16), Nat.digitChar (b.toNat % 16)]

def Utf8Error.message (e : Utf8Error) : String :=
  let what := match e.bytes with
    | [b] => s!"byte 0x{hexByte b} in position {e.first}"
    | bs => s!"bytes in position {e.first}-{e.first + bs.length - 1}"
  s!"'utf-8' codec can't decode {what}: {e.flaw.describe}"

/-- One step of reading: a character and the number of its bytes, or a flaw and the number
of bytes that it spoils. -/
inductive Utf8Step where
  | char (c : Char) (size : Nat)
  | flaw (f : Utf8Flaw) (size : Nat)

/-- A byte that continues a character. -/
def isTail (b : UInt8) : Bool := 0x80 ≤ b && b < 0xc0

def tailBits (b : UInt8) : Nat := b.toNat % 64

/-- Reads what starts with byte `b` and goes on with `rest`. -/
def utf8Step (b : UInt8) (rest : List UInt8) : Utf8Step :=
  if b < 0x80 then .char (Char.ofNat b.toNat) 1
  else if b < 0xc2 then .flaw .start 1
  else if b < 0xe0 then
    match rest with
    | [] => .flaw .truncated 1
    | c :: _ =>
      if isTail c then .char (Char.ofNat (b.toNat % 32 * 64 + tailBits c)) 2
      else .flaw .continuation 1
  else if b < 0xf0 then
    match rest with
    | [] => .flaw .truncated 1
    | c :: rest =>
      if !isTail c || (b == 0xe0 && c < 0xa0) || (b == 0xed && 0xa0 ≤ c) then
        .flaw .continuation 1
      else match rest with
        | [] => .flaw .truncated 2
        | d :: _ =>
          if isTail d then
            .char (Char.ofNat (b.toNat % 16 * 4096 + tailBits c * 64 + tailBits d)) 3
          else .flaw .continuation 2
  else if b < 0xf5 then
    match rest with
    | [] => .flaw .truncated 1
    | c :: rest =>
      if !isTail c || (b == 0xf0 && c < 0x90) || (b == 0xf4 && 0x90 ≤ c) then
        .flaw .continuation 1
      else match rest with
        | [] => .flaw .truncated 2
        | d :: rest =>
          if !isTail d then .flaw .continuation 2
          else match rest with
            | [] => .flaw .truncated 3
            | e :: _ =>
              if isTail e then
                .char (Char.ofNat
                  (b.toNat % 8 * 262144 + tailBits c * 4096 + tailBits d * 64 + tailBits e)) 4
              else .flaw .continuation 3
  else .flaw .start 1

/-- Reads the bytes, of which the first `skip` belong to the character before them and the
next one stands at position `pos`. -/
def decodeFrom (pos skip : Nat) : List UInt8 → Except Utf8Error (List Char)
  | [] => .ok []
  | b :: rest =>
    match skip with
    | skip + 1 => decodeFrom (pos + 1) skip rest
    | 0 =>
      match utf8Step b rest with
      | .char c size => (decodeFrom (pos + 1) (size - 1) rest).map (c :: ·)
      | .flaw f size => .error ⟨f, pos, (b :: rest).take size⟩

/-- Reads bytes strictly. -/
def decodeUtf8 (bs : List UInt8) : Except Utf8Error String :=
  (decodeFrom 0 0 bs).map String.ofList

/-- Reads bytes with a replacement character for each flaw. -/
def decodeLenientFrom (skip : Nat) : List UInt8 → List Char
  | [] => []
  | b :: rest =>
    match skip with
    | skip + 1 => decodeLenientFrom skip rest
    | 0 =>
      match utf8Step b rest with
      | .char c size => c :: decodeLenientFrom (size - 1) rest
      | .flaw _ size => Char.ofNat 0xfffd :: decodeLenientFrom (size - 1) rest

def decodeLenient (bs : List UInt8) : String := String.ofList (decodeLenientFrom 0 bs)

/-- The bytes of a text. -/
def encodeUtf8 (s : String) : List UInt8 := s.toList.flatMap String.utf8EncodeChar

end Hantec.Text

import Hantec.Codec.Sha256
import Hantec.Run.Builtins.Core

/-!
# Builtins on codes and digests
-/

namespace Hantec

/-- A hexadecimal digit below sixteen. -/
def hexDigit (n : Nat) : Char := (Nat.toDigits 16 n).headD '0'

/-- Random hexadecimal digits. -/
def randomHex (w : World) : Nat → List Char × World
  | 0 => ([], w)
  | n + 1 =>
    let (x, w) := w.random
    let (cs, w) := randomHex w n
    (hexDigit (x * 16).toUInt8.toNat :: cs, w)

/-- A random identifier of version 4. -/
def randomId (w : World) : String × World :=
  let (a, w) := randomHex w 8
  let (b, w) := randomHex w 4
  let (c, w) := randomHex w 3
  let (x, w) := w.random
  let (d, w) := randomHex w 3
  let (e, w) := randomHex w 12
  let variant := hexDigit (8 + (x * 4).toUInt8.toNat)
  let groups := [a, b, '4' :: c, variant :: d, e].map String.ofList
  ("-".intercalate groups, w)

def CryptoFn.run (f : CryptoFn) (args : List Value) : Proc Value :=
  match f with
  | .uuid => do return .str (← Proc.onWorld randomId)
  | .encodeBase64 => do
    let s ← textArgument args 0
    return .str (String.ofList (Codec.encodeBase64 (Text.encodeUtf8 s)))
  | .decodeBase64 => do
    match Codec.decodeBase64 (← textArgument args 0) with
    | .ok bytes => return .str (Text.decodeLenient bytes)
    | .error e => Proc.fault (.base64 e)
  | .sha256 => do
    let s ← textArgument args 0
    Proc.wait .worker
    return .str (Codec.sha256 (Text.encodeUtf8 s))

end Hantec

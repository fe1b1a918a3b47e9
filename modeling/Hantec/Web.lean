import Hantec.Text.Utf8
import Hantec.Url

/-!
# The web

Pages by address, and the addresses that have been asked for. An address without
a page answers that nothing was found.
-/

namespace Hantec

structure Page where
  status : Nat
  text : String
  location : Option String

structure Web where
  pages : List (String × Page)
  seen : List String

/-- Why a page could not be fetched. -/
inductive WebError where
  | status (code : Nat) (url text : String)
  | tooManyRedirects
  deriving DecidableEq, Repr

def WebError.message : WebError → String
  | .status code url text =>
    s!"HTTP {code} for {url}: {String.ofList (text.toList.take 200)}"
  | .tooManyRedirects => "Exceeded maximum allowed redirects."

namespace Web

def empty : Web := ⟨[], []⟩

/-- The characters that an address may not hold as they are. -/
def isUnsafe (c : Char) : Bool :=
  c.toNat ≤ 0x20 || 0x7f ≤ c.toNat || "\"<>\\^`\x7b|\x7d".toList.contains c

/-- A byte as a percent sign and two digits. -/
def percentByte (b : UInt8) : List Char := '%' :: (Text.hexByte b).toUpper.toList

/-- An address with its unsafe characters written as bytes. -/
def escapeUrl (url : String) : String :=
  String.ofList (url.toList.flatMap fun c =>
    if isUnsafe c then (String.utf8EncodeChar c).flatMap percentByte else [c])

/-- The page at an address. -/
def page (w : Web) (url : String) : Page :=
  (w.pages.lookup url).getD ⟨404, "not found", none⟩

/-- The statuses that send on to another address. -/
def redirectStatuses : List Nat := [301, 302, 303, 307, 308]

/-- Where a page sends on to. -/
def redirect? (url : String) (p : Page) : Option String :=
  if redirectStatuses.contains p.status then p.location.map (Url.join url) else none

/-- Asks for an address and follows at most `n` redirects. -/
def follow (w : Web) (url : String) : Nat → Web × Option Page
  | 0 => (w, none)
  | n + 1 =>
    let url := escapeUrl url
    let w := { w with seen := w.seen ++ [url] }
    match redirect? url (w.page url) with
    | some next => follow w next n
    | none => (w, some (w.page url))

/-- The number of requests after which redirects are no longer followed. -/
def requestLimit : Nat := 21

/-- The text at an address. -/
def fetch (w : Web) (follows : Bool) (url : String) : Web × Except WebError String :=
  let (w, answer) :=
    if follows then w.follow url requestLimit
    else
      let asked := escapeUrl url
      ({ w with seen := w.seen ++ [asked] }, some (w.page asked))
  match answer with
  | none => (w, .error .tooManyRedirects)
  | some p =>
    if 200 ≤ p.status && p.status < 300 then (w, .ok p.text)
    else (w, .error (.status p.status url p.text))

end Web

end Hantec

import Hantec.Text.Split

/-!
# Addresses

Taking an address apart, and reading a relative address against a base.
-/

namespace Hantec

/-- The parts of `scheme://host/path;params?query#fragment`. -/
structure Url where
  scheme : String
  host : String
  path : String
  params : String
  query : String
  fragment : String
  deriving DecidableEq, Repr

namespace Url

/-- Schemes whose addresses may be relative. -/
def relativeSchemes : List String :=
  ["", "ftp", "http", "gopher", "nntp", "imap", "wais", "file", "https", "shttp", "mms",
   "prospero", "rtsp", "rtsps", "rtspu", "sftp", "svn", "svn+ssh", "ws", "wss"]

def hostSchemes : List String :=
  ["", "ftp", "http", "gopher", "nntp", "telnet", "imap", "wais", "file", "mms", "https",
   "shttp", "snews", "prospero", "rtsp", "rtsps", "rtspu", "rsync", "svn", "svn+ssh", "sftp",
   "nfs", "git", "git+ssh", "ws", "wss"]

/-- Schemes whose addresses have parameters after the path. -/
def paramSchemes : List String :=
  ["", "ftp", "hdl", "prospero", "http", "imap", "https", "shttp", "rtsp", "rtsps", "rtspu",
   "sip", "sips", "mms", "sftp", "tel"]

/-- The characters before the first `c` and those after it; nothing follows if there is none. -/
def cutAt (c : Char) (cs : List Char) : List Char × List Char :=
  (cs.takeWhile (· != c), (cs.dropWhile (· != c)).drop 1)

def isSchemeChar (c : Char) : Bool :=
  c.isAlphanum || c == '+' || c == '-' || c == '.'

/-- The scheme, if there is one, and what follows it. -/
def spanScheme (default : String) (cs : List Char) : String × List Char :=
  let name := cs.takeWhile (· != ':')
  match name with
  | c :: _ =>
    if name.length < cs.length && c.isAlpha && name.all isSchemeChar then
      ((String.ofList name).toLower, cs.drop (name.length + 1))
    else (default, cs)
  | [] => (default, cs)

/-- The host after two slashes, and what follows it. -/
def spanHost : List Char → List Char × List Char
  | '/' :: '/' :: cs =>
    let stop := fun c => c != '/' && c != '?' && c != '#'
    (cs.takeWhile stop, cs.dropWhile stop)
  | cs => ([], cs)

/-- The path and the parameters after the last slash. -/
def spanParams (path : List Char) : List Char × List Char :=
  let last := (path.reverse.takeWhile (· != '/')).reverse
  let (name, params) := cutAt ';' last
  (path.take (path.length - last.length) ++ name, params)

/-- The parts of an address, with a scheme for those that have none. -/
def parse (scheme : String) (text : String) : Url :=
  let cs := (text.toList.dropWhile (·.toNat ≤ 0x20)).filter
    fun c => c != '\t' && c != '\r' && c != '\n'
  let (scheme, cs) := spanScheme scheme cs
  let (host, cs) := spanHost cs
  let (cs, fragment) := cutAt '#' cs
  let (path, query) := cutAt '?' cs
  let (path, params) := if paramSchemes.contains scheme then spanParams path else (path, [])
  ⟨scheme, String.ofList host, String.ofList path, String.ofList params, String.ofList query,
    String.ofList fragment⟩

/-- The text of an address. -/
def render (u : Url) : String :=
  let path := if u.params.isEmpty then u.path else u.path ++ ";" ++ u.params
  let path :=
    if !u.host.isEmpty || (!u.scheme.isEmpty && hostSchemes.contains u.scheme)
        || path.startsWith "//" then
      "//" ++ u.host ++ (if path.isEmpty || path.startsWith "/" then path else "/" ++ path)
    else path
  let text := if u.scheme.isEmpty then path else u.scheme ++ ":" ++ path
  let text := if u.query.isEmpty then text else text ++ "?" ++ u.query
  if u.fragment.isEmpty then text else text ++ "#" ++ u.fragment

/-- Drops the empty parts between the first and the last one. -/
def dropInnerEmpty : List String → List String
  | [] => []
  | p :: ps => p :: ps.dropLast.filter (!·.isEmpty) ++ ps.drop (ps.length - 1)

/-- Follows the dots of a path; `done` holds the parts before, the last one first. -/
def followDots (done : List String) : List String → List String
  | [] => done.reverse
  | p :: ps =>
    if p == ".." then followDots done.tail ps
    else if p == "." then followDots done ps
    else followDots (p :: done) ps

/-- A path seen from another one. -/
def joinPath (base path : String) : String :=
  let own := Text.split path "/"
  let parts :=
    if path.startsWith "/" then own
    else
      let above := Text.split base "/"
      let above := if above.getLastD "" == "" then above else above.dropLast
      dropInnerEmpty (above ++ own)
  let last := parts.getLastD ""
  let joined := "/".intercalate
    (followDots [] parts ++ if last == "." || last == ".." then [""] else [])
  if joined.isEmpty then "/" else joined

/-- The address that `text` stands for where the address `base` is the present one. -/
def join (base text : String) : String :=
  if base.isEmpty then text
  else if text.isEmpty then base
  else
    let b := parse "" base
    let u := parse b.scheme text
    if u.scheme != b.scheme || !relativeSchemes.contains u.scheme then text
    else if hostSchemes.contains u.scheme && !u.host.isEmpty then u.render
    else
      let u := if hostSchemes.contains u.scheme then { u with host := b.host } else u
      if u.path.isEmpty && u.params.isEmpty then
        render { u with
          path := b.path
          params := b.params
          query := if u.query.isEmpty then b.query else u.query }
      else render { u with path := joinPath b.path u.path }

end Url

end Hantec

import FlightTestLab.Python.Json

/-!
# The interpreter's `urllib.parse`

`urlparse` on a `str`, and the parts of its result that the program reads. Whether
brackets hold an address, and what NFKC makes of a network location, are parameters.

## Main definitions

- `Python.urlparse`: `urlparse`
- `Python.Url.hostname`, `Python.Url.port`: the properties of its result
-/

namespace Python

open Json (Text ascii)

section Partition

/-- `text.partition(sep)` on one character: what stands before it and, if it is there, after. -/
def partition (sep : Nat) (text : Text) : Text × Option Text :=
  (text.takeWhile (· != sep), (text.dropWhile (· != sep)).tail?)

/-- `text.rpartition(sep)`, likewise. -/
def rpartition (sep : Nat) (text : Text) : Option Text × Text :=
  match partition sep text.reverse with
  | (after, before) => (before.map List.reverse, after.reverse)

end Partition

/-- The checks of a network location, and the case mapping. -/
structure UrlRules where
  /-- `_check_bracketed_netloc` passes: the brackets hold an address. -/
  bracketed : Text → Bool
  /-- `_checknetloc` passes: normalization makes no delimiter. -/
  normal : Text → Bool
  /-- `str.lower` -/
  lower : Text → Text

/-- What `urlparse` returns, without the parameters, the query and the fragment. -/
structure Url where
  scheme : Text
  netloc : Text
  path : Text
  deriving DecidableEq, Repr

section Split

def isAsciiAlpha (c : Nat) : Bool := (0x41 ≤ c ∧ c ≤ 0x5A) ∨ (0x61 ≤ c ∧ c ≤ 0x7A)

def isAsciiDigit (c : Nat) : Bool := 0x30 ≤ c ∧ c ≤ 0x39

/-- `scheme_chars` -/
def isSchemeChar (c : Nat) : Bool :=
  isAsciiAlpha c || isAsciiDigit c || (ascii "+-.").contains c

/-- `str.lower` on the characters of a scheme. -/
def lowerScheme (scheme : Text) : Text :=
  scheme.map fun c => if 0x41 ≤ c ∧ c ≤ 0x5A then c + 0x20 else c

/-- The scheme, and what follows its colon. -/
def splitScheme (url : Text) : Text × Text :=
  match partition 0x3A url with
  | (c :: before, some rest) =>
    if isAsciiAlpha c && (c :: before).all isSchemeChar then (lowerScheme (c :: before), rest)
    else ([], url)
  | _ => ([], url)

/-- A delimiter after the network location. -/
def endsNetloc (c : Nat) : Bool := (ascii "/?#").contains c

/-- What is left without fragment and query. -/
def pathOf (rest : Text) : Text := (partition 0x3F (partition 0x23 rest).1).1

def urlsplit (R : UrlRules) (url : Text) : Except Error Url :=
  -- leading controls and spaces go, and every tab and line break
  let (scheme, rest) :=
    splitScheme ((url.dropWhile (· ≤ 0x20)).filter fun c => !(ascii "\t\r\n").contains c)
  match rest with
  | 0x2F :: 0x2F :: rest =>
    let netloc := rest.takeWhile (!endsNetloc ·)
    if netloc.contains 0x5B != netloc.contains 0x5D then .error .valueError
    else if netloc.contains 0x5B && !R.bracketed netloc then .error .valueError
    else if !R.normal netloc then .error .valueError
    else .ok { scheme, netloc, path := pathOf (rest.dropWhile (!endsNetloc ·)) }
  | rest => .ok { scheme, netloc := [], path := pathOf rest }

/-- `uses_params` -/
def usesParams : List Text :=
  [[], ascii "ftp", ascii "hdl", ascii "prospero", ascii "http", ascii "imap", ascii "https",
    ascii "shttp", ascii "rtsp", ascii "rtsps", ascii "rtspu", ascii "sip", ascii "sips",
    ascii "mms", ascii "sftp", ascii "tel"]

/-- `_splitparams`: the path without the parameters of its last segment. -/
def withoutParams (path : Text) : Text :=
  match rpartition 0x2F path with
  | (some before, last) => before ++ 0x2F :: (partition 0x3B last).1
  | (none, path) => (partition 0x3B path).1

def urlparse (R : UrlRules) (url : Text) : Except Error Url :=
  match urlsplit R url with
  | .error e => .error e
  | .ok parts =>
    if usesParams.contains parts.scheme then .ok { parts with path := withoutParams parts.path }
    else .ok parts

end Split

namespace Url

/-- `_hostinfo` -/
def hostinfo (url : Url) : Text × Option Text :=
  let host := (rpartition 0x40 url.netloc).2
  let (hostname, port) :=
    match partition 0x5B host with
    | (_, some bracketed) =>
      let (hostname, rest) := partition 0x5D bracketed
      (hostname, (partition 0x3A (rest.getD [])).2)
    | (_, none) => partition 0x3A host
  (hostname, port.filter (!·.isEmpty))

/-- A zone keeps its case. -/
def hostname (R : UrlRules) (url : Url) : Option Text :=
  match url.hostinfo.1 with
  | [] => none
  | host =>
    match partition 0x25 host with
    | (name, some zone) => some (R.lower name ++ 0x25 :: zone)
    | (name, none) => some (R.lower name)

/-- `int` of a text of digits. -/
def digits (text : Text) : Nat := text.foldl (fun n c => 10 * n + (c - 0x30)) 0

def port (url : Url) : Except Error (Option Nat) :=
  match url.hostinfo.2 with
  | none => .ok none
  | some text =>
    if text.all isAsciiDigit && digits text ≤ 65535 then .ok (some (digits text))
    else .error .valueError

end Url

end Python

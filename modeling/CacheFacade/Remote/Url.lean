import CacheFacade.Bytes
import CacheFacade.Numeral.Integer
import CacheFacade.Text.Split

/-!
The URL of one server: a scheme, an authority with credentials, host and port, and a path. Schemes
of servers are not among the special ones, so the host is kept as it is written, forbidden
characters apart; white space of control kind is dropped before reading.
-/

namespace CacheFacade
namespace Remote

inductive UrlFault where
  | unreadable
  | missingHost
  | noTls
  | badDatabase
  | badUser
  | badPassword
  | badProtocol (text : String)
  | missingPath
deriving Repr, DecidableEq

namespace UrlFault

def reason : UrlFault → String
  | unreadable => "Redis URL did not parse"
  | missingHost => "Missing hostname"
  | noTls => "can't connect with TLS, the feature is not enabled"
  | badDatabase => "Invalid database number"
  | badUser => "Username is not valid UTF-8 string"
  | badPassword => "Password is not valid UTF-8 string"
  | badProtocol _ => "Invalid protocol version"
  | missingPath => "Missing path"

def detail? : UrlFault → Option String
  | badProtocol text => some text
  | _ => none

def message (f : UrlFault) : String :=
  match f.detail? with
  | some text => s!"{f.reason} - InvalidClientConfig: {text}"
  | none => s!"{f.reason}- InvalidClientConfig"

end UrlFault

/-- A URL taken apart. The host is `none` when it is empty or there is no authority. -/
structure Url where
  scheme : String
  user : List Char
  password : List Char
  host : Option String
  port : Option Nat
  path : List Char
  query : List Char
deriving Repr, DecidableEq

namespace Url

def isDropped (c : Char) : Bool := c == '\t' || c == '\n' || c == '\r'

def isEdge (c : Char) : Bool := c.toNat ≤ 0x20

/-- The characters that count: control characters and spaces at the ends do not, nor do tabs and
line breaks anywhere. -/
def significant (cs : List Char) : List Char :=
  ((cs.dropWhile isEdge).reverse.dropWhile isEdge).reverse.filter fun c => !isDropped c

def isSchemeChar (c : Char) : Bool := c.isAlphanum || c == '+' || c == '-' || c == '.'

/-- The scheme in lower case, and what follows its colon. -/
def scheme? (cs : List Char) : Option (String × List Char) :=
  if (cs.head?.map Char.isAlpha).getD false then
    match cs.dropWhile isSchemeChar with
    | ':' :: rest => some (String.ofList ((cs.takeWhile isSchemeChar).map Char.toLower), rest)
    | _ => none
  else none

def endsAuthority (c : Char) : Bool := c == '/' || c == '?' || c == '#'

/-- What stands before the last `@`, if there is one, and what stands after it. -/
def splitCredentials (cs : List Char) : Option (List Char) × List Char :=
  match cs.reverse.span (· != '@') with
  | (_, []) => (none, cs)
  | (after, _ :: before) => (some before.reverse, after.reverse)

/-- The host, up to a colon outside of square brackets. -/
def splitHost : Bool → List Char → List Char × List Char
  | _, [] => ([], [])
  | inside, c :: cs =>
    if (c == ':' && !inside) || endsAuthority c then ([], c :: cs)
    else
      let inside := if c == '[' then true else if c == ']' then false else inside
      let (host, rest) := splitHost inside cs
      (c :: host, rest)

def isForbidden (c : Char) : Bool :=
  c == '\x00' || c == '\t' || c == '\n' || c == '\r' ||
    [' ', '#', '/', ':', '<', '>', '?', '@', '[', '\\', ']', '^', '|'].contains c

def hexValue? (c : Char) : Option Nat :=
  if c.isDigit then some (c.toNat - 48)
  else if 'a' ≤ c && c ≤ 'f' then some (c.toNat - 87)
  else if 'A' ≤ c && c ≤ 'F' then some (c.toNat - 55)
  else none

def isGroup (cs : List Char) : Bool :=
  !cs.isEmpty && cs.length ≤ 4 && cs.all fun c => (hexValue? c).isSome

/-- A part of a dotted address: at most 255, without needless zeros in front. -/
def isOctet (cs : List Char) : Bool :=
  !cs.isEmpty && cs.length ≤ 3 && cs.all Char.isDigit &&
    (cs.length == 1 || cs.head? != some '0') && (String.ofList cs).toNat?.getD 256 ≤ 255

def isDotted (cs : List Char) : Bool :=
  let parts := Split.every '.' cs
  parts.length == 4 && parts.all isOctet

/-- The number of groups of sixteen bits in part of an address; the last one may be dotted. -/
def groups? (dotted : Bool) : List (List Char) → Option Nat
  | [] => some 0
  | [g] => if isGroup g then some 1 else if dotted && isDotted g then some 2 else none
  | g :: gs => if isGroup g then (groups? dotted gs).map (· + 1) else none

/-- The parts around the first pair of colons. -/
def splitGap : List Char → Option (List Char × List Char)
  | ':' :: ':' :: rest => some ([], rest)
  | c :: rest => (splitGap rest).map fun p => (c :: p.1, p.2)
  | [] => none

def groupsOf (cs : List Char) : List (List Char) := if cs.isEmpty then [] else Split.every ':' cs

/-- An address of eight groups, in which one run of groups may be left out. -/
def isAddress (cs : List Char) : Bool :=
  match splitGap cs with
  | none => groups? true (groupsOf cs) == some 8
  | some (before, after) =>
    match groups? false (groupsOf before), groups? true (groupsOf after) with
    | some m, some n => m + n ≤ 7
    | _, _ => false

/-- The host that is written; an empty one is none. -/
def host? (cs : List Char) : Except UrlFault (Option String) :=
  match cs with
  | [] => .ok none
  | '[' :: rest =>
    match rest.reverse with
    | ']' :: inner =>
      if isAddress inner.reverse then .ok (some (String.ofList inner.reverse))
      else .error .unreadable
    | _ => .error .unreadable
  | cs => if cs.any isForbidden then .error .unreadable else .ok (some (String.ofList cs))

/-- A port after its colon, and what follows it. -/
def port? (cs : List Char) : Except UrlFault (Option Nat × List Char) :=
  let digits := cs.takeWhile Char.isDigit
  let rest := cs.dropWhile Char.isDigit
  let n := digits.foldl (fun n c => n * 10 + (c.toNat - 48)) 0
  if 65535 < n then .error .unreadable
  else
    match rest.head? with
    | some c =>
      if endsAuthority c || c == '\\' then .ok (if digits.isEmpty then none else some n, rest)
      else .error .unreadable
    | none => .ok (if digits.isEmpty then none else some n, rest)

def isDot (s : String) : Bool := s == "." || s.map Char.toLower == "%2e"

def isDoubleDot (s : String) : Bool :=
  [ "..", "%2e%2e", "%2e.", ".%2e"].contains (s.map Char.toLower)

/-- Segments without the dots, which stand for the same and the upper segment; `done` holds those
before in reverse. -/
def resolve : List (List Char) → List (List Char) → List (List Char)
  | [], done => done.reverse
  | seg :: segs, done =>
    let last := segs.isEmpty
    if isDoubleDot (String.ofList seg) then
      resolve segs (if last then [] :: done.tail else done.tail)
    else if isDot (String.ofList seg) then resolve segs (if last then [] :: done else done)
    else resolve segs (seg :: done)

/-- The path, from its first slash on. -/
def pathOf (cs : List Char) : List Char :=
  match cs with
  | [] => []
  | '/' :: rest => (resolve (Split.every '/' rest) []).flatMap fun seg => '/' :: seg
  | rest => (resolve (Split.every '/' rest) []).flatMap fun seg => '/' :: seg

/-- The path and the query of what follows the authority. -/
def splitPath (cs : List Char) : List Char × List Char :=
  let body := cs.takeWhile (· != '#')
  (body.takeWhile (· != '?'), (body.dropWhile (· != '?')).drop 1)

def ofAuthority (scheme : String) (cs : List Char) : Except UrlFault Url := do
  let authority := cs.takeWhile fun c => !endsAuthority c
  let after := cs.dropWhile fun c => !endsAuthority c
  let (credentials, place) := splitCredentials authority
  if credentials = some [] ∧ place.isEmpty ∧ !after.isEmpty then .error .unreadable
  let (written, rest) := splitHost false (place ++ after)
  let host ← host? written
  if host.isNone ∧ rest.head? = some ':' then .error .unreadable
  let (port, rest) ← match rest with
    | ':' :: rest => port? rest
    | rest => .ok (none, rest)
  let info := credentials.getD []
  if host.isNone ∧ !info.isEmpty ∧ info ≠ [':'] then .error .unreadable
  let (path, query) := splitPath rest
  return ⟨scheme, info.takeWhile (· != ':'), (info.dropWhile (· != ':')).drop 1, host, port,
    pathOf path, query⟩

/-- Without an authority there is no host; the path may start anywhere. -/
def ofPath (scheme : String) (cs : List Char) : Url :=
  let (path, query) := splitPath cs
  ⟨scheme, [], [], none, none, if path.head? = some '/' then pathOf path else [], query⟩

def parse (s : String) : Except UrlFault Url :=
  match scheme? (significant s.toList) with
  | none => .error .unreadable
  | some (scheme, '/' :: '/' :: rest) => ofAuthority scheme rest
  | some (scheme, rest) => .ok (ofPath scheme rest)

/-- Bytes with their escapes of a percent sign and two digits resolved. -/
def unescape : List Char → Bytes
  | '%' :: a :: b :: rest =>
    match hexValue? a, hexValue? b with
    | some x, some y => (x * 16 + y).toUInt8 :: unescape rest
    | _, _ => Utf8.encode "%" ++ unescape (a :: b :: rest)
  | c :: rest => Utf8.encode c.toString ++ unescape rest
  | [] => []

/-- The value of a query parameter; the last one of a name counts. -/
def parameter? (u : Url) (name : String) : Option String :=
  let decode (cs : List Char) : String :=
    (Utf8.decode (unescape (cs.map fun c => if c == '+' then ' ' else c))).toOption.getD ""
  let pairs := ((Split.every '&' u.query).filter fun p => !p.isEmpty).map fun p =>
    (decode (p.takeWhile (· != '=')), decode ((p.dropWhile (· != '=')).drop 1))
  pairs.reverse.lookup name

end Url
end Remote
end CacheFacade

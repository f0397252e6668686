import CacheFacade.Config
import CacheFacade.Remote.Url

/-!
The address of a remote cache: one or more servers and, for sentinels, the set that they watch. It
is a server's URL with parameters behind a question mark: `addr` names further servers and
`master_set` the watched set. A text without a scheme gets the usual one.
-/

namespace CacheFacade
namespace Remote

/-- Where a server is reached. -/
inductive Endpoint where
  | network (host : String) (port : Nat) (database : Int)
  | socket (path : List Char) (database : Int)
deriving Repr, DecidableEq

namespace Endpoint

def defaultPort : Nat := 6379

def database (s : String) : Except UrlFault Int :=
  match Integer.read .i64 s with
  | .ok n => .ok n
  | .error _ => .error .badDatabase

def trimSlashes (cs : List Char) : List Char :=
  ((cs.dropWhile (· == '/')).reverse.dropWhile (· == '/')).reverse

def checkText (f : UrlFault) (cs : List Char) : Except UrlFault Unit :=
  match Utf8.decode (Url.unescape cs) with
  | .ok _ => .ok ()
  | .error _ => .error f

def checkProtocol (u : Url) : Except UrlFault Unit :=
  match u.parameter? "protocol" with
  | none => .ok ()
  | some p => if ["2", "resp2", "3", "resp3"].contains p then .ok () else .error (.badProtocol p)

def ofNetwork (u : Url) : Except UrlFault Endpoint := do
  match u.host with
  | none => .error .missingHost
  | some host =>
    if u.scheme = "rediss" ∨ u.scheme = "valkeys" then .error .noTls
    let path := trimSlashes u.path
    let db ← if path.isEmpty then .ok 0 else database (String.ofList path)
    checkText .badUser u.user
    checkText .badPassword u.password
    checkProtocol u
    return .network host (u.port.getD defaultPort) db

def ofSocket (u : Url) : Except UrlFault Endpoint := do
  if u.path.isEmpty ∨ (u.host ≠ none ∧ u.host ≠ some "localhost") then .error .missingPath
  let db ← match u.parameter? "db" with
    | some s => database s
    | none => .ok 0
  checkProtocol u
  return .socket u.path db

def networkSchemes : List String := ["redis", "rediss", "valkey", "valkeys"]

def socketSchemes : List String := ["unix", "redis+unix", "valkey+unix"]

def ofText (s : String) : Except UrlFault Endpoint := do
  let u ← Url.parse s
  if networkSchemes.contains u.scheme then ofNetwork u
  else if socketSchemes.contains u.scheme then ofSocket u
  else .error .unreadable

/-- Why a client refuses the URL of a server, if it does. -/
def refusal? (url : String) : Option String :=
  match ofText url with
  | .ok _ => none
  | .error f => some f.message

end Endpoint

structure Address where
  nodes : List String
  masterSet : Option String
deriving Repr, DecidableEq

namespace Address

def schemeMark : List Char := [':', '/', '/']

/-- Adds the usual scheme to an address that holds none. -/
def withScheme (cs : List Char) : List Char :=
  if (Split.first? schemeMark cs).isSome then cs else "redis://".toList ++ cs

/-- One parameter: a further server, the watched set, or one that is passed over. -/
inductive Parameter where
  | node (host : List Char)
  | watched (name : List Char)
  | ignored (name : List Char)
deriving Repr, DecidableEq

def parameter (cs : List Char) : Parameter :=
  let (name, value) := (Split.first? ['='] cs).getD (cs, [])
  if name = "addr".toList ∧ !value.isEmpty then .node value
  else if name = "master_set".toList ∧ !value.isEmpty then .watched value
  else .ignored name

def parameters (query : List Char) : List Parameter :=
  ((Split.every '&' query).filter fun p => !p.isEmpty).map parameter

def Parameter.line? : Parameter → Option Line
  | ignored name => some ⟨.debug, s!"Ignoring remote address parameter {String.ofList name}"⟩
  | _ => none

/-- The servers of an address: the one before the parameters, and those that parameters name. -/
def nodesOf (base : List Char) (ps : List Parameter) : List String :=
  let scheme := ((Split.first? schemeMark base).map (·.1)).getD base
  String.ofList base :: ps.filterMap fun
    | .node host => some (String.ofList (scheme ++ schemeMark ++ host))
    | _ => none

def masterSetOf (ps : List Parameter) : Option String :=
  (ps.reverse.filterMap fun
    | .watched name => some (String.ofList name)
    | _ => none).head?

def checkNode (refusal? : String → Option String) (node : String) : Except Fault Unit :=
  match refusal? node with
  | none => .ok ()
  | some reason => .error (.config s!"malformed remote address {node}: {reason}")

def checkNodes (refusal? : String → Option String) : List String → Except Fault Unit
  | [] => .ok ()
  | node :: nodes => do
    checkNode refusal? node
    checkNodes refusal? nodes

/-- Sentinels can only be asked about a set that they watch. -/
def checkMasterSet (mode : Mode) (masterSet : Option String) : Except Fault Unit :=
  if mode = .sentinel ∧ masterSet = none then
    .error (.config "sentinel address requires a master_set parameter")
  else .ok ()

/-- The address of a cache in a mode, for a client that refuses some URLs, and the lines about
parameters that were passed over. -/
def parseFor (refusal? : String → Option String) (mode : Mode) (text : String) :
    Except Fault Address × List Line :=
  let cs := Blank.trimChars text.toList
  if cs.isEmpty then (.error (.config "empty remote address"), [])
  else
    let whole := withScheme cs
    let (base, query) := (Split.first? ['?'] whole).getD (whole, [])
    let ps := parameters query
    let nodes := nodesOf base ps
    let result : Except Fault Address := do
      checkNodes refusal? nodes
      checkMasterSet mode (masterSetOf ps)
      return ⟨nodes, masterSetOf ps⟩
    (result, ps.filterMap Parameter.line?)

def parse : Mode → String → Except Fault Address × List Line := parseFor Endpoint.refusal?

end Address
end Remote
end CacheFacade

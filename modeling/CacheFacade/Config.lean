import CacheFacade.Codec
import CacheFacade.Fault
import CacheFacade.Span
import CacheFacade.Text.Blank

/-!
The configuration of a cache: which engine holds it, its name, and the lifetimes it gives to entries
and locks. It is fixed when the cache is opened.
-/

namespace CacheFacade

inductive Mode where
  | inProcess
  | remote
  | cluster
  | sentinel
deriving Repr, DecidableEq

namespace Mode

def default : Mode := inProcess

def isLocal : Mode → Bool
  | inProcess => true
  | _ => false

/-- The lock replicas that must agree. Distributed servers hold three and need two of them. -/
def majority : Mode → Nat
  | cluster | sentinel => 2
  | inProcess | remote => 1

def name : Mode → String
  | inProcess => "local"
  | remote => "remote"
  | cluster => "cluster"
  | sentinel => "sentinel"

/-- The form for diagnosis. -/
def describe : Mode → String
  | inProcess => "Local"
  | remote => "Remote"
  | cluster => "Cluster"
  | sentinel => "Sentinel"

/-- The mode that a text names, in any case and with white space around it; a text that names none
means a single remote server. -/
def ofText (s : String) : Mode :=
  let word := (Blank.trim s).map Char.toLower
  if word = "local" then inProcess
  else if word = "cluster" then cluster
  else if word = "sentinel" then sentinel
  else remote

end Mode

structure Config where
  name : String
  codec : Codec
  mode : Mode
  address : String
  /-- The lifetime of entries that are written without one; zero for none. -/
  defaultTtl : Span
  /-- The cost budget of the local engine; zero for the default one. -/
  maxElements : Nat
  /-- A read gives an entry its default lifetime again. -/
  touch : Bool
  lockValidity : Option Span
  poolSize : Nat

namespace Config

def defaultPoolSize : Nat := 16

def defaultLease : Span := .ofSeconds 5

/-- The cost budget of a local cache that names none. -/
def defaultBudget : Nat := Nat.pow 2 30

def ofCodec (name : String) (codec : Codec) : Config where
  name := name
  codec := codec
  mode := .default
  address := ""
  defaultTtl := .zero
  maxElements := 0
  touch := false
  lockValidity := none
  poolSize := defaultPoolSize

/-- The default lifetime, unless it is zero. -/
def ttl (c : Config) : Option Span := if c.defaultTtl.isZero then none else some c.defaultTtl

/-- The lease of locks: the one configured, else the default lifetime, else five seconds. -/
def leaseOf (c : Config) : Span :=
  match c.lockValidity with
  | some v => if v.isZero then c.ttl.getD defaultLease else v
  | none => c.ttl.getD defaultLease

def budget (c : Config) : Nat := if c.maxElements = 0 then defaultBudget else c.maxElements

/-- A remote mode needs an address, and a pool that holds at least one connection. -/
def validate (c : Config) : Except Fault Unit :=
  if c.mode.isLocal then .ok ()
  else if (Blank.trim c.address).isEmpty then
    .error (.config s!"{c.mode.name} mode requires a remote address")
  else if c.poolSize = 0 then .error (.config "pool size must be greater than zero")
  else .ok ()

def describeSpan? : Option Span → String
  | some d => s!"Some({d.text})"
  | none => "None"

/-- The form for diagnosis. -/
def describe (c : Config) : String :=
  "CacheConfig \x7b mode: " ++ c.mode.describe ++ ", name: " ++ Quoted.text c.name ++
    ", remote_address: " ++ Quoted.text c.address ++ ", default_ttl: " ++ c.defaultTtl.text ++
    ", max_elements: " ++ toString c.maxElements ++ ", apply_touch: " ++ toString c.touch ++
    ", serializer: " ++ Quoted.text c.codec.name ++ ", lock_validity: " ++
    describeSpan? c.lockValidity ++ ", pool_size: " ++ toString c.poolSize ++ " \x7d"

end Config
end CacheFacade

import CacheFacade.Config

/-!
A configuration from environment variables. A variable that is not set leaves its part of the
configuration at the default; a number or truth value that cannot be read refuses the whole.
-/

namespace CacheFacade
namespace Environment

/-- The text of a variable, if it is set. -/
abbrev Variables := String → Option String

def refuse {α : Type} (name raw message : String) : Except Fault α :=
  .error (.config s!"invalid {name}={Quoted.text raw}: {message}")

/-- An unsigned word of 64 bits, with white space around it. -/
def word (vars : Variables) (name : String) (unset : Nat) : Except Fault Nat :=
  match vars name with
  | none => .ok unset
  | some raw =>
    match Integer.read .u64 (Blank.trim raw) with
    | .ok n => .ok n.toNat
    | .error f => refuse name raw f.message

def truth (vars : Variables) (name : String) (unset : Bool) : Except Fault Bool :=
  match vars name with
  | none => .ok unset
  | some raw =>
    match Blank.trim raw with
    | "true" => .ok true
    | "false" => .ok false
    | _ => refuse name raw "provided string was not `true` or `false`"

/-- The configuration of a cache that stores values of a type by the plain strategy. -/
def config (t : Ty) (vars : Variables) : Except Fault Config := do
  let base := Config.ofCodec ((vars "CACHE_NAME").getD "cache") (.described .plain t)
  let seconds ← word vars "CACHE_DEFAULT_TTL_SECS" 0
  let maxElements ← word vars "CACHE_MAX_ELEMENTS" 0
  let touch ← truth vars "CACHE_APPLY_TOUCH" false
  let poolSize ← word vars "REDIS_POOL_SIZE" Config.defaultPoolSize
  return { base with
    mode := ((vars "CACHE_MODE").map Mode.ofText).getD .default
    address := (vars "CACHE_REMOTE_ADDR").getD ""
    defaultTtl := .ofSeconds seconds
    maxElements := maxElements
    touch := touch
    poolSize := poolSize }

end Environment
end CacheFacade

import CacheFacade.Clock
import CacheFacade.Remote.Lease

/-!
A session with a server: the leases that are kept alive while time passes, and the signals that were
given. Renewals happen at their times, one after the other; a lease that ends is kept no longer.
-/

namespace CacheFacade
namespace Remote

/-- A lease, and when it is renewed next. -/
structure Tended where
  lease : Lease
  due : Nat
deriving Repr, DecidableEq

structure Session (σ : Type) where
  /-- What a link works on. -/
  world : σ
  tended : List Tended
  /-- The tokens whose signal was given. -/
  signalled : List String

namespace Session

variable {σ α : Type}

def start (world : σ) : Session σ := ⟨world, [], []⟩

def isCancelled (s : Session σ) (token : String) : Bool := s.signalled.contains token

def perform (link : Link σ) (p : Plan α) (s : Session σ) : Run (Session σ) α :=
  let r := p.run link s.world
  r.map id fun world =>
    { s with world := world, signalled := s.signalled ++ r.events.filterMap Event.token? }

/-- Looks after a lease from now on. A task that has no instant for the first renewal ends at once:
nobody looks after the lease then, and its signal is given with the end of the task. -/
def tend (link : Link σ) (l : Lease) (s : Session σ) : Session σ :=
  match Clock.after? (link.now s.world) l.period with
  | some due => { s with tended := s.tended ++ [⟨l, due⟩] }
  | none => { s with signalled := s.signalled ++ [l.token] }

def forget (token : String) (s : Session σ) : Session σ :=
  { s with tended := s.tended.filter fun t => t.lease.token != token }

/-- Carries out a plan that takes a lock, and looks after its lease. -/
def takeLock (link : Link σ) (p : Plan (Except Fault Lease)) (s : Session σ) :
    Run (Session σ) (Except Fault Lease) :=
  let r := s.perform link p
  match r.value with
  | .ok l => r.map id (tend link l)
  | .error _ => r

/-- Gives a lock back; there is nothing to do once its lease has ended. -/
def giveBack (link : Link σ) (token : String) (s : Session σ) : Run (Session σ) Unit :=
  match s.tended.find? fun t => t.lease.token == token with
  | none => ⟨(), s, []⟩
  | some t => (s.perform link (t.lease.react .stop)).map (fun _ => ()) (forget token)

/-- The first of those that are renewed earliest. -/
def earliest? : List Tended → Option Tended
  | [] => none
  | t :: ts =>
    match earliest? ts with
    | some u => if u.due < t.due then some u else some t
    | none => some t

def moveTo (link : Link σ) (time : Nat) (s : Session σ) : Session σ :=
  { s with world := link.pass ⟨time - link.now s.world⟩ s.world }

def postpone (t : Tended) (s : Session σ) : Session σ :=
  { s with tended := s.tended.map fun u =>
    if u.lease.token == t.lease.token then ⟨u.lease, t.due + t.lease.period.nanos⟩ else u }

/-- Renews a lease at its time. -/
def renew (link : Link σ) (t : Tended) (s : Session σ) : Run (Session σ) Unit :=
  let r := (s.moveTo link t.due).perform link (t.lease.react .due)
  r.map (fun _ => ()) (if r.value then postpone t else forget t.lease.token)

/-- The renewals up to a time, at most so many, and then the rest of the way. -/
def renewUntil (link : Link σ) (time : Nat) : Nat → Session σ → Run (Session σ) Unit
  | 0, s => ⟨(), s.moveTo link time, []⟩
  | count + 1, s =>
    match earliest? s.tended with
    | none => ⟨(), s.moveTo link time, []⟩
    | some t =>
      if t.due ≤ time then
        let r := s.renew link t
        (r.state.renewUntil link time count).after r.events
      else ⟨(), s.moveTo link time, []⟩

/-- How many renewals fall due up to a time if every lease lives on. -/
def renewals (time : Nat) : List Tended → Nat
  | [] => 0
  | t :: ts =>
    (if t.due ≤ time then (time - t.due) / t.lease.period.nanos + 1 else 0) + renewals time ts

def sleep (link : Link σ) (d : Span) (s : Session σ) : Run (Session σ) Unit :=
  let time := link.now s.world + d.nanos
  s.renewUntil link time (renewals time s.tended)

end Session
end Remote
end CacheFacade

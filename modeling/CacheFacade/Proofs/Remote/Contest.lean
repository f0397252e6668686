import CacheFacade.Proofs.Remote.Registry
import CacheFacade.Proofs.Remote.Settle

/-!
Any number of clients that contend for one lock. Each client carries out the plans of the lock by
itself; between any two commands of one client come commands of the others, and time may pass. The
invariant of a run says at what point of its plans a client stands, and that every round has a token
of its own.
-/

namespace CacheFacade
namespace Remote

structure Attempt where
  token : String
  validity : Span
  begun : Nat
deriving Repr, DecidableEq

/-- A lock that was taken: its lease, when its round began and ended, and when its lease is renewed
next. -/
structure Grant where
  lease : Lease
  begun : Nat
  granted : Nat
  due : Nat
deriving Repr, DecidableEq

def Grant.attempt (g : Grant) : Attempt := ⟨g.lease.token, g.lease.validity, g.begun⟩

inductive Client where
  | idle
  | trying (a : Attempt) (x : Exchange (Except Fault Lease))
  | holding (g : Grant)
  /-- A renewal is under way, or the end of the lease. -/
  | tending (g : Grant) (x : Exchange Bool)

namespace Client

def errands : Client → List Errand
  | idle | holding _ => []
  | trying _ x => x.errands
  | tending _ x => x.errands

def note (i : Nat) (o : Outcome) : Client → Client
  | trying a x => trying a (x.note i o)
  | tending g x => tending g (x.note i o)
  | c => c

def attempt? : Client → Option Attempt
  | idle => none
  | trying a _ => some a
  | holding g | tending g _ => some g.attempt

def token? (c : Client) : Option String := c.attempt?.map Attempt.token

def grant? : Client → Option Grant
  | holding g | tending g _ => some g
  | _ => none

/-- A client whose round came to `act` at an instant. -/
def ofRound (now : Nat) (a : Attempt) : Activity (Except Fault Lease) → Client
  | .asking x => trying a x
  | .ended (.ok l) => holding ⟨l, a.begun, now, now + l.period.nanos⟩
  | .ended (.error _) => idle

def ofReaction (g : Grant) : Activity Bool → Client
  | .asking x => tending g x
  | .ended true => holding { g with due := g.due + g.lease.period.nanos }
  | .ended false => idle

end Client

structure Contest where
  registry : Registry
  drawn : List String
  /-- The tokens whose signal was given. -/
  signalled : List String
  clients : Nat → Client

def Contest.start : Contest := ⟨.vacant, [], [], fun _ => .idle⟩

def Contest.advance (s : Contest) (i : Nat) (signals : List String) (c : Client) : Contest :=
  { s with signalled := signals ++ s.signalled, clients := Function.update s.clients i c }

inductive Move where
  | pass (d : Nat)
  /-- A client begins a round, for a validity of its own. -/
  | tryLock (i : Nat) (validity : Span) (token : String)
  /-- One command of a client comes to its fate. -/
  | serve (i j : Nat) (f : Fate)
  /-- A client has all its answers and goes on. -/
  | resume (i : Nat)
  | prompt (i : Nat) (p : Prompt)
deriving Repr, DecidableEq

def Move.duration : Move → Nat
  | pass d => d
  | _ => 0

def Quorum.lasting (q : Quorum) (validity : Span) : Quorum := { q with validity := validity }

inductive Turn (q : Quorum) (key : String) : Contest → Move → Contest → Prop
  | pass {s : Contest} (d : Nat) :
      Turn q key s (.pass d) { s with registry := s.registry.pass d }
  | tryLock {s : Contest} {i : Nat} {validity : Span} {token : String} {signals : List String}
      {act : Activity (Except Fault Lease)} (idle : s.clients i = .idle) (fresh : token ∉ s.drawn)
      (run : ((q.lasting validity).tryLock key).settle s.registry.now token = (signals, act)) :
      Turn q key s (.tryLock i validity token)
        ({ s with drawn := token :: s.drawn }.advance i signals
          (.ofRound s.registry.now ⟨token, validity, s.registry.now⟩ act))
  | serve {s : Contest} {i j : Nat} {c : Command} (f : Fate)
      (errand : (s.clients i).errands[j]? = some (.pending c)) :
      Turn q key s (.serve i j f)
        ({ s with registry := (s.registry.meet c f).2 }.advance i []
          ((s.clients i).note j (s.registry.meet c f).1))
  | resumeRound {s : Contest} {i : Nat} {a : Attempt} {x : Exchange (Except Fault Lease)}
      {os : List Outcome} {signals : List String} {act : Activity (Except Fault Lease)}
      (stand : s.clients i = .trying a x) (answered : x.Answered os)
      (run : (x.next os).settle s.registry.now a.token = (signals, act)) :
      Turn q key s (.resume i) (s.advance i signals (.ofRound s.registry.now a act))
  | resumeLease {s : Contest} {i : Nat} {g : Grant} {x : Exchange Bool} {os : List Outcome}
      {signals : List String} {act : Activity Bool}
      (stand : s.clients i = .tending g x) (answered : x.Answered os)
      (run : (x.next os).settle s.registry.now g.lease.token = (signals, act)) :
      Turn q key s (.resume i) (s.advance i signals (.ofReaction g act))
  | prompt {s : Contest} {i : Nat} {g : Grant} {p : Prompt} {signals : List String}
      {act : Activity Bool} (stand : s.clients i = .holding g)
      (run : (g.lease.react p).settle s.registry.now g.lease.token = (signals, act)) :
      Turn q key s (.prompt i p) (s.advance i signals (.ofReaction g act))

theorem Turn.now {q : Quorum} {key : String} {s s' : Contest} {m : Move}
    (step : Turn q key s m s') : s'.registry.now = s.registry.now + m.duration := by
  cases step with
  | pass d => rfl
  | serve f _ => exact Registry.meet_now _ _ f
  | tryLock _ _ _ | resumeRound _ _ _ | resumeLease _ _ _ | prompt _ _ => rfl

/-- The contests that runs of allowed moves lead to. -/
inductive Reach (q : Quorum) (key : String) (allowed : Contest → Move → Prop) : Contest → Prop
  | start : Reach q key allowed .start
  | step {s s' : Contest} {m : Move} (before : Reach q key allowed s) (may : allowed s m)
      (step : Turn q key s m s') : Reach q key allowed s'

end Remote
end CacheFacade

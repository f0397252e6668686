import CacheFacade.Local.Service

/-!
Runs of a local cache: what its users do with it, in any order, through the cache or any clone of
it, which is the same cache. Time passes, locks are taken and given back, and the store may drop any
of its entries on its own.
-/

namespace CacheFacade
namespace Local

def Store.lose {α : Type} (s : Store α) (gone : String → Bool) : Store α :=
  { s with entries := s.entries.filter fun e => !gone e.key }

inductive Operation where
  | act (a : Action)
  | sleep (d : Span)
  /-- The store drops entries, whatever its reason. -/
  | lose (gone : String → Bool)
  | tryLock (key : String)
  /-- A guard is released or dropped. -/
  | giveBack (g : Lock.Guard)
  | close
  /-- The handle of the cache gives it up. -/
  | release

/-- A cache, the guards that it gave out, and those of them that were released or dropped. -/
structure State where
  service : Service
  issued : List Lock.Guard
  returned : List Lock.Guard

namespace State

def opened (c : Config) : State := ⟨.ofConfig c, [], []⟩

def cache (s : State) : Cache := s.service.cache

def locks (s : State) : Lock.Table := s.cache.locks

def Keeps (s : State) (g : Lock.Guard) : Prop := g ∈ s.issued ∧ g ∉ s.returned

instance (s : State) (g : Lock.Guard) : Decidable (s.Keeps g) :=
  inferInstanceAs (Decidable (_ ∧ _))

def withCache (s : State) (c : Cache) : State := { s with service := { s.service with cache := c } }

/-- A guard is given back once, by whoever has it. -/
def step (s : State) : Operation → State
  | .act a => s.withCache (s.cache.run a).state
  | .sleep d => s.withCache (s.cache.sleep d)
  | .lose gone => s.withCache { s.cache with store := s.cache.store.lose gone }
  | .tryLock key =>
    let taken := s.cache.tryLock key
    match taken.result with
    | .ok g => { s.withCache taken.state with issued := g :: s.issued }
    | .error _ => s.withCache taken.state
  | .giveBack g =>
    if s.Keeps g then { s.withCache (s.cache.unlock g).state with returned := g :: s.returned }
    else s
  | .close => s.withCache s.cache.close.state
  | .release => { s with service := s.service.release.state }

/-- What becomes of the cache in one step. -/
inductive CacheStep (s : State) : Operation → Cache → Prop
  | act (a : Action) : CacheStep s (.act a) (s.cache.run a).state
  | sleep (d : Span) : CacheStep s (.sleep d) (s.cache.sleep d)
  | lose (gone : String → Bool) :
      CacheStep s (.lose gone) { s.cache with store := s.cache.store.lose gone }
  /-- No more than the locks changes. -/
  | locked {d : Operation} (awake : ∀ span, d ≠ .sleep span) (locks : Lock.Table) :
      CacheStep s d { s.cache with locks := locks }
  | emptied {d : Operation} (awake : ∀ span, d ≠ .sleep span) (locks : Lock.Table) :
      CacheStep s d { s.cache with store := s.cache.store.clear, locks := locks }

theorem cacheStep (s : State) (d : Operation) : s.CacheStep d (s.step d).cache := by
  cases d with
  | act a => exact .act a
  | sleep span => exact .sleep span
  | lose gone => exact .lose gone
  | tryLock key =>
      simp only [step]
      split <;> exact .locked (fun _ => Operation.noConfusion) _
  | giveBack g =>
      simp only [step]
      split
      · exact .locked (fun _ => Operation.noConfusion) _
      · exact .locked (fun _ => Operation.noConfusion) s.locks
  | close => exact .emptied (fun _ => Operation.noConfusion) _
  | release =>
      simp only [step, Service.release]
      split
      · exact .locked (fun _ => Operation.noConfusion) s.locks
      · exact .emptied (fun _ => Operation.noConfusion) _

/-- The state after operations, of which the last one is listed first. -/
def after (s : State) : List Operation → State
  | [] => s
  | d :: past => (s.after past).step d

end State

end Local
end CacheFacade

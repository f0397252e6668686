import CacheFacade.Proofs.Local.Entries
import CacheFacade.Proofs.Local.State
import CacheFacade.Proofs.Local.Works

/-!
What the history of a local cache says about a key: the effects that its operations had on it, by
their answers alone, and the deadline that follows from the lifetimes that they gave. Whatever the
store drops meanwhile, an entry that can be found is as the history says.
-/

namespace CacheFacade

/-- What an operation that went well did to a key. -/
inductive Effect where
  | value (v : Val)
  | counter (n : Int)
  | field (name : String) (v : Val)
  /-- Fields of these names are removed. -/
  | unfield (names : List String)
  | gone

/-- What happens to a key as a whole happens to each of its fields. -/
def Effect.concerns (field : String) : Effect → Bool
  | .field name _ => name == field
  | .unfield names => names.contains field
  | _ => true

def Reply.number? : Reply → Option Int
  | .number n => some n
  | _ => none

def Action.effect? (key : String) (r : Reply) : Action → Option Effect
  | .set k v | .setFor k v _ => if k = key then some (.value v) else none
  | .increment k _ | .decrement k _ => if k = key then r.number?.map .counter else none
  | .fieldSet k f v | .fieldSetFor k f v _ => if k = key then some (.field f v) else none
  | .fieldDelete k names => if k = key then some (.unfield names) else none
  | .delete k | .expire k _ => if k = key then some .gone else none
  | .deleteAll ks => if key ∈ ks then some .gone else none
  | .get _ | .fieldGet _ _ | .fields _ | .fieldExpire _ _ _ | .fieldTtl _ _ => none

/-- The operation looks the key up, which counts as a use of the entry. -/
def Action.looksUp (key : String) : Action → Bool
  | .get k | .increment k _ | .fieldSet k _ _ | .fieldSetFor k _ _ _ | .fieldGet k _ | .fields k
  | .fieldDelete k _ | .fieldTtl k _ => k == key
  | .decrement k delta => k == key && IntKind.i64.holds (-delta)
  | .set _ _ | .setFor _ _ _ | .delete _ | .deleteAll _ | .expire _ _ | .fieldExpire _ _ _ => false

namespace Local

namespace Cache

def effect? (c : Cache) (key : String) (a : Action) : Option Effect :=
  match (c.run a).result with
  | .ok r => a.effect? key r
  | .error _ => none

def finds (c : Cache) (key : String) : Bool :=
  (c.store.live? (c.keys.qualify key) c.now).isSome

/-- The lifetime that an operation gives to what it writes. Only a hash or a number that is found
keeps what is left of its own. -/
def lifeGiven (c : Cache) (key : String) : Action → Expiry
  | .set _ _ => .ofTtl c.defaultTtl
  | .setFor _ _ ttl | .fieldSetFor _ _ _ ttl => .ofTtl (some ttl)
  | .increment _ _ | .decrement _ _ => if c.finds key then .keep else .never
  | .fieldSet _ _ _ => if c.finds key then .keep else .ofTtl c.defaultTtl
  | _ => .keep

/-- The deadline of a key after an operation, from the one before it. -/
def dueAfter (c : Cache) (key : String) (a : Action) (due : Option Nat) : Option Nat :=
  let seen := if a.looksUp key then touched c.now c.touch due else due
  if (c.effect? key a).isSome then (c.lifeGiven key a).deadline c.now seen else seen

end Cache

namespace State

def effect? (s : State) (key : String) : Operation → Option Effect
  | .act a => s.cache.effect? key a
  | .close => some .gone
  | .release => if s.service.released then none else some .gone
  | .sleep _ | .lose _ | .tryLock _ | .giveBack _ => none

/-- The effects of operations on a key, the last one first. -/
def history (s : State) (key : String) : List Operation → List Effect
  | [] => []
  | d :: past => ((s.after past).effect? key d).toList ++ s.history key past

def due (s : State) (key : String) : List Operation → Option Nat
  | .act a :: past => (s.after past).cache.dueAfter key a (s.due key past)
  | _ :: past => s.due key past
  | [] => none

end State

/-- The history of a key is that of an item. -/
def Tells (history : List Effect) : Item → Prop
  | .value v => history.head? = some (.value v)
  | .counter n => history.head? = some (.counter n)
  | .hash fields =>
    Sorted fields ∧ ∀ f ∈ fields, history.find? (·.concerns f.1) = some (.field f.1 f.2)

structure Vouched (history : List Effect) (due : Option Nat) (e : Entry Item) : Prop where
  told : Tells history e.value
  deadline : e.deadline = due

/-- The live entries of a key are as its history says; there is none if the store dropped it. -/
def Cache.Vouches (c : Cache) (key : String) (history : List Effect) (due : Option Nat) : Prop :=
  ∀ e ∈ c.store.entries, e.key = c.keys.qualify key → e.isLive c.now = true →
    Vouched history due e

/-- A lifetime that is given is not over at once. -/
def Expiry.Positive : Expiry → Prop
  | .after ttl => 0 < ttl.nanos
  | _ => True

theorem Expiry.positive_ofTtl (ttl : Option Span) : (ofTtl ttl).Positive := by
  cases ttl with
  | none => trivial
  | some d =>
      simp only [ofTtl]
      split
      · trivial
      · rename_i h
        simp only [Span.isZero, beq_iff_eq] at h
        exact Nat.pos_of_ne_zero h

theorem Expiry.ofTtl_ne_keep (ttl : Option Span) : ofTtl ttl ≠ .keep := by
  cases ttl with
  | none => exact Expiry.noConfusion
  | some d =>
      simp only [ofTtl]
      split <;> exact Expiry.noConfusion

theorem Expiry.deadline_of_ne_keep {life : Expiry} (h : life ≠ .keep) (now : Nat)
    (old : Option Nat) : life.deadline now old = life.deadline now none := by
  cases life with
  | keep => exact absurd rfl h
  | after _ | never => rfl

theorem lt_of_isLive {now d : Nat} {e : Entry Item} (live : e.isLive now = true)
    (h : e.deadline = some d) : now < d := by
  rw [Entry.isLive, h] at live
  exact of_decide_eq_true live

namespace Cache

variable {c : Cache} {key : String} {history : List Effect} {due : Option Nat}

theorem Vouches.mono (h : c.Vouches key history due) {d : Cache} (keys : d.keys = c.keys)
    (later : c.now ≤ d.now)
    (fewer : ∀ e ∈ d.store.entries, e.key = c.keys.qualify key → e ∈ c.store.entries) :
    d.Vouches key history due := by
  intro e member own live
  rw [keys] at own
  exact h e (fewer e member own) own (Entry.isLive_of_le later live)

/-- Work on other keys brings no entry of a key into the store. -/
theorem Works.spares {on : String → Prop} {c d : Cache} (works : Works on c d) {k : String}
    (other : ¬ on k) {e : Entry Item} (member : e ∈ d.store.entries) (own : e.key = k) :
    e ∈ c.store.entries := by
  have apart : ∀ {k' : String}, on k' → e.key ≠ k' := by
    intro k' hk' same
    exact other (own ▸ same ▸ hk')
  induction works generalizing e with
  | idle => exact member
  | lookUp _ hk ih =>
      obtain ⟨old, -⟩ | ⟨old, found, rfl⟩ := Store.mem_read member
      · exact ih old own apart
      · exact absurd (Store.mem_of_live? found).2.1 (apart hk)
  | put _ hk filled life ih =>
      obtain ⟨old, -⟩ | rfl := Store.mem_write member
      · exact ih old own apart
      · exact absurd rfl (apart hk)
  | evict _ hk ih => exact ih (Store.mem_remove.mp member).1 own apart

theorem Vouches.works (h : c.Vouches key history due) {on : String → Prop} {d : Cache}
    (works : Works on c d) (other : ¬ on (c.keys.qualify key)) : d.Vouches key history due := by
  have same : d = { c with store := d.store } := works.alike
  have keys : d.keys = c.keys := by rw [same]
  have now : d.now = c.now := by rw [same]
  apply h.mono keys (Nat.le_of_eq now.symm)
  intro e member own
  exact works.spares other member own

theorem Vouches.lookUp (h : c.Vouches key history due) :
    (c.lookUp (c.keys.qualify key)).2.Vouches key history (touched c.now c.touch due) := by
  intro e member own live
  obtain ⟨-, other⟩ | ⟨old, found, rfl⟩ := Store.mem_read member
  · exact absurd own (other live)
  · obtain ⟨there, key, live⟩ := Store.mem_of_live? found
    obtain ⟨told, deadline⟩ := h old there key live
    exact ⟨told, congrArg (touched c.now c.touch) deadline⟩

theorem Vouches.found (h : c.Vouches key history due) {item : Item}
    (found : (c.lookUp (c.keys.qualify key)).1 = some item) :
    Tells history item ∧ ∀ d, due = some d → c.now < d := by
  have there : (c.store.live? (c.keys.qualify key) c.now).map Entry.value = some item := by
    rw [← found]
    exact (Store.read_fst _ _ _ _).symm
  obtain ⟨e, he, rfl⟩ := Option.map_eq_some_iff.mp there
  obtain ⟨member, own, live⟩ := Store.mem_of_live? he
  obtain ⟨told, deadline⟩ := h e member own live
  refine ⟨told, ?_⟩
  intro d hd
  exact lt_of_isLive live (deadline.trans hd)

theorem Vouches.put (h : c.Vouches key history due) {item : Item} {life : Expiry}
    {new : List Effect} (told : Tells new item)
    (found : life = .keep → ∃ old, c.store.find? (c.keys.qualify key) = some old ∧
      old.isLive c.now = true) :
    (c.put (c.keys.qualify key) item life).Vouches key new (life.deadline c.now due) := by
  intro e member own _
  obtain ⟨-, other⟩ | rfl := Store.mem_write member
  · exact absurd own other
  · refine ⟨told, ?_⟩
    by_cases keep : life = .keep
    · obtain ⟨old, there, live⟩ := found keep
      obtain ⟨member, own⟩ := Store.mem_of_find? there
      rw [there]
      exact congrArg (life.deadline c.now) (h old member own live).deadline
    -- What stood under the key may be past its deadline, or dropped: a write that keeps nothing
    -- does not depend on it.
    · exact (Expiry.deadline_of_ne_keep keep _ _).trans (Expiry.deadline_of_ne_keep keep _ _).symm

theorem vouches_evict (c : Cache) (key : String) (history : List Effect) (due : Option Nat) :
    (c.evict (c.keys.qualify key)).Vouches key history due := by
  intro e member own
  exact absurd own (Store.mem_remove.mp member).2

end Cache
end Local
end CacheFacade

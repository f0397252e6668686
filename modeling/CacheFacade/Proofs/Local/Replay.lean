import CacheFacade.Proofs.Local.History
import Mathlib.Algebra.BigOperators.Group.Finset.Basic
import Mathlib.Algebra.Order.BigOperators.Group.Finset

/-!
A plain map with deadlines, as a cache would be if it had no store to fill. The operations of a run are
replayed on it, each with the effect that it has by what the key holds, and a key goes when its
deadline comes. What a run asks of a budget is the cost of its keys, each at its largest.
-/

namespace CacheFacade

open Local

/-- The fields of what a key holds. -/
def Local.fieldsOf : Option Item → List (String × Val)
  | some (.hash fields) => fields
  | _ => []

namespace Effect

/-- An effect after which the key holds something. -/
def writes : Effect → Bool
  | .value _ | .counter _ | .field _ _ => true
  | .unfield _ | .gone => false

/-- What a key holds after an effect. A hash that loses its last field is gone. -/
def apply : Effect → Option Item → Option Item
  | .value v, _ => some (.value v)
  | .counter n, _ => some (.counter n)
  | .field name v, held =>
    some (.hash ((name, v) :: (fieldsOf held).filter fun f => f.1 != name))
  | .unfield names, some (.hash fields) =>
    let left := fields.filter fun f => !names.contains f.1
    if left.isEmpty then none else some (.hash left)
  | .unfield _, held => held
  | .gone, _ => none

end Effect

namespace Local

def costOf : Option Item → Nat
  | some item => item.cost
  | none => 0

/-- The deadline is not there yet. -/
def lives (now : Nat) : Option Nat → Bool
  | some due => now < due
  | none => true

/-- The effect of adding to what a key holds. Nothing counts as zero. -/
def counted (codec : Codec) (key : String) (held : Option Item) (delta : Int) : Option Effect :=
  match held.elim (.ok 0) fun item => (Cache.itemInteger codec key item).1 with
  | .ok n => if IntKind.i64.holds (n + delta) then some (.counter (n + delta)) else none
  | .error _ => none

/-- Fields go to a hash, or to a key that holds nothing. -/
def takesFields : Option Item → Bool
  | none | some (.hash _) => true
  | some (.value _) | some (.counter _) => false

def Operation.keys : Operation → List String
  | .act a => a.keys
  | _ => []

def Operation.isRelease : Operation → Bool
  | .release => true
  | _ => false

/-- The time that passes by operations. -/
def clock : List Operation → Nat
  | [] => 0
  | .sleep d :: past => clock past + d.nanos
  | _ :: past => clock past

theorem clock_cons_of_awake {d : Operation} (awake : ∀ span, d ≠ .sleep span)
    (past : List Operation) : clock (d :: past) = clock past := by
  cases d with
  | sleep span => exact absurd rfl (awake span)
  | _ => rfl

def released : List Operation → Bool
  | [] => false
  | .release :: _ => true
  | _ :: past => released past

/-- The keys that operations name. -/
def named (ops : List Operation) : Finset String := (ops.flatMap Operation.keys).toFinset

theorem mem_named {key : String} {ops : List Operation} :
    key ∈ named ops ↔ ∃ d ∈ ops, key ∈ d.keys := by
  simp [named]

/-- What a key of the map holds, and the instant at which it goes. -/
structure Kept where
  item : Item
  due : Option Nat

end Local

namespace Config

/-- The effect of an operation on a key that holds something or nothing. -/
def effectOn (c : Config) (key : String) (held : Option Item) : Action → Option Effect
  | .set k v | .setFor k v _ => if k = key then some (.value v) else none
  | .increment k delta =>
    if k = key then counted c.codec ((⟨c.name⟩ : KeySpace).qualify key) held delta else none
  | .decrement k delta =>
    if k = key ∧ IntKind.i64.holds (-delta) then
      counted c.codec ((⟨c.name⟩ : KeySpace).qualify key) held (-delta)
    else none
  | .fieldSet k f v | .fieldSetFor k f v _ =>
    if k = key ∧ takesFields held then some (.field f v) else none
  | .fieldDelete k names => if k = key ∧ takesFields held then some (.unfield names) else none
  | .delete k | .expire k _ => if k = key then some .gone else none
  | .deleteAll ks => if key ∈ ks then some .gone else none
  | .get _ | .fieldGet _ _ | .fields _ | .fieldExpire _ _ _ | .fieldTtl _ _ => none

/-- The lifetime that an operation gives to what it writes, by whether the key held something. -/
def lifeOn (c : Config) (found : Bool) : Action → Expiry
  | .set _ _ => .ofTtl c.ttl
  | .setFor _ _ ttl | .fieldSetFor _ _ _ ttl => .ofTtl (some ttl)
  | .increment _ _ | .decrement _ _ => if found then .keep else .never
  | .fieldSet _ _ _ => if found then .keep else .ofTtl c.ttl
  | _ => .keep

/-- Where reads renew deadlines, so does every operation that looks the key up. -/
def seenBy (c : Config) (key : String) (a : Action) (now : Nat) (k : Kept) : Kept :=
  if a.looksUp key then { k with due := touched now (if c.touch then c.ttl else none) k.due } else k

/-- What is kept under a key after an operation at an instant. -/
def keptBy (c : Config) (key : String) (a : Action) (now : Nat) (before : Option Kept) :
    Option Kept :=
  let held := before.map Kept.item
  let seen := before.map (c.seenBy key a now)
  match c.effectOn key held a with
  | none => seen
  | some e => (e.apply held).map fun item =>
    ⟨item, (c.lifeOn before.isSome a).deadline now (seen.bind Kept.due)⟩

/-- What is kept under a key after operations, of which the last one is listed first. -/
def kept (c : Config) (key : String) : List Operation → Option Kept
  | [] => none
  | d :: past =>
    match d with
    | .act a => c.keptBy key a (clock past) (c.kept key past)
    | .sleep span => (c.kept key past).filter fun k => lives (clock past + span.nanos) k.due
    | .close => none
    | .release => if released past then c.kept key past else none
    | .lose _ | .tryLock _ | .giveBack _ => c.kept key past

def contents (c : Config) (key : String) (ops : List Operation) : Option Item :=
  (c.kept key ops).map Kept.item

/-- The effect of an operation on a key. -/
def effectOf (c : Config) (key : String) (past : List Operation) : Operation → Option Effect
  | .act a => c.effectOn key (c.contents key past) a
  | .close => some .gone
  | .release => if released past then none else some .gone
  | .sleep _ | .lose _ | .tryLock _ | .giveBack _ => none

/-- The largest cost that a key reaches. -/
def peak (c : Config) (key : String) : List Operation → Nat
  | [] => 0
  | d :: past => max (costOf (c.contents key (d :: past))) (c.peak key past)

/-- The cost of all keys, each at its largest. -/
def demand (c : Config) (ops : List Operation) : Nat := (named ops).sum fun key => c.peak key ops

/-- Why a key holds nothing: it was never written, or it was removed, lost its last field or expired,
and was not written since. -/
inductive Missing (c : Config) (key : String) : List Operation → Prop
  | unwritten : Missing c key []
  | removed {d : Operation} {past : List Operation} (effect : c.effectOf key past d = some .gone) :
      Missing c key (d :: past)
  | emptied {d : Operation} {past : List Operation} {names : List String}
      (effect : c.effectOf key past d = some (.unfield names))
      {fields : List (String × Val)} (hash : c.contents key past = some (.hash fields))
      (all : ∀ f ∈ fields, f.1 ∈ names) : Missing c key (d :: past)
  | expired {span : Span} {past : List Operation} {k : Kept} (there : c.kept key past = some k) {t : Nat}
      (due : k.due = some t) (late : t ≤ clock past + span.nanos) :
      Missing c key (.sleep span :: past)
  | still {d : Operation} {past : List Operation} (before : Missing c key past)
      (unwritten : ∀ e, c.effectOf key past d = some e → e.writes = false) :
      Missing c key (d :: past)

variable {c : Config} {key : String} {past : List Operation}

theorem effectOn_of_not_named (c : Config) {a : Action} (h : key ∉ a.keys) {held : Option Item} :
    c.effectOn key held a = none := by
  have other : ∀ {k : String}, a.keys = [k] → k ≠ key := by
    rintro k single rfl
    exact h (single ▸ List.mem_singleton_self _)
  cases a with
  | set k _ | setFor k _ _ | delete k | expire k _ | increment k _ => exact if_neg (other rfl)
  | decrement k _ | fieldSet k _ _ | fieldSetFor k _ _ _ | fieldDelete k _ =>
      exact if_neg fun both => other rfl both.1
  | deleteAll ks => exact if_neg h
  | get _ | fieldGet _ _ | fields _ | fieldExpire _ _ _ | fieldTtl _ _ => rfl

/-- What comes to be under a key that held nothing does not keep a lifetime. -/
theorem lifeOn_ne_keep (c : Config) {a : Action} {e : Effect} {item : Item}
    (effect : c.effectOn key none a = some e) (left : e.apply none = some item) :
    c.lifeOn false a ≠ .keep := by
  have unkept : ∀ {held : Prop} [Decidable held] {d : Effect}, d.apply none = none →
      (if held then some d else none) = some e → False := by
    intro held _ d gone same
    split at same
    · cases same
      rw [gone] at left
      cases left
    · cases same
  cases a with
  | set k v | fieldSet k field v => exact Expiry.ofTtl_ne_keep _
  | setFor k v ttl | fieldSetFor k _ v ttl => exact Expiry.ofTtl_ne_keep (some ttl)
  | increment k delta | decrement k delta => exact Expiry.noConfusion
  | delete k | expire k _ | deleteAll ks => exact (unkept rfl effect).elim
  | fieldDelete k names => exact (unkept rfl effect).elim
  | get _ | fieldGet _ _ | fields _ | fieldExpire _ _ _ | fieldTtl _ _ => cases effect

theorem seenBy_item (c : Config) (key : String) (a : Action) (now : Nat) (k : Kept) :
    (c.seenBy key a now k).item = k.item := by
  rw [seenBy]
  split <;> rfl

theorem keptBy_item (c : Config) (key : String) (a : Action) (now : Nat) (before : Option Kept) :
    (c.keptBy key a now before).map Kept.item =
      (c.effectOn key (before.map Kept.item) a).elim (before.map Kept.item)
        (·.apply (before.map Kept.item)) := by
  simp only [keptBy]
  cases c.effectOn key (before.map Kept.item) a with
  | none =>
      cases before with
      | none => rfl
      | some k => exact congrArg some (c.seenBy_item key a now k)
  | some e =>
      rw [Option.elim_some, Option.map_map]
      exact congrFun Option.map_id _

/-- Apart from time, an operation leaves in a key what its effect makes of it. -/
theorem contents_of_not_sleep {d : Operation} (awake : ∀ span, d ≠ .sleep span) :
    c.contents key (d :: past) =
      (c.effectOf key past d).elim (c.contents key past) (·.apply (c.contents key past)) := by
  cases d with
  | sleep span => exact absurd rfl (awake span)
  | act a => exact c.keptBy_item key a (clock past) (c.kept key past)
  | release =>
      simp only [contents, kept, effectOf]
      split <;> rfl
  | _ => rfl

theorem filter_isEmpty_iff {names : List String} {fields : List (String × Val)} :
    (fields.filter fun f => !names.contains f.1).isEmpty = true ↔ ∀ f ∈ fields, f.1 ∈ names := by
  simp [List.isEmpty_iff, List.filter_eq_nil_iff]

theorem missing_of_apply {d : Operation} {e : Effect} (effect : c.effectOf key past d = some e)
    (missing : c.contents key past = none → c.Missing key past)
    (gone : e.apply (c.contents key past) = none) : c.Missing key (d :: past) := by
  have still : c.contents key past = none → e.writes = false → c.Missing key (d :: past) := by
    intro none quiet
    refine .still (missing none) ?_
    intro e' same
    rw [effect] at same
    cases same
    exact quiet
  cases e with
  | value v | counter n | field name v => cases gone
  | gone => exact .removed effect
  | unfield names =>
      cases held : c.contents key past with
      | none => exact still held rfl
      | some item =>
          rw [held] at gone
          cases item with
          | value v | counter n => cases gone
          | hash fields =>
              rw [Effect.apply] at gone
              split at gone
              next empty => exact .emptied effect held (filter_isEmpty_iff.mp empty)
              next => cases gone

/-- A key holds nothing for one of these reasons, and for no other. -/
theorem contents_eq_none_iff (c : Config) (key : String) (ops : List Operation) :
    c.contents key ops = none ↔ c.Missing key ops := by
  constructor
  · intro none
    induction ops with
    | nil => exact .unwritten
    | cons d past ih =>
        have replayed : (∀ span, d ≠ .sleep span) → c.Missing key (d :: past) := by
          intro awake
          rw [contents_of_not_sleep awake] at none
          cases effect : c.effectOf key past d with
          | none =>
              rw [effect] at none
              exact .still (ih none) fun e same => by rw [effect] at same; cases same
          | some e =>
              rw [effect] at none
              exact missing_of_apply effect ih none
        cases d with
        | sleep span =>
            cases there : c.kept key past with
            | none =>
                refine .still (ih ?_) fun e same => by cases same
                rw [contents, there]
                rfl
            | some k =>
                simp only [contents, kept, there, Option.map_eq_none_iff, Option.filter_some] at none
                cases due : k.due with
                | none =>
                    rw [due] at none
                    cases none
                | some t =>
                    rw [due] at none
                    refine .expired there due ?_
                    simpa [lives] using none
        | _ => exact replayed fun span => Operation.noConfusion
  · intro missing
    induction missing with
    | unwritten => rfl
    | @removed d past effect =>
        rw [contents_of_not_sleep, effect]
        · rfl
        · rintro span rfl
          cases effect
    | @emptied d past names effect fields hash all =>
        rw [contents_of_not_sleep, effect, hash]
        · exact if_pos (filter_isEmpty_iff.mpr all)
        · rintro span rfl
          cases effect
    | @expired span past k there t due late =>
        have passed : ¬ lives (clock past + span.nanos) k.due = true := by
          rw [due, lives, decide_eq_true_eq]
          exact Nat.not_lt.mpr late
        simp only [contents, kept, there, Option.filter_some, if_neg passed]
        rfl
    | @still d past before unwritten ih =>
        by_cases asleep : ∃ span, d = .sleep span
        · obtain ⟨span, rfl⟩ := asleep
          rw [contents, Option.map_eq_none_iff] at ih
          simp only [contents, kept, ih, Option.filter_none, Option.map_none]
        · rw [contents_of_not_sleep (fun span same => asleep ⟨span, same⟩), ih]
          cases effect : c.effectOf key past d with
          | none => rfl
          | some e =>
              have quiet := unwritten e effect
              cases e with
              | value v | counter n | field name v => cases quiet
              | unfield names | gone => rfl

theorem costOf_contents_le_peak (c : Config) (key : String) (ops : List Operation) :
    costOf (c.contents key ops) ≤ c.peak key ops := by
  cases ops with
  | nil => exact Nat.le_refl 0
  | cons d past => exact Nat.le_max_left ..

theorem demand_le_cons (c : Config) (d : Operation) (past : List Operation) :
    c.demand past ≤ c.demand (d :: past) := by
  have more : named past ⊆ named (d :: past) := by
    intro key known
    obtain ⟨d', known, names⟩ := mem_named.mp known
    exact mem_named.mpr ⟨d', List.mem_cons_of_mem _ known, names⟩
  calc
    c.demand past ≤ (named past).sum fun key => c.peak key (d :: past) :=
      Finset.sum_le_sum fun key _ => Nat.le_max_right ..
    _ ≤ c.demand (d :: past) := Finset.sum_le_sum_of_subset more

theorem demand_le_of_suffix (c : Config) {past ops : List Operation} (earlier : past <:+ ops) :
    c.demand past ≤ c.demand ops := by
  induction ops with
  | nil => rw [List.suffix_nil.mp earlier]
  | cons d ops ih =>
      obtain rfl | before := List.suffix_cons_iff.mp earlier
      · exact Nat.le_refl _
      · exact Nat.le_trans (ih before) (demand_le_cons c d ops)

end Config
end CacheFacade

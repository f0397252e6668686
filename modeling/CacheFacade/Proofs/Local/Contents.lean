import CacheFacade.Proofs.Local.Budget
import CacheFacade.Proofs.Local.Lasting
import CacheFacade.Proofs.Local.Replay
import Mathlib.Data.List.Find

/-!
What the keys of a local cache hold. An operation has the effect on them that it would have on a
plain map, and as long as there is room for what it writes, it leaves of them what its effect makes
of them; the order of the fields in a hash apart.
-/

namespace CacheFacade
namespace Local

/-- The same item, with the fields of a hash in any order. -/
inductive Item.Alike : Item → Item → Prop
  | value (v : Val) : Alike (.value v) (.value v)
  | counter (n : Int) : Alike (.counter n) (.counter n)
  | hash {fields others : List (String × Val)} (perm : fields.Perm others) :
      Alike (.hash fields) (.hash others)

theorem Item.Alike.refl (item : Item) : item.Alike item := by
  cases item with
  | value v => exact .value v
  | counter n => exact .counter n
  | hash fields => exact .hash (.refl fields)

theorem Item.Alike.trans {a b d : Item} (h : a.Alike b) (h' : b.Alike d) : a.Alike d := by
  cases h with
  | value v => exact h'
  | counter n => exact h'
  | hash perm =>
      cases h' with
      | hash perm' => exact .hash (perm.trans perm')

theorem Item.Alike.cost_eq {a b : Item} (h : a.Alike b) : a.cost = b.cost := by
  cases h with
  | value v => rfl
  | counter n => rfl
  | hash perm => simp only [Item.cost, perm.length_eq]

/-- Nothing at all, or items that are alike. -/
abbrev Agree : Option Item → Option Item → Prop := Option.Rel Item.Alike

theorem Agree.refl (held : Option Item) : Agree held held := by
  cases held with
  | none => exact .none
  | some item => exact .some (.refl item)

theorem Agree.trans {held other last : Option Item} (h : Agree held other) (h' : Agree other last) :
    Agree held last := by
  cases h with
  | none => exact h'
  | some alike =>
      cases h' with
      | some alike' => exact .some (alike.trans alike')

theorem Agree.costOf_eq {held other : Option Item} (h : Agree held other) :
    costOf held = costOf other := by
  cases h with
  | none => rfl
  | some alike => exact alike.cost_eq

theorem Agree.apply {held other : Option Item} (h : Agree held other) (e : Effect) :
    Agree (e.apply held) (e.apply other) := by
  have fields : (fieldsOf held).Perm (fieldsOf other) := by
    cases h with
    | none => exact .refl _
    | some alike =>
        cases alike with
        | value v => exact .refl _
        | counter n => exact .refl _
        | hash perm => exact perm
  cases e with
  | value v => exact .some (.value v)
  | counter n => exact .some (.counter n)
  | field name v => exact .some (.hash ((fields.filter _).cons _))
  | gone => exact .none
  | unfield names =>
      cases h with
      | none => exact .none
      | some alike =>
          cases alike with
          | value v => exact .some (.value v)
          | counter n => exact .some (.counter n)
          | hash perm =>
              have left := perm.filter fun f => !names.contains f.1
              simp only [Effect.apply, left.isEmpty_eq]
              split
              · exact .none
              · exact .some (.hash left)

theorem Agree.isSome_eq {held other : Option Item} (h : Agree held other) :
    held.isSome = other.isSome := by
  cases h with
  | none => rfl
  | some alike => rfl

theorem Agree.counted_eq {held other : Option Item} (h : Agree held other) {codec : Codec}
    {name : String} {delta : Int} :
    counted codec name held delta = counted codec name other delta := by
  cases h with
  | none => rfl
  | some alike => cases alike <;> rfl

theorem Agree.effectOn_eq {held other : Option Item} (h : Agree held other) (c : Config)
    (key : String) (a : Action) : c.effectOn key held a = c.effectOn key other a := by
  have fields : takesFields held = takesFields other := by
    cases h with
    | none => rfl
    | some alike => cases alike <;> rfl
  cases a <;> simp only [Config.effectOn, fields, h.counted_eq]

namespace Store

variable {α : Type} {s : Store α} {e : Entry α} {key other : String}

theorem live?_of_mem {now : Nat} (nodup : (s.entries.map Entry.key).Nodup) (member : e ∈ s.entries)
    (own : e.key = key) (live : e.isLive now = true) : s.live? key now = some e := by
  cases found : s.live? key now with
  | none => exact absurd own (key_ne_of_live? found member live)
  | some d =>
      obtain ⟨there, same, -⟩ := mem_of_live? found
      rw [← find?_of_mem nodup there same, find?_of_mem nodup member own]

theorem live?_of_le {before now : Nat} (le : before ≤ now) {due : Option Nat}
    (same : ∀ e ∈ s.entries, e.key = key → e.isLive before = true → e.deadline = due) :
    s.live? key now = if lives now due then s.live? key before else none := by
  have shown : ∀ e ∈ s.entries, e.key = key → e.isLive before = true →
      e.isLive now = lives now due := by
    intro e member own live
    rw [← same e member own live]
    rfl
  split
  next on =>
      apply List.find?_congr
      intro e member
      rw [Bool.eq_iff_iff, Bool.and_eq_true, Bool.and_eq_true, beq_iff_eq]
      refine and_congr_right fun own => ⟨Entry.isLive_of_le le, fun live => ?_⟩
      exact (shown e member own live).trans on
  next off =>
      refine live?_eq_none_iff.mpr fun e member own => Bool.eq_false_iff.mpr fun live => ?_
      exact off ((shown e member own (Entry.isLive_of_le le live)).symm.trans live)

section Others

variable {entries : List (Entry α)} (p : Entry α → Bool)

theorem find?_without_of_ne (h : other ≠ key) :
    ((without key entries).find? fun e => e.key == other && p e) =
      entries.find? fun e => e.key == other && p e := by
  rw [without, List.find?_filter]
  congr 1
  funext e
  by_cases own : e.key = other
  · simp [own, h]
  · simp [own]

theorem find?_append_of_ne {e : Entry α} (own : e.key = key) (h : other ≠ key) :
    ((without key entries ++ [e]).find? fun x => x.key == other && p x) =
      entries.find? fun x => x.key == other && p x := by
  have apart : ¬ e.key = other := own ▸ h.symm
  rw [List.find?_append, find?_without_of_ne p h, List.find?_singleton]
  simp [apart]

end Others

theorem entries_write_of_room {value : α} {cost now : Nat} {life : Expiry}
    (room : totalCost (without key s.entries) + cost ≤ s.budget) :
    (s.write key value cost now life).entries = without key s.entries ++
      [⟨key, value, cost, life.deadline now ((s.find? key).bind Entry.deadline)⟩] := by
  have fits : totalCost (without key s.entries ++
      [(⟨key, value, cost, life.deadline now ((s.find? key).bind Entry.deadline)⟩ : Entry α)]) ≤
        s.budget := by
    rw [totalCost_append, totalCost_singleton]
    exact room
  have written := s.written_write key value cost now life
  generalize (s.write key value cost now life).entries = entries at written ⊢
  have roomy : s.find? key = none → ¬ s.budget < s.used + cost := by
    intro fresh full
    rw [without_of_find?_eq_none fresh] at room
    exact absurd room (Nat.not_le_of_lt full)
  cases written with
  | updated there => exact fit_of_le fits
  | appended fresh room => rw [without_of_find?_eq_none fresh]
  | displaced fresh full order => exact absurd full (roomy fresh)
  | refused fresh full => exact absurd full (roomy fresh)

theorem live?_write_self {value : α} {cost now : Nat} {life : Expiry}
    (room : totalCost (without key s.entries) + cost ≤ s.budget)
    (live : (⟨key, value, cost, life.deadline now ((s.find? key).bind Entry.deadline)⟩ :
      Entry α).isLive now = true) :
    (s.write key value cost now life).live? key now =
      some ⟨key, value, cost, life.deadline now ((s.find? key).bind Entry.deadline)⟩ := by
  rw [live?, entries_write_of_room room]
  exact live?_append_new _ rfl live

theorem live?_write_of_ne {value : α} {cost now : Nat} {life : Expiry}
    (room : totalCost (without key s.entries) + cost ≤ s.budget) (h : other ≠ key) :
    (s.write key value cost now life).live? other now = s.live? other now := by
  rw [live?, entries_write_of_room room]
  exact find?_append_of_ne _ rfl h

theorem find?_read_of_ne {now : Nat} {touch : Option Span} (h : other ≠ key) (p : Entry α → Bool) :
    ((s.read key now touch).2.entries.find? fun e => e.key == other && p e) =
      s.entries.find? fun e => e.key == other && p e := by
  cases found : s.live? key now with
  | none => rw [entries_read_of_none found]
  | some e =>
      rw [entries_read_of_some found]
      exact find?_append_of_ne p (mem_of_live? found).2.1 h

theorem live?_read {now : Nat} {touch : Option Span} (renews : Renews touch) :
    (s.read key now touch).2.live? key now =
      (s.live? key now).map fun e => { e with deadline := touched now touch e.deadline } := by
  rw [live?]
  cases found : s.live? key now with
  | none =>
      rw [entries_read_of_none found]
      exact found
  | some e =>
      obtain ⟨-, own, live⟩ := mem_of_live? found
      rw [entries_read_of_some found]
      exact live?_append_new _ own (isLive_touched renews live)

theorem find?_remove_self (s : Store α) (key : String) : (s.remove key).find? key = none := by
  apply List.find?_eq_none.mpr
  intro e member
  simpa using (mem_without.mp member).2

theorem without_read (s : Store α) (key : String) (now : Nat) (touch : Option Span) :
    without key (s.read key now touch).2.entries = without key s.entries := by
  cases found : s.live? key now with
  | none => rw [entries_read_of_none found]
  | some e =>
      rw [entries_read_of_some found, without, List.filter_append]
      have own := (mem_of_live? found).2.1
      simp [without, own]

end Store

/-- A lifetime that is given is not over, and neither is one that is kept before its deadline. -/
theorem lives_deadline {now : Nat} {due : Option Nat} {life : Expiry} (positive : life.Positive)
    (kept : life = .keep → lives now due = true) : lives now (life.deadline now due) = true := by
  cases life with
  | never => rfl
  | after ttl => exact decide_eq_true (Nat.lt_add_of_pos_right positive)
  | keep => exact kept rfl

namespace Cache

variable {c : Cache} {key k : String} {a : Action}

/-- What a key holds. -/
def held (c : Cache) (key : String) : Option Item :=
  (c.store.live? (c.keys.qualify key) c.now).map Entry.value

theorem lookUp_fst_eq_held (c : Cache) (key : String) :
    (c.lookUp (c.keys.qualify key)).1 = c.held key := c.lookUp_fst _

theorem held_eq_none_iff : c.held key = none ↔ ∀ e, ¬ c.Holds key e := by
  rw [held, Option.map_eq_none_iff]
  constructor
  · rintro missing e ⟨member, own, live⟩
    exact Store.key_ne_of_live? missing member live own
  · intro absent
    refine Store.live?_eq_none_iff.mpr fun e member own => Bool.eq_false_iff.mpr fun live => ?_
    exact absent e ⟨member, own, live⟩

theorem lacks_of_held_eq_none (missing : c.held key = none) : c.Lacks key :=
  lacks_of_live?_eq_none (Option.map_eq_none_iff.mp missing)

/-- A look changes nothing in what is found under any key. -/
theorem found_lookUp (renews : Renews c.touch) (other k : String) :
    ((c.lookUp other).2.store.live? k c.now).map Entry.value =
      (c.store.live? k c.now).map Entry.value := by
  rw [lookUp]
  by_cases own : k = other
  · rw [own, Store.live?_read renews, Option.map_map]
    rfl
  · rw [Store.live?, Store.find?_read_of_ne own]
    rfl

theorem held_lookUp (renews : Renews c.touch) (other key : String) :
    (c.lookUp other).2.held key = c.held key := found_lookUp renews other _

/-- What an item costs beside the entries of the other keys is within the budget. -/
def HasRoom (c : Cache) (key : String) (item : Item) : Prop :=
  Store.totalCost (Store.without (c.keys.qualify key) c.store.entries) + item.cost ≤ c.store.budget

theorem qualify_ne (s : KeySpace) (other : key ≠ k) : s.qualify key ≠ s.qualify k :=
  s.qualify_injective.ne other

theorem held_put {item : Item} {life : Expiry} (room : c.HasRoom k item) (positive : life.Positive)
    (found : life = .keep → ∃ old, c.store.find? (c.keys.qualify k) = some old ∧
      old.isLive c.now = true) (key : String) :
    (c.put (c.keys.qualify k) item life).held key = if key = k then some item else c.held key := by
  have same : (c.put (c.keys.qualify k) item life).keys = c.keys ∧
    (c.put (c.keys.qualify k) item life).now = c.now := ⟨rfl, rfl⟩
  rw [held, same.1, same.2, held, put]
  by_cases own : key = k
  · subst own
    have kept : life = .keep →
        lives c.now ((c.store.find? (c.keys.qualify key)).bind Entry.deadline) = true := by
      intro keep
      obtain ⟨old, there, live⟩ := found keep
      rw [there]
      exact live
    rw [if_pos rfl, Store.live?_write_self room (lives_deadline positive kept)]
    rfl
  · rw [if_neg own, Store.live?_write_of_ne room (qualify_ne _ own)]

theorem held_rewrite (renews : Renews c.touch) {item : Item} {life : Expiry}
    (room : c.HasRoom k item) (positive : life.Positive) (found : life = .keep → c.finds k = true)
    (key : String) : ((c.lookUp (c.keys.qualify k)).2.put (c.keys.qualify k) item life).held key =
      if key = k then some item else c.held key := by
  have still : (c.lookUp (c.keys.qualify k)).2.HasRoom k item := by
    have same : (c.lookUp (c.keys.qualify k)).2.keys = c.keys := rfl
    rw [HasRoom, same, lookUp, Store.without_read, Store.budget_read]
    exact room
  calc
    _ = if key = k then some item else (c.lookUp (c.keys.qualify k)).2.held key :=
      held_put still positive (fun keep => live_lookUp renews (found keep)) key
    _ = _ := by rw [held_lookUp renews]

theorem held_evict (c : Cache) (k key : String) :
    (c.evict (c.keys.qualify k)).held key = if key = k then none else c.held key := by
  have same : (c.evict (c.keys.qualify k)).keys = c.keys ∧
    (c.evict (c.keys.qualify k)).now = c.now := ⟨rfl, rfl⟩
  rw [held, same.1, same.2, held, evict]
  by_cases own : key = k
  · subst own
    rw [if_pos rfl, Store.live?_of_find?_eq_none (Store.find?_remove_self ..)]
    rfl
  · rw [if_neg own, Store.live?, Store.remove, Store.find?_without_of_ne _ (qualify_ne _ own)]
    rfl

theorem held_removeAll (s : KeySpace) {c : Cache} (same : c.keys = s) (keys : List String)
    (key : String) : (removeAll (s.qualifyAll keys) c).2.held key =
      if key ∈ keys then none else c.held key := by
  induction keys generalizing c with
  | nil => rfl
  | cons k keys ih =>
      have rest := ih (c := c.evict (s.qualify k)) same
      rw [← same, held_evict, same] at rest
      have shape : (removeAll (s.qualifyAll (k :: keys)) c).2 =
          (removeAll (s.qualifyAll keys) (c.evict (s.qualify k))).2 := rfl
      rw [shape, rest]
      by_cases own : key = k
      · simp [own]
      · simp [own]

theorem held_sleep {due : Option Nat} (same : ∀ e, c.Holds key e → e.deadline = due) (span : Span) :
    (c.sleep span).held key = if lives (c.now + span.nanos) due then c.held key else none := by
  change ((c.store.pass c.now (c.now + span.nanos)).live? (c.keys.qualify key)
    (c.now + span.nanos)).map Entry.value = _
  rw [Store.live?_pass, Store.live?_of_le (Nat.le_add_right ..) fun e member own live =>
    same e ⟨member, own, live⟩]
  split <;> rfl

/-- What a key holds after an operation, by the effect that the operation had on it. -/
def next (c : Cache) (key : String) (a : Action) : Option Item :=
  (c.effect? key a).elim (c.held key) (·.apply (c.held key))

theorem next_of_none (h : c.effect? key a = none) : c.next key a = c.held key := by
  rw [next, h]
  rfl

theorem next_of_some {e : Effect} (h : c.effect? key a = some e) :
    c.next key a = e.apply (c.held key) := by
  rw [next, h]
  rfl

/-- There is room for whatever an operation writes. -/
def Spacious (c : Cache) (a : Action) : Prop :=
  ∀ key ∈ a.keys, ∀ item, c.next key a = some item → c.HasRoom key item

theorem HasRoom.of_alike {item other : Item} (alike : item.Alike other) (h : c.HasRoom key other) :
    c.HasRoom key item := by
  rw [HasRoom, alike.cost_eq]
  exact h

/-- What an operation on one key makes of that key and leaves of the others. -/
theorem agree_of_single {d : Cache} {left : Option Item} (single : a.keys = [k])
    (state : ∀ key, d.held key = if key = k then left else c.held key)
    (own : Agree left (c.next k a)) (key : String) : Agree (d.held key) (c.next key a) := by
  rw [state]
  split
  next same =>
      rw [same]
      exact own
  next other =>
      have unnamed : key ∉ a.keys := by
        rw [single]
        exact fun member => other (List.mem_singleton.mp member)
      rw [next_of_none (spared_of_not_named unnamed).1]
      exact .refl _

theorem agree_of_looked (renews : Renews c.touch) (single : a.keys = [k])
    (own : Agree (c.held k) (c.next k a))
    (key : String) : Agree ((c.lookUp (c.keys.qualify k)).2.held key) (c.next key a) := by
  refine agree_of_single single ?_ own key
  intro key
  rw [held_lookUp renews]
  split
  next same => rw [same]
  next => rfl

/-- What an operation makes of an item is what its effect makes of it. -/
theorem Makes.agrees {held : Option Item} {e : Effect} {item : Item} (made : Makes held e item)
    (sorted : ∀ fields, held = some (.hash fields) → Sorted fields) :
    ∃ other, e.apply held = some other ∧ item.Alike other := by
  cases made with
  | counter n => exact ⟨_, rfl, .refl _⟩
  | field name v there =>
      refine ⟨_, rfl, .hash ?_⟩
      obtain ⟨rfl, rfl⟩ | rfl := there
      · exact perm_insertEntry name v List.Pairwise.nil
      · exact perm_insertEntry name v (sorted _ rfl)
  | unfield names there left =>
      subst there
      exact ⟨_, if_neg left, .refl _⟩

theorem agree_run (renews : Renews c.touch) (spacious : c.Spacious a)
    (sorted : ∀ k fields, c.held k = some (.hash fields) → Sorted fields) (key : String) :
    Agree ((c.run a).state.held key) (c.next key a) := by
  have own : ∀ {k : String}, a.keys = [k] → k ∈ a.keys := by
    intro k single
    rw [single]
    exact List.mem_singleton_self k
  have turn := c.turn_run a
  generalize (c.run a).state = d at turn ⊢
  cases turn with
  | idle effects looks =>
      rw [next_of_none (effects key)]
      exact .refl _
  | seen single looks none =>
      apply agree_of_looked renews single
      rw [next_of_none none]
      exact .refl _
  | missed single looks effect keeps missing =>
      rw [lookUp_fst_eq_held] at missing
      apply agree_of_looked renews single
      rw [next_of_some effect, missing]
      exact .none
  | put single looks effect fresh =>
      have next := next_of_some effect
      have room := spacious _ (own single) _ next
      apply agree_of_single single (held_put room (positive_lifeGiven ..) fun keep => absurd keep fresh)
      rw [next]
      exact .refl _
  | rewritten single looks effect made found =>
      rw [lookUp_fst_eq_held] at made
      obtain ⟨other, left, alike⟩ := made.agrees (sorted _)
      have next := (next_of_some effect).trans left
      have room := (spacious _ (own single) _ next).of_alike alike
      apply agree_of_single single (held_rewrite renews room (positive_lifeGiven ..) found)
      rw [next]
      exact .some alike
  | @emptied k single looks names effect fields there left =>
      have gone : ∀ key, ((c.lookUp (c.keys.qualify k)).2.evict (c.keys.qualify k)).held key =
          if key = k then none else c.held key := by
        intro key
        have evicted := (c.lookUp (c.keys.qualify k)).2.held_evict k key
        rw [held_lookUp renews] at evicted
        exact evicted
      rw [lookUp_fst_eq_held] at there
      apply agree_of_single single gone
      rw [next_of_some effect, there, Effect.apply, if_pos left]
      exact .none
  | removed effects looks =>
      rw [held_removeAll c.keys rfl]
      split
      next named =>
          rw [next_of_some (effects key named)]
          exact .none
      next unnamed =>
          rw [next_of_none (spared_of_not_named unnamed).1]
          exact .refl _

end Cache
end Local
end CacheFacade

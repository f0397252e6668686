import CacheFacade.Proofs.Local.Entries
import CacheFacade.Proofs.Local.State
import CacheFacade.Proofs.Local.Works
import Mathlib.Algebra.GroupWithZero.Nat

/-!
The budget of a store. Whatever is written, the entries that stay are the ones used last that fit the
budget together, so their cost never exceeds it: not when a hash grows, and not when an entry alone
costs more than the budget, which then does not stay itself.
-/

namespace CacheFacade
namespace Local

namespace Store

variable {α : Type} {s : Store α} {key : String} {e : Entry α}

theorem totalCost_eq_sum (entries : List (Entry α)) :
    totalCost entries = (entries.map Entry.cost).sum := by
  induction entries with
  | nil => rfl
  | cons e entries ih => rw [totalCost, ih, List.map_cons, List.sum_cons]

theorem totalCost_append (entries later : List (Entry α)) :
    totalCost (entries ++ later) = totalCost entries + totalCost later := by
  simp only [totalCost_eq_sum, List.map_append, List.sum_append]

theorem totalCost_singleton (e : Entry α) : totalCost [e] = e.cost := Nat.add_zero _

theorem totalCost_of_perm {entries others : List (Entry α)} (h : entries.Perm others) :
    totalCost entries = totalCost others := by
  induction h with
  | nil => rfl
  | cons e h ih => exact congrArg (e.cost + ·) ih
  | swap d e entries => exact Nat.add_left_comm ..
  | trans h h' ih ih' => exact ih.trans ih'

theorem totalCost_le_of_sublist {entries all : List (Entry α)} (h : entries.Sublist all) :
    totalCost entries ≤ totalCost all := by
  induction h with
  | slnil => exact Nat.le_refl 0
  | cons e h ih => exact Nat.le_add_left_of_le ih
  | cons_cons e h ih => exact Nat.add_le_add_left ih e.cost

theorem totalCost_fit_le (budget : Nat) (entries : List (Entry α)) :
    totalCost (fit budget entries) ≤ budget := by
  induction entries with
  | nil => exact Nat.zero_le budget
  | cons e entries ih =>
      rw [fit]
      split
      · assumption
      · exact ih

theorem fit_of_le {budget : Nat} {entries : List (Entry α)} (h : totalCost entries ≤ budget) :
    fit budget entries = entries := by
  cases entries with
  | nil => rfl
  | cons e entries => exact if_pos h

theorem fit_suffix (budget : Nat) (entries : List (Entry α)) : fit budget entries <:+ entries := by
  induction entries with
  | nil => exact List.suffix_rfl
  | cons e entries ih =>
      rw [fit]
      split
      · exact List.suffix_rfl
      · exact ih.trans (List.suffix_cons e entries)

/-- What a write of an entry leaves in a store. -/
inductive Written (s : Store α) (e : Entry α) : List (Entry α) → Prop
  /-- The key has an entry; others go until the new one fits. -/
  | updated (there : (s.find? e.key).isSome = true) :
      Written s e (fit s.budget (without e.key s.entries ++ [e]))
  | appended (fresh : s.find? e.key = none) (room : s.used + e.cost ≤ s.budget) :
      Written s e (s.entries ++ [e])
  /-- The entry used longest ago makes way. -/
  | displaced (fresh : s.find? e.key = none) (full : s.budget < s.used + e.cost)
      {oldest : Entry α} {rest : List (Entry α)} (order : s.entries = oldest :: rest) :
      Written s e (fit s.budget (rest ++ [e]))
  | refused (fresh : s.find? e.key = none) (full : s.budget < s.used + e.cost) :
      Written s e s.entries

theorem written_write (s : Store α) (key : String) (value : α) (cost now : Nat) (life : Expiry) :
    Written s ⟨key, value, cost, life.deadline now ((s.find? key).bind Entry.deadline)⟩
      (s.write key value cost now life).entries := by
  rw [write, find?_ask]
  cases found : s.find? key with
  | some old => exact .updated (Option.isSome_of_eq_some found)
  | none =>
      dsimp only [letIn]
      split
      next room => exact .appended found room
      next full =>
          split
          next => exact .refused found (Nat.lt_of_not_le full)
          next oldest rest order =>
              split
              · exact .displaced found (Nat.lt_of_not_le full) order
              · exact .refused found (Nat.lt_of_not_le full)

theorem budget_write (s : Store α) (key : String) (value : α) (cost now : Nat) (life : Expiry) :
    (s.write key value cost now life).budget = s.budget := by
  rw [write, find?_ask]
  cases s.find? key with
  | some old => rfl
  | none =>
      dsimp only [letIn]
      split
      · rfl
      · split
        · rfl
        · split <;> rfl

theorem budget_pass (s : Store α) (before now : Nat) : (s.pass before now).budget = s.budget := by
  rw [pass]
  split <;> rfl

theorem budget_read (s : Store α) (key : String) (now : Nat) (touch : Option Span) :
    (s.read key now touch).2.budget = s.budget := by
  rw [read, live?_ask]
  cases s.live? key now <;> rfl

theorem find?_of_mem {entries : List (Entry α)} (nodup : (entries.map Entry.key).Nodup)
    (member : e ∈ entries) (own : e.key = key) :
    entries.find? (fun x => x.key == key) = some e := by
  subst own
  induction entries with
  | nil => cases member
  | cons d entries ih =>
      obtain ⟨others, nodupRest⟩ := List.nodup_cons.mp nodup
      obtain rfl | later := List.mem_cons.mp member
      · exact List.find?_cons_of_pos (beq_self_eq_true _)
      · have apart : ¬ d.key = e.key := fun same => others (same ▸ List.mem_map_of_mem later)
        rw [List.find?_cons_of_neg (by simpa using apart), ih nodupRest later]

/-- An entry and those of the other keys are all entries, in another order. -/
theorem perm_without {entries : List (Entry α)} (nodup : (entries.map Entry.key).Nodup)
    (found : entries.find? (fun x => x.key == key) = some e) :
    entries.Perm (without key entries ++ [e]) := by
  induction entries with
  | nil => cases found
  | cons d rest ih =>
      obtain ⟨others, nodupRest⟩ := List.nodup_cons.mp nodup
      rw [List.find?_cons] at found
      by_cases own : d.key = key
      · rw [beq_iff_eq.mpr own] at found
        obtain rfl : d = e := Option.some.inj found
        have apart : without key rest = rest := by
          apply List.filter_eq_self.mpr
          intro x member
          rw [bne_iff_ne, ← own]
          intro same
          exact others (same ▸ List.mem_map_of_mem member)
        have drop : without key (d :: rest) = without key rest :=
          List.filter_cons_of_neg (by simp [own])
        rw [drop, apart]
        exact (List.perm_append_singleton d rest).symm
      · rw [beq_eq_false_iff_ne.mpr own] at found
        have stay : without key (d :: rest) = d :: without key rest :=
          List.filter_cons_of_pos (by simp [own])
        rw [stay]
        exact (ih nodupRest found).cons d

theorem nodup_append_new {entries : List (Entry α)} (nodup : (entries.map Entry.key).Nodup)
    (other : ∀ x ∈ entries, x.key ≠ e.key) : ((entries ++ [e]).map Entry.key).Nodup := by
  rw [List.map_append, List.nodup_append]
  refine ⟨nodup, List.pairwise_singleton _ _, ?_⟩
  intro k member k' single
  obtain ⟨x, known, rfl⟩ := List.mem_map.mp member
  obtain rfl := List.mem_singleton.mp single
  exact other x known

namespace Written

variable {entries : List (Entry α)}

theorem totalCost_le (written : Written s e entries) (fits : s.used ≤ s.budget) :
    totalCost entries ≤ s.budget := by
  cases written with
  | updated there => exact totalCost_fit_le _ _
  | appended fresh room =>
      rw [totalCost_append, totalCost_singleton]
      exact room
  | displaced fresh full order => exact totalCost_fit_le _ _
  | refused fresh full => exact fits

theorem nodup (written : Written s e entries) (nodup : (s.entries.map Entry.key).Nodup) :
    (entries.map Entry.key).Nodup := by
  cases written with
  | updated there =>
      have others := nodup.sublist ((List.filter_sublist (p := fun x => x.key != e.key)).map Entry.key)
      have all := nodup_append_new (e := e) others fun x known => (mem_without.mp known).2
      exact all.sublist ((fit_suffix _ _).sublist.map _)
  | appended fresh room => exact nodup_append_new nodup fun x known => key_ne_of_find? fresh known
  | @displaced fresh full oldest rest order =>
      rw [order] at nodup
      have all := nodup_append_new (e := e) (List.nodup_cons.mp nodup).2 fun x known =>
        key_ne_of_find? fresh (order ▸ List.mem_cons_of_mem _ known)
      exact all.sublist ((fit_suffix _ _).sublist.map _)
  | refused fresh full => exact nodup

end Written

/-- What holds of the entries of a store: each key has one, at the cost of what it holds, hashes have
fields, and all of them fit the budget. -/
structure Tidy (s : Store Item) : Prop where
  nodup : (s.entries.map Entry.key).Nodup
  priced : ∀ e ∈ s.entries, e.cost = e.value.cost
  filled : ∀ e ∈ s.entries, e.value.Filled
  fits : s.used ≤ s.budget

namespace Tidy

variable {s s' : Store Item}

theorem of_sublist (h : s.Tidy) (fewer : s'.entries.Sublist s.entries) (same : s'.budget = s.budget) :
    s'.Tidy := by
  refine ⟨h.nodup.sublist (fewer.map _), ?_, ?_, ?_⟩
  · exact fun e member => h.priced e (fewer.subset member)
  · exact fun e member => h.filled e (fewer.subset member)
  · rw [same]
    exact Nat.le_trans (totalCost_le_of_sublist fewer) h.fits

theorem read (h : s.Tidy) (key : String) (now : Nat) (touch : Option Span) :
    (s.read key now touch).2.Tidy := by
  cases found : s.live? key now with
  | none => exact h.of_sublist (entries_read_of_none found ▸ List.Sublist.refl _) (budget_read ..)
  | some e =>
      obtain ⟨member, own, -⟩ := mem_of_live? found
      have entries : (s.read key now touch).2.entries =
          without key s.entries ++ [{ e with deadline := touched now touch e.deadline }] :=
        entries_read_of_some found
      have others := h.nodup.sublist ((List.filter_sublist (p := fun x => x.key != key)).map Entry.key)
      have old : ∀ x ∈ (s.read key now touch).2.entries,
          ∃ y ∈ s.entries, x.value = y.value ∧ x.cost = y.cost := by
        intro x member
        obtain ⟨there, -⟩ | ⟨y, there, rfl⟩ := mem_read member
        · exact ⟨x, there, rfl, rfl⟩
        · exact ⟨y, (mem_of_live? there).1, rfl, rfl⟩
      refine ⟨?_, ?_, ?_, ?_⟩
      · rw [entries]
        apply nodup_append_new others
        intro x known
        rw [own]
        exact (mem_without.mp known).2
      · intro x member
        obtain ⟨y, there, value, cost⟩ := old x member
        rw [value, cost, h.priced y there]
      · intro x member
        obtain ⟨y, there, value, -⟩ := old x member
        rw [value]
        exact h.filled y there
      · have same := totalCost_of_perm (perm_without h.nodup (find?_of_mem h.nodup member own))
        rw [totalCost_append, totalCost_singleton] at same
        rw [used, budget_read, entries, totalCost_append, totalCost_singleton, ← same]
        exact h.fits

theorem write (h : s.Tidy) (key : String) {item : Item} (filled : item.Filled) (now : Nat)
    (life : Expiry) : (s.write key item item.cost now life).Tidy := by
  have written := s.written_write key item item.cost now life
  have old : ∀ x ∈ (s.write key item item.cost now life).entries,
      x ∈ s.entries ∨ x.value = item ∧ x.cost = item.cost := by
    intro x member
    obtain ⟨there, -⟩ | rfl := mem_write member
    · exact .inl there
    · exact .inr ⟨rfl, rfl⟩
  refine ⟨written.nodup h.nodup, ?_, ?_, ?_⟩
  · intro x member
    obtain there | ⟨value, cost⟩ := old x member
    · exact h.priced x there
    · rw [cost, value]
  · intro x member
    obtain there | ⟨value, -⟩ := old x member
    · exact h.filled x there
    · rw [value]
      exact filled
  · rw [budget_write]
    exact written.totalCost_le h.fits

end Tidy

end Store

/-- How many fields a hash has; a value or a number counts as one. -/
def Item.size : Item → Nat
  | .hash fields => fields.length
  | _ => 1

theorem Item.cost_of_filled {item : Item} (filled : item.Filled) :
    item.cost = min item.size (2 ^ 32 - 1) := by
  cases item with
  | value v => rfl
  | counter n => rfl
  | hash fields =>
      have positive : 1 ≤ min fields.length (2 ^ 32 - 1) :=
        Nat.le_min.mpr ⟨List.length_pos_of_ne_nil filled, by decide⟩
      exact Nat.max_eq_right positive

/-- Whatever an operation does, the store stays tidy and its budget the same. -/
theorem Cache.Works.tidy {on : String → Prop} {c d : Cache} (works : Works on c d)
    (h : c.store.Tidy) : d.store.Tidy ∧ d.store.budget = c.store.budget := by
  induction works with
  | idle => exact ⟨h, rfl⟩
  | @lookUp d key before hk ih => exact ⟨ih.1.read _ _ _, (Store.budget_read ..).trans ih.2⟩
  | put before hk filled life ih =>
      exact ⟨ih.1.write _ filled _ life, (Store.budget_write ..).trans ih.2⟩
  | evict before hk ih => exact ⟨ih.1.of_sublist List.filter_sublist rfl, ih.2⟩

namespace State

theorem tidy_step {s : State} (h : s.cache.store.Tidy) (d : Operation) :
    (s.step d).cache.store.Tidy ∧ (s.step d).cache.store.budget = s.cache.store.budget := by
  have turn := s.cacheStep d
  generalize (s.step d).cache = c at turn ⊢
  cases turn with
  | act a => exact (s.cache.works_run a).tidy h
  | sleep span =>
      have same : (s.cache.sleep span).store.budget = s.cache.store.budget := Store.budget_pass ..
      exact ⟨h.of_sublist (Store.pass_sublist ..) same, same⟩
  | lose gone => exact ⟨h.of_sublist List.filter_sublist rfl, rfl⟩
  | locked awake locks => exact ⟨h, rfl⟩
  | emptied awake locks => exact ⟨h.of_sublist (List.nil_sublist _) rfl, rfl⟩

theorem tidy_after (c : Config) (ops : List Operation) :
    ((opened c).after ops).cache.store.Tidy ∧
      ((opened c).after ops).cache.store.budget = c.budget := by
  induction ops with
  | nil =>
      refine ⟨⟨List.nodup_nil, ?_, ?_, Nat.zero_le _⟩, rfl⟩
      · exact fun e member => absurd member List.not_mem_nil
      · exact fun e member => absurd member List.not_mem_nil
  | cons d past ih =>
      obtain ⟨tidy, same⟩ := tidy_step ih.1 d
      exact ⟨tidy, same.trans ih.2⟩

/-- In every run of a local cache, what its entries cost together is within the budget. -/
theorem cost_le_budget_after (c : Config) (ops : List Operation) :
    let entries := ((opened c).after ops).cache.store.entries
    (entries.map fun e => e.value.cost).sum ≤ (if c.maxElements = 0 then 2 ^ 30 else c.maxElements) ∧
      (entries.map Entry.key).Nodup ∧
      ∀ e ∈ entries, e.value.cost = min e.value.size (2 ^ 32 - 1) := by
  intro entries
  obtain ⟨tidy, budget⟩ := tidy_after c ops
  refine ⟨?_, tidy.nodup, fun e member => Item.cost_of_filled (tidy.filled e member)⟩
  have prices : (entries.map fun e => e.value.cost) = entries.map Entry.cost :=
    List.map_congr_left fun e member => (tidy.priced e member).symm
  calc
    (entries.map fun e => e.value.cost).sum = Store.totalCost entries := by
      rw [prices, Store.totalCost_eq_sum]
    _ ≤ ((opened c).after ops).cache.store.budget := tidy.fits
    _ = c.budget := budget
    _ = if c.maxElements = 0 then 2 ^ 30 else c.maxElements := by
      rw [Config.budget]
      rfl

end State
end Local
end CacheFacade

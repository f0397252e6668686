import CacheFacade.Local.Cache

/-!
What can stand in a store after it was used. An entry is one that was there before, with at most a
new deadline, or the one that was just written; and nothing of the old entry of a key is left beside
the new one, whether the new one was let in or not. A look-up passes over what is past its deadline,
and leaves it where it is.
-/

namespace CacheFacade
namespace Local

/-- The deadline of an entry that was read. -/
def touched (now : Nat) (touch : Option Span) (due : Option Nat) : Option Nat :=
  (touch.map fun d => now + d.nanos).or due

theorem Entry.isLive_of_le {α : Type} {e : Entry α} {before now : Nat} (le : before ≤ now)
    (live : e.isLive now = true) : e.isLive before = true := by
  cases due : e.deadline with
  | none => rw [isLive, due]
  | some d =>
      rw [isLive, due] at live ⊢
      exact decide_eq_true (Nat.lt_of_le_of_lt le (of_decide_eq_true live))

/-- A read that gives a new deadline gives time. -/
def Renews (touch : Option Span) : Prop := ∀ d, touch = some d → 0 < d.nanos

namespace Store

variable {α : Type} {s : Store α} {key : String} {e : Entry α}

theorem mem_of_find? (h : s.find? key = some e) : e ∈ s.entries ∧ e.key = key := by
  have same := List.find?_some h
  exact ⟨List.mem_of_find?_eq_some h, by simpa using same⟩

theorem key_ne_of_find? (h : s.find? key = none) (member : e ∈ s.entries) : e.key ≠ key := by
  have other := List.find?_eq_none.mp h e member
  simpa using other

theorem mem_of_live? {now : Nat} (h : s.live? key now = some e) :
    e ∈ s.entries ∧ e.key = key ∧ e.isLive now = true := by
  have found := List.find?_some h
  rw [Bool.and_eq_true, beq_iff_eq] at found
  exact ⟨List.mem_of_find?_eq_some h, found⟩

theorem key_ne_of_live? {now : Nat} (h : s.live? key now = none) (member : e ∈ s.entries)
    (live : e.isLive now = true) : e.key ≠ key := by
  have other := List.find?_eq_none.mp h e member
  simpa [live] using other

theorem live?_eq_none_iff {now : Nat} :
    s.live? key now = none ↔ ∀ e ∈ s.entries, e.key = key → e.isLive now = false := by
  simp [live?, List.find?_eq_none]

theorem live?_of_find?_eq_none (h : s.find? key = none) (now : Nat) : s.live? key now = none :=
  live?_eq_none_iff.mpr fun _ member own => absurd own (key_ne_of_find? h member)

theorem mem_without {entries : List (Entry α)} :
    e ∈ without key entries ↔ e ∈ entries ∧ e.key ≠ key := by
  simp [without]

theorem without_of_find?_eq_none (h : s.find? key = none) : without key s.entries = s.entries := by
  apply List.filter_eq_self.mpr
  intro x hx
  simpa using key_ne_of_find? h hx

theorem mem_of_mem_fit {budget : Nat} {entries : List (Entry α)} (h : e ∈ fit budget entries) :
    e ∈ entries := by
  induction entries with
  | nil => exact h
  | cons d rest ih =>
      simp only [fit] at h
      split at h
      · exact h
      · exact List.mem_cons_of_mem d (ih h)

theorem mem_letIn {new : Entry α} (h : e ∈ (s.letIn new).entries) : e ∈ s.entries ∨ e = new := by
  have appended : ∀ entries : List (Entry α), (∀ x ∈ entries, x ∈ s.entries) →
      e ∈ entries ++ [new] → e ∈ s.entries ∨ e = new := by
    intro entries old member
    obtain h | h := List.mem_append.mp member
    · exact .inl (old e h)
    · exact .inr (List.mem_singleton.mp h)
  simp only [letIn] at h
  split at h
  · exact appended s.entries (fun _ hx => hx) h
  · split at h
    · exact .inl h
    · rename_i oldest rest hEntries
      split at h
      · apply appended rest _ (mem_of_mem_fit h)
        intro x hx
        rw [hEntries]
        exact List.mem_cons_of_mem _ hx
      · exact .inl h

theorem find?_ask (s : Store α) (key other : String) : (s.ask key).find? other = s.find? other :=
  rfl

theorem live?_ask (s : Store α) (key other : String) (now : Nat) :
    (s.ask key).live? other now = s.live? other now := rfl

section Read

variable {now : Nat} {touch : Option Span}

theorem read_fst (s : Store α) (key : String) (now : Nat) (touch : Option Span) :
    (s.read key now touch).1 = (s.live? key now).map Entry.value := by
  simp only [read, live?_ask]
  cases s.live? key now <;> rfl

theorem entries_read_of_none (missing : s.live? key now = none) :
    (s.read key now touch).2.entries = s.entries := by
  simp only [read, live?_ask, missing]
  rfl

theorem entries_read_of_some (found : s.live? key now = some e) :
    (s.read key now touch).2.entries =
      without key s.entries ++ [{ e with deadline := touched now touch e.deadline }] := by
  simp only [read, live?_ask, found]
  cases touch <;> rfl

theorem mem_read (h : e ∈ (s.read key now touch).2.entries) :
    (e ∈ s.entries ∧ (e.isLive now = true → e.key ≠ key)) ∨
      ∃ old, s.live? key now = some old ∧
        e = { old with deadline := touched now touch old.deadline } := by
  cases found : s.live? key now with
  | none =>
      rw [entries_read_of_none found] at h
      exact .inl ⟨h, key_ne_of_live? found h⟩
  | some old =>
      rw [entries_read_of_some found] at h
      obtain h | h := List.mem_append.mp h
      · obtain ⟨member, other⟩ := mem_without.mp h
        exact .inl ⟨member, fun _ => other⟩
      · exact .inr ⟨old, rfl, List.mem_singleton.mp h⟩

theorem find?_append_new (entries : List (Entry α)) {key : String} {e : Entry α}
    (own : e.key = key) : (without key entries ++ [e]).find? (fun x => x.key == key) = some e := by
  have others : (without key entries).find? (fun x => x.key == key) = none := by
    apply List.find?_eq_none.mpr
    intro x hx
    simpa using (mem_without.mp hx).2
  rw [List.find?_append, others, Option.none_or, List.find?_singleton, own, beq_self_eq_true,
    if_pos rfl]

theorem live?_append_new (entries : List (Entry α)) {key : String} {e : Entry α} {now : Nat}
    (own : e.key = key) (live : e.isLive now = true) :
    (without key entries ++ [e]).find? (fun x => x.key == key && x.isLive now) = some e := by
  have others : (without key entries).find? (fun x => x.key == key && x.isLive now) = none := by
    apply List.find?_eq_none.mpr
    intro x hx
    simp [(mem_without.mp hx).2]
  rw [List.find?_append, others, Option.none_or, List.find?_singleton, own, beq_self_eq_true, live,
    Bool.and_self, if_pos rfl]

theorem find?_read_of_live? (found : s.live? key now = some e) :
    (s.read key now touch).2.find? key =
      some { e with deadline := touched now touch e.deadline } := by
  rw [find?, entries_read_of_some found]
  exact find?_append_new s.entries (mem_of_live? found).2.1

theorem isLive_touched (renews : Renews touch) (live : e.isLive now = true) :
    ({ e with deadline := touched now touch e.deadline } : Entry α).isLive now = true := by
  cases touch with
  | none => exact live
  | some d => exact decide_eq_true (Nat.lt_add_of_pos_right (renews d rfl))

end Read

theorem mem_write {value : α} {cost now : Nat} {life : Expiry}
    (h : e ∈ (s.write key value cost now life).entries) :
    (e ∈ s.entries ∧ e.key ≠ key) ∨
      e = ⟨key, value, cost, life.deadline now ((s.find? key).bind Entry.deadline)⟩ := by
  simp only [write, find?_ask] at h
  cases found : s.find? key with
  | none =>
      rw [found] at h
      obtain old | new := mem_letIn h
      · exact .inl ⟨old, key_ne_of_find? found old⟩
      · exact .inr new
  | some old =>
      rw [found] at h
      obtain h | h := List.mem_append.mp (mem_of_mem_fit h)
      · exact .inl (mem_without.mp h)
      · exact .inr (List.mem_singleton.mp h)

theorem mem_remove : e ∈ (s.remove key).entries ↔ e ∈ s.entries ∧ e.key ≠ key :=
  mem_without

theorem pass_sublist (s : Store α) (before now : Nat) :
    (s.pass before now).entries.Sublist s.entries := by
  rw [pass]
  split
  · exact List.filter_sublist
  · exact .refl _

/-- The timer takes nothing that a look-up finds. -/
theorem live?_pass (s : Store α) (key : String) (before now : Nat) :
    (s.pass before now).live? key now = s.live? key now := by
  rw [pass]
  split
  · rw [live?, purge, List.find?_filter]
    congr 1
    funext e
    by_cases own : e.key = key
    · simp [own]
    · simp [own]
  · rfl

end Store

def Sorted {α : Type} (fields : List (String × α)) : Prop :=
  fields.Pairwise fun a b => compare a.1 b.1 = .lt

theorem ne_of_compare_eq_lt {a b : String} (lt : compare a b = .lt) : b ≠ a := by
  intro same
  have self : compare a a = .eq := Std.ReflCmp.compare_self
  rw [same, self] at lt
  cases lt

/-- Writing an entry leaves the others, and nothing else under its name. -/
theorem perm_insertEntry {α : Type} (name : String) (value : α) {fields : List (String × α)}
    (sorted : Sorted fields) : (Document.insertEntry name value fields).Perm
      ((name, value) :: fields.filter fun f => f.1 != name) := by
  have others : ∀ {rest : List (String × α)}, (∀ f ∈ rest, compare name f.1 = .lt) →
      rest.filter (fun f => f.1 != name) = rest := by
    intro rest later
    apply List.filter_eq_self.mpr
    exact fun f member => bne_iff_ne.mpr (ne_of_compare_eq_lt (later f member))
  induction fields with
  | nil => exact .refl _
  | cons head rest ih =>
      obtain ⟨k, v⟩ := head
      obtain ⟨later, sortedRest⟩ := List.pairwise_cons.mp sorted
      rw [Document.insertEntry]
      cases order : compare name k with
      | lt =>
          have all : ∀ f ∈ (k, v) :: rest, compare name f.1 = .lt := by
            intro f member
            obtain rfl | member := List.mem_cons.mp member
            · exact order
            · exact Std.TransCmp.lt_trans order (later f member)
          rw [others all]
      | eq =>
          obtain rfl := Std.LawfulEqCmp.eq_of_compare order
          rw [List.filter_cons_of_neg (by simp), others later]
      | gt =>
          have apart := (ne_of_compare_eq_lt (Std.OrientedCmp.gt_iff_lt.mp order)).symm
          rw [List.filter_cons_of_pos (by simpa using apart)]
          exact ((ih sortedRest).cons _).trans (.swap ..)

theorem mem_insertEntry {α : Type} {name : String} {value : α} {fields : List (String × α)}
    (sorted : Sorted fields) {f : String × α} (h : f ∈ Document.insertEntry name value fields) :
    f = (name, value) ∨ (f ∈ fields ∧ f.1 ≠ name) := by
  obtain new | old := List.mem_cons.mp ((perm_insertEntry name value sorted).subset h)
  · exact .inl new
  · obtain ⟨member, other⟩ := List.mem_filter.mp old
    exact .inr ⟨member, bne_iff_ne.mp other⟩

theorem sorted_insertEntry {α : Type} (name : String) (value : α) {fields : List (String × α)}
    (sorted : Sorted fields) : Sorted (Document.insertEntry name value fields) := by
  induction fields with
  | nil => exact List.pairwise_singleton _ _
  | cons head rest ih =>
      obtain ⟨k, v⟩ := head
      obtain ⟨later, sortedRest⟩ := List.pairwise_cons.mp sorted
      simp only [Document.insertEntry]
      cases order : compare name k with
      | lt =>
          refine List.pairwise_cons.mpr ⟨?_, sorted⟩
          intro f hf
          obtain rfl | old := List.mem_cons.mp hf
          · exact order
          · exact Std.TransCmp.lt_trans order (later f old)
      | eq =>
          refine List.pairwise_cons.mpr ⟨?_, sortedRest⟩
          intro f hf
          rw [Std.LawfulEqCmp.eq_of_compare order]
          exact later f hf
      | gt =>
          refine List.pairwise_cons.mpr ⟨?_, ih sortedRest⟩
          intro f hf
          obtain rfl | ⟨old, -⟩ := mem_insertEntry sortedRest hf
          · exact Std.OrientedCmp.gt_iff_lt.mp order
          · exact later f old

theorem Sorted.nodup {α : Type} {fields : List (String × α)} (sorted : Sorted fields) :
    (fields.map (·.1)).Nodup :=
  List.pairwise_map.mpr (sorted.imp fun lt => (ne_of_compare_eq_lt lt).symm)

theorem Sorted.lookup_eq_some_iff {α : Type} {fields : List (String × α)} (sorted : Sorted fields)
    {name : String} {value : α} : fields.lookup name = some value ↔ (name, value) ∈ fields := by
  induction fields with
  | nil => simp
  | cons head rest ih =>
      obtain ⟨k, v⟩ := head
      obtain ⟨later, sortedRest⟩ := List.pairwise_cons.mp sorted
      rw [List.lookup_cons, List.mem_cons]
      by_cases own : name = k
      · subst own
        have absent : (name, value) ∉ rest := fun member =>
          ne_of_compare_eq_lt (later _ member) rfl
        simp [absent, eq_comm]
      · rw [beq_eq_false_iff_ne.mpr own]
        simp [own, ih sortedRest]

end Local
end CacheFacade

import CacheFacade.Proofs.Remote.Requests

/-!
Which keys of a server the operations of a cache work on. Each command of an operation is on the keys
of the operation behind the name of the cache, and on no others; so two caches keep out of each
other's way exactly if their keys differ, and operations spare the replicas of locks exactly if no
caller spells the key of one.
-/

namespace CacheFacade
namespace Remote

namespace Cache

variable {c : Cache}

/-- Some operation on some of the caller's keys, in some run, sends a command on a key. -/
def Reaches (c : Cache) (on : String → Prop) (key : String) : Prop :=
  ∃ (a : Action) (σ : Type) (link : Link σ) (s : σ), (∀ k ∈ a.keys, on k) ∧
    ∃ command ∈ ((c.plan a).run link s).commands, key ∈ command.keys

/-- A link over which every command is answered by one. -/
def obliging : Link Unit where
  exchange commands s := (commands.map fun _ => .ok (.integer 1), s)
  now _ := 0
  pass _ s := s
  draw s := ("", s)
  length_exchange _ _ := List.length_map _

theorem reaches_iff {on : String → Prop} {key : String} :
    c.Reaches on key ↔ ∃ k, on k ∧ key = c.keys.qualify k := by
  constructor
  · rintro ⟨a, σ, link, s, caller, command, sent, member⟩
    have own : command.keys = c.keys.qualifyAll a.keys := (c.asks_plan a).of_mem_commands sent
    rw [own] at member
    obtain ⟨k, known, rfl⟩ := List.mem_map.mp member
    exact ⟨k, caller k known, rfl⟩
  · rintro ⟨k, known, rfl⟩
    refine ⟨.delete k, Unit, obliging, (), ?_, .delete [c.keys.qualify k], ?_, ?_⟩
    · exact fun k' member => List.mem_singleton.mp member ▸ known
    · exact List.mem_cons_self
    · exact List.mem_cons_self

/-- A key that some operation of a cache works on. -/
def Addresses (c : Cache) (key : String) : Prop := c.Reaches (fun _ => True) key

theorem addresses_iff {key : String} : c.Addresses key ↔ ∃ k, key = c.keys.qualify k := by
  simp [Addresses, reaches_iff]

/-- Caches with different names have no key in common, and work on none in common, exactly if the
name of neither goes on behind the name of the other. -/
theorem disjoint_iff_not_continues {c d : Cache} (different : c.keys.name ≠ d.keys.name) :
    ((∀ a b, c.keys.qualify a ≠ d.keys.qualify b) ∧ ∀ key, c.Addresses key → ¬ d.Addresses key) ↔
      ¬ c.keys.Continues d.keys ∧ ¬ d.keys.Continues c.keys := by
  have shared := KeySpace.exists_qualify_eq_iff different
  have apart : (∀ a b, c.keys.qualify a ≠ d.keys.qualify b) ↔
      ¬ c.keys.Continues d.keys ∧ ¬ d.keys.Continues c.keys := by
    rw [and_comm, ← not_or, ← shared]
    simp only [not_exists, ne_eq]
  rw [← apart]
  refine ⟨And.left, fun h => ⟨h, fun key left right => ?_⟩⟩
  obtain ⟨a, rfl⟩ := addresses_iff.mp left
  obtain ⟨b, same⟩ := addresses_iff.mp right
  exact h a b same

/-- A cache of texts with default settings. -/
def texts (name : String) : Cache := .ofConfig (.ofCodec name (.described .plain .text))

theorem disjoint_users_orders :
    (texts "users").keys.name ≠ (texts "orders").keys.name ∧
      (∀ a b, (texts "users").keys.qualify a ≠ (texts "orders").keys.qualify b) ∧
      ∀ key, (texts "users").Addresses key → ¬ (texts "orders").Addresses key := by
  have different : (texts "users").keys.name ≠ (texts "orders").keys.name := by decide
  refine ⟨different, (disjoint_iff_not_continues different).mpr ⟨?_, ?_⟩⟩
  · rintro ⟨rest, same⟩
    have chars := congrArg String.toList same
    rw [KeySpace.toList_qualify] at chars
    exact absurd (List.cons.inj chars).1 (by decide)
  · rintro ⟨rest, same⟩
    have chars := congrArg String.toList same
    rw [KeySpace.toList_qualify] at chars
    exact absurd (List.cons.inj chars).1 (by decide)

/-- A name with the separator in it is a key of another cache, whose keys it then shares. -/
theorem shared_key_of_nested_name :
    (texts "a").keys.name ≠ (texts "a:b").keys.name ∧
      (texts "a").keys.qualify "b:c" = (texts "a:b").keys.qualify "c" ∧
      (texts "a").Addresses "a:b:c" ∧ (texts "a:b").Addresses "a:b:c" :=
  ⟨by decide, by decide, addresses_iff.mpr ⟨"b:c", by decide⟩, addresses_iff.mpr ⟨"c", by decide⟩⟩

/-- A caller keeps off the replicas of all locks exactly if none of its keys spells one. -/
theorem spares_replicas_iff (c : Cache) (on : String → Prop) :
    ((∀ k, on k → ∀ lock i, c.keys.qualify k ≠ c.keys.replicaKey lock i) ∧
        ∀ lock i, ¬ c.Reaches on (c.keys.replicaKey lock i)) ↔
      ∀ k, on k → ¬ KeySpace.SpellsReplica k := by
  have apart : ∀ k, (∀ lock i, c.keys.qualify k ≠ c.keys.replicaKey lock i) ↔
      ¬ KeySpace.SpellsReplica k := by
    intro k
    simp only [ne_eq, KeySpace.qualify_eq_replicaKey_iff, KeySpace.SpellsReplica, not_exists]
  simp only [apart]
  refine ⟨And.left, fun h => ⟨h, fun lock i reached => ?_⟩⟩
  obtain ⟨k, known, same⟩ := reaches_iff.mp reached
  exact (apart k).mpr (h k known) lock i same.symm

/-- A lock is taken by one replica key, and a caller of the same cache deletes that key. -/
theorem replica_deleted_by_key :
    (texts "app").quorum.replicas "l" = ["app:lock:0:l"] ∧
      (∃ token ttl, .acquire "app:lock:0:l" token ttl ∈
        (((texts "app").quorum.tryLock "l").run obliging ()).commands) ∧
      .delete ["app:lock:0:l"] ∈ (((texts "app").plan (.delete "lock:0:l")).run obliging ()).commands :=
  ⟨by decide, ⟨_, _, List.mem_cons_self⟩, List.mem_cons_self⟩

end Cache
end Remote
end CacheFacade

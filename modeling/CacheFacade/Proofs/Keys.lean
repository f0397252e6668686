import CacheFacade.Action
import CacheFacade.Key
import CacheFacade.Proofs.Text.Split
import Mathlib.Data.List.Basic
import Mathlib.Logic.Function.Basic

/-!
Keys of a cache among those of others. A key is its caller's, behind the name; both may hold the
separator, so two caches share keys if the name of one goes on behind that of the other, and a caller
can spell the key of a lock replica. Within one cache no two keys are confused: the caller's is what
stands behind the name, and the number of a replica ends at the first separator behind it.
-/

namespace CacheFacade

/-- The keys of an operation, as the caller gives them. -/
def Action.keys : Action → List String
  | .deleteAll keys => keys
  | .get key | .set key _ | .setFor key _ _ | .delete key | .expire key _ | .increment key _
  | .decrement key _ | .fieldSet key _ _ | .fieldSetFor key _ _ _ | .fieldGet key _ | .fields key
  | .fieldDelete key _ | .fieldExpire key _ _ | .fieldTtl key _ => [key]

namespace KeySpace

theorem qualify_injective (s : KeySpace) : Function.Injective s.qualify := by
  intro a b h
  simpa only [KeySpace.qualify, String.append_right_inj] using h

theorem toList_qualify (s : KeySpace) (key : String) :
    (s.qualify key).toList = s.name.toList ++ separator :: key.toList := by
  simp [qualify]

theorem dropBeginning_eq_some_iff {beginning cs rest : List Char} :
    dropBeginning beginning cs = some rest ↔ cs = beginning ++ rest := by
  induction beginning generalizing cs with
  | nil => simp [dropBeginning]
  | cons b beginning ih =>
      cases cs with
      | nil => simp [dropBeginning]
      | cons c cs =>
          by_cases same : b = c
          · simp [dropBeginning, same, ih]
          · simp [dropBeginning, same, Ne.symm same]

theorem unqualify?_eq_some_iff {s : KeySpace} {composite key : String} :
    s.unqualify? composite = some key ↔ composite = s.qualify key := by
  have behind (rest : List Char) :
      composite.toList = (s.name.toList ++ [separator]) ++ rest ↔
        composite = s.qualify (String.ofList rest) := by
    rw [← String.toList_inj, toList_qualify, String.toList_ofList, List.append_assoc,
      List.singleton_append]
  simp only [unqualify?, Option.map_eq_some_iff, dropBeginning_eq_some_iff, behind]
  constructor
  · rintro ⟨rest, same, rfl⟩
    exact same
  · intro same
    exact ⟨key.toList, by rw [String.ofList_toList, same], String.ofList_toList⟩

theorem unqualify?_qualify (s : KeySpace) (key : String) : s.unqualify? (s.qualify key) = some key :=
  unqualify?_eq_some_iff.mpr rfl

/-- The name of a cache is a key of another one. -/
def Continues (t s : KeySpace) : Prop := ∃ rest, t.name = s.qualify rest

/-- A cache whose name goes on behind another name shares its keys with that one. -/
theorem Continues.exists_qualify {s t : KeySpace} (h : t.Continues s) (key : String) :
    ∃ outer, s.qualify outer = t.qualify key := by
  obtain ⟨rest, named⟩ := h
  refine ⟨rest ++ separator.toString ++ key, ?_⟩
  rw [qualify, qualify, named, qualify]
  simp only [String.append_assoc]

theorem continues_of_toList {s t : KeySpace} {more : List Char}
    (named : t.name.toList = s.name.toList ++ separator :: more) : t.Continues s := by
  refine ⟨String.ofList more, ?_⟩
  rw [← String.toList_inj, toList_qualify, String.toList_ofList, named]

/-- Keys behind two names are the same only if one name goes on behind the other. -/
theorem continues_of_qualify_eq {s t : KeySpace} (different : s.name ≠ t.name) {a b : String}
    (same : s.qualify a = t.qualify b) : t.Continues s ∨ s.Continues t := by
  have chars := congrArg String.toList same
  rw [toList_qualify, toList_qualify] at chars
  -- One name is a beginning of the other; what the longer one has more begins with the separator.
  obtain ⟨more, longer, rest⟩ | ⟨more, longer, rest⟩ := List.append_eq_append_iff.mp chars
  · cases more with
    | nil => exact absurd (String.toList_inj.mp (by simpa using longer.symm)) different
    | cons c more =>
        obtain rfl := (List.cons.inj rest).1
        exact .inl (continues_of_toList longer)
  · cases more with
    | nil => exact absurd (String.toList_inj.mp (by simpa using longer)) different
    | cons c more =>
        obtain rfl := (List.cons.inj rest).1
        exact .inr (continues_of_toList longer)

theorem exists_qualify_eq_iff {s t : KeySpace} (different : s.name ≠ t.name) :
    (∃ a b, s.qualify a = t.qualify b) ↔ t.Continues s ∨ s.Continues t := by
  constructor
  · rintro ⟨a, b, same⟩
    exact continues_of_qualify_eq different same
  · rintro (h | h)
    · obtain ⟨a, same⟩ := h.exists_qualify ""
      exact ⟨a, "", same⟩
    · obtain ⟨b, same⟩ := h.exists_qualify ""
      exact ⟨"", b, same.symm⟩

/-- A caller's key that spells a replica of a lock. -/
def SpellsReplica (key : String) : Prop :=
  ∃ (lock : String) (i : Nat), key = "lock:" ++ toString i ++ ":" ++ lock

theorem replicaKey_eq_qualify (s : KeySpace) (lock : String) (i : Nat) :
    s.replicaKey lock i = s.qualify ("lock:" ++ toString i ++ ":" ++ lock) := by
  have colon : ":lock:" = separator.toString ++ "lock:" := by decide
  rw [replicaKey, qualify, colon]
  simp only [String.append_assoc]

theorem qualify_eq_replicaKey_iff (s : KeySpace) (key lock : String) (i : Nat) :
    s.qualify key = s.replicaKey lock i ↔ key = "lock:" ++ toString i ++ ":" ++ lock := by
  rw [replicaKey_eq_qualify]
  exact s.qualify_injective.eq_iff

theorem separator_notMem_toDigits (i : Nat) : separator ∉ Nat.toDigits 10 i := by
  intro member
  exact absurd (Nat.isDigit_of_mem_toDigits (by decide) (by decide) member) (by decide)

/-- A number in front of a text is read off again: it ends at the first separator, whatever digits
and separators the text has. -/
theorem first?_numbered (i : Nat) (text : String) :
    Split.first? [separator] (toString i ++ ":" ++ text).toList =
      some (Nat.toDigits 10 i, text.toList) := by
  have digits : (toString i).toList = Nat.toDigits 10 i := Nat.toList_repr
  rw [String.append_assoc, String.toList_append, String.toList_append, digits]
  exact Split.first?_append_cons (separator_notMem_toDigits i)

theorem toDigits_injective {i j : Nat} (same : Nat.toDigits 10 i = Nat.toDigits 10 j) : i = j := by
  have read := congrArg (Nat.ofDigitChars 10 · 0) same
  simpa only [Nat.ofDigitChars_ten_toDigits] using read

theorem replicaKey_eq_replicaKey_iff {s : KeySpace} {a b : String} {i j : Nat} :
    s.replicaKey a i = s.replicaKey b j ↔ a = b ∧ i = j := by
  constructor
  · intro same
    rw [replicaKey_eq_qualify, replicaKey_eq_qualify] at same
    have behind : toString i ++ ":" ++ a = toString j ++ ":" ++ b := by
      simpa only [String.append_assoc, String.append_right_inj] using s.qualify_injective same
    have parts := congrArg (Split.first? [separator]) (congrArg String.toList behind)
    rw [first?_numbered, first?_numbered] at parts
    obtain ⟨number, text⟩ := Prod.mk.inj (Option.some.inj parts)
    exact ⟨String.toList_inj.mp text, toDigits_injective number⟩
  · rintro ⟨rfl, rfl⟩
    rfl

/-- The keys of a cache, whatever its name: a key is the caller's own and that of no other, and the
key of a replica tells both the lock and the number of the replica. -/
theorem keys_tell_origin (s : KeySpace) :
    (∀ composite key, s.unqualify? composite = some key ↔ composite = s.qualify key) ∧
      (∀ a b, s.qualify a = s.qualify b ↔ a = b) ∧
      ∀ a b i j, s.replicaKey a i = s.replicaKey b j ↔ a = b ∧ i = j :=
  ⟨fun _ _ => unqualify?_eq_some_iff, fun _ _ => s.qualify_injective.eq_iff,
    fun _ _ _ _ => replicaKey_eq_replicaKey_iff⟩

end KeySpace
end CacheFacade

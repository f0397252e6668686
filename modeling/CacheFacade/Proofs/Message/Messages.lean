import CacheFacade.Proofs.Message.Fields
import CacheFacade.Proofs.Plain.Composite

/-!
Messages and the bytes they are written as. Fields at their default are left out, and a message that
lies in another one is written in a field of its own; the reader starts from the defaults and puts
back one field after the other.
-/

namespace CacheFacade
namespace Message

/-- The values of a message type with at most so many messages above one another in it. -/
def MessageType.Holds (t : MessageType) : Nat → List Val → Prop
  | 0, vs => List.Forall₂ (fun f v => f.shape.Holds (fun _ => False) v) t.fields vs
  | n + 1, vs => List.Forall₂ (fun f v => f.shape.Holds (t.Holds n) v) t.fields vs

open Reader

section

variable {t : MessageType} {depth : Nat} {parent : List Val → Prop}

theorem steps_fields (numbered : t.Numbered)
    (parents : ∀ vs, parent vs → (Writer.write t t.fields vs).length < 2 ^ 64 →
      Steps (mergeField t depth) t.default (Writer.write t t.fields vs) vs)
    (before : List Field) {fields : List Field} (all : t.fields = before ++ fields)
    (done : List Val) {vs : List Val} (placed : done.length = before.length)
    (each : List.Forall₂ (fun f v => f.shape.Holds parent v) fields vs)
    (short : (Writer.write t fields vs).length < 2 ^ 64) :
    Steps (mergeField t (depth + 1)) (done ++ fields.map fun f => f.shape.default)
      (Writer.write t fields vs) (done ++ vs) := by
  induction each generalizing before done with
  | nil => exact .done _
  | @cons f v fields vs held _ ih =>
      rw [Writer.write, List.length_append] at short
      have here : t.fields[done.length]? = some f := by simp [all, placed]
      have still : (done ++ f.shape.default :: fields.map fun f => f.shape.default)[done.length]? =
          some f.shape.default := by
        simp
      have first := steps_field numbered here still held parents (by omega)
      have others := ih (before ++ [f]) (by simpa using all) (done ++ [v]) (by simpa using placed)
        (by omega)
      rw [List.append_assoc, List.append_assoc, List.singleton_append, List.singleton_append]
        at others
      rw [List.set_append_right _ _ (Nat.le_refl _), Nat.sub_self, List.set_cons_zero] at first
      exact first.trans others

theorem steps_message (numbered : t.Numbered) {n depth : Nat} (shallow : n ≤ depth) {vs : List Val}
    (held : t.Holds n vs) (short : (Writer.write t t.fields vs).length < 2 ^ 64) :
    Steps (mergeField t (depth + 1)) t.default (Writer.write t t.fields vs) vs := by
  induction n generalizing depth vs with
  | zero => exact steps_fields numbered nofun [] rfl [] rfl held short
  | succ n ih =>
      obtain ⟨depth, rfl⟩ := Nat.exists_eq_succ_of_ne_zero (Nat.ne_zero_of_lt shallow)
      refine steps_fields numbered ?_ [] rfl [] rfl held short
      exact fun vs inner => ih (Nat.le_of_succ_le_succ shallow) inner

end

theorem read_write {t : MessageType} (numbered : t.Numbered) {n : Nat} (shallow : n < deepest)
    {vs : List Val} (held : t.Holds n vs) (short : (write t (.list vs)).length < 2 ^ 64) :
    read t (write t (.list vs)) = .ok (.list vs) := by
  have steps := steps_message numbered (Nat.le_sub_one_of_lt shallow) held short
  have run : stepsTo 0 (mergeField t deepest) ((write t (.list vs)).length + 1) t.default
      (write t (.list vs)) = .ok (vs, []) := by
    have all := steps.stepsTo [] (Nat.lt_succ_self _)
    rwa [List.append_nil] at all
  simp only [read, StateT.run, run]

theorem unlessDefault_eq_nil_iff {k : Kind} {v : Val} (held : k.Holds v)
    (signless : v ≠ .f64 0x8000000000000000) (number : Nat) :
    Writer.unlessDefault number k v = [] ↔ v = k.default := by
  unfold Writer.unlessDefault
  constructor
  · intro omitted
    split at omitted
    · exact Kind.eq_default held signless ‹_›
    · simp [Writer.keyed, Writer.key_ne_nil] at omitted
  · rintro rfl
    rw [if_pos (Kind.isDefault_default k)]

theorem field_eq_nil_iff {t : MessageType} {parent : List Val → Prop} {shape : Shape} {v : Val}
    (held : shape.Holds parent v) (number : Nat) :
    Writer.field t number shape v = [] ↔ v = shape.default := by
  cases held with
  | single held signless =>
      rw [Writer.field]
      exact unlessDefault_eq_nil_iff held signless number
  | absent | alone => exact ⟨fun _ => rfl, fun _ => rfl⟩
  | present => simp [Writer.field, Writer.keyed, Writer.key_ne_nil, Shape.default]
  | @repeated k vs each =>
      cases vs with
      | nil => simp [Writer.field, Writer.repeated, Shape.default]
      | cons v vs =>
          rw [Writer.field, Writer.repeated]
          split <;> simp [Writer.keyed, Writer.key_ne_nil, Shape.default]
  | @counts es _ _ =>
      cases es with
      | nil => simp [Writer.field, Shape.default]
      | cons e es => simp [Writer.field, Writer.entry, Writer.key_ne_nil, Shape.default]
  | under => simp [Writer.field, Writer.key_ne_nil, Shape.default]

theorem numbered_token : token.Numbered := ⟨by decide, by decide, by decide⟩

theorem numbered_profile : profile.Numbered := ⟨by decide, by decide, by decide⟩

/-- A message with at most 99 others above one another in it, no floating field of which is a
negative zero, is written and read back as it was. A field is left out exactly where it is at its
default, and so are the two parts of an entry of a map. -/
theorem message_returns {t : MessageType} (known : t = token ∨ t = profile) {vs : List Val}
    (held : t.Holds 99 vs) (short : (write t (.list vs)).length < 2 ^ 64) :
    (Codec.message t).Returns (.list vs) ∧
      List.Forall₂ (fun f v => Writer.field t f.number f.shape v = [] ↔ v = f.shape.default)
        t.fields vs ∧
      ∀ number k v, Kind.text.Holds k → Kind.int64.Holds v →
        ∃ key value, Writer.entry number (k, v) =
            Writer.key number .delimited ++ Writer.delimited (key ++ value) ∧
          (key = [] ↔ k = .text "") ∧ (value = [] ↔ v = .int 0) := by
  have numbered : t.Numbered := by
    rcases known with rfl | rfl
    · exact numbered_token
    · exact numbered_profile
  refine ⟨⟨_, rfl, ?_⟩, ?_, ?_⟩
  · rw [Codec.decode, read_write numbered (by decide) held short]
    rfl
  · exact held.imp fun f v holds => field_eq_nil_iff holds f.number
  · intro number k v key value
    exact ⟨_, _, rfl, unlessDefault_eq_nil_iff key (Kind.signless key (by decide)) 1,
      unlessDefault_eq_nil_iff value (Kind.signless value (by decide)) 2⟩

/-- A profile at its defaults but for its ratio and its parent. -/
def profileOf (ratio : UInt64) (parent : Val) : List Val :=
  [.int 0, .none, .int 0, .f64 ratio, .bytes [], .bool false, parent, .map [], .list [], .int 0]

theorem holds_profileOf {parent : List Val → Prop} {v : Val} (held : Shape.same.Holds parent v) :
    List.Forall₂ (fun f v => f.shape.Holds parent v) profile.fields (profileOf 0 v) :=
  .cons (.single (.uint64 (by decide)) nofun) <| .cons (.absent _) <|
    .cons (.single (.sint64 (by decide)) nofun) <| .cons (.single (.double 0) (by simp)) <|
    .cons (.single (.bytes []) nofun) <| .cons (.single (.bool false) nofun) <|
    .cons held <| .cons (.counts .nil nofun) <| .cons (.repeated nofun) <|
    .cons (.single (.fixed32 (by decide)) nofun) .nil

/-- A profile with a parent, a present name that is empty, and entries with parts at their default. -/
theorem message_returns_profile :
    (Codec.message profile).Returns (.list [.int 7, .some (.text ""), .int (-5),
      .f64 0x4024000000000000, .bytes [0, 255], .bool true, .some (.list (profileOf 0 .none)),
      .map [(.text "", .int 3), (.text "a", .int 0)], .list [.int (-1), .int 300], .int 9]) := by
  have entries : ∀ e ∈ [(Val.text "", Val.int 3), (.text "a", .int 0)],
      Kind.text.Holds e.1 ∧ Kind.int64.Holds e.2 := by
    simp only [List.forall_mem_cons]
    exact ⟨⟨.text _, .int64 (by decide)⟩, ⟨.text _, .int64 (by decide)⟩, by simp⟩
  have history : ∀ v ∈ [Val.int (-1), .int 300], Kind.int32.Holds v := by
    simp only [List.forall_mem_cons]
    exact ⟨.int32 (by decide), .int32 (by decide), by simp⟩
  refine (message_returns (.inr rfl) ?_ (by decide +kernel)).1
  exact .cons (.single (.uint64 (by decide)) nofun) <| .cons (.present (.text "")) <|
    .cons (.single (.sint64 (by decide)) nofun) <| .cons (.single (.double _) (by simp)) <|
    .cons (.single (.bytes _) nofun) <| .cons (.single (.bool true) nofun) <|
    .cons (.under (holds_profileOf .alone)) <| .cons (.counts (by decide) entries) <|
    .cons (.repeated history) <| .cons (.single (.fixed32 (by decide)) nofun) .nil

/-- The ratio of a parent counts as well: one that is a negative zero is read back as zero. -/
theorem not_returned_of_negative_zero :
    ¬ (Codec.message profile).Returns
      (.list (profileOf 0 (.some (.list (profileOf 0x8000000000000000 .none))))) := by
  have read := read_write (n := 1) numbered_profile (by decide)
    (holds_profileOf (.under (holds_profileOf .alone))) (by decide +kernel)
  rintro ⟨bs, write, returned⟩
  cases write
  rw [Codec.decode] at returned
  have same := (Plain.ok_of_mapError.mp returned).symm.trans read
  simp [profileOf] at same

end Message
end CacheFacade

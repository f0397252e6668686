import CacheFacade.Proofs.Message.Parts
import CacheFacade.Proofs.Schema.Order
import Mathlib.Data.List.Nodup

/-!
The fields of a message. What is written for a field, a step of the reader a key, makes of a message
that has the field at its default one that has it at the value, and touches no other field.
-/

namespace CacheFacade
namespace Message

/-- Each field has a number of its own, which a key can hold. -/
structure MessageType.Numbered (t : MessageType) : Prop where
  distinct : (t.fields.map (·.number)).Nodup
  positive : ∀ f ∈ t.fields, 0 < f.number
  small : ∀ f ∈ t.fields, f.number < 2 ^ 29

/-- The values of a shape, given what a message in the field may be. A floating number on its own is
no negative zero, and a map holds its entries in the order of their keys. -/
inductive Shape.Holds (parent : List Val → Prop) : Shape → Val → Prop where
  | single {k : Kind} {v : Val} (held : k.Holds v) (signless : v ≠ .f64 0x8000000000000000) :
      Shape.Holds parent (.single k) v
  | absent (k : Kind) : Shape.Holds parent (.optional k) .none
  | present {k : Kind} {v : Val} (held : k.Holds v) : Shape.Holds parent (.optional k) (.some v)
  | repeated {k : Kind} {vs : List Val} (each : ∀ v ∈ vs, k.Holds v) :
      Shape.Holds parent (.repeated k) (.list vs)
  | counts {es : List (Val × Val)} (sorted : es.Pairwise fun e f => Val.order e.1 f.1 = .lt)
      (each : ∀ e ∈ es, Kind.text.Holds e.1 ∧ Kind.int64.Holds e.2) :
      Shape.Holds parent .counts (.map es)
  | alone : Shape.Holds parent .same .none
  | under {vs : List Val} (held : parent vs) : Shape.Holds parent .same (.some (.list vs))

theorem Kind.signless {k : Kind} {v : Val} (held : k.Holds v) (whole : k ≠ .double) :
    v ≠ .f64 0x8000000000000000 := by
  rintro rfl
  cases held
  exact whole rfl

theorem Kind.eq_default {k : Kind} {v : Val} (held : k.Holds v)
    (signless : v ≠ .f64 0x8000000000000000) (default : Kind.isDefault v = true) :
    v = k.default := by
  cases held with
  | text s => simpa [isDefault, Kind.default] using default
  | bytes bs => simpa [isDefault, Kind.default] using default
  | bool b => simpa [isDefault, Kind.default] using default
  | int32 | int64 | uint64 | sint64 | fixed32 => simpa [isDefault, Kind.default] using default
  | double bits =>
      have zero : bits = 0 ∨ bits = 0x8000000000000000 := by simpa [isDefault] using default
      rcases zero with rfl | rfl
      · rfl
      · exact absurd rfl signless

theorem Kind.isDefault_default (k : Kind) : Kind.isDefault k.default = true := by
  cases k <;> rfl

/-- Nothing is written for a field that is to have the value it had before. -/
theorem Steps.kept {step : List Val → Unpack (List Val)} {values : List Val} {i : Nat} {v : Val}
    (before : values[i]? = some v) : Steps step values [] (values.set i v) := by
  obtain ⟨bound, rfl⟩ := List.getElem?_eq_some_iff.mp before
  rw [List.set_getElem_self bound]
  exact .done values

namespace Reader

/-- What stands behind the key of a field of a message. -/
def content (t : MessageType) (depth : Nat) (f : Field) (w : Wire) (old : Val) : Unpack Val :=
  match f.shape with
  | .same => do
    checkWire w .delimited
    match depth with
    | 0 => refuse .tooDeep
    | depth + 1 =>
      let inner := match old with
        | .some (.list vs) => vs
        | _ => t.default
      return .some (.list (← delimited (mergeField t depth) inner))
  | shape => simple depth shape w old

theorem mergeField_eq (t : MessageType) (depth : Nat) (values : List Val) :
    mergeField t depth values = (do
      let (number, w) ← key
      match t.fields.findIdx? (fun f => f.number == number) with
      | none => do
        skip depth number w
        return values
      | some i =>
        match t.fields[i]?, values[i]? with
        | some f, some old => return values.set i (← inside t.name f.name (content t depth f w old))
        | _, _ => return values) := by
  rw [mergeField]
  rfl

end Reader

open Reader

theorem findIdx?_number {t : MessageType} (numbered : t.Numbered) {i : Nat} {f : Field}
    (here : t.fields[i]? = some f) :
    t.fields.findIdx? (fun g => g.number == f.number) = some i := by
  obtain ⟨bound, rfl⟩ := List.getElem?_eq_some_iff.mp here
  rw [List.findIdx?_eq_some_iff_getElem]
  refine ⟨bound, beq_self_eq_true _, ?_⟩
  intro j before same
  have numbers : (t.fields.map (·.number))[j]? = (t.fields.map (·.number))[i]? := by
    rw [List.getElem?_map, List.getElem?_map, List.getElem?_eq_getElem bound,
      List.getElem?_eq_getElem (Nat.lt_trans before bound)]
    exact congrArg some (eq_of_beq same)
  have inside : j < (t.fields.map (·.number)).length := by
    rw [List.length_map]
    exact Nat.lt_trans before bound
  exact Nat.ne_of_lt before ((List.getElem?_inj inside numbered.distinct).mp numbers)

section

variable {t : MessageType} {depth : Nat} {values : List Val} {i number : Nat} {name : String}

theorem takes_mergeField (numbered : t.Numbered) {f : Field} (here : t.fields[i]? = some f)
    {old v : Val} (before : values[i]? = some old) {w : Wire} {bs : Bytes}
    (takes : Takes (content t depth f w old) bs v) :
    Takes (mergeField t depth values) (Writer.key f.number w ++ bs) (values.set i v) := by
  have member := List.mem_of_getElem? here
  have front := takes_key (numbered.positive f member) (numbered.small f member) w
  rw [mergeField_eq]
  refine front.bind ?_
  simp only [findIdx?_number numbered here, here, before]
  exact (takes_inside t.name f.name takes).finish (.done _)

theorem steps_mergeField (numbered : t.Numbered) {f : Field} (here : t.fields[i]? = some f)
    {old v : Val} (before : values[i]? = some old) {w : Wire} {bs : Bytes}
    (takes : Takes (content t depth f w old) bs v) :
    Steps (mergeField t depth) values (Writer.key f.number w ++ bs) (values.set i v) :=
  .one (by simp [Writer.key_ne_nil]) (takes_mergeField numbered here before takes)

/-- A part that is left out at its default is not missed, if the default was there before. -/
theorem steps_unlessDefault {α : Type} {step : α → Unpack α} {a b : α} {k : Kind} {v : Val}
    (held : k.Holds v) (signless : v ≠ .f64 0x8000000000000000) (same : v = k.default → a = b)
    (takes : Takes (checked k k.wire) (Writer.scalar k v) v →
      Takes (step a) (Writer.keyed number k v) b)
    (short : (Writer.unlessDefault number k v).length < 2 ^ 64) :
    Steps step a (Writer.unlessDefault number k v) b := by
  unfold Writer.unlessDefault at short ⊢
  by_cases default : Kind.isDefault v = true
  · rw [if_pos default, same (Kind.eq_default held signless default)]
    exact .done b
  · rw [if_neg default, Writer.keyed, List.length_append] at short
    rw [if_neg default]
    exact .one (by simp [Writer.keyed, Writer.key_ne_nil])
      (takes (takes_checked held (Nat.lt_of_le_of_lt (Nat.le_add_left _ _) short)))

theorem steps_single (numbered : t.Numbered) {k : Kind}
    (here : t.fields[i]? = some ⟨number, name, .single k⟩) (before : values[i]? = some k.default)
    {v : Val} (held : k.Holds v) (signless : v ≠ .f64 0x8000000000000000)
    (short : (Writer.unlessDefault number k v).length < 2 ^ 64) :
    Steps (mergeField t depth) values (Writer.unlessDefault number k v) (values.set i v) := by
  obtain ⟨bound, old⟩ := List.getElem?_eq_some_iff.mp before
  refine steps_unlessDefault held signless ?_ (takes_mergeField numbered here before) short
  rintro rfl
  rw [← old, List.set_getElem_self bound]

theorem takes_repeated {k : Kind} {v : Val} (held : k.Holds v)
    (short : (Writer.scalar k v).length < 2 ^ 64) (vs : List Val) :
    Takes (repeated k k.wire vs) (Writer.scalar k v) (vs ++ [v]) := by
  have apart : ¬ (k.wire ≠ .delimited ∧ k.wire = .delimited) := fun both => both.1 both.2
  rw [repeated, if_neg apart]
  exact (takes_checked held short).finish (.done _)

theorem steps_repeated_apart (numbered : t.Numbered) {k : Kind}
    (here : t.fields[i]? = some ⟨number, name, .repeated k⟩) {ws vs : List Val}
    (before : values[i]? = some (.list ws)) (each : ∀ v ∈ vs, k.Holds v)
    (short : (vs.flatMap (Writer.keyed number k)).length < 2 ^ 64) :
    Steps (mergeField t depth) values (vs.flatMap (Writer.keyed number k))
      (values.set i (.list (ws ++ vs))) := by
  induction vs generalizing ws values with
  | nil =>
      rw [List.append_nil]
      exact .kept before
  | cons v vs ih =>
      obtain ⟨bound, -⟩ := List.getElem?_eq_some_iff.mp before
      rw [List.flatMap_cons, List.length_append] at short
      have front : (Writer.scalar k v).length ≤ (Writer.keyed number k v).length := by
        simp [Writer.keyed]
      have taken : Takes (content t depth ⟨number, name, .repeated k⟩ k.wire (.list ws)) _
          (.list (ws ++ [v])) :=
        (takes_repeated (each v List.mem_cons_self) (by omega) ws).finish (.done _)
      have after : (values.set i (.list (ws ++ [v])))[i]? = some (.list (ws ++ [v])) :=
        List.getElem?_set_self bound
      have others := ih after (fun v member => each v (List.mem_cons_of_mem _ member)) (by omega)
      rw [List.set_set, List.append_assoc] at others
      exact (steps_mergeField numbered here before taken).trans others

theorem steps_packed {k : Kind} {vs : List Val} (each : ∀ v ∈ vs, k.Holds v)
    (short : (vs.flatMap (Writer.scalar k)).length < 2 ^ 64) (ws : List Val) :
    Steps (fun vs => do return vs ++ [← scalar k]) ws (vs.flatMap (Writer.scalar k)) (ws ++ vs) := by
  induction vs generalizing ws with
  | nil =>
      rw [List.append_nil]
      exact .done ws
  | cons v vs ih =>
      have held := each v List.mem_cons_self
      rw [List.flatMap_cons, List.length_append] at short
      have others := ih (fun v member => each v (List.mem_cons_of_mem _ member)) (by omega)
        (ws ++ [v])
      rw [List.append_assoc] at others
      exact .more (Writer.scalar_ne_nil held)
        ((takes_scalar held (by omega)).finish (.done _)) others

theorem steps_repeated (numbered : t.Numbered) {k : Kind}
    (here : t.fields[i]? = some ⟨number, name, .repeated k⟩) (before : values[i]? = some (.list []))
    {vs : List Val} (each : ∀ v ∈ vs, k.Holds v)
    (short : (Writer.repeated number k vs).length < 2 ^ 64) :
    Steps (mergeField t depth) values (Writer.repeated number k vs) (values.set i (.list vs)) := by
  unfold Writer.repeated at short ⊢
  by_cases apart : k.wire = .delimited
  · rw [if_pos apart] at short ⊢
    exact steps_repeated_apart numbered here before each short
  · rw [if_neg apart] at short ⊢
    cases vs with
    | nil => exact .kept before
    | cons v vs =>
        simp only [List.isEmpty_cons, Bool.false_eq_true, if_false, List.length_append] at short ⊢
        have inner := Writer.length_le_delimited ((v :: vs).flatMap (Writer.scalar k))
        have packed := (steps_packed each (by omega) []).delimited (by omega)
        refine steps_mergeField numbered here before ?_
        change Takes (do return Val.list (← repeated k .delimited [])) _ _
        rw [repeated, if_pos ⟨apart, rfl⟩]
        exact packed.finish (.done _)

theorem steps_entryPart {k v : Val} (key : Kind.text.Holds k) (value : Kind.int64.Holds v)
    (short : (Writer.unlessDefault 1 .text k ++ Writer.unlessDefault 2 .int64 v).length < 2 ^ 64) :
    Steps (entryPart depth) (.text "", .int 0)
      (Writer.unlessDefault 1 .text k ++ Writer.unlessDefault 2 .int64 v) (k, v) := by
  rw [List.length_append] at short
  have first : Steps (entryPart depth) (.text "", .int 0) (Writer.unlessDefault 1 .text k)
      (k, .int 0) := by
    refine steps_unlessDefault key (Kind.signless key (by decide)) ?_ ?_ (by omega)
    · rintro rfl
      rfl
    · exact fun takes => (takes_key (by decide) (by decide) _).bind (takes.finish (.done _))
  have second : Steps (entryPart depth) (k, .int 0) (Writer.unlessDefault 2 .int64 v) (k, v) := by
    refine steps_unlessDefault value (Kind.signless value (by decide)) ?_ ?_ (by omega)
    · rintro rfl
      rfl
    · exact fun takes => (takes_key (by decide) (by decide) _).bind (takes.finish (.done _))
  exact first.trans second

theorem steps_entries (numbered : t.Numbered) (here : t.fields[i]? = some ⟨number, name, .counts⟩)
    {ds es : List (Val × Val)} (before : values[i]? = some (.map ds))
    (each : ∀ e ∈ es, Kind.text.Holds e.1 ∧ Kind.int64.Holds e.2)
    (short : (es.flatMap (Writer.entry number)).length < 2 ^ 64) :
    Steps (mergeField t (depth + 1)) values (es.flatMap (Writer.entry number))
      (values.set i (.map (es.foldl (fun ds e => Val.insertEntry e.1 e.2 ds) ds))) := by
  induction es generalizing ds values with
  | nil => exact .kept before
  | cons e es ih =>
      obtain ⟨bound, -⟩ := List.getElem?_eq_some_iff.mp before
      obtain ⟨key, value⟩ := each e List.mem_cons_self
      rw [List.flatMap_cons, List.length_append, Writer.entry, List.length_append] at short
      have inner := Writer.length_le_delimited
        (Writer.unlessDefault 1 .text e.1 ++ Writer.unlessDefault 2 .int64 e.2)
      have taken : Takes (content t (depth + 1) ⟨number, name, .counts⟩ .delimited (.map ds)) _
          (.map (Val.insertEntry e.1 e.2 ds)) :=
        ((steps_entryPart key value (by omega)).delimited (by omega)).finish (.done _)
      have after : (values.set i (.map (Val.insertEntry e.1 e.2 ds)))[i]? =
          some (.map (Val.insertEntry e.1 e.2 ds)) :=
        List.getElem?_set_self bound
      have others := ih after (fun e member => each e (List.mem_cons_of_mem _ member)) (by omega)
      rw [List.set_set] at others
      exact (steps_mergeField numbered here before taken).trans others

/-- The entries of a map may be written in any order. -/
theorem steps_counts (numbered : t.Numbered) (here : t.fields[i]? = some ⟨number, name, .counts⟩)
    {es es' : List (Val × Val)} (before : values[i]? = some (.map [])) (sorted : Val.InOrder es)
    (same : es'.Perm es) (each : ∀ e ∈ es, Kind.text.Holds e.1 ∧ Kind.int64.Holds e.2)
    (short : (es'.flatMap (Writer.entry number)).length < 2 ^ 64) :
    Steps (mergeField t (depth + 1)) values (es'.flatMap (Writer.entry number))
      (values.set i (.map es)) := by
  have steps : Steps (mergeField t (depth + 1)) values _ _ :=
    steps_entries numbered here before (fun e member => each e (same.subset member)) short
  rwa [show es'.foldl (fun ds e => Val.insertEntry e.1 e.2 ds) [] = es from
    Val.sortEntries_of_perm sorted same] at steps

theorem steps_under (numbered : t.Numbered) (here : t.fields[i]? = some ⟨number, name, .same⟩)
    (before : values[i]? = some .none) {bs : Bytes} {vs : List Val}
    (steps : Steps (mergeField t depth) t.default bs vs) (short : bs.length < 2 ^ 64) :
    Steps (mergeField t (depth + 1)) values (Writer.key number .delimited ++ Writer.delimited bs)
      (values.set i (.some (.list vs))) :=
  steps_mergeField (f := ⟨number, name, .same⟩) numbered here before
    ((takes_checkWire .delimited).bind ((steps.delimited short).finish (.done _)))

theorem steps_field (numbered : t.Numbered) {shape : Shape}
    (here : t.fields[i]? = some ⟨number, name, shape⟩) (before : values[i]? = some shape.default)
    {parent : List Val → Prop} {v : Val} (held : shape.Holds parent v)
    (parents : ∀ vs, parent vs → (Writer.write t t.fields vs).length < 2 ^ 64 →
      Steps (mergeField t depth) t.default (Writer.write t t.fields vs) vs)
    (short : (Writer.field t number shape v).length < 2 ^ 64) :
    Steps (mergeField t (depth + 1)) values (Writer.field t number shape v) (values.set i v) := by
  cases held with
  | single held signless =>
      rw [Writer.field] at short ⊢
      exact steps_single numbered here before held signless short
  | absent k => exact .kept before
  | present held =>
      simp only [Writer.field, Writer.keyed, List.length_append] at short
      exact steps_mergeField numbered here before
        ((takes_checked held (by omega)).finish (.done _))
  | repeated each => exact steps_repeated numbered here before each short
  | counts sorted each =>
      exact steps_counts numbered here before sorted (.refl _) each short
  | alone => exact .kept before
  | @under vs held =>
      simp only [Writer.field, List.length_append] at short
      have inner := Writer.length_le_delimited (Writer.write t t.fields vs)
      have enough : (Writer.write t t.fields vs).length < 2 ^ 64 := by omega
      exact steps_under numbered here before (parents _ held enough) enough

end

end Message
end CacheFacade

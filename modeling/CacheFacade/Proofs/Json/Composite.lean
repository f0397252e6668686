import CacheFacade.Proofs.Json.Levels
import CacheFacade.Proofs.Json.Null
import CacheFacade.Proofs.Json.Parts
import CacheFacade.Proofs.Schema.Settled

/-!
Values of types without floating numbers as document texts. Every such value is written, and its
text is read, wherever as many brackets may still be opened as it has levels of them, as the value
with its nulls settled; a value of a composite type is read as itself. The proof follows the typing
of the value.
-/

namespace CacheFacade

namespace Json

open Scan

/-- A text with `n` levels of brackets that is read as a value of its type, also as an item, an
entry or an optional value. -/
structure Spells (t : Ty) (n : Nat) (v : Val) (text : Bytes) : Prop where
  opens : OpensItem text
  takes : ∀ depth, n ≤ depth → (Reader.read t depth).Takes text v

theorem Spells.mono {t : Ty} {n m : Nat} {v : Val} {text : Bytes} (spells : Spells t n v text)
    (le : n ≤ m) : Spells t m v text :=
  ⟨spells.opens, fun depth shallow => spells.takes depth (Nat.le_trans le shallow)⟩

section Scalars

theorem isWord_of_holds {k : IntKind} {n : Int} (narrow : k.width ≠ .w128)
    (held : k.holds n = true) : IsWord n := by
  have bounds : -9223372036854775808 ≤ k.least ∧ k.greatest < 18446744073709551616 := by
    obtain ⟨signed, width⟩ := k
    cases width with
    | w128 => exact absurd rfl narrow
    | _ => cases signed <;> decide
  have inside := IntKind.holds_iff.mp held
  exact isWord_iff.mpr (by omega)

theorem accept_int {k : IntKind} {n : Int} (held : k.holds n = true) :
    (Ty.int k).accept (.int n) = .ok (.int n) :=
  if_pos held

theorem read_int_takes {k : IntKind} {n : Int} (held : k.holds n = true) (depth : Nat) :
    (Reader.read (.int k) depth).Takes (Writer.ascii (Writer.int n)) (.int n) := by
  obtain ⟨signed, width⟩ := k
  cases width with
  | w128 => exact fun rest ends => bind_of_done (Number.wide_text held rest ends) _
  | _ =>
      exact Reader.scalar_takes (offer_int (isWord_of_holds (by simp) held)) (accept_int held)

theorem opensItem_int (n : Int) : OpensItem (Writer.ascii (Writer.int n)) := by
  obtain ⟨b, bs, eq, start⟩ := encode_text_cons n
  exact ⟨b, bs, eq, isBlankByte_of_start start, ne_of_start start rfl⟩

theorem spells_bool (b : Bool) : Spells .bool 0 (.bool b) (Writer.ascii (toString b)) where
  opens := (stands_bool b).opens
  takes := fun _ _ => Reader.scalar_takes (fun rest _ => offer_bool b rest) rfl

theorem spells_int {k : IntKind} {n : Int} (held : k.holds n = true) :
    Spells (.int k) 0 (.int n) (Writer.ascii (Writer.int n)) where
  opens := opensItem_int n
  takes := fun depth _ => read_int_takes held depth

theorem opensItem_text (s : String) : OpensItem (Writer.text s) := ⟨34, _, rfl, rfl, by decide⟩

theorem spells_char (c : Char) : Spells .char 0 (.char c) (Writer.text c.toString) where
  opens := opensItem_text _
  takes := fun _ _ => by
    apply Reader.scalar_takes (fun rest _ => offer_text c.toString rest)
    have chars : c.toString.toList = [c] := String.toList_singleton c
    simp only [Ty.accept, chars]

theorem spells_text (s : String) : Spells .text 0 (.text s) (Writer.text s) where
  opens := opensItem_text s
  takes := fun _ _ => Reader.scalar_takes (fun rest _ => offer_text s rest) rfl

theorem opensItem_list (texts : List Bytes) : OpensItem (Writer.list texts) :=
  ⟨91, _, rfl, rfl, by decide⟩

theorem opensItem_null : OpensItem Writer.null := ⟨110, _, rfl, rfl, by decide⟩

theorem spells_unit : Spells .unit 0 .unit Writer.null where
  opens := opensItem_null
  takes := fun _ _ => Reader.scalar_takes (fun rest _ => offer_null rest) rfl

theorem spells_unitNamed (name : String) : Spells (.unitNamed name) 0 .unit Writer.null where
  opens := opensItem_null
  takes := fun _ _ => Reader.scalar_takes (fun rest _ => offer_null rest) rfl

end Scalars

section Parts

variable {t : Ty} {n : Nat} {v : Val} {text : Bytes}

theorem spells_none (t : Ty) : Spells (.option t) 0 .none Writer.null where
  opens := opensItem_null
  takes := fun _ _ => Reader.optional_takes_null _ _

theorem spells_some (present : OpensPresent text) (inner : Spells t n v text) :
    Spells (.option t) n (.some v) text where
  opens := inner.opens
  takes := fun depth shallow => by
    apply Reader.optional_takes inner.opens present.head?_ne
    exact fun rest ends => bind_of_done (inner.takes depth shallow rest ends) _

theorem spells_wrapper (name : String) (inner : Spells t n v text) :
    Spells (.wrapper name t) n v text where
  opens := inner.opens
  takes := inner.takes

theorem spells_of_brackets (opens : OpensItem text)
    (inside : ∀ depth, n ≤ depth → (Reader.read t (depth + 1)).Takes text v) :
    Spells t (n + 1) v text where
  opens := opens
  takes := by
    rintro (_ | depth) nested
    · cases nested
    · exact inside depth (Nat.le_of_succ_le_succ nested)

theorem spells_list {vs : List Val} {texts : List Bytes} (each : List.Forall₂ (Spells t n) vs texts) :
    Spells (.list t) (n + 1) (.list vs) (Writer.list texts) := by
  apply spells_of_brackets (opensItem_list texts)
  intro depth shallow rest _
  have items := items_commaSeparated
    (each.imp fun v text spells => ⟨spells.opens, spells.takes depth shallow⟩) rest
  have bytes : Writer.list texts ++ rest = 91 :: (Writer.commaSeparated texts ++ 93 :: rest) := by
    simp [Writer.list]
  rw [bytes, Reader.read]
  exact Reader.bracketed_list _ (bind_of_done items _)

/-- Items of a tuple, each with a type of its own. -/
def SpellsAll (ts : List Ty) (n : Nat) (vs : List Val) (texts : List Bytes) : Prop :=
  ∀ depth, n ≤ depth → Reader.Sequence (Reader.scans ts depth) vs texts

theorem spells_tuple {ts : List Ty} {vs : List Val} {texts : List Bytes}
    (all : SpellsAll ts n vs texts) :
    Spells (.tuple ts) (n + 1) (.list vs) (Writer.list texts) := by
  apply spells_of_brackets (opensItem_list texts)
  intro depth shallow
  rw [Reader.read]
  exact Reader.bracketed_takes_list _ _ rfl (all depth shallow)

theorem spells_tupleNamed (name : String) {ts : List Ty} {vs : List Val} {texts : List Bytes}
    (all : SpellsAll ts n vs texts) :
    Spells (.tupleNamed name ts) (n + 1) (.list vs) (Writer.list texts) := by
  apply spells_of_brackets (opensItem_list texts)
  intro depth shallow
  rw [Reader.read]
  exact Reader.bracketed_takes_list _ _ rfl (all depth shallow)

theorem key_spells {k : Ty} {v : Val} (key : k.IsKey) (inhabits : k.Inhabits v) :
    ∃ name, (k.announce v).keyText? = some name ∧
      ∀ depth, (Reader.readKey k depth).Takes (Writer.text name) v := by
  induction key with
  | text =>
      cases inhabits with
      | text s => exact ⟨s, rfl, fun _ => Reader.quotedText_takes rfl⟩
  | bool =>
      cases inhabits with
      | bool b =>
          refine ⟨toString b, rfl, fun _ => ?_⟩
          rw [← Writer.quoted_toString_bool]
          exact Reader.quotedBool_takes b
  | int k =>
      cases inhabits with
      | @int _ n held =>
          refine ⟨Integer.text n, rfl, fun depth => ?_⟩
          obtain ⟨b, bs, eq, start⟩ := encode_text_cons n
          have takes := read_int_takes held depth
          rw [Writer.int, Writer.ascii, eq] at takes
          rw [← Writer.quoted_text_int, Writer.quoted, Writer.ascii, eq]
          have quoted := Reader.quotedNumber_takes start takes
          obtain ⟨signed, width⟩ := k
          cases width <;> exact quoted
  | wrapper name _ ih =>
      cases inhabits with
      | wrapper _ inner => exact ih inner

/-- One entry of a map. -/
def mapEntry (k t : Ty) (depth : Nat) : Scan (Val × Val) := do
  let key ← Reader.readKey k depth
  colon
  return (key, ← Reader.read t depth)

/-- An entry of a map with the name and the text that it is written as. -/
structure SpellsEntry (k t : Ty) (n : Nat) (e : Val × Val) (part : Bytes × Bytes) : Prop where
  key : ∃ name, part.1 = Writer.text name ∧
    ∀ depth, (Reader.readKey k depth).Takes (Writer.text name) e.1
  value : Spells t n e.2 part.2

theorem mapEntry_takes {k : Ty} {e : Val × Val} {part : Bytes × Bytes} {depth : Nat}
    (spells : SpellsEntry k t n e part) (shallow : n ≤ depth) :
    (mapEntry k t depth).Takes (part.1 ++ 58 :: part.2) e := by
  intro rest ends
  obtain ⟨name, named, key⟩ := spells.key
  have read := key depth (58 :: (part.2 ++ rest)) (ends_colon _)
  rw [named, List.append_assoc, List.cons_append, mapEntry, bind_of_done read]
  change (Reader.read t depth >>= fun v => pure (e.1, v)) (part.2 ++ rest) = _
  exact bind_of_done (spells.value.takes depth shallow rest ends) _

theorem opensItem_object (parts : List (Bytes × Bytes)) : OpensItem (Writer.object parts) :=
  ⟨123, _, rfl, rfl, by decide⟩

theorem spells_map {k : Ty} {es es' : List (Val × Val)} {parts : List (Bytes × Bytes)}
    (sorted : Val.sortEntries es' = es) (each : List.Forall₂ (SpellsEntry k t n) es' parts) :
    Spells (.map k t) (n + 1) (.map es) (Writer.object parts) := by
  apply spells_of_brackets (opensItem_object parts)
  intro depth shallow rest _
  have entry : List.Forall₂ (fun e text => OpensEntry text ∧ (mapEntry k t depth).Takes text e) es'
      (parts.map fun part => part.1 ++ 58 :: part.2) := by
    rw [List.forall₂_map_right_iff]
    refine each.imp fun e part spells => ⟨?_, mapEntry_takes spells shallow⟩
    obtain ⟨name, named, -⟩ := spells.key
    exact ⟨_, by rw [named, text_append]⟩
  have inside := entries_commaSeparated entry rest
  have bytes : Writer.object parts ++ rest =
      123 :: (Writer.commaSeparated (parts.map fun part => part.1 ++ 58 :: part.2) ++
        125 :: rest) := by
    simp [Writer.object]
  rw [bytes, Reader.read]
  apply Reader.bracketed_object
  refine (bind_of_done (s := entries (mapEntry k t depth)) inside _).trans ?_
  rw [sorted]
  rfl

/-- Fields of a record with the names and texts that they are written as. -/
def SpellsFields (fields : List (FieldSpec × Ty)) (n : Nat) (vs : List Val)
    (parts : List (Bytes × Bytes)) : Prop :=
  ∀ depth, n ≤ depth → ∃ got,
    Reader.Filled (Reader.slots fields depth) vs got (parts.map fun part => part.1 ++ 58 :: part.2)

theorem names_slots (fields : List (FieldSpec × Ty)) (depth : Nat) :
    (Reader.slots fields depth).map (fun s => s.spec.name) = fieldNames fields := by
  induction fields with
  | nil => rfl
  | cons f fields ih =>
      obtain ⟨spec, t⟩ := f
      rw [Reader.slots, List.map_cons, ih]
      rfl

theorem record_takes_fields {fields : List (FieldSpec × Ty)} {vs : List Val}
    {parts : List (Bytes × Bytes)} (all : SpellsFields fields n vs parts)
    (distinct : (fieldNames fields).Nodup) (expected : String) (strict : Bool) {depth : Nat}
    (shallow : n ≤ depth) :
    (Reader.record expected strict (depth + 1) (Reader.slots fields)).Takes (Writer.object parts)
      (.list vs) := by
  obtain ⟨got, filled⟩ := all depth shallow
  exact Reader.record_takes filled expected strict rfl (by rw [names_slots]; exact distinct)

theorem spells_record (name : String) (strict : Bool) {fields : List (FieldSpec × Ty)}
    {vs : List Val} {parts : List (Bytes × Bytes)} (all : SpellsFields fields n vs parts)
    (distinct : (fieldNames fields).Nodup) :
    Spells (.record name strict fields) (n + 1) (.list vs) (Writer.object parts) := by
  apply spells_of_brackets (opensItem_object parts)
  intro depth shallow
  rw [Reader.read]
  exact record_takes_fields all distinct _ strict shallow

end Parts

section Variants

variable {variants : List (String × Body)} {i n : Nat} {s : String} {body : Body} {v : Val}

theorem arms_eq_map (name : String) (variants : List (String × Body)) :
    Reader.arms name variants = variants.map fun x => Reader.armOf s!"{name}::{x.1}" x.2 := by
  induction variants with
  | nil => rfl
  | cons x variants ih => rw [Reader.arms, ih, List.map_cons]

theorem getElem?_arms (name : String) (here : variants[i]? = some (s, body)) :
    (Reader.arms name variants)[i]? = some (Reader.armOf s!"{name}::{s}" body) := by
  simp [arms_eq_map, here]

theorem getElem?_variantNames (here : variants[i]? = some (s, body)) :
    (variantNames variants)[i]? = some s := by
  simp [variantNames, here]

theorem spells_variant_name (name : String) (distinct : (variantNames variants).Nodup)
    (here : variants[i]? = some (s, .unit)) :
    Spells (.choice name variants) 0 (.variant i .unit) (Writer.text s) where
  opens := opensItem_text s
  takes := fun depth _ => by
    rw [Reader.read]
    exact Reader.choice_takes_name _ depth distinct (getElem?_variantNames here)
      (getElem?_arms name here) rfl

theorem spells_variant_held (name : String) {text : Bytes}
    (distinct : (variantNames variants).Nodup) (here : variants[i]? = some (s, body))
    (held : ∀ depth, n ≤ depth →
      ((Reader.armOf s!"{name}::{s}" body).held depth).Takes text v) :
    Spells (.choice name variants) (n + 1) (.variant i v) (Writer.under s text) := by
  apply spells_of_brackets (opensItem_object _)
  intro depth shallow
  rw [Reader.read]
  exact Reader.choice_takes_held _ distinct (getElem?_variantNames here) (getElem?_arms name here)
    (held depth shallow)

theorem held_takes_tuple (path : String) {ts : List Ty} {vs : List Val} {texts : List Bytes}
    (all : SpellsAll ts n vs texts) (depth : Nat) (nested : n + 1 ≤ depth) :
    ((Reader.armOf path (.tuple ts)).held depth).Takes (Writer.list texts) (.list vs) := by
  cases depth with
  | zero => cases nested
  | succ depth =>
      exact Reader.bracketed_takes_list _ _ rfl
        (all depth (Nat.le_of_succ_le_succ nested))

theorem held_takes_record (path : String) {fields : List (FieldSpec × Ty)} {vs : List Val}
    {parts : List (Bytes × Bytes)} (all : SpellsFields fields n vs parts)
    (distinct : (fieldNames fields).Nodup) (depth : Nat) (nested : n + 1 ≤ depth) :
    ((Reader.armOf path (.record fields)).held depth).Takes (Writer.object parts) (.list vs) := by
  cases depth with
  | zero => cases nested
  | succ depth =>
      exact record_takes_fields all distinct _ false (Nat.le_of_succ_le_succ nested)

end Variants

section Written

theorem isNull_announce_choice (name : String) {variants : List (String × Body)} {i : Nat}
    {s : String} {body : Body} {v : Val} (here : variants[i]? = some (s, body))
    (held : body.content.Inhabits v) :
    ((Ty.choice name variants).announce (.variant i v)).isNull = false := by
  rw [Ty.announce_variant name here]
  cases body with
  | unit | wrap => rfl
  | tuple | record =>
      cases held
      rfl

theorem isNull_announce : {t : Ty} → {v : Val} → t.Inhabits v → (t.announce v).isNull = v.isNull
  | _, _, .some present | _, _, .wrapper _ present => by
      have inner := isNull_announce present
      exact inner
  | _, _, .bool _ | _, _, .int _ | _, _, .char _ | _, _, .text _ | _, _, .unit | _, _, .unitNamed _
  | _, _, .none _ | _, _, .list _ | _, _, .tuple _ | _, _, .tupleNamed _ _ | _, _, .map _ _ _
  | _, _, .record _ _ _ => rfl
  | _, _, .choice name here held => isNull_announce_choice name here held

theorem exists_forall₂ {α β : Type} {R : α → β → Prop} {as : List α}
    (each : ∀ a ∈ as, ∃ b, R a b) : ∃ bs, List.Forall₂ R as bs := by
  induction as with
  | nil => exact ⟨[], .nil⟩
  | cons a as ih =>
      obtain ⟨b, head⟩ := each a List.mem_cons_self
      obtain ⟨bs, tail⟩ := ih fun a member => each a (List.mem_cons_of_mem _ member)
      exact ⟨b :: bs, .cons head tail⟩

theorem writeAll_map {f : Val → Datum} {vs : List Val} {texts : List Bytes}
    (each : List.Forall₂ (fun v text => Writer.write (f v) = .ok text) vs texts) :
    Writer.writeAll (vs.map f) = .ok texts := by
  induction each with
  | nil => rfl
  | cons head _ ih =>
      rw [List.map_cons, Writer.writeAll, head, ih]
      rfl

theorem writeEntries_map {f : Val × Val → Datum × Datum} {es : List (Val × Val)}
    {parts : List (Bytes × Bytes)}
    (each : List.Forall₂
      (fun e part => Writer.key (f e).1 = .ok part.1 ∧ Writer.write (f e).2 = .ok part.2) es parts) :
    Writer.writeEntries (es.map f) = .ok parts := by
  induction each with
  | nil => rfl
  | cons head _ ih =>
      rw [List.map_cons, Writer.writeEntries, head.1, head.2, ih]
      rfl

/-- The value is written, as a text that spells it. -/
def Written (t : Ty) (v : Val) : Prop :=
  ∃ text, Writer.write (t.announce v) = .ok text ∧ Spells t (t.levels v) v text

/-- The value is written, as a text that spells it with its nulls settled. -/
def Settled (t : Ty) (v : Val) : Prop :=
  ∃ text, Writer.write (t.announce v) = .ok text ∧ Spells t (t.levels v) v.settle text

def SettledAll (ts : List Ty) (vs : List Val) : Prop :=
  ∃ texts, Writer.writeAll (Ty.announceAll ts vs) = .ok texts ∧
    SpellsAll ts (Ty.levelsAll ts vs) (Val.settleAll vs) texts

def SettledFields (fields : List (FieldSpec × Ty)) (vs : List Val) : Prop :=
  ∃ parts, Writer.writeFields (Ty.announceFields fields vs) = .ok parts ∧
    SpellsFields fields (Ty.levelsFields fields vs) (Val.settleAll vs) parts

/-- A present null is written as an absent value is, and any other value as if it stood alone. -/
theorem settled_some {t : Ty} {v : Val} (inhabits : t.Inhabits v) (settled : Settled t v) :
    Settled (.option t) (.some v) := by
  obtain ⟨text, write, spells⟩ := settled
  have null := isNull_announce inhabits
  refine ⟨text, write, ?_⟩
  cases absent : v.isNull with
  | true =>
      rw [absent] at null
      rw [write_of_isNull _ null] at write
      cases write
      rw [Val.settle_some_of_isNull absent]
      exact (spells_none t).mono (Nat.zero_le _)
  | false =>
      rw [absent] at null
      rw [Val.settle_some absent]
      exact spells_some (opensPresent_of_write _ null write) spells

theorem settled_list {t : Ty} {vs : List Val} (each : ∀ v ∈ vs, Settled t v) :
    Settled (.list t) (.list vs) := by
  obtain ⟨n, level⟩ : ∃ n, (Ty.list t).levels (.list vs) = n + 1 := ⟨_, rfl⟩
  have shallow := Ty.levels_list_le.mp (Nat.le_of_eq level)
  have inside : ∀ v ∈ vs, ∃ text,
      Writer.write (t.announce v) = .ok text ∧ Spells t n v.settle text := by
    intro v member
    obtain ⟨text, write, spells⟩ := each v member
    exact ⟨text, write, spells.mono (shallow v member)⟩
  obtain ⟨texts, all⟩ := exists_forall₂ inside
  refine ⟨Writer.list texts, ?_, ?_⟩
  · rw [Ty.announce, Writer.write, writeAll_map (all.imp fun _ _ => And.left)]
    rfl
  · rw [level, Val.settle, Val.settleAll_eq_map]
    exact spells_list (List.forall₂_map_left_iff.mpr (all.imp fun _ _ => And.right))

/-- A map is written in the order in which its entries are kept, and is read from any. -/
theorem settled_entries {k t : Ty} {es es' : List (Val × Val)} (key : k.IsKey)
    (sorted : Val.InOrder es) (same : es'.Perm es) (keys : ∀ e ∈ es, k.Inhabits e.1)
    (each : ∀ e ∈ es, Settled t e.2) : ∃ text,
      Writer.write ((Ty.map k t).announce (.map es')) = .ok text ∧
        Spells (.map k t) ((Ty.map k t).levels (.map es')) (Val.map es).settle text := by
  obtain ⟨n, level⟩ : ∃ n, (Ty.map k t).levels (.map es') = n + 1 := ⟨_, rfl⟩
  have shallow := Ty.levels_map_le.mp (Nat.le_of_eq level)
  have entry : ∀ e ∈ es', ∃ part : Bytes × Bytes,
      (Writer.key (k.announce e.1) = .ok part.1 ∧ Writer.write (t.announce e.2) = .ok part.2) ∧
        SpellsEntry k t n (e.1, e.2.settle) part := by
    intro e member
    obtain ⟨name, named, read⟩ := key_spells key (keys e (same.subset member))
    obtain ⟨text, write, spells⟩ := each e (same.subset member)
    exact ⟨(Writer.text name, text), ⟨Writer.key_of_keyText? named, write⟩, ⟨name, rfl, read⟩,
      spells.mono (shallow e member)⟩
  obtain ⟨parts, all⟩ := exists_forall₂ entry
  refine ⟨Writer.object parts, ?_, ?_⟩
  · rw [Ty.announce, Writer.write, writeEntries_map (all.imp fun _ _ => And.left)]
    rfl
  · rw [level, Val.settle, Val.settleEntries_eq_map]
    have ordered : Val.InOrder (es.map fun e => (e.1, e.2.settle)) := List.pairwise_map.mpr sorted
    refine spells_map (Val.sortEntries_of_perm ordered (same.map _)) ?_
    exact List.forall₂_map_left_iff.mpr (all.imp fun _ _ => And.right)

theorem settledAll_cons {t : Ty} {ts : List Ty} {v : Val} {vs : List Val} (head : Settled t v)
    (tail : SettledAll ts vs) : SettledAll (t :: ts) (v :: vs) := by
  obtain ⟨text, write, spells⟩ := head
  obtain ⟨texts, writes, all⟩ := tail
  refine ⟨text :: texts, ?_, fun depth shallow => ?_⟩
  · rw [Ty.announceAll, Writer.writeAll, write, writes]
    rfl
  · obtain ⟨first, rest⟩ := Nat.max_le.mp shallow
    exact .cons spells.opens (spells.takes depth first) (all depth rest)

/-- A field that is left out holds no value, and is filled with that again. -/
theorem settledFields_cons {f : FieldSpec × Ty} {fields : List (FieldSpec × Ty)} {v : Val}
    {vs : List Val} (absent : f.1.omitNone = true → f.1.valueWhenAbsent f.2 = .ok .none)
    (head : Settled f.2 v) (tail : SettledFields fields vs) :
    SettledFields (f :: fields) (v :: vs) := by
  obtain ⟨spec, t⟩ := f
  obtain ⟨text, write, spells⟩ := head
  obtain ⟨parts, writes, all⟩ := tail
  by_cases left : spec.omitNone = true ∧ v = .none
  · obtain ⟨omitted, rfl⟩ := left
    have nothing : Ty.announceField spec .none (t.announce .none) = [] := by
      simp only [Ty.announceField, omitted]
    have same : Ty.announceFields ((spec, t) :: fields) (.none :: vs) =
        Ty.announceFields fields vs := by
      rw [Ty.announceFields, nothing, List.nil_append]
    rw [SettledFields, Ty.levelsFields, same]
    refine ⟨parts, writes, fun depth shallow => ?_⟩
    obtain ⟨got, filled⟩ := all depth shallow
    exact ⟨none :: got, .omitted (absent omitted) filled⟩
  · have kept : Ty.announceField spec v (t.announce v) = [(spec.name, t.announce v)] := by
      unfold Ty.announceField
      split
      · exact absurd ⟨‹_›, rfl⟩ left
      · rfl
    have same : Ty.announceFields ((spec, t) :: fields) (v :: vs) =
        (spec.name, t.announce v) :: Ty.announceFields fields vs := by
      rw [Ty.announceFields, kept, List.singleton_append]
    rw [SettledFields, Ty.levelsFields, same]
    refine ⟨(Writer.text spec.name, text) :: parts, ?_, fun depth shallow => ?_⟩
    · rw [Writer.writeFields, write, writes]
      rfl
    · obtain ⟨first, rest⟩ := Nat.max_le.mp shallow
      obtain ⟨got, filled⟩ := all depth rest
      exact ⟨some v.settle :: got, .written (spells.takes depth first) filled⟩

theorem settledAll_of_forall₂ {ts : List Ty} {vs : List Val} (each : List.Forall₂ Settled ts vs) :
    SettledAll ts vs := by
  induction each with
  | nil => exact ⟨[], rfl, fun _ _ => .nil⟩
  | cons head _ ih => exact settledAll_cons head ih

theorem settledFields_of_forall₂ {fields : List (FieldSpec × Ty)} {vs : List Val}
    (each : List.Forall₂ Settled (fields.map (·.2)) vs)
    (absent : ∀ f ∈ fields, f.1.omitNone = true → f.1.valueWhenAbsent f.2 = .ok .none) :
    SettledFields fields vs := by
  rw [List.forall₂_map_left_iff] at each
  induction each with
  | nil => exact ⟨[], rfl, fun _ _ => ⟨[], .nil⟩⟩
  | cons head _ ih =>
      obtain ⟨first, rest⟩ := List.forall_mem_cons.mp absent
      exact settledFields_cons first head (ih rest)

theorem levels_under {n : Nat} : n + 1 ≤ max n 0 + 1 := Nat.succ_le_succ (Nat.le_max_left ..)

mutual

/-- Every value of a type without floating numbers is written, as a text that is read as that value
with its nulls settled. -/
theorem settled : {t : Ty} → {v : Val} → t.Inhabits v → t.IsFloatless → Settled t v
  | _, _, .bool b, _ => ⟨_, rfl, spells_bool b⟩
  | _, _, .int held, _ => ⟨_, rfl, spells_int held⟩
  | _, _, .char c, _ => ⟨_, rfl, spells_char c⟩
  | _, _, .text s, _ => ⟨_, rfl, spells_text s⟩
  | _, _, .unit, _ => ⟨_, rfl, spells_unit⟩
  | _, _, .unitNamed name, _ => ⟨_, rfl, spells_unitNamed name⟩
  | _, _, .none t, _ => ⟨_, rfl, spells_none t⟩
  | _, _, .some present, .option inner => settled_some present (settled present inner)
  | _, _, .list each, .list item =>
      settled_list fun v member => settled (each v member) item
  | _, _, .tuple each, .tuple inner => by
      obtain ⟨texts, write, all⟩ := settledAll_of_forall₂ (settled_each each inner)
      exact ⟨_, by rw [Ty.announce, Writer.write, write]; rfl, spells_tuple all⟩
  | _, _, .tupleNamed name each, .tupleNamed _ inner => by
      obtain ⟨texts, write, all⟩ := settledAll_of_forall₂ (settled_each each inner)
      exact ⟨_, by rw [Ty.announce, Writer.write, write]; rfl, spells_tupleNamed name all⟩
  | _, _, .map sorted keys values, .map key inner =>
      settled_entries key sorted (.refl _) keys fun e member => settled (values e member) inner
  | _, _, .wrapper name present, .wrapper _ inner => by
      obtain ⟨text, write, spells⟩ := settled present inner
      exact ⟨text, write, spells_wrapper name spells⟩
  | _, _, .record name strict each, .record _ _ inner distinct absent => by
      have parts := settled_each each (List.forall_mem_map.mpr inner)
      obtain ⟨parts, write, all⟩ := settledFields_of_forall₂ parts absent
      exact ⟨_, by rw [Ty.announce, Writer.write, write]; rfl,
        spells_record name strict all distinct⟩
  | _, _, @Ty.Inhabits.choice name _ _ s .unit _ here .unit, .choice _ _ distinct => by
      rw [Settled, Ty.levels, Ty.announce_variant name here]
      exact ⟨Writer.text s, rfl, spells_variant_name name distinct here⟩
  | _, _, @Ty.Inhabits.choice name _ _ _ (.wrap t) _ here held, .choice _ inner distinct => by
      have inner : t.IsFloatless := inner _ (List.mem_of_getElem? here)
      obtain ⟨text, write, spells⟩ := settled held inner
      rw [Settled, Ty.levels, Ty.announce_variant name here]
      refine ⟨_, ?_, (spells_variant_held name distinct here spells.takes).mono levels_under⟩
      have content : Writer.write (t.announce _) = .ok text := write
      rw [Ty.announceBody, Writer.write, content]
      rfl
  | _, _, @Ty.Inhabits.choice name _ _ s (.tuple _) _ here (.tuple each),
      .choice _ inner distinct => by
      cases inner _ (List.mem_of_getElem? here) with
      | tuple inner =>
          obtain ⟨texts, write, all⟩ := settledAll_of_forall₂ (settled_each each inner)
          rw [Settled, Ty.levels, Ty.announce_variant name here]
          have held := held_takes_tuple s!"{name}::{s}" all
          refine ⟨_, ?_, (spells_variant_held name distinct here held).mono levels_under⟩
          rw [Ty.announceBody, Writer.write, write]
          rfl
  | _, _, @Ty.Inhabits.choice name _ _ s (.record _) _ here (.record _ _ each),
      .choice _ inner distinct => by
      cases inner _ (List.mem_of_getElem? here) with
      | record _ _ inner fresh absent =>
          have parts := settled_each each (List.forall_mem_map.mpr inner)
          obtain ⟨parts, write, all⟩ := settledFields_of_forall₂ parts absent
          rw [Settled, Ty.levels, Ty.announce_variant name here]
          have held := held_takes_record s!"{name}::{s}" all fresh
          refine ⟨_, ?_, (spells_variant_held name distinct here held).mono levels_under⟩
          rw [Ty.announceBody, Writer.write, write]
          rfl

theorem settled_each : {ts : List Ty} → {vs : List Val} → Ty.InhabitAll ts vs →
    (∀ t ∈ ts, t.IsFloatless) → List.Forall₂ Settled ts vs
  | _, _, .nil, _ => .nil
  | _, _, .cons head tail, inner =>
      .cons (settled head (inner _ List.mem_cons_self))
        (settled_each tail fun t member => inner t (List.mem_cons_of_mem _ member))

end

/-- Every value of a composite type is written, as a text that is read as that value. -/
theorem written {t : Ty} {v : Val} (inhabits : t.Inhabits v) (composite : t.IsComposite) :
    Written t v := by
  obtain ⟨text, write, spells⟩ := settled inhabits composite.isFloatless
  rw [Ty.settle_of_isComposite inhabits composite] at spells
  exact ⟨text, write, spells⟩

end Written

end Json
end CacheFacade

import CacheFacade.Proofs.Compact.Parts
import CacheFacade.Proofs.Plain.Composite
import Mathlib.Data.List.Forall2

/-!
Types whose values survive the compact form. Nothing in the bytes says what they are, so each value
must be told from its type alone, and reading it must stop where it ends.
-/

namespace CacheFacade
namespace Compact

/-- Types built from scalars, texts and byte strings by optional values, sequences, maps, tuples,
wrappers, records that leave no field out, and choices whose indices are numbers of 32 bits. -/
inductive IsPacked : Ty → Prop where
  | bool : IsPacked .bool
  | int (k : IntKind) : IsPacked (.int k)
  | f32 : IsPacked .f32
  | f64 : IsPacked .f64
  | char : IsPacked .char
  | text : IsPacked .text
  | bytes : IsPacked .bytes
  | unit : IsPacked .unit
  | unitNamed (name : String) : IsPacked (.unitNamed name)
  | option {t : Ty} (present : IsPacked t) : IsPacked (.option t)
  | list {t : Ty} (item : IsPacked t) : IsPacked (.list t)
  | tuple {ts : List Ty} (each : ∀ t ∈ ts, IsPacked t) : IsPacked (.tuple ts)
  | tupleNamed (name : String) {ts : List Ty} (each : ∀ t ∈ ts, IsPacked t) :
      IsPacked (.tupleNamed name ts)
  | map {k t : Ty} (key : IsPacked k) (value : IsPacked t) : IsPacked (.map k t)
  | wrapper (name : String) {t : Ty} (inner : IsPacked t) : IsPacked (.wrapper name t)
  | record (name : String) (strict : Bool) {fields : List (FieldSpec × Ty)}
      (each : ∀ f ∈ fields, IsPacked f.2) (kept : ∀ f ∈ fields, f.1.omitNone = false) :
      IsPacked (.record name strict fields)
  | choice (name : String) {variants : List (String × Body)}
      (each : ∀ x ∈ variants, IsPacked x.2.content) (few : variants.length ≤ 2 ^ 32) :
      IsPacked (.choice name variants)

/-- The values of such a type. A length is a number of 64 bits, and a map holds its entries in the
order of their keys. -/
inductive Inhabits : Ty → Val → Prop where
  | bool (b : Bool) : Inhabits .bool (.bool b)
  | int {k : IntKind} {n : Int} (held : k.holds n = true) : Inhabits (.int k) (.int n)
  | f32 (bits : UInt32) : Inhabits .f32 (.f32 bits)
  | f64 (bits : UInt64) : Inhabits .f64 (.f64 bits)
  | char (c : Char) : Inhabits .char (.char c)
  | text {s : String} (short : (Utf8.encode s).length < 2 ^ 64) : Inhabits .text (.text s)
  | bytes {bs : Bytes} (short : bs.length < 2 ^ 64) : Inhabits .bytes (.bytes bs)
  | unit : Inhabits .unit .unit
  | unitNamed (name : String) : Inhabits (.unitNamed name) .unit
  | none (t : Ty) : Inhabits (.option t) .none
  | some {t : Ty} {v : Val} (present : Inhabits t v) : Inhabits (.option t) (.some v)
  | list {t : Ty} {vs : List Val} (short : vs.length < 2 ^ 64) (each : ∀ v ∈ vs, Inhabits t v) :
      Inhabits (.list t) (.list vs)
  | tuple {ts : List Ty} {vs : List Val} (each : List.Forall₂ Inhabits ts vs) :
      Inhabits (.tuple ts) (.list vs)
  | tupleNamed (name : String) {ts : List Ty} {vs : List Val} (each : List.Forall₂ Inhabits ts vs) :
      Inhabits (.tupleNamed name ts) (.list vs)
  | map {k t : Ty} {entries : List (Val × Val)} (short : entries.length < 2 ^ 64)
      (sorted : entries.Pairwise fun e f => Val.order e.1 f.1 = .lt)
      (keys : ∀ e ∈ entries, Inhabits k e.1) (values : ∀ e ∈ entries, Inhabits t e.2) :
      Inhabits (.map k t) (.map entries)
  | wrapper (name : String) {t : Ty} {v : Val} (inner : Inhabits t v) :
      Inhabits (.wrapper name t) v
  | record (name : String) (strict : Bool) {fields : List (FieldSpec × Ty)} {vs : List Val}
      (each : List.Forall₂ Inhabits (fields.map (·.2)) vs) :
      Inhabits (.record name strict fields) (.list vs)
  | choice (name : String) {variants : List (String × Body)} {i : Nat} {s : String} {body : Body}
      {v : Val} (here : variants[i]? = some (s, body)) (held : Inhabits body.content v) :
      Inhabits (.choice name variants) (.variant i v)

/-- The value is written, and the reader of the type takes exactly what was written. -/
def Packs (t : Ty) (v : Val) : Prop :=
  ∃ bs, Writer.write (t.announce v) = .ok bs ∧ Takes (Reader.read t) bs v

theorem fieldReaders_eq (fields : List (FieldSpec × Ty)) :
    Reader.fieldReaders fields = Reader.readers (fields.map (·.2)) := by
  induction fields with
  | nil => rfl
  | cons f fields ih => rw [Reader.fieldReaders, ih, List.map_cons, Reader.readers]

theorem getElem?_bodyReaders {variants : List (String × Body)} {i : Nat} {s : String} {body : Body}
    (here : variants[i]? = some (s, body)) :
    (Reader.bodyReaders variants)[i]? = some (Reader.readBody body) := by
  induction variants generalizing i with
  | nil => simp at here
  | cons x variants ih =>
      cases i with
      | zero =>
          obtain rfl := Option.some.inj here
          rfl
      | succ i => exact ih here

/-- Names are not written, so a record without gaps is written as a tuple. -/
theorem writeFields_announceFields {fields : List (FieldSpec × Ty)}
    (kept : ∀ f ∈ fields, f.1.omitNone = false) (vs : List Val) :
    Writer.writeFields (Ty.announceFields fields vs) =
      Writer.writeAll (Ty.announceAll (fields.map (·.2)) vs) := by
  induction fields generalizing vs with
  | nil => rfl
  | cons f fields ih =>
      cases vs with
      | nil => rfl
      | cons v vs =>
          obtain ⟨spec, t⟩ := f
          have shown : Ty.announceField spec v (t.announce v) = [(spec.name, t.announce v)] := by
            have always : spec.omitNone = false := kept _ List.mem_cons_self
            simp only [Ty.announceField, always]
          have rest := ih (fun f member => kept f (List.mem_cons_of_mem _ member)) vs
          simp only [Ty.announceFields, shown, List.cons_append, List.nil_append, List.map_cons,
            Ty.announceAll, Writer.writeFields, Writer.writeAll, rest]

theorem packs_each {ts : List Ty} {vs : List Val} (each : List.Forall₂ Inhabits ts vs)
    (packs : ∀ t ∈ ts, ∀ v, Inhabits t v → Packs t v) : List.Forall₂ Packs ts vs :=
  ((List.forall₂_and_left ts vs).mpr ⟨packs, each⟩).imp fun _ v both => both.1 v both.2

theorem packs_items {t : Ty} {vs : List Val} (each : ∀ v ∈ vs, Packs t v) :
    ∃ bs, Writer.writeAll (vs.map fun v => t.announce v) = .ok bs ∧
      Takes (Reader.items (Reader.read t) vs.length) bs vs := by
  induction vs with
  | nil => exact ⟨[], rfl, .done []⟩
  | cons v vs ih =>
      obtain ⟨bs, writeHead, head⟩ := each v List.mem_cons_self
      obtain ⟨cs, writeTail, tail⟩ := ih fun v member => each v (List.mem_cons_of_mem _ member)
      refine ⟨bs ++ cs, ?_, takes_items_cons head tail⟩
      rw [List.map_cons, Writer.writeAll, writeHead, writeTail]
      rfl

theorem packs_entries {k t : Ty} {entries : List (Val × Val)} (keys : ∀ e ∈ entries, Packs k e.1)
    (values : ∀ e ∈ entries, Packs t e.2) :
    ∃ bs, Writer.writeEntries (entries.map fun e => (k.announce e.1, t.announce e.2)) = .ok bs ∧
      Takes (Reader.items (Reader.pair (Reader.read k) (Reader.read t)) entries.length) bs
        entries := by
  induction entries with
  | nil => exact ⟨[], rfl, .done []⟩
  | cons e entries ih =>
      obtain ⟨bs, writeKey, key⟩ := keys e List.mem_cons_self
      obtain ⟨cs, writeValue, value⟩ := values e List.mem_cons_self
      obtain ⟨ds, writeTail, tail⟩ := ih (fun e member => keys e (List.mem_cons_of_mem _ member))
        fun e member => values e (List.mem_cons_of_mem _ member)
      refine ⟨bs ++ cs ++ ds, ?_, takes_items_cons (takes_pair key value) tail⟩
      rw [List.map_cons, Writer.writeEntries, writeKey, writeValue, writeTail]
      rfl

theorem packs_all {ts : List Ty} {vs : List Val} (each : List.Forall₂ Packs ts vs) :
    ∃ bs, Writer.writeAll (Ty.announceAll ts vs) = .ok bs ∧
      Takes (Reader.inOrder (Reader.readers ts)) bs vs := by
  induction each with
  | nil => exact ⟨[], rfl, .done []⟩
  | cons head _ ih =>
      obtain ⟨bs, writeHead, head⟩ := head
      obtain ⟨cs, writeTail, tail⟩ := ih
      refine ⟨bs ++ cs, ?_, takes_inOrder_cons head tail⟩
      rw [Ty.announceAll, Writer.writeAll, writeHead, writeTail]
      rfl

theorem packs_tuple {ts : List Ty} {vs : List Val} (each : List.Forall₂ Packs ts vs) :
    Packs (.tuple ts) (.list vs) := by
  obtain ⟨bs, write, takes⟩ := packs_all each
  exact ⟨bs, write, takes.map Val.list⟩

theorem packs_record (name : String) (strict : Bool) {fields : List (FieldSpec × Ty)}
    {vs : List Val} (each : List.Forall₂ Packs (fields.map (·.2)) vs)
    (kept : ∀ f ∈ fields, f.1.omitNone = false) :
    Packs (.record name strict fields) (.list vs) := by
  obtain ⟨bs, write, takes⟩ := packs_all each
  refine ⟨bs, ?_, ?_⟩
  · rw [Ty.announce, Writer.write, writeFields_announceFields kept, write]
  · rw [Reader.read, fieldReaders_eq]
    exact takes.map Val.list

/-- The entries of a map may be written in any order. -/
theorem packs_entries_of_perm {k t : Ty} {entries entries' : List (Val × Val)}
    (short : entries.length < 2 ^ 64) (sorted : Val.InOrder entries) (same : entries'.Perm entries)
    (keys : ∀ e ∈ entries, Packs k e.1) (values : ∀ e ∈ entries, Packs t e.2) :
    ∃ bs, Writer.write ((Ty.map k t).announce (.map entries')) = .ok bs ∧
      Takes (Reader.read (.map k t)) bs (.map entries) := by
  obtain ⟨bs, write, takes⟩ := packs_entries (fun e member => keys e (same.subset member))
    fun e member => values e (same.subset member)
  refine ⟨Writer.counted entries'.length bs, ?_, ?_⟩
  · rw [Ty.announce, Writer.write, write, List.length_map]
    rfl
  · rw [Reader.read]
    refine (takes_counted (by rwa [same.length_eq]) takes).finish ?_
    rw [Val.sortEntries_of_perm sorted same]
    exact .done _

/-- What a variant holds is written behind its index. -/
theorem packs_body {body : Body} {v : Val} (content : Packs body.content v)
    (inhabits : Inhabits body.content v) (i : Nat) (s : String) :
    ∃ bs, Writer.write (Ty.announceBody s body i v) = .ok (Varint.write i ++ bs) ∧
      Takes (Reader.readBody body) bs v := by
  obtain ⟨bs, write, takes⟩ := content
  cases body with
  | unit =>
      cases inhabits
      refine ⟨[], ?_, .done _⟩
      rw [List.append_nil]
      rfl
  | wrap t =>
      refine ⟨bs, ?_, takes⟩
      change (do return Writer.counted i (← Writer.write (t.announce v))) = _
      rw [show Writer.write (t.announce v) = .ok bs from write]
      rfl
  | tuple ts =>
      cases inhabits with
      | @tuple _ vs _ =>
          refine ⟨bs, ?_, takes⟩
          change (do return Writer.counted i (← Writer.writeAll (Ty.announceAll ts vs))) = _
          rw [show Writer.writeAll (Ty.announceAll ts vs) = .ok bs from write]
          rfl
  | record fields =>
      cases inhabits with
      | @record _ _ _ vs _ =>
          refine ⟨bs, ?_, takes⟩
          change (do return Writer.counted i (← Writer.writeFields (Ty.announceFields fields vs))) =
            _
          rw [show Writer.writeFields (Ty.announceFields fields vs) = .ok bs from write]
          rfl

theorem packs_choice (name : String) {variants : List (String × Body)} {i : Nat} {s : String}
    {body : Body} {v : Val} (here : variants[i]? = some (s, body))
    (few : variants.length ≤ 2 ^ 32) (content : Packs body.content v)
    (inhabits : Inhabits body.content v) : Packs (.choice name variants) (.variant i v) := by
  obtain ⟨bs, write, takes⟩ := packs_body content inhabits i s
  obtain ⟨known, -⟩ := List.getElem?_eq_some_iff.mp here
  refine ⟨Varint.write i ++ bs, ?_, ?_⟩
  · rw [Ty.announce, Ty.announceVariant_of_getElem? here, write]
  · rw [Reader.read]
    refine (takes_index (Nat.lt_of_lt_of_le known few)).bind ?_
    rw [getElem?_bodyReaders here]
    exact takes.map (Val.variant i)

/-- Values of the types of this module survive, whatever stands behind them. -/
theorem packs {t : Ty} {v : Val} (packed : IsPacked t) (inhabits : Inhabits t v) : Packs t v := by
  induction packed generalizing v with
  | bool =>
      cases inhabits with
      | bool b => exact ⟨_, rfl, (takes_bool b).finish (.done _)⟩
  | int k =>
      cases inhabits with
      | int held => exact ⟨_, rfl, (takes_int held).finish (.done _)⟩
  | f32 =>
      cases inhabits with
      | f32 bits =>
          refine ⟨_, rfl, (takes_fixed bits.toNat_lt).finish ?_⟩
          simpa using Takes.done _
  | f64 =>
      cases inhabits with
      | f64 bits =>
          refine ⟨_, rfl, (takes_fixed bits.toNat_lt).finish ?_⟩
          simpa using Takes.done _
  | char =>
      cases inhabits with
      | char c => exact ⟨_, rfl, (takes_char c).finish (.done _)⟩
  | text =>
      cases inhabits with
      | text short => exact ⟨_, rfl, (takes_text short).finish (.done _)⟩
  | bytes =>
      cases inhabits with
      | bytes short => exact ⟨_, rfl, (takes_bytes short).finish (.done _)⟩
  | unit =>
      cases inhabits
      exact ⟨_, rfl, .done _⟩
  | unitNamed name =>
      cases inhabits
      exact ⟨_, rfl, .done _⟩
  | option _ ih =>
      cases inhabits with
      | none t => exact ⟨_, rfl, takes_absent _ _⟩
      | some present =>
          obtain ⟨bs, write, takes⟩ := ih present
          refine ⟨1 :: bs, ?_, takes_present _ (takes.map Val.some)⟩
          rw [Ty.announce, Writer.write, write]
          rfl
  | list _ ih =>
      cases inhabits with
      | list short each =>
          obtain ⟨bs, write, takes⟩ := packs_items fun v member => ih (each v member)
          refine ⟨_, ?_, (takes_counted short takes).map Val.list⟩
          rw [Ty.announce, Writer.write, write, List.length_map]
          rfl
  | tuple _ ih =>
      cases inhabits with
      | tuple each => exact packs_tuple (packs_each each fun t member v => ih t member)
  | tupleNamed name _ ih =>
      cases inhabits with
      | tupleNamed _ each => exact packs_tuple (packs_each each fun t member v => ih t member)
  | map _ _ ihKey ihValue =>
      cases inhabits with
      | map short sorted keys values =>
          exact packs_entries_of_perm short sorted (.refl _) (fun e member => ihKey (keys e member))
            fun e member => ihValue (values e member)
  | wrapper name _ ih =>
      cases inhabits with
      | wrapper _ inner => exact ih inner
  | record name strict _ kept ih =>
      cases inhabits with
      | record _ _ each =>
          refine packs_record name strict (packs_each each ?_) kept
          exact List.forall_mem_map.mpr fun f member v => ih f member
  | choice name _ few ih =>
      cases inhabits with
      | choice _ here held =>
          exact packs_choice name here few (ih _ (List.mem_of_getElem? here) held) held

/-- Every value of such a type is written in the compact form and read back as it was. -/
theorem compact_returns {t : Ty} {v : Val} (packed : IsPacked t) (inhabits : Inhabits t v) :
    (Codec.described .compact t).Returns v := by
  obtain ⟨bs, write, takes⟩ := packs packed inhabits
  refine ⟨bs, Plain.ok_of_mapError.mpr write, Plain.ok_of_mapError.mpr ?_⟩
  rw [read, takes.run]

theorem isPacked_product : IsPacked Catalogue.product := by
  refine .record _ _ ?_ (by decide)
  simp only [List.forall_mem_cons]
  exact ⟨.text, .text, .f64, .bool, .int _, by simp⟩

theorem isPacked_status : IsPacked Catalogue.status := by
  refine .choice _ ?_ (by decide)
  simp only [List.forall_mem_cons]
  exact ⟨.unit, .unit, .unit, by simp⟩

theorem isPacked_presence : IsPacked Catalogue.presence := by
  have i64 : IsPacked Catalogue.i64 := .int _
  refine .choice _ ?_ (by decide)
  simp only [List.forall_mem_cons]
  refine ⟨.unit, .record _ _ ?_ (by decide), .int _, .tuple (by simp [i64]), by simp⟩
  simpa [Catalogue.field] using .text

theorem isPacked_order : IsPacked Catalogue.order := by
  refine .record _ _ ?_ (by decide)
  simp only [List.forall_mem_cons]
  exact ⟨.int _, .list isPacked_product, isPacked_status, .option .text, isPacked_presence, by simp⟩

/-- An order of one product, a present option without a value, and a map from lists. -/
theorem compact_returns_order :
    (Codec.described .compact Catalogue.order).Returns
      (.list [.int 7, .list [.list [.text "a", .text "b", .f64 0x4024000000000000, .bool true,
        .int (-3)]], .variant 2 .unit, .none, .variant 3 (.list [.int (-7), .int 9])]) ∧
    (Codec.described .compact (.option (.option Catalogue.i64))).Returns (.some .none) ∧
    (Codec.described .compact (.map (.list Catalogue.i64) Catalogue.i64)).Returns
      (.map [(.list [.int 1], .int 5), (.list [.int 1, .int 2], .int (-5))]) := by
  have product : Inhabits Catalogue.product
      (.list [.text "a", .text "b", .f64 0x4024000000000000, .bool true, .int (-3)]) :=
    .record _ _ (.cons (.text (by decide)) (.cons (.text (by decide)) (.cons (.f64 _)
      (.cons (.bool _) (.cons (.int (by decide)) .nil)))))
  have moved : Inhabits Catalogue.presence (.variant 3 (.list [.int (-7), .int 9])) :=
    .choice _ rfl (.tuple (.cons (.int (by decide)) (.cons (.int (by decide)) .nil)))
  have integer {n : Int} (held : IntKind.i64.holds n = true) : Inhabits Catalogue.i64 (.int n) :=
    .int held
  have one : Inhabits (.list Catalogue.i64) (.list [.int 1]) :=
    .list (by decide) (by simpa using integer (by decide))
  have two : Inhabits (.list Catalogue.i64) (.list [.int 1, .int 2]) :=
    .list (by decide) (by simpa using ⟨integer (by decide), integer (by decide)⟩)
  refine ⟨compact_returns isPacked_order ?_,
    compact_returns (.option (.option (.int _))) (.some (.none _)),
    compact_returns (.map (.list (.int _)) (.int _)) (.map (by decide) (by decide) ?_ ?_)⟩
  · exact .record _ _ (.cons (.int (by decide)) (.cons (.list (by decide) (by simpa using product))
      (.cons (.choice _ rfl .unit) (.cons (.none _) (.cons moved .nil)))))
  · simpa using ⟨one, two⟩
  · simpa using ⟨integer (by decide), integer (by decide)⟩

end Compact
end CacheFacade

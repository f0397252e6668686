import CacheFacade.Proofs.Json.Document

/-!
What a value announces, as a document. Unless it holds a floating number, an integer wider than 64
bits, a refusal, or a key that is no name, it is written, and its text is read as that document at
every depth that the nesting allows.
-/

namespace CacheFacade

namespace Datum

/-- The name that a key is written as. -/
def keyText? : Datum → Option String
  | .text s => .some s
  | .char c => .some c.toString
  | .bool b => .some (toString b)
  | .int _ n => .some (Integer.text n)
  | .unitVariant _ name => .some name
  | .some d => keyText? d
  | _ => .none

mutual

/-- The document whose text is written; what has no such text stands for null here. -/
def document : Datum → Document
  | .bool b => .bool b
  | .int _ n => .int n
  | .char c => .text c.toString
  | .text s => .text s
  | .bytes bs => .array (bs.map fun b => .int b.toNat)
  | .some d => document d
  | .list ds | .tuple ds => .array (documents ds)
  | .map _ es => .object (documentEntries es)
  | .record fields => .object (documentFields fields)
  | .unitVariant _ name => .text name
  | .wrapVariant _ name d => .object [(name, document d)]
  | .tupleVariant _ name ds => .object [(name, .array (documents ds))]
  | .recordVariant _ name fields => .object [(name, .object (documentFields fields))]
  | .none | .unit | .f32 _ | .f64 _ | .refusal _ => .null

def documents : List Datum → List Document
  | [] => []
  | d :: ds => document d :: documents ds

def documentEntries : List (Datum × Datum) → List (String × Document)
  | [] => []
  | (k, d) :: rest => ((keyText? k).getD "", document d) :: documentEntries rest

def documentFields : List (String × Datum) → List (String × Document)
  | [] => []
  | (name, d) :: rest => (name, document d) :: documentFields rest

end

mutual

/-- A datum that a document text holds exactly. -/
def Exact : Datum → Prop
  | .int _ n => Json.IsWord n
  | .f32 _ | .f64 _ | .refusal _ => False
  | .some d | .wrapVariant _ _ d => Exact d
  | .list ds | .tuple ds | .tupleVariant _ _ ds => ExactAll ds
  | .map _ es => ExactEntries es
  | .record fields | .recordVariant _ _ fields => ExactFields fields
  | _ => True

def ExactAll : List Datum → Prop
  | [] => True
  | d :: ds => Exact d ∧ ExactAll ds

def ExactEntries : List (Datum × Datum) → Prop
  | [] => True
  | (k, d) :: rest => (keyText? k).isSome ∧ Exact d ∧ ExactEntries rest

def ExactFields : List (String × Datum) → Prop
  | [] => True
  | (_, d) :: rest => Exact d ∧ ExactFields rest

end

end Datum

namespace Json

/-- A document and a text that is read as it, also as an item of a list. -/
structure Stands (d : Document) (text : Bytes) : Prop where
  opens : OpensItem text
  takes : ∀ depth, d.nesting ≤ depth → (document depth).Takes text d

namespace Writer

theorem escape_of_printable {b : UInt8} (low : 45 ≤ b.toNat) (high : b.toNat < 92) :
    escape b = [b] := by
  have all : ∀ n : Fin 92, 45 ≤ n.val → escape (UInt8.ofNat n.val) = [UInt8.ofNat n.val] := by
    decide
  have read := all ⟨b.toNat, high⟩ low
  rwa [UInt8.ofNat_toNat] at read

theorem quoted_eq_text {s : String} (plain : ∀ b ∈ Utf8.encode s, escape b = [b]) :
    quoted s = text s := by
  have same : (Utf8.encode s).flatMap escape = Utf8.encode s := by
    calc (Utf8.encode s).flatMap escape
        = (Utf8.encode s).flatMap (fun b => [b]) := List.flatMap_congr plain
      _ = Utf8.encode s := List.flatMap_singleton' _
  rw [quoted, text, same]
  rfl

theorem quoted_text_int (n : Int) : quoted (Integer.text n) = text (Integer.text n) := by
  apply quoted_eq_text
  intro b member
  have plain : 45 ≤ b.toNat ∧ b.toNat < 92 := by
    rw [Number.encode_text] at member
    split at member
    · obtain rfl | member := List.mem_cons.mp member
      · decide
      · exact Number.bounds_of_mem_digitBytes member
    · exact Number.bounds_of_mem_digitBytes member
  exact escape_of_printable plain.1 plain.2

theorem quoted_toString_bool (b : Bool) : quoted (toString b) = text (toString b) := by
  cases b <;> rfl

/-- A key is written as the text of its name. -/
theorem key_of_keyText? {k : Datum} {name : String} (named : k.keyText? = some name) :
    key k = .ok (text name) := by
  fun_induction Datum.keyText? k with
  | case1 | case2 | case5 =>
      cases named
      rfl
  | case3 b =>
      cases named
      rw [key, quoted_toString_bool]
  | case4 _ n =>
      cases named
      rw [key, int, quoted_text_int]
  | case6 d ih => exact ih named
  | case7 => cases named

end Writer

theorem stands_of_scalar {text : Bytes} {s : Scalar} (opens : OpensItem text)
    (takes : offer.Takes text (.scalar s)) : Stands (documentOf s) text :=
  ⟨opens, fun depth _ => document_takes_scalar takes depth⟩

theorem stands_null : Stands .null Writer.null :=
  stands_of_scalar (s := .unit) ⟨110, _, rfl, rfl, by decide⟩ fun rest _ => offer_null rest

theorem stands_bool (b : Bool) : Stands (.bool b) (Writer.ascii (toString b)) := by
  refine stands_of_scalar (s := .bool b) ?_ fun rest _ => offer_bool b rest
  cases b
  · exact ⟨102, _, rfl, rfl, by decide⟩
  · exact ⟨116, _, rfl, rfl, by decide⟩

theorem stands_text (s : String) : Stands (.text s) (Writer.text s) :=
  stands_of_scalar (s := .text s) ⟨34, _, rfl, rfl, by decide⟩ fun rest _ => offer_text s rest

theorem stands_int {n : Int} (word : IsWord n) : Stands (.int n) (Writer.ascii (Writer.int n)) := by
  refine stands_of_scalar (s := .int n) ?_ (offer_int word)
  obtain ⟨b, bs, eq, start⟩ := encode_text_cons n
  exact ⟨b, bs, eq, isBlankByte_of_start start, ne_of_start start rfl⟩

theorem stands_list {ds : List Document} {texts : List Bytes}
    (each : List.Forall₂ Stands ds texts) : Stands (.array ds) (Writer.list texts) := by
  refine ⟨⟨91, _, rfl, rfl, by decide⟩, ?_⟩
  rintro (_ | depth) nested
  · cases nested
  have within := Document.nestingItems_le.mp (Nat.le_of_succ_le_succ nested)
  apply document_takes_list
  refine ((List.forall₂_and_left _ _).mpr ⟨within, each⟩).imp ?_
  rintro d text ⟨shallow, stands⟩
  exact ⟨stands.opens, stands.takes depth shallow⟩

theorem stands_object {es : List (String × Document)} {parts : List (Bytes × Bytes)}
    (each : List.Forall₂ (fun e part => part.1 = Writer.text e.1 ∧ Stands e.2 part.2) es parts) :
    Stands (.object es) (Writer.object parts) := by
  refine ⟨⟨123, _, rfl, rfl, by decide⟩, ?_⟩
  rintro (_ | depth) nested
  · cases nested
  have within := Document.nestingEntries_le.mp (Nat.le_of_succ_le_succ nested)
  apply document_takes_object
  refine ((List.forall₂_and_left _ _).mpr ⟨within, each⟩).imp ?_
  rintro e part ⟨shallow, named, stands⟩
  exact ⟨named, stands.takes depth shallow⟩

theorem stands_under (name : String) {text : Bytes} {d : Document} (stands : Stands d text) :
    Stands (.object [(name, d)]) (Writer.under name text) :=
  stands_object (.cons ⟨rfl, stands⟩ .nil)

theorem stands_bytes (bs : Bytes) :
    Stands (.array (bs.map fun b => .int b.toNat))
      (Writer.list (bs.map fun b => Writer.ascii (Writer.int b.toNat))) := by
  apply stands_list
  rw [List.forall₂_map_left_iff, List.forall₂_map_right_iff, List.forall₂_same]
  intro b _
  have small := b.toNat_lt
  exact stands_int (isWord_iff.mpr (by omega))

mutual

/-- An exact datum is written, as a text of its document. -/
theorem write_stands : (x : Datum) → x.Exact →
    ∃ text, Writer.write x = .ok text ∧ Stands x.document text
  | .bool b, _ => ⟨_, rfl, stands_bool b⟩
  | .int _ n, word => ⟨_, rfl, stands_int word⟩
  | .char c, _ => ⟨_, rfl, stands_text _⟩
  | .text s, _ => ⟨_, rfl, stands_text s⟩
  | .bytes bs, _ => ⟨_, rfl, stands_bytes bs⟩
  | .none, _ | .unit, _ => ⟨_, rfl, stands_null⟩
  | .some d, exact => write_stands d exact
  | .list ds, exact | .tuple ds, exact => by
      obtain ⟨texts, write, each⟩ := writeAll_stands ds exact
      exact ⟨Writer.list texts, by rw [Writer.write, write]; rfl, stands_list each⟩
  | .map _ es, exact => by
      obtain ⟨parts, write, each⟩ := writeEntries_stands es exact
      exact ⟨Writer.object parts, by rw [Writer.write, write]; rfl, stands_object each⟩
  | .record fields, exact => by
      obtain ⟨parts, write, each⟩ := writeFields_stands fields exact
      exact ⟨Writer.object parts, by rw [Writer.write, write]; rfl, stands_object each⟩
  | .unitVariant _ name, _ => ⟨_, rfl, stands_text name⟩
  | .wrapVariant _ name d, exact => by
      obtain ⟨text, write, stands⟩ := write_stands d exact
      exact ⟨_, by rw [Writer.write, write]; rfl, stands_under name stands⟩
  | .tupleVariant _ name ds, exact => by
      obtain ⟨texts, write, each⟩ := writeAll_stands ds exact
      exact ⟨_, by rw [Writer.write, write]; rfl, stands_under name (stands_list each)⟩
  | .recordVariant _ name fields, exact => by
      obtain ⟨parts, write, each⟩ := writeFields_stands fields exact
      exact ⟨_, by rw [Writer.write, write]; rfl, stands_under name (stands_object each)⟩

theorem writeAll_stands : (ds : List Datum) → Datum.ExactAll ds →
    ∃ texts, Writer.writeAll ds = .ok texts ∧ List.Forall₂ Stands (Datum.documents ds) texts
  | [], _ => ⟨[], rfl, .nil⟩
  | d :: ds, exact => by
      obtain ⟨text, head, stands⟩ := write_stands d exact.1
      obtain ⟨texts, tail, each⟩ := writeAll_stands ds exact.2
      exact ⟨text :: texts, by rw [Writer.writeAll, head, tail]; rfl, .cons stands each⟩

theorem writeEntries_stands : (es : List (Datum × Datum)) → Datum.ExactEntries es →
    ∃ parts, Writer.writeEntries es = .ok parts ∧
      List.Forall₂ (fun e part => part.1 = Writer.text e.1 ∧ Stands e.2 part.2)
        (Datum.documentEntries es) parts
  | [], _ => ⟨[], rfl, .nil⟩
  | (k, d) :: es, exact => by
      obtain ⟨name, named⟩ := Option.isSome_iff_exists.mp exact.1
      obtain ⟨text, head, stands⟩ := write_stands d exact.2.1
      obtain ⟨parts, tail, each⟩ := writeEntries_stands es exact.2.2
      refine ⟨(Writer.text name, text) :: parts, ?_, .cons ⟨?_, stands⟩ each⟩
      · rw [Writer.writeEntries, Writer.key_of_keyText? named, head, tail]
        rfl
      · rw [named]
        rfl

theorem writeFields_stands : (fields : List (String × Datum)) → Datum.ExactFields fields →
    ∃ parts, Writer.writeFields fields = .ok parts ∧
      List.Forall₂ (fun e part => part.1 = Writer.text e.1 ∧ Stands e.2 part.2)
        (Datum.documentFields fields) parts
  | [], _ => ⟨[], rfl, .nil⟩
  | (name, d) :: fields, exact => by
      obtain ⟨text, head, stands⟩ := write_stands d exact.1
      obtain ⟨parts, tail, each⟩ := writeFields_stands fields exact.2
      exact ⟨(Writer.text name, text) :: parts, by rw [Writer.writeFields, head, tail]; rfl,
        .cons ⟨rfl, stands⟩ each⟩

end

end Json
end CacheFacade

import CacheFacade.Proofs.Plain.Alike
import CacheFacade.Proofs.Plain.Composite

/-!
Optional values under the strategies that write documents. An absent value is written as a null, and
so is a present one whose own text is a null; that one is read as absent, and every other present
value is read as it is read alone.
-/

namespace CacheFacade

namespace Json

section Present

variable {t : Ty} {v w : Val}

theorem write_some (t : Ty) (v : Val) : write (.option t) (.some v) = write t v := rfl

theorem exists_some_iff :
    (∃ bs, write (.option t) (.some v) = .ok bs ∧ read (.option t) bs = .ok (.some w)) ↔
      (∃ bs, write t v = .ok bs ∧ read t bs = .ok w) ∧ write t v ≠ .ok Writer.null := by
  rw [write_some]
  constructor
  · rintro ⟨bs, written, back⟩
    obtain rfl | present := null_or_opensPresent written
    · cases back
    · obtain ⟨w', alone, same⟩ := (read_option_eq_ok_iff present).mp back
      cases same
      refine ⟨⟨bs, written, alone⟩, ?_⟩
      rw [written]
      rintro ⟨⟩
      exact not_opensPresent_null present
  · rintro ⟨⟨bs, written, back⟩, other⟩
    obtain rfl | present := null_or_opensPresent written
    · exact absurd written other
    · exact ⟨bs, written, (read_option_eq_ok_iff present).mpr ⟨w, back, rfl⟩⟩

theorem exists_none_iff :
    (∃ bs, write (.option t) (.some v) = .ok bs ∧ read (.option t) bs = .ok .none) ↔
      write t v = .ok Writer.null := by
  rw [write_some]
  refine ⟨?_, fun written => ⟨_, written, read_option_null t⟩⟩
  rintro ⟨bs, written, back⟩
  obtain rfl | present := null_or_opensPresent written
  · exact written
  · obtain ⟨w, -, same⟩ := (read_option_eq_ok_iff present).mp back
    cases same

end Present

end Json

open Codec

section Optional

variable {s : Strategy} {t : Ty} {v w : Val}

theorem passes_document_iff :
    (described .document t).Passes (described .document t) v w ↔
      ∃ bs, Json.write t v = .ok bs ∧ Json.read t bs = .ok w := by
  simp only [Passes, encode, decode, Plain.ok_of_mapError]

/-- Both strategies bring an optional value back as a document does. -/
theorem passes_option_iff (documents : s ≠ .compact) :
    (described s (.option t)).Passes (described s (.option t)) v w ↔
      ∃ bs, Json.write (.option t) v = .ok bs ∧ Json.read (.option t) bs = .ok w := by
  have asks : (Ty.option t).AsksForParts := trivial
  rw [passes_of_asksForParts asks documents documents, passes_document_iff]

theorem encode_some_eq_none_iff (documents : s ≠ .compact) :
    (described s (.option t)).encode (.some v) = (described s (.option t)).encode .none ↔
      Json.write t v = .ok Json.Writer.null := by
  have asks : (Ty.option t).AsksForParts := trivial
  rw [encode_of_asksForParts asks documents, encode_of_asksForParts asks documents]
  exact Plain.ok_of_mapError

/-- An optional value of a type without floating numbers comes back with its nulls settled. -/
theorem passes_settle (documents : s ≠ .compact) (floatless : t.IsFloatless)
    (shallow : t.nesting ≤ Json.deepest) (inhabits : (Ty.option t).Inhabits v) :
    (described s (.option t)).Passes (described s (.option t)) v v.settle := by
  obtain ⟨text, write, spells⟩ := Json.settled inhabits (.option floatless)
  have few := Nat.le_trans (Ty.levels_le_nesting inhabits) shallow
  exact (passes_option_iff documents).mpr ⟨text, write, Plain.read_of_spells spells few⟩

theorem Codec.Passes.unique {c c' : Codec} {u v w : Val} (passes : c.Passes c' u v)
    (other : c.Passes c' u w) : v = w := by
  obtain ⟨bs, write, read⟩ := passes
  obtain ⟨bs', write', read'⟩ := other
  cases write.symm.trans write'
  exact Except.ok.inj (read.symm.trans read')

/-- An absent value comes back. A present one comes back exactly if it comes back alone from a
document and is not written as the absent one is; it comes back as absent exactly if it is. So what
comes back, where nothing holds a floating number, is the value with its nulls settled. -/
theorem optional_returns_iff (documents : s ≠ .compact) (t : Ty) :
    (described s (.option t)).Returns .none ∧
    (∀ v, (described s (.option t)).Returns (.some v) ↔
      (described .document t).Returns v ∧
        (described s (.option t)).encode (.some v) ≠ (described s (.option t)).encode .none) ∧
    (∀ v, (described s (.option t)).Passes (described s (.option t)) (.some v) .none ↔
      (described s (.option t)).encode (.some v) = (described s (.option t)).encode .none) ∧
    (t.IsFloatless → t.nesting ≤ Json.deepest → ∀ v, (Ty.option t).Inhabits v →
      (described s (.option t)).Passes (described s (.option t)) v v.settle ∧
        ((described s (.option t)).Returns v ↔ v.settle = v)) := by
  refine ⟨?_, fun v => ?_, fun v => ?_, fun floatless shallow v inhabits => ?_⟩
  · exact (passes_option_iff documents).mpr ⟨_, rfl, Json.read_option_null t⟩
  · rw [Ne, encode_some_eq_none_iff documents]
    exact (passes_option_iff documents).trans
      (Json.exists_some_iff.trans (and_congr passes_document_iff.symm Iff.rfl))
  · rw [encode_some_eq_none_iff documents]
    exact (passes_option_iff documents).trans Json.exists_none_iff
  · have back := passes_settle documents floatless shallow inhabits
    exact ⟨back, fun returns => back.unique returns, fun same => by rwa [same] at back⟩

end Optional

/-- An integer that may be absent at two levels. -/
def nested : Ty := .option (.option Catalogue.i64)

/-- The integer comes back; a present absence does not. -/
theorem optional_returns_nested :
    (nested.Inhabits (.some (.some (.int 5))) ∧ nested.Inhabits (.some .none)) ∧
      (described .plain nested).Returns (.some (.some (.int 5))) ∧
      (described .plain nested).Passes (described .plain nested) (.some .none) .none := by
  have present : nested.Inhabits (.some (.some (.int 5))) := .some (.some (.int (by decide)))
  have absent : nested.Inhabits (.some .none) := .some (.none _)
  have floatless : (Ty.option Catalogue.i64).IsFloatless := .option (.int _)
  obtain ⟨-, -, -, settles⟩ := optional_returns_iff (s := .plain) nofun (.option Catalogue.i64)
  have back := settles floatless (by decide)
  exact ⟨⟨present, absent⟩, (back _ present).2.mpr rfl, (back _ absent).1⟩

/-- A present absence is written as a null by both strategies, and read as absent. -/
theorem present_null_not_returned :
    (Ty.option Catalogue.i64).IsFloatless ∧ nested.Inhabits (.some .none) ∧
      ∀ s ∈ [Strategy.plain, .document],
        (described s nested).encode (.some .none) = .ok (Utf8.encode "null") ∧
          (described s nested).decode (Utf8.encode "null") = .ok .none ∧
          ¬ (described s nested).Returns (.some .none) := by
  refine ⟨.option (.int _), .some (.none _), fun s member => ?_⟩
  obtain ⟨written, read⟩ : (described s nested).encode (.some .none) = .ok (Utf8.encode "null") ∧
      (described s nested).decode (Utf8.encode "null") = .ok .none := by
    simp only [List.mem_cons, List.not_mem_nil, or_false] at member
    obtain rfl | rfl := member <;> exact ⟨rfl, rfl⟩
  refine ⟨written, read, ?_⟩
  rintro ⟨bs, written', back⟩
  cases written.symm.trans written'
  cases read.symm.trans back

end CacheFacade

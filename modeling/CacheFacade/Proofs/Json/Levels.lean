import CacheFacade.Proofs.Json.Announced
import CacheFacade.Proofs.Schema.Announce
import CacheFacade.Proofs.Schema.Composite

/-!
The levels of brackets in the text of a value. They follow from what the value announces, and there
are no more of them than the type of the value allows.
-/

namespace CacheFacade
namespace Ty

/-- The levels of brackets in the text of a value. -/
def levels (t : Ty) (v : Val) : Nat := (t.announce v).document.nesting

def levelsAll (ts : List Ty) (vs : List Val) : Nat :=
  Document.nestingItems (Datum.documents (announceAll ts vs))

def levelsFields (fields : List (FieldSpec × Ty)) (vs : List Val) : Nat :=
  Document.nestingEntries (Datum.documentFields (announceFields fields vs))

theorem levels_list_le {t : Ty} {vs : List Val} {n : Nat} :
    (Ty.list t).levels (.list vs) ≤ n + 1 ↔ ∀ v ∈ vs, t.levels v ≤ n := by
  change Document.nestingItems (Datum.documents (vs.map fun v => t.announce v)) + 1 ≤ n + 1 ↔ _
  rw [Nat.add_le_add_iff_right]
  induction vs with
  | nil => simp [Datum.documents, Document.nestingItems]
  | cons v vs ih =>
      rw [List.map_cons, Datum.documents, Document.nestingItems, Nat.max_le, ih,
        List.forall_mem_cons, levels]

theorem levels_map_le {k t : Ty} {es : List (Val × Val)} {n : Nat} :
    (Ty.map k t).levels (.map es) ≤ n + 1 ↔ ∀ e ∈ es, t.levels e.2 ≤ n := by
  change Document.nestingEntries
    (Datum.documentEntries (es.map fun e => (k.announce e.1, t.announce e.2))) + 1 ≤ n + 1 ↔ _
  rw [Nat.add_le_add_iff_right]
  induction es with
  | nil => simp [Datum.documentEntries, Document.nestingEntries]
  | cons e es ih =>
      rw [List.map_cons, Datum.documentEntries, Document.nestingEntries, Nat.max_le, ih,
        List.forall_mem_cons, levels]

theorem announce_variant (name : String) {variants : List (String × Body)} {i : Nat} {s : String}
    {body : Body} (here : variants[i]? = some (s, body)) (v : Val) :
    (Ty.choice name variants).announce (.variant i v) = Ty.announceBody s body i v := by
  rw [Ty.announce, Ty.announceVariant_of_getElem? here]

theorem levelsFields_cons_le (f : FieldSpec × Ty) (fields : List (FieldSpec × Ty)) (v : Val)
    (vs : List Val) :
    levelsFields (f :: fields) (v :: vs) ≤ max (f.2.levels v) (levelsFields fields vs) := by
  obtain ⟨spec, t⟩ := f
  rw [levelsFields, announceFields]
  unfold announceField
  split
  · exact Nat.le_max_right ..
  · exact Nat.le_refl _

theorem levelsAll_le_of_forall₂ {ts : List Ty} {vs : List Val}
    (each : List.Forall₂ (fun t v => t.levels v ≤ t.nesting) ts vs) :
    levelsAll ts vs ≤ nestingAll ts := by
  induction each with
  | nil => exact Nat.le_refl _
  | cons head _ ih =>
      exact Nat.max_le.mpr ⟨Nat.le_trans head (Nat.le_max_left ..),
        Nat.le_trans ih (Nat.le_max_right ..)⟩

theorem levelsFields_le_of_forall₂ {fields : List (FieldSpec × Ty)} {vs : List Val}
    (each : List.Forall₂ (fun t v => t.levels v ≤ t.nesting) (fields.map (·.2)) vs) :
    levelsFields fields vs ≤ nestingFields fields := by
  rw [List.forall₂_map_left_iff] at each
  induction each with
  | nil => exact Nat.le_refl _
  | @cons f v fields vs head _ ih =>
      refine Nat.le_trans (levelsFields_cons_le f fields v vs) (Nat.max_le.mpr ⟨?_, ?_⟩)
      · exact Nat.le_trans head (Nat.le_max_left ..)
      · exact Nat.le_trans ih (Nat.le_max_right ..)

theorem levels_variant_le (name : String) {variants : List (String × Body)} {i : Nat} {s : String}
    {body : Body} {v : Val} (here : variants[i]? = some (s, body))
    (inside : (announceBody s body i v).document.nesting ≤ nestingBody body) :
    (choice name variants).levels (.variant i v) ≤ (choice name variants).nesting := by
  rw [levels, announce_variant name here]
  exact Nat.le_trans inside
    (nestingVariants_le.mp (Nat.le_refl _) _ (List.mem_of_getElem? here))

/-- What a variant holds is one level below its brackets. -/
theorem nesting_under_le {n m : Nat} (inside : n ≤ m) : max n 0 + 1 ≤ m + 1 :=
  Nat.succ_le_succ (Nat.max_le.mpr ⟨inside, Nat.zero_le _⟩)

mutual

theorem levels_le_nesting : {t : Ty} → {v : Val} → t.Inhabits v → t.levels v ≤ t.nesting
  | _, _, .bool _ | _, _, .int _ | _, _, .char _ | _, _, .text _ | _, _, .unit | _, _, .unitNamed _
  | _, _, .none _ => Nat.zero_le _
  | _, _, .some present => by
      have inner := levels_le_nesting present
      exact inner
  | _, _, .wrapper _ present => by
      have inner := levels_le_nesting present
      exact inner
  | _, _, .list each => levels_list_le.mpr fun v member => levels_le_nesting (each v member)
  | _, _, .tuple each =>
      Nat.succ_le_succ (levelsAll_le_of_forall₂ (levels_le_nesting_each each))
  | _, _, .tupleNamed _ each =>
      Nat.succ_le_succ (levelsAll_le_of_forall₂ (levels_le_nesting_each each))
  | _, _, .map _ _ values => levels_map_le.mpr fun e member => levels_le_nesting (values e member)
  | _, _, .record _ _ each =>
      Nat.succ_le_succ (levelsFields_le_of_forall₂ (levels_le_nesting_each each))
  | _, _, @Inhabits.choice name _ _ _ .unit _ here .unit =>
      levels_variant_le name here (Nat.zero_le _)
  | _, _, @Inhabits.choice name _ _ _ (.wrap _) _ here held => by
      have inner := levels_le_nesting held
      exact levels_variant_le name here (nesting_under_le inner)
  | _, _, @Inhabits.choice name _ _ _ (.tuple _) _ here (.tuple each) => by
      have inner := levelsAll_le_of_forall₂ (levels_le_nesting_each each)
      exact levels_variant_le name here (nesting_under_le (Nat.succ_le_succ inner))
  | _, _, @Inhabits.choice name _ _ _ (.record _) _ here (.record _ _ each) => by
      have inner := levelsFields_le_of_forall₂ (levels_le_nesting_each each)
      exact levels_variant_le name here (nesting_under_le (Nat.succ_le_succ inner))

theorem levels_le_nesting_each : {ts : List Ty} → {vs : List Val} → InhabitAll ts vs →
    List.Forall₂ (fun t v => t.levels v ≤ t.nesting) ts vs
  | _, _, .nil => .nil
  | _, _, .cons head tail => .cons (levels_le_nesting head) (levels_le_nesting_each tail)

end

end Ty
end CacheFacade

import CacheFacade.Proofs.Schema.Composite

/-!
Values with their nulls settled. An absent value, a unit and a present one of these are all written
as a null, which an optional type reads as an absent value; so that is what a present null is
settled to. The values of a type that tells its optional values from nulls are settled as they are.
-/

namespace CacheFacade

namespace Val

/-- The value has no text but the null: it is absent, a unit, or a present one of these. -/
def isNull : Val → Bool
  | .none | .unit => true
  | .some v => isNull v
  | _ => false

mutual

/-- The value with an absent one for every present null in it. -/
def settle : Val → Val
  | .some v => if v.isNull then .none else .some (settle v)
  | .list vs => .list (settleAll vs)
  | .map es => .map (settleEntries es)
  | .variant i v => .variant i (settle v)
  | v => v

def settleAll : List Val → List Val
  | [] => []
  | v :: vs => settle v :: settleAll vs

def settleEntries : List (Val × Val) → List (Val × Val)
  | [] => []
  | (k, v) :: es => (k, settle v) :: settleEntries es

end

theorem settleAll_eq_map (vs : List Val) : settleAll vs = vs.map settle := by
  induction vs with
  | nil => rfl
  | cons v vs ih => rw [settleAll, ih, List.map_cons]

theorem settleEntries_eq_map (es : List (Val × Val)) :
    settleEntries es = es.map fun e => (e.1, settle e.2) := by
  induction es with
  | nil => rfl
  | cons e es ih => rw [settleEntries, ih, List.map_cons]

theorem settle_some_of_isNull {v : Val} (null : v.isNull = true) : settle (.some v) = .none := by
  rw [settle, if_pos null]

theorem settle_some {v : Val} (present : v.isNull = false) :
    settle (.some v) = .some v.settle := by
  rw [settle, if_neg (by simp [present])]

end Val

namespace Ty

/-- The types that are built as the composite ones, from scalars without floating numbers, whatever
their optional values and the names of their variants are. -/
inductive IsFloatless : Ty → Prop where
  | bool : IsFloatless .bool
  | int (k : IntKind) : IsFloatless (.int k)
  | char : IsFloatless .char
  | text : IsFloatless .text
  | unit : IsFloatless .unit
  | unitNamed (name : String) : IsFloatless (.unitNamed name)
  | option {t : Ty} (present : IsFloatless t) : IsFloatless (.option t)
  | list {t : Ty} (item : IsFloatless t) : IsFloatless (.list t)
  | tuple {ts : List Ty} (each : ∀ t ∈ ts, IsFloatless t) : IsFloatless (.tuple ts)
  | tupleNamed (name : String) {ts : List Ty} (each : ∀ t ∈ ts, IsFloatless t) :
      IsFloatless (.tupleNamed name ts)
  | map {k t : Ty} (key : k.IsKey) (value : IsFloatless t) : IsFloatless (.map k t)
  | wrapper (name : String) {t : Ty} (inner : IsFloatless t) : IsFloatless (.wrapper name t)
  | record (name : String) (strict : Bool) {fields : List (FieldSpec × Ty)}
      (each : ∀ f ∈ fields, IsFloatless f.2) (distinct : (fieldNames fields).Nodup)
      (absent : ∀ f ∈ fields, f.1.omitNone = true → f.1.valueWhenAbsent f.2 = .ok .none) :
      IsFloatless (.record name strict fields)
  | choice (name : String) {variants : List (String × Body)}
      (each : ∀ x ∈ variants, IsFloatless x.2.content) (distinct : (variantNames variants).Nodup) :
      IsFloatless (.choice name variants)

theorem IsComposite.isFloatless {t : Ty} (composite : t.IsComposite) : t.IsFloatless := by
  induction composite with
  | bool => exact .bool
  | int k => exact .int k
  | char => exact .char
  | text => exact .text
  | unit => exact .unit
  | unitNamed name => exact .unitNamed name
  | option _ _ ih => exact .option ih
  | list _ ih => exact .list ih
  | tuple _ ih => exact .tuple ih
  | tupleNamed name _ ih => exact .tupleNamed name ih
  | map key _ ih => exact .map key ih
  | wrapper name _ ih => exact .wrapper name ih
  | record name strict _ distinct absent ih => exact .record name strict ih distinct absent
  | choice name _ distinct _ ih => exact .choice name ih distinct

theorem isNull_of_neverNull : {t : Ty} → {v : Val} → t.Inhabits v → t.NeverNull → v.isNull = false
  | _, _, .wrapper _ inner, never => isNull_of_neverNull inner never
  | _, _, .bool _, _ | _, _, .int _, _ | _, _, .char _, _ | _, _, .text _, _ | _, _, .list _, _
  | _, _, .tuple _, _ | _, _, .tupleNamed _ _, _ | _, _, .map _ _ _, _ | _, _, .record _ _ _, _
  | _, _, .choice _ _ _, _ => rfl

mutual

/-- A composite type tells its optional values from nulls, so there is nothing to settle. -/
theorem settle_of_isComposite : {t : Ty} → {v : Val} → t.Inhabits v → t.IsComposite → v.settle = v
  | _, _, .bool _, _ | _, _, .int _, _ | _, _, .char _, _ | _, _, .text _, _ | _, _, .unit, _
  | _, _, .unitNamed _, _ | _, _, .none _, _ => rfl
  | _, _, .some present, .option composite never => by
      rw [Val.settle_some (isNull_of_neverNull present never),
        settle_of_isComposite present composite]
  | _, _, @Inhabits.list _ vs each, .list item => by
      have same : vs.map Val.settle = vs.map id := List.map_congr_left fun v member =>
        settle_of_isComposite (each v member) item
      rw [Val.settle, Val.settleAll_eq_map, same, List.map_id]
  | _, _, .tuple each, .tuple composite => by
      rw [Val.settle, settleAll_of_isComposite each composite]
  | _, _, .tupleNamed name each, .tupleNamed _ composite => by
      rw [Val.settle, settleAll_of_isComposite each composite]
  | _, _, @Inhabits.map _ _ es _ _ values, .map _ composite => by
      have same : (es.map fun e => (e.1, e.2.settle)) = es.map id :=
        List.map_congr_left fun e member =>
          congrArg (Prod.mk e.1) (settle_of_isComposite (values e member) composite)
      rw [Val.settle, Val.settleEntries_eq_map, same, List.map_id]
  | _, _, .wrapper name inner, .wrapper _ composite => settle_of_isComposite inner composite
  | _, _, .record name strict each, .record _ _ composite _ _ => by
      rw [Val.settle, settleAll_of_isComposite each (List.forall_mem_map.mpr composite)]
  | _, _, .choice name here held, .choice _ composite _ _ => by
      rw [Val.settle, settle_of_isComposite held (composite _ (List.mem_of_getElem? here))]

theorem settleAll_of_isComposite : {ts : List Ty} → {vs : List Val} → InhabitAll ts vs →
    (∀ t ∈ ts, t.IsComposite) → Val.settleAll vs = vs
  | _, _, .nil, _ => rfl
  | _, _, .cons head tail, composite => by
      obtain ⟨first, rest⟩ := List.forall_mem_cons.mp composite
      rw [Val.settleAll, settle_of_isComposite head first, settleAll_of_isComposite tail rest]

end

end Ty
end CacheFacade

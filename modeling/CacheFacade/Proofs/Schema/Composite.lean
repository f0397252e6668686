import CacheFacade.Proofs.Schema.Order
import CacheFacade.Schema.Acceptance

/-!
Composite types: what is built from scalars by sequences, tuples, maps, records, choices, optional
values and wrappers, without floating numbers. Here are the values of such a type, how deep the type
is nested, and how many brackets may lie in one another in the texts of its values.
-/

namespace CacheFacade

/-- The type of what a variant holds. -/
def Body.content : Body → Ty
  | .unit => .unit
  | .wrap t => t
  | .tuple ts => .tuple ts
  | .record fields => .record "" false fields

namespace Ty

/-- Types of keys: texts, integers and truth values, in wrappers or not. -/
inductive IsKey : Ty → Prop where
  | text : IsKey .text
  | int (k : IntKind) : IsKey (.int k)
  | bool : IsKey .bool
  | wrapper (name : String) {t : Ty} (key : IsKey t) : IsKey (.wrapper name t)

/-- No value of the type is written as a null. -/
def NeverNull : Ty → Prop
  | .bool | .int _ | .char | .text | .list _ | .tuple _ | .tupleNamed _ _ | .map _ _
  | .record _ _ _ | .choice _ _ => True
  | .wrapper _ t => NeverNull t
  | _ => False

/-- The types of this module. An optional value is told from the null that stands for its absence, a
field that may be left out is absent then, and names are told apart; no variant is named with a
brace in front. -/
inductive IsComposite : Ty → Prop where
  | bool : IsComposite .bool
  | int (k : IntKind) : IsComposite (.int k)
  | char : IsComposite .char
  | text : IsComposite .text
  | unit : IsComposite .unit
  | unitNamed (name : String) : IsComposite (.unitNamed name)
  | option {t : Ty} (present : IsComposite t) (told : t.NeverNull) : IsComposite (.option t)
  | list {t : Ty} (item : IsComposite t) : IsComposite (.list t)
  | tuple {ts : List Ty} (each : ∀ t ∈ ts, IsComposite t) : IsComposite (.tuple ts)
  | tupleNamed (name : String) {ts : List Ty} (each : ∀ t ∈ ts, IsComposite t) :
      IsComposite (.tupleNamed name ts)
  | map {k t : Ty} (key : k.IsKey) (value : IsComposite t) : IsComposite (.map k t)
  | wrapper (name : String) {t : Ty} (inner : IsComposite t) : IsComposite (.wrapper name t)
  | record (name : String) (strict : Bool) {fields : List (FieldSpec × Ty)}
      (each : ∀ f ∈ fields, IsComposite f.2) (distinct : (fieldNames fields).Nodup)
      (absent : ∀ f ∈ fields, f.1.omitNone = true → f.1.valueWhenAbsent f.2 = .ok .none) :
      IsComposite (.record name strict fields)
  | choice (name : String) {variants : List (String × Body)}
      (each : ∀ x ∈ variants, IsComposite x.2.content) (distinct : (variantNames variants).Nodup)
      (unbraced : ∀ s ∈ variantNames variants, s.toList.head? ≠ some '{') :
      IsComposite (.choice name variants)

mutual

/-- The values of a composite type; a map holds its entries in the order of their keys. -/
inductive Inhabits : Ty → Val → Prop where
  | bool (b : Bool) : Inhabits .bool (.bool b)
  | int {k : IntKind} {n : Int} (held : k.holds n = true) : Inhabits (.int k) (.int n)
  | char (c : Char) : Inhabits .char (.char c)
  | text (s : String) : Inhabits .text (.text s)
  | unit : Inhabits .unit .unit
  | unitNamed (name : String) : Inhabits (.unitNamed name) .unit
  | none (t : Ty) : Inhabits (.option t) .none
  | some {t : Ty} {v : Val} (present : Inhabits t v) : Inhabits (.option t) (.some v)
  | list {t : Ty} {vs : List Val} (each : ∀ v ∈ vs, Inhabits t v) : Inhabits (.list t) (.list vs)
  | tuple {ts : List Ty} {vs : List Val} (each : InhabitAll ts vs) :
      Inhabits (.tuple ts) (.list vs)
  | tupleNamed (name : String) {ts : List Ty} {vs : List Val} (each : InhabitAll ts vs) :
      Inhabits (.tupleNamed name ts) (.list vs)
  | map {k t : Ty} {entries : List (Val × Val)}
      (sorted : entries.Pairwise fun e f => Val.order e.1 f.1 = .lt)
      (keys : ∀ e ∈ entries, Inhabits k e.1) (values : ∀ e ∈ entries, Inhabits t e.2) :
      Inhabits (.map k t) (.map entries)
  | wrapper (name : String) {t : Ty} {v : Val} (inner : Inhabits t v) :
      Inhabits (.wrapper name t) v
  | record (name : String) (strict : Bool) {fields : List (FieldSpec × Ty)} {vs : List Val}
      (each : InhabitAll (fields.map (·.2)) vs) :
      Inhabits (.record name strict fields) (.list vs)
  | choice (name : String) {variants : List (String × Body)} {i : Nat} {s : String} {body : Body}
      {v : Val} (here : variants[i]? = some (s, body)) (held : Inhabits body.content v) :
      Inhabits (.choice name variants) (.variant i v)

inductive InhabitAll : List Ty → List Val → Prop where
  | nil : InhabitAll [] []
  | cons {t : Ty} {ts : List Ty} {v : Val} {vs : List Val} (head : Inhabits t v)
      (tail : InhabitAll ts vs) : InhabitAll (t :: ts) (v :: vs)

end

mutual

/-- The most levels of brackets that the texts of a composite type have. A sequence, a tuple, a map
and a record are one level; a variant that holds something is in brackets of its own, so one that
holds a tuple or a record counts two. Optional values and wrappers have no brackets. -/
def nesting : Ty → Nat
  | .option t | .wrapper _ t => nesting t
  | .list t | .map _ t => nesting t + 1
  | .tuple ts | .tupleNamed _ ts => nestingAll ts + 1
  | .record _ _ fields => nestingFields fields + 1
  | .choice _ variants => nestingVariants variants
  | _ => 0

def nestingAll : List Ty → Nat
  | [] => 0
  | t :: ts => max (nesting t) (nestingAll ts)

def nestingFields : List (FieldSpec × Ty) → Nat
  | [] => 0
  | (_, t) :: fields => max (nesting t) (nestingFields fields)

def nestingVariants : List (String × Body) → Nat
  | [] => 0
  | (_, body) :: variants => max (nestingBody body) (nestingVariants variants)

def nestingBody : Body → Nat
  | .unit => 0
  | .wrap t => nesting t + 1
  | .tuple ts => nestingAll ts + 2
  | .record fields => nestingFields fields + 2

end

theorem nestingVariants_le {variants : List (String × Body)} {n : Nat} :
    nestingVariants variants ≤ n ↔ ∀ x ∈ variants, nestingBody x.2 ≤ n := by
  induction variants with
  | nil => simp [nestingVariants]
  | cons x variants ih => simp only [nestingVariants, Nat.max_le, ih, List.forall_mem_cons]

mutual

/-- How many types lie in one another, whatever the brackets in their texts. -/
def depth : Ty → Nat
  | .option t | .wrapper _ t | .list t => depth t + 1
  | .map k t => max (depth k) (depth t) + 1
  | .tuple ts | .tupleNamed _ ts => depthAll ts + 1
  | .record _ _ fields => depthFields fields + 1
  | .choice _ variants => depthVariants variants + 1
  | _ => 0

def depthAll : List Ty → Nat
  | [] => 0
  | t :: ts => max (depth t) (depthAll ts)

def depthFields : List (FieldSpec × Ty) → Nat
  | [] => 0
  | (_, t) :: fields => max (depth t) (depthFields fields)

def depthVariants : List (String × Body) → Nat
  | [] => 0
  | (_, body) :: variants => max (depthBody body) (depthVariants variants)

def depthBody : Body → Nat
  | .unit => 0
  | .wrap t => depth t
  | .tuple ts => depthAll ts
  | .record fields => depthFields fields

end

mutual

/-- A type has at most two levels of brackets for each that lies in another. -/
theorem nesting_le_depth : (t : Ty) → t.nesting ≤ 2 * t.depth
  | .option t | .wrapper _ t => by
      have inner := nesting_le_depth t
      rw [nesting, depth]
      omega
  | .list t => by
      have inner := nesting_le_depth t
      rw [nesting, depth]
      omega
  | .map _ t => by
      have inner := nesting_le_depth t
      rw [nesting, depth]
      omega
  | .tuple ts | .tupleNamed _ ts => by
      have inner := nestingAll_le_depth ts
      rw [nesting, depth]
      omega
  | .record _ _ fields => by
      have inner := nestingFields_le_depth fields
      rw [nesting, depth]
      omega
  | .choice _ variants => by
      have inner := nestingVariants_le_depth variants
      rw [nesting, depth]
      omega
  | .bool | .int _ | .f32 | .f64 | .char | .text | .bytes | .unit | .unitNamed _ | .openRecord _ _
  | .tagged _ _ _ | .untagged _ _ | .document | .even | .bareNone | .probe _ => Nat.zero_le _

theorem nestingAll_le_depth : (ts : List Ty) → nestingAll ts ≤ 2 * depthAll ts
  | [] => Nat.zero_le _
  | t :: ts => by
      have head := nesting_le_depth t
      have tail := nestingAll_le_depth ts
      rw [nestingAll, depthAll]
      omega

theorem nestingFields_le_depth : (fields : List (FieldSpec × Ty)) →
    nestingFields fields ≤ 2 * depthFields fields
  | [] => Nat.zero_le _
  | (_, t) :: fields => by
      have head := nesting_le_depth t
      have tail := nestingFields_le_depth fields
      rw [nestingFields, depthFields]
      omega

theorem nestingVariants_le_depth : (variants : List (String × Body)) →
    nestingVariants variants ≤ 2 * depthVariants variants + 2
  | [] => Nat.zero_le _
  | (_, body) :: variants => by
      have head := nestingBody_le_depth body
      have tail := nestingVariants_le_depth variants
      rw [nestingVariants, depthVariants]
      omega

theorem nestingBody_le_depth : (body : Body) → nestingBody body ≤ 2 * depthBody body + 2
  | .unit => Nat.zero_le _
  | .wrap t => by
      have inner := nesting_le_depth t
      rw [nestingBody, depthBody]
      omega
  | .tuple ts => by
      have inner := nestingAll_le_depth ts
      rw [nestingBody, depthBody]
      omega
  | .record fields => by
      have inner := nestingFields_le_depth fields
      rw [nestingBody, depthBody]
      omega

end

end Ty
end CacheFacade

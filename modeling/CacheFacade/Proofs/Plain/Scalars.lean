import CacheFacade.Codec
import CacheFacade.Proofs.Numeral.Integer
import CacheFacade.Proofs.Schema.Announce
import CacheFacade.Proofs.Text.Utf8
import CacheFacade.Schema.Catalogue

/-!
Scalars under the plain strategy. Every value of a scalar type is written as its plain text, without
quotes, and the text reads back as the value. Floating numbers are not treated here.
-/

namespace CacheFacade
namespace Plain

/-- Scalar types: truth values, integers of every width, characters, texts, choices between names,
and wrappers around these to any depth. -/
inductive IsScalar : Ty → Prop where
  | bool : IsScalar .bool
  | int (k : IntKind) : IsScalar (.int k)
  | char : IsScalar .char
  | text : IsScalar .text
  | choice (name : String) {variants : List (String × Body)}
      (bare : ∀ x ∈ variants, x.2 = .unit)
      (distinct : (variantNames variants).Nodup)
      (unbraced : ∀ s ∈ variantNames variants, s.toList.head? ≠ some '{') :
      IsScalar (.choice name variants)
  | wrapper (name : String) {t : Ty} (scalar : IsScalar t) : IsScalar (.wrapper name t)

/-- The values of scalar types. -/
inductive Inhabits : Ty → Val → Prop where
  | bool (b : Bool) : Inhabits .bool (.bool b)
  | int {k : IntKind} {n : Int} (held : k.holds n = true) : Inhabits (.int k) (.int n)
  | char (c : Char) : Inhabits .char (.char c)
  | text (s : String) : Inhabits .text (.text s)
  | choice (name : String) {variants : List (String × Body)} {i : Nat}
      (known : i < variants.length) : Inhabits (.choice name variants) (.variant i .unit)
  | wrapper (name : String) {t : Ty} {v : Val} (inner : Inhabits t v) :
      Inhabits (.wrapper name t) v

/-- The plain text of a scalar. -/
def spelling : Ty → Val → String
  | .bool, .bool b => if b then "true" else "false"
  | .int _, .int n =>
    .ofList (if n < 0 then '-' :: Nat.toDigits 10 n.natAbs else Nat.toDigits 10 n.natAbs)
  | .char, .char c => .ofList [c]
  | .text, .text s => s
  | .choice _ variants, .variant i _ => (variantNames variants).getD i ""
  | .wrapper _ t, v => spelling t v
  | _, _ => ""

theorem exists_name_of_lt {variants : List (String × Body)} (bare : ∀ x ∈ variants, x.2 = .unit)
    {i : Nat} (known : i < variants.length) :
    ∃ name, variants[i]? = some (name, .unit) ∧ (variantNames variants)[i]? = some name := by
  obtain ⟨⟨name, body⟩, here⟩ : ∃ x, variants[i]? = some x := ⟨_, List.getElem?_eq_getElem known⟩
  have unit : body = .unit := bare _ (List.mem_of_getElem? here)
  rw [unit] at here
  exact ⟨name, here, by simp [variantNames, here]⟩

theorem spelling_choice (name : String) {variants : List (String × Body)} {i : Nat} {s : String}
    (here : (variantNames variants)[i]? = some s) (v : Val) :
    spelling (.choice name variants) (.variant i v) = s := by
  rw [spelling, List.getD_eq_getElem?_getD, here]
  rfl

theorem scalarText?_announce {t : Ty} {v : Val} (scalar : IsScalar t) (inhabits : Inhabits t v) :
    scalarText? (t.announce v) = some (spelling t v) := by
  induction inhabits with
  | bool b => cases b <;> rfl
  | @int k n _ =>
      rw [spelling, ← Integer.toList_text, String.ofList_toList]
      rfl
  | char c => rfl
  | text s => rfl
  | choice name known =>
      cases scalar with
      | choice _ bare _ _ =>
          obtain ⟨name, here, named⟩ := exists_name_of_lt bare known
          rw [Ty.announce, Ty.announceVariant_of_getElem? here, Ty.announceBody, scalarText?,
            spelling_choice _ named]
  | wrapper name _ ih =>
      cases scalar with
      | wrapper _ scalar => exact ih scalar

theorem text_encode (s : String) : text (Utf8.encode s) = .ok s := by
  rw [text, Utf8.decode_encode]

theorem truth_toString (b : Bool) : truth (if b then "true" else "false") = .ok b := by
  cases b <;> rfl

theorem integer_text {k : IntKind} {n : Int} (held : k.holds n = true) :
    integer k (Integer.text n) = .ok n := by
  rw [integer, Integer.read_text held]

theorem char_singleton (c : Char) : char (.ofList [c]) = .ok c := by
  rw [char, String.toList_ofList]

theorem named_of_unit {variants : List (String × Body)} (distinct : (variantNames variants).Nodup)
    {i : Nat} {s : String} (here : variants[i]? = some (s, .unit))
    (name : (variantNames variants)[i]? = some s) :
    named (variantNames variants) (variants.map (·.2)) s = .ok (.variant i .unit) := by
  have body : (variants.map (·.2))[i]? = some .unit := by simp [here]
  simp only [named, Json.Buffered.variantAt_of_nodup distinct name, bind, Except.bind, body]
  rfl

theorem head?_encode_ne_openBrace {s : String} (unbraced : s.toList.head? ≠ some '{') :
    ((Utf8.encode s).head? == some openBrace) = false := by
  rw [beq_eq_false_iff_ne]
  intro brace
  exact unbraced (Utf8.head?_toList_of_head?_encode (by decide) brace)

theorem read_spelling {t : Ty} {v : Val} (scalar : IsScalar t) (inhabits : Inhabits t v) :
    read t (Utf8.encode (spelling t v)) = .ok v := by
  induction inhabits with
  | bool b => simp only [read, spelling, text_encode, bind, Except.bind, truth_toString]; rfl
  | int held =>
      rw [spelling, ← Integer.toList_text, String.ofList_toList]
      simp only [read, text_encode, bind, Except.bind, integer_text held]
      rfl
  | char c => simp only [read, spelling, text_encode, bind, Except.bind, char_singleton]; rfl
  | text s => simp only [read, spelling, text_encode, bind, Except.bind]; rfl
  | choice name known =>
      cases scalar with
      | choice _ bare distinct unbraced =>
          obtain ⟨s, here, named⟩ := exists_name_of_lt bare known
          have unbraced := head?_encode_ne_openBrace (unbraced s (List.mem_of_getElem? named))
          rw [spelling_choice _ named, read, unbraced]
          simp only [Bool.false_eq_true, if_false, text_encode, bind, Except.bind]
          exact named_of_unit distinct here named
  | wrapper name _ ih =>
      cases scalar with
      | wrapper _ scalar => exact ih scalar

/-- A scalar is written as its plain text, from which it is read again. -/
theorem scalar_roundtrip {t : Ty} {v : Val} (scalar : IsScalar t) (inhabits : Inhabits t v) :
    (Codec.described .plain t).encode v = .ok (Utf8.encode (spelling t v)) ∧
      (Codec.described .plain t).decode (Utf8.encode (spelling t v)) = .ok v := by
  constructor
  · rw [Codec.encode, write, scalarText?_announce scalar inhabits]
    rfl
  · rw [Codec.decode, read_spelling scalar inhabits]
    rfl

/-- A status in two wrappers. -/
def held : Ty := .wrapper "Held" (.wrapper "Current" Catalogue.status)

theorem scalar_roundtrip_held :
    IsScalar held ∧ Inhabits held (.variant 2 .unit) ∧
      (Codec.described .plain held).encode (.variant 2 .unit) =
        .ok (Utf8.encode "deleted_forever") ∧
      (Codec.described .plain held).decode (Utf8.encode "deleted_forever") =
        .ok (.variant 2 .unit) := by
  have scalar : IsScalar held := by
    refine .wrapper _ (.wrapper _ (.choice _ ?_ ?_ ?_))
    · simp
    · decide
    · decide
  have inhabits : Inhabits held (.variant 2 .unit) :=
    .wrapper _ (.wrapper _ (.choice _ (by decide)))
  exact ⟨scalar, inhabits, scalar_roundtrip scalar inhabits⟩

end Plain
end CacheFacade

import CacheFacade.Proofs.Json.Announced
import CacheFacade.Proofs.Schema.Announce

/-!
Values read from a document in memory, seen from what they announce. A value that is shown as a bare
text was read from that text, or from an object that names it; and a value that was read from a text
has no brackets but those of a byte string.
-/

namespace CacheFacade

namespace Datum

/-- The text that a datum is, rather than holds. -/
def bareText? : Datum → Option String
  | .char c => .some c.toString
  | .text s => .some s
  | .unitVariant _ name => .some name
  | _ => .none

end Datum

namespace Document

/-- A text, or an object with one entry of that name. -/
def Names (s : String) (d : Document) : Prop := d = .text s ∨ ∃ inner, d = .object [(s, inner)]

theorem eq_text_of_bareText? {d : Document} {s : String} (bare : d.announce.bareText? = some s) :
    d = .text s := by
  cases d <;> cases bare
  rfl

theorem eq_text_of_normalize {d : Document} {s : String} (same : d.normalize = .text s) :
    d = .text s := by
  cases d <;> cases same
  rfl

end Document

namespace Ty

theorem eq_of_bareText?_announceBody {name s : String} {body : Body} {index : Nat} {v : Val}
    (bare : (announceBody name body index v).bareText? = some s) : name = s := by
  cases body with
  | unit =>
      cases bare
      rfl
  | wrap t => cases bare
  | tuple ts => cases v <;> cases bare
  | record fields => cases v <;> cases bare

theorem bareText?_announceTagged (tag : String) (variants : List (String × Body)) (i : Nat)
    (v : Val) : (announceTagged tag variants i v).bareText? = none := by
  induction variants generalizing i with
  | nil => rfl
  | cons x variants ih =>
      cases i with
      | zero =>
          rw [announceTagged]
          unfold announceTag
          split <;> rfl
      | succ i => exact ih i

theorem exists_of_accept_char {s : String} {v : Val} (taken : accept .char (.text s) = .ok v) :
    ∃ c : Char, v = .char c ∧ s = c.toString := by
  rw [accept] at taken
  split at taken
  case h_1 c chars =>
    cases taken
    refine ⟨c, rfl, ?_⟩
    rw [← String.toList_inj, chars]
    exact (String.toList_singleton c).symm
  case h_2 => cases taken

theorem nesting_bytes (bs : Bytes) : (Datum.document (.bytes bs)).nesting ≤ 1 := by
  apply Nat.succ_le_succ
  rw [Document.nestingItems_le]
  intro d member
  obtain ⟨b, -, rfl⟩ := List.mem_map.mp member
  exact Nat.le_refl 0

theorem nesting_le_of_accept_bytes {t : Ty} {bs : Bytes} {v : Val}
    (taken : t.accept (.bytes bs) = .ok v) : (t.announce v).document.nesting ≤ 1 := by
  cases t with
  | text =>
      rw [accept] at taken
      split at taken
      · cases taken
        exact Nat.zero_le 1
      · cases taken
  | bytes =>
      cases taken
      exact nesting_bytes bs
  | probe r => exact Nat.zero_le 1
  | _ => cases taken

end Ty

namespace Json.Buffered

theorem bind_eq_ok {α β ε : Type} {r : Except ε α} {f : α → Except ε β} {b : β}
    (run : (r >>= f) = .ok b) : ∃ a, r = .ok a ∧ f a = .ok b := by
  cases r with
  | error c => cases run
  | ok a => exact ⟨a, rfl, run⟩

/-- A choice takes its variant from a name, which the document is or has for its one entry. -/
theorem names_of_choice {names : List String} {arms : List Arm} {d : Document} {v : Val}
    (read : choice names arms d = .ok v) :
    ∃ s i w, d.Names s ∧ names[i]? = some s ∧ v = .variant i w := by
  unfold choice at read
  split at read
  case h_1 s =>
    obtain ⟨i, found, read⟩ := bind_eq_ok read
    split at read
    · obtain ⟨w, -, read⟩ := bind_eq_ok read
      cases read
      exact ⟨s, i, w, .inl rfl, getElem?_of_variantAt found, rfl⟩
    · cases read
  case h_2 s inner =>
    obtain ⟨i, found, read⟩ := bind_eq_ok read
    split at read
    · obtain ⟨w, -, read⟩ := bind_eq_ok read
      cases read
      exact ⟨s, i, w, .inr ⟨inner, rfl⟩, getElem?_of_variantAt found, rfl⟩
    · cases read
  case h_3 => cases read
  case h_4 => cases read

/-- The alternative of an untagged value. -/
theorem exists_of_read_untagged {name : String} {ts : List Ty} {d : Document} {v : Val}
    (reads : read (.untagged name ts) d = .ok v) :
    ∃ i t w, v = .variant i w ∧ ts[i]? = some t ∧ read t d = .ok w := by
  rw [read, readers_eq_map] at reads
  split at reads
  case h_1 chosen =>
    cases reads
    obtain ⟨i, t, w, eq, here, inner⟩ := exists_of_firstOf chosen
    exact ⟨i, t, w, by rw [eq, Nat.zero_add], here, inner⟩
  case h_2 => cases reads

theorem names_of_read {s : String} (t : Ty) {d : Document} {v : Val} (reads : read t d = .ok v)
    (bare : (t.announce v).bareText? = some s) : d.Names s := by
  match t with
  | .wrapper _ t => exact names_of_read t reads bare
  | .untagged name ts =>
      obtain ⟨i, t, w, rfl, here, inner⟩ := exists_of_read_untagged reads
      have smaller := List.sizeOf_lt_of_mem (List.mem_of_getElem? here)
      rw [Ty.announce, Ty.announceNth_of_getElem? here] at bare
      exact names_of_read t inner bare
  | .choice name variants =>
      obtain ⟨s', i, w, names, here, rfl⟩ := names_of_choice reads
      obtain ⟨⟨_, body⟩, there, rfl⟩ := Option.map_eq_some_iff.mp (List.getElem?_map .. ▸ here)
      rw [Ty.announce, Ty.announceVariant_of_getElem? there] at bare
      rw [← Ty.eq_of_bareText?_announceBody bare]
      exact names
  | .document =>
      cases reads
      exact .inl (Document.eq_text_of_normalize (Document.eq_text_of_bareText? bare))
  | .text =>
      cases d <;> cases reads
      cases bare
      exact .inl rfl
  | .char =>
      cases d with
      | text s' =>
          obtain ⟨c, rfl, rfl⟩ := Ty.exists_of_accept_char reads
          cases bare
          exact .inl rfl
      | _ => cases reads
  | .even =>
      cases v with
      | int n =>
          rw [Ty.announce, Ty.announceEven] at bare
          split at bare <;> cases bare
      | _ => cases bare
  | .tagged _ tag variants =>
      cases v with
      | variant i w =>
          rw [Ty.announce, Ty.bareText?_announceTagged] at bare
          cases bare
      | _ => cases bare
  -- No value of the other types is shown as a bare text.
  | .bool | .int _ | .f32 | .f64 | .bytes | .unit | .unitNamed _ | .option _ | .list _ | .tuple _
  | .tupleNamed _ _ | .map _ _ | .record _ _ _ | .openRecord _ _ | .bareNone | .probe _ =>
      cases v <;> cases bare
termination_by sizeOf t

theorem eq_unit_of_bare {path : String} {body : Body} {v : Val}
    (bare : (armOf path body).bare = .ok v) : body = .unit := by
  cases body <;> cases bare
  rfl

theorem exists_of_choice_text {name s : String} {variants : List (String × Body)} {v : Val}
    (reads : choice (variantNames variants) (arms name variants) (.text s) = .ok v) :
    ∃ i w, v = .variant i w ∧ variants[i]? = some (s, .unit) := by
  rw [choice, arms_eq_map] at reads
  obtain ⟨i, found, reads⟩ := bind_eq_ok reads
  split at reads
  case h_2 => cases reads
  case h_1 arm here =>
    obtain ⟨w, bare, reads⟩ := bind_eq_ok reads
    cases reads
    obtain ⟨⟨_, body⟩, there, rfl⟩ := Option.map_eq_some_iff.mp (List.getElem?_map .. ▸ here)
    obtain rfl := eq_unit_of_bare bare
    have named := getElem?_of_variantAt found
    rw [variantNames, List.getElem?_map, there] at named
    cases named
    exact ⟨i, w, rfl, there⟩

theorem nesting_le_of_read_text {s : String} (t : Ty) {v : Val} (reads : read t (.text s) = .ok v) :
    (t.announce v).document.nesting ≤ 1 := by
  match t with
  | .wrapper _ t => exact nesting_le_of_read_text t reads
  | .option t =>
      rw [read] at reads
      · obtain ⟨w, inner, eq⟩ := bind_eq_ok reads
        cases eq
        exact nesting_le_of_read_text t inner
      · exact nofun
  | .untagged name ts =>
      obtain ⟨i, t, w, rfl, here, inner⟩ := exists_of_read_untagged reads
      have smaller := List.sizeOf_lt_of_mem (List.mem_of_getElem? here)
      rw [Ty.announce, Ty.announceNth_of_getElem? here]
      exact nesting_le_of_read_text t inner
  | .choice name variants =>
      obtain ⟨i, w, rfl, here⟩ := exists_of_choice_text reads
      rw [Ty.announce, Ty.announceVariant_of_getElem? here]
      exact Nat.zero_le 1
  | .document | .text | .probe _ =>
      cases reads
      exact Nat.zero_le 1
  | .char =>
      obtain ⟨c, rfl, rfl⟩ := Ty.exists_of_accept_char reads
      exact Nat.zero_le 1
  | .bytes =>
      cases reads
      exact Ty.nesting_bytes _
  -- The other types refuse a text.
  | .tagged _ _ _ | .record _ _ _ | .openRecord _ _ | .list _ | .tuple _ | .tupleNamed _ _
  | .map _ _ | .bool | .int _ | .f32 | .f64 | .unit | .unitNamed _ | .even | .bareNone =>
      cases reads
termination_by sizeOf t

end Json.Buffered
end CacheFacade

import CacheFacade.Json.Buffered
import CacheFacade.Schema.Announce
import Mathlib.Data.List.Nodup

/-!
Variants by their place. What a variant announces is told by its name and body, wherever it stands,
and a name that is found stands where it was found.
-/

namespace CacheFacade

namespace Ty

theorem announceVariant_of_getElem? {variants : List (String × Body)} {left : Nat} {name : String}
    {body : Body} (here : variants[left]? = some (name, body)) (index : Nat) (v : Val) :
    announceVariant variants index left v = announceBody name body index v := by
  induction variants generalizing left with
  | nil => simp at here
  | cons x variants ih =>
      cases left with
      | zero =>
          obtain rfl := Option.some.inj here
          rfl
      | succ left => exact ih here

theorem announceNth_of_getElem? {ts : List Ty} {i : Nat} {t : Ty} (here : ts[i]? = some t)
    (v : Val) : announceNth ts i v = announce t v := by
  induction ts generalizing i with
  | nil => simp at here
  | cons u ts ih =>
      cases i with
      | zero =>
          obtain rfl := Option.some.inj here
          rfl
      | succ i => exact ih here

end Ty

namespace Json.Buffered

theorem getElem?_of_variantAt {names : List String} {s : String} {i : Nat}
    (found : variantAt names s = .ok i) : names[i]? = some s := by
  unfold variantAt at found
  split at found
  case h_1 _ at' =>
    cases found
    obtain ⟨bound, same, -⟩ := List.findIdx?_eq_some_iff_getElem.mp at'
    rw [List.getElem?_eq_getElem bound, beq_iff_eq.mp same]
  case h_2 => cases found

theorem variantAt_of_nodup {names : List String} (distinct : names.Nodup) {i : Nat} {s : String}
    (here : names[i]? = some s) : variantAt names s = .ok i := by
  obtain ⟨bound, rfl⟩ := List.getElem?_eq_some_iff.mp here
  have found : names.findIdx? (· == names[i]) = some i := by
    rw [List.findIdx?_eq_some_iff_getElem]
    refine ⟨bound, beq_self_eq_true _, ?_⟩
    intro j before same
    have equal := (distinct.getElem_inj_iff).mp (beq_iff_eq.mp same)
    omega
  rw [variantAt, found]

theorem arms_eq_map (name : String) (variants : List (String × Body)) :
    arms name variants = variants.map fun x => armOf s!"{name}::{x.1}" x.2 := by
  induction variants with
  | nil => rfl
  | cons x variants ih => rw [arms, ih, List.map_cons]

theorem readers_eq_map (ts : List Ty) : readers ts = ts.map fun t d => read t d := by
  induction ts with
  | nil => rfl
  | cons t ts ih => rw [readers, ih, List.map_cons]

theorem exists_of_firstOf {f : Ty → Reader} {ts : List Ty} {start : Nat} {d : Document} {v : Val}
    (chosen : firstOf (ts.map f) start d = some v) :
    ∃ i t w, v = .variant (start + i) w ∧ ts[i]? = some t ∧ f t d = .ok w := by
  induction ts generalizing start with
  | nil => cases chosen
  | cons t ts ih =>
      rw [List.map_cons, firstOf] at chosen
      split at chosen
      case h_1 w reads =>
        cases chosen
        exact ⟨0, t, w, rfl, rfl, reads⟩
      case h_2 =>
        obtain ⟨i, u, w, eq, here, reads⟩ := ih chosen
        exact ⟨i + 1, u, w, by rw [eq, Nat.add_assoc, Nat.add_comm 1], here, reads⟩

end Json.Buffered
end CacheFacade

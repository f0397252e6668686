import CacheFacade.Schema.Value

/-!
The order of keys. Two keys compare the same from either side, so entries come to stand in the order
of their keys from whatever order they come in.
-/

namespace CacheFacade
namespace Val

theorem swap_compare {α : Type} [Ord α] [Std.OrientedOrd α] (a b : α) :
    (compare a b).swap = compare b a :=
  Std.OrientedOrd.eq_swap.symm

mutual

theorem swap_order : (a b : Val) → (order a b).swap = order b a
  | .bool a, b => by
      cases b with
      | bool b => exact swap_compare a b
      | _ => rfl
  | .int a, b => by
      cases b with
      | int b => exact swap_compare a b
      | _ => rfl
  | .f32 a, b => by
      cases b with
      | f32 b => exact swap_compare a b
      | _ => rfl
  | .f64 a, b => by
      cases b with
      | f64 b => exact swap_compare a b
      | _ => rfl
  | .char a, b => by
      cases b with
      | char b => exact swap_compare a b
      | _ => rfl
  | .text a, b => by
      cases b with
      | text b => exact swap_compare a b
      | _ => rfl
  | .bytes a, b => by
      cases b with
      | bytes b => exact swap_compare a b
      | _ => rfl
  | .some a, b => by
      cases b with
      | some b => exact swap_order a b
      | _ => rfl
  | .list as, b => by
      cases b with
      | list bs => exact swap_orderList as bs
      | _ => rfl
  | .map as, b => by
      cases b with
      | map bs => exact swap_orderEntries as bs
      | _ => rfl
  | .variant i a, b => by
      cases b with
      | variant j b =>
          rw [order, order, Ordering.swap_then, swap_compare, swap_order a b]
      | _ => rfl
  | .unit, b | .none, b | .document _, b | .sighting _, b => by cases b <;> rfl

theorem swap_orderList : (as bs : List Val) → (orderList as bs).swap = orderList bs as
  | [], [] | [], _ :: _ | _ :: _, [] => rfl
  | a :: as, b :: bs => by
      rw [orderList, orderList, Ordering.swap_then, swap_order a b, swap_orderList as bs]

theorem swap_orderEntries :
    (as bs : List (Val × Val)) → (orderEntries as bs).swap = orderEntries bs as
  | [], [] | [], _ :: _ | _ :: _, [] => rfl
  | (k, a) :: as, (l, b) :: bs => by
      rw [orderEntries, orderEntries, Ordering.swap_then, Ordering.swap_then, swap_order k l,
        swap_order a b, swap_orderEntries as bs]

end

theorem order_gt_of_lt {a b : Val} (before : order a b = .lt) : order b a = .gt := by
  rw [← swap_order a b, before]
  rfl

/-- The entries stand in the order of their keys, and no two have one key. -/
def InOrder (es : List (Val × Val)) : Prop := es.Pairwise fun e f => order e.1 f.1 = .lt

section Entries

variable {e : Val × Val} {acc es es' : List (Val × Val)}

theorem InOrder.nodup (ordered : InOrder es) : es.Nodup := by
  refine List.Pairwise.imp ?_ ordered
  rintro e f before rfl
  have after := order_gt_of_lt before
  rw [before] at after
  cases after

theorem insertEntry_of_lt (first : ∀ f ∈ acc, order e.1 f.1 = .lt) :
    insertEntry e.1 e.2 acc = e :: acc := by
  cases acc with
  | nil => rfl
  | cons f acc => rw [insertEntry, first f List.mem_cons_self]

/-- An entry that is inserted among some of the others comes to its place. -/
theorem insertEntry_sublist (ordered : InOrder es) (member : e ∈ es) (some : acc.Sublist es)
    (new : e ∉ acc) :
    (insertEntry e.1 e.2 acc).Sublist es ∧ (insertEntry e.1 e.2 acc).Perm (e :: acc) := by
  induction es generalizing acc with
  | nil => cases member
  | cons x xs ih =>
      obtain ⟨before, ordered'⟩ := List.pairwise_cons.mp ordered
      cases some with
      | cons _ some =>
          obtain rfl | member := List.mem_cons.mp member
          · rw [insertEntry_of_lt fun f there => before f (some.subset there)]
            exact ⟨some.cons_cons _, .refl _⟩
          · obtain ⟨among, same⟩ := ih ordered' member some new
            exact ⟨among.cons _, same⟩
      | cons_cons _ some =>
          obtain ⟨other, new⟩ := not_or.mp (mt List.mem_cons.mpr new)
          have member := (List.mem_cons.mp member).resolve_left other
          obtain ⟨among, same⟩ := ih ordered' member some new
          rw [insertEntry, order_gt_of_lt (before e member)]
          exact ⟨among.cons_cons _, (same.cons x).trans (.swap e x _)⟩

theorem foldl_insertEntry_of_perm (ordered : InOrder es) (some : acc.Sublist es)
    (rest : (acc ++ es').Perm es) :
    es'.foldl (fun acc e => insertEntry e.1 e.2 acc) acc = es := by
  induction es' generalizing acc with
  | nil =>
      rw [List.append_nil] at rest
      exact some.eq_of_length rest.length_eq
  | cons e es' ih =>
      have new : e ∉ acc := by
        intro there
        have distinct := rest.nodup_iff.mpr ordered.nodup
        exact (List.nodup_append.mp distinct).2.2 e there e List.mem_cons_self rfl
      have member : e ∈ es := rest.subset (List.mem_append_right _ List.mem_cons_self)
      obtain ⟨among, same⟩ := insertEntry_sublist ordered member some new
      refine ih among (.trans ?_ rest)
      exact (same.append_right es').trans List.perm_middle.symm

/-- Entries are put in the order of their keys from whatever order they come in. -/
theorem sortEntries_of_perm (ordered : InOrder es) (same : es'.Perm es) : sortEntries es' = es :=
  foldl_insertEntry_of_perm ordered (List.nil_sublist _) same

end Entries

end Val
end CacheFacade

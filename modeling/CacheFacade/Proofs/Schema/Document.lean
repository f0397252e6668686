import CacheFacade.Proofs.Json.Announced
import CacheFacade.Schema.Document

/-!
Documents as values. A value holds no entry twice and keeps its entries in the order of their names,
so that normalizing leaves it alone; whatever is normalized, the names of an object stay.
-/

namespace CacheFacade
namespace Document

mutual

/-- A document that is held as a value, without floating numbers. -/
def IsValue : Document → Prop
  | .int n => Json.IsWord n
  | .float _ => False
  | .array items => AreValues items
  | .object entries => entries.Pairwise (fun e f => compare e.1 f.1 = .lt) ∧ HoldValues entries
  | _ => True

def AreValues : List Document → Prop
  | [] => True
  | d :: ds => IsValue d ∧ AreValues ds

def HoldValues : List (String × Document) → Prop
  | [] => True
  | (_, d) :: rest => IsValue d ∧ HoldValues rest

end

theorem insertEntry_of_lt {α : Type} {name : String} {value : α} {es : List (String × α)}
    (after : ∀ e ∈ es, compare e.1 name = .lt) :
    insertEntry name value es = es ++ [(name, value)] := by
  induction es with
  | nil => rfl
  | cons e es ih =>
      obtain ⟨k, v⟩ := e
      have last := Std.OrientedCmp.gt_iff_lt.mpr (after _ List.mem_cons_self)
      simp only [insertEntry, last]
      rw [ih fun e member => after e (List.mem_cons_of_mem _ member)]
      rfl

theorem foldl_insertEntry_of_pairwise {α : Type} (acc es : List (String × α))
    (sorted : (acc ++ es).Pairwise fun e f => compare e.1 f.1 = .lt) :
    es.foldl (fun acc e => insertEntry e.1 e.2 acc) acc = acc ++ es := by
  induction es generalizing acc with
  | nil => simp
  | cons e es ih =>
      have after : ∀ f ∈ acc, compare f.1 e.1 = .lt := fun f member =>
        (List.pairwise_append.mp sorted).2.2 f member e List.mem_cons_self
      rw [List.foldl_cons, insertEntry_of_lt after, ih _ (by simpa using sorted)]
      simp

/-- Entries in the order of their names are left as they are. -/
theorem sortEntries_of_pairwise {α : Type} {es : List (String × α)}
    (sorted : es.Pairwise fun e f => compare e.1 f.1 = .lt) : sortEntries es = es :=
  foldl_insertEntry_of_pairwise [] es sorted

mutual

theorem normalize_of_isValue : (d : Document) → d.IsValue → d.normalize = d
  | .null, _ | .bool _, _ | .int _, _ | .text _, _ => rfl
  | .array items, value => by rw [normalize, normalizeItems_of_areValues items value]
  | .object entries, value => by
      rw [normalize, normalizeEntries_of_holdValues entries value.2,
        sortEntries_of_pairwise value.1]

theorem normalizeItems_of_areValues : (ds : List Document) → AreValues ds → normalizeItems ds = ds
  | [], _ => rfl
  | d :: ds, value => by
      rw [normalizeItems, normalize_of_isValue d value.1, normalizeItems_of_areValues ds value.2]

theorem normalizeEntries_of_holdValues :
    (es : List (String × Document)) → HoldValues es → normalizeEntries es = es
  | [], _ => rfl
  | (k, d) :: es, value => by
      rw [normalizeEntries, normalize_of_isValue d value.1,
        normalizeEntries_of_holdValues es value.2]

end

mutual

theorem announce_exact : (d : Document) → d.IsValue → d.announce.Exact ∧ d.announce.document = d
  | .null, _ | .bool _, _ | .text _, _ => ⟨trivial, rfl⟩
  | .int _, word => ⟨word, rfl⟩
  | .array items, value => by
      obtain ⟨exact, same⟩ := announceItems_exact items value
      exact ⟨exact, congrArg Document.array same⟩
  | .object entries, value => by
      obtain ⟨exact, same⟩ := announceEntries_exact entries value.2
      exact ⟨exact, congrArg Document.object same⟩

theorem announceItems_exact : (ds : List Document) → AreValues ds →
    Datum.ExactAll (announceItems ds) ∧ Datum.documents (announceItems ds) = ds
  | [], _ => ⟨trivial, rfl⟩
  | d :: ds, value => by
      obtain ⟨head, same⟩ := announce_exact d value.1
      obtain ⟨tail, rest⟩ := announceItems_exact ds value.2
      refine ⟨⟨head, tail⟩, ?_⟩
      rw [announceItems, Datum.documents, same, rest]

theorem announceEntries_exact : (es : List (String × Document)) → HoldValues es →
    Datum.ExactEntries (announceEntries es) ∧ Datum.documentEntries (announceEntries es) = es
  | [], _ => ⟨trivial, rfl⟩
  | (k, d) :: es, value => by
      obtain ⟨head, same⟩ := announce_exact d value.1
      obtain ⟨tail, rest⟩ := announceEntries_exact es value.2
      refine ⟨⟨rfl, head, tail⟩, ?_⟩
      rw [announceEntries, Datum.documentEntries, same, rest]
      rfl

end

theorem mem_names_insertEntry {α : Type} {name s : String} {value : α} {es : List (String × α)}
    (member : s = name ∨ s ∈ es.map (·.1)) : s ∈ (insertEntry name value es).map (·.1) := by
  induction es with
  | nil => simpa [insertEntry] using member
  | cons e es ih =>
      obtain ⟨k, v⟩ := e
      rw [insertEntry]
      split
      case h_1 => simpa using member
      case h_2 same =>
        obtain rfl := Std.LawfulEqCmp.eq_of_compare same
        simpa using member
      case h_3 =>
        simp only [List.map_cons, List.mem_cons] at member ⊢
        obtain own | first | later := member
        · exact .inr (ih (.inl own))
        · exact .inl first
        · exact .inr (ih (.inr later))

theorem mem_names_foldl {α : Type} {s : String} (es acc : List (String × α))
    (member : s ∈ acc.map (·.1) ∨ s ∈ es.map (·.1)) :
    s ∈ (es.foldl (fun acc e => insertEntry e.1 e.2 acc) acc).map (·.1) := by
  induction es generalizing acc with
  | nil => simpa using member
  | cons e es ih =>
      rw [List.foldl_cons]
      apply ih
      rw [List.map_cons, List.mem_cons] at member
      obtain before | own | later := member
      · exact .inl (mem_names_insertEntry (.inr before))
      · exact .inl (mem_names_insertEntry (.inl own))
      · exact .inr later

theorem mem_names_sortEntries {α : Type} {s : String} {es : List (String × α)}
    (member : s ∈ es.map (·.1)) : s ∈ (sortEntries es).map (·.1) :=
  mem_names_foldl es [] (.inr member)

end Document
end CacheFacade

import CacheFacade.Proofs.Json.Bracket

/-!
Documents in their text. A document is read from what its parts were read from; it is nested no
deeper than the levels that were allowed, and more levels make no difference to it. A text that is
read, and the first name of an object, are shorter than the bytes they were read from.
-/

namespace CacheFacade

namespace Document

mutual

/-- The levels of brackets in a document. -/
def nesting : Document → Nat
  | .array items => nestingItems items + 1
  | .object entries => nestingEntries entries + 1
  | _ => 0

def nestingItems : List Document → Nat
  | [] => 0
  | d :: ds => max (nesting d) (nestingItems ds)

def nestingEntries : List (String × Document) → Nat
  | [] => 0
  | (_, d) :: rest => max (nesting d) (nestingEntries rest)

end

theorem nestingItems_le {ds : List Document} {n : Nat} :
    nestingItems ds ≤ n ↔ ∀ d ∈ ds, d.nesting ≤ n := by
  induction ds with
  | nil => simp [nestingItems]
  | cons d ds ih => simp only [nestingItems, Nat.max_le, ih, List.forall_mem_cons]

theorem nestingEntries_le {es : List (String × Document)} {n : Nat} :
    nestingEntries es ≤ n ↔ ∀ e ∈ es, e.2.nesting ≤ n := by
  induction es with
  | nil => simp [nestingEntries]
  | cons e es ih => simp only [nestingEntries, Nat.max_le, ih, List.forall_mem_cons]

end Document

namespace Json

open Scan

/-- The document that a scalar of the grammar is. -/
def documentOf (s : Scalar) : Document := s.document?.getD .null

/-- One entry of an object, with a document as its value. -/
def documentEntry (depth : Nat) : Scan (String × Document) := do
  let name ← entryName
  colon
  return (name, ← document depth)

theorem document_of_scalar {bs rest : Bytes} {s : Scalar}
    (here : offer bs = .done (.scalar s) rest) (depth : Nat) :
    document depth bs = .done (documentOf s) rest := by
  cases depth with
  | zero | succ _ =>
      unfold document
      exact bind_of_done here _

theorem document_of_list {bs mid : Bytes} (here : offer bs = .done .list mid) (depth : Nat) :
    document (depth + 1) bs =
      (enclosed closeList (items (document depth)) >>= fun ds => pure (.array ds)) mid.tail := by
  rw [document]
  exact bind_of_done here _

theorem document_of_object {bs mid : Bytes} (here : offer bs = .done .object mid) (depth : Nat) :
    document (depth + 1) bs =
      (enclosed closeObject (entries (documentEntry depth)) >>=
        fun es => pure (.object es)) mid.tail := by
  rw [document]
  exact bind_of_done here _

theorem exists_offer {depth : Nat} {bs rest : Bytes} {d : Document}
    (run : document depth bs = .done d rest) : ∃ o mid, offer bs = .done o mid := by
  cases depth with
  | zero | succ _ =>
      rw [document] at run
      obtain ⟨o, mid, here, -⟩ := exists_of_bind run
      exact ⟨o, mid, here⟩

theorem exists_of_documentEntry {depth : Nat} {bs rest : Bytes} {e : String × Document}
    (run : documentEntry depth bs = .done e rest) :
    ∃ mid mid', entryName bs = .done e.1 mid ∧ colon mid = .done () mid' ∧
      document depth mid' = .done e.2 rest := by
  rw [documentEntry] at run
  obtain ⟨name, mid, named, run⟩ := exists_of_bind run
  obtain ⟨_, mid', colon, run⟩ := exists_of_bind run
  obtain ⟨d, _, value, run⟩ := exists_of_bind run
  obtain ⟨rfl, rfl⟩ := of_pure run
  exact ⟨mid, mid', named, colon, value⟩

/-- What a document that was read is made of. -/
theorem document_cases {depth : Nat} {bs rest : Bytes} {d : Document}
    (run : document depth bs = .done d rest) :
    (∃ s, offer bs = .done (.scalar s) rest ∧ d = documentOf s) ∨
      (∃ level mid ds, depth = level + 1 ∧ offer bs = .done .list mid ∧
        enclosed closeList (items (document level)) mid.tail = .done ds rest ∧ d = .array ds) ∨
      (∃ level mid es, depth = level + 1 ∧ offer bs = .done .object mid ∧
        enclosed closeObject (entries (documentEntry level)) mid.tail = .done es rest ∧
        d = .object es) := by
  obtain ⟨o, mid, here⟩ := exists_offer run
  cases o with
  | scalar s =>
      rw [document_of_scalar here] at run
      cases run
      exact .inl ⟨s, here, rfl⟩
  | list =>
      cases depth with
      | zero =>
          rw [document, bind_of_done here] at run
          cases run
      | succ level =>
          rw [document_of_list here] at run
          obtain ⟨ds, _, inside, run⟩ := exists_of_bind run
          obtain ⟨rfl, rfl⟩ := of_pure run
          exact .inr (.inl ⟨level, mid, ds, rfl, here, inside, rfl⟩)
  | object =>
      cases depth with
      | zero =>
          rw [document, bind_of_done here] at run
          cases run
      | succ level =>
          rw [document_of_object here] at run
          obtain ⟨es, _, inside, run⟩ := exists_of_bind run
          obtain ⟨rfl, rfl⟩ := of_pure run
          exact .inr (.inr ⟨level, mid, es, rfl, here, inside, rfl⟩)

theorem document_takes_scalar {text : Bytes} {s : Scalar} (takes : offer.Takes text (.scalar s))
    (depth : Nat) : (document depth).Takes text (documentOf s) :=
  fun rest ends => document_of_scalar (takes rest ends) depth

theorem document_takes_list {depth : Nat} {ds : List Document} {texts : List Bytes}
    (each : List.Forall₂ (fun d text => OpensItem text ∧ (document depth).Takes text d) ds texts) :
    (document (depth + 1)).Takes (Writer.list texts) (.array ds) := by
  intro rest _
  have inside := enclosed_closeList (items_commaSeparated each rest)
  have bytes : Writer.list texts ++ rest = 91 :: (Writer.commaSeparated texts ++ 93 :: rest) := by
    simp [Writer.list]
  rw [bytes, document_of_list (offer_list _)]
  exact bind_of_done inside _

theorem documentEntry_takes {depth : Nat} {d : Document} {text : Bytes} (name : String)
    (takes : (document depth).Takes text d) :
    (documentEntry depth).Takes (Writer.text name ++ 58 :: text) (name, d) := by
  intro rest ends
  have named : entryName (Writer.text name ++ 58 :: text ++ rest) =
      .done name (58 :: (text ++ rest)) := by
    rw [List.append_assoc, text_append]
    exact Text.text_append name _
  rw [documentEntry, bind_of_done named]
  change (document depth >>= fun d => pure (name, d)) (text ++ rest) = _
  exact bind_of_done (takes rest ends) _

theorem document_takes_object {depth : Nat} {es : List (String × Document)}
    {parts : List (Bytes × Bytes)}
    (each : List.Forall₂
      (fun e part => part.1 = Writer.text e.1 ∧ (document depth).Takes part.2 e.2) es parts) :
    (document (depth + 1)).Takes (Writer.object parts) (.object es) := by
  intro rest _
  have entry : List.Forall₂
      (fun e text => OpensEntry text ∧ (documentEntry depth).Takes text e) es
      (parts.map fun part => part.1 ++ 58 :: part.2) := by
    rw [List.forall₂_map_right_iff]
    refine each.imp ?_
    rintro ⟨name, d⟩ ⟨_, text⟩ ⟨rfl, takes⟩
    exact ⟨⟨_, text_append name _⟩, documentEntry_takes name takes⟩
  have inside := enclosed_closeObject (entries_commaSeparated entry rest)
  have bytes : Writer.object parts ++ rest =
      123 :: (Writer.commaSeparated (parts.map fun part => part.1 ++ 58 :: part.2) ++
        125 :: rest) := by
    simp [Writer.object]
  rw [bytes, document_of_object (offer_object _)]
  exact bind_of_done inside _

section Depth

variable {α : Type}

theorem series_mono {goesOn : Bool → Scan Bool} {s s' : Scan α}
    (more : ∀ bs a rest, s bs = .done a rest → s' bs = .done a rest) {fuel : Nat} {first : Bool}
    {bs rest : Bytes} {as : List α} (run : series goesOn s fuel first bs = .done as rest) :
    series goesOn s' fuel first bs = .done as rest := by
  induction fuel generalizing first bs rest as with
  | zero => exact run
  | succ fuel ih =>
      rw [series] at run ⊢
      obtain ⟨on, mid, goes, run⟩ := exists_of_bind run
      rw [bind_of_done goes]
      cases on with
      | false => exact run
      | true =>
          rw [if_pos rfl] at run ⊢
          obtain ⟨a, mid, head, run⟩ := exists_of_bind run
          obtain ⟨tail, mid, run', run⟩ := exists_of_bind run
          rw [bind_of_done (more _ _ _ head), bind_of_done (ih run')]
          exact run

theorem exists_of_enclosed {close : Bytes → Bytes × Option Grammar} {s : Scan α} {bs rest : Bytes}
    {a : α} (run : enclosed close s bs = .done a rest) : ∃ mid, s bs = .done a mid := by
  unfold enclosed at run
  cases inside : s bs with
  | done b mid =>
      rw [inside] at run
      simp only at run
      split at run
      · cases run
        exact ⟨mid, rfl⟩
      · cases run
  | refused c mid =>
      rw [inside] at run
      cases run
  | failed f n =>
      rw [inside] at run
      cases run

theorem enclosed_mono {close : Bytes → Bytes × Option Grammar} {s s' : Scan α} {bs rest : Bytes}
    {a : α} (more : ∀ a rest, s bs = .done a rest → s' bs = .done a rest)
    (run : enclosed close s bs = .done a rest) : enclosed close s' bs = .done a rest := by
  obtain ⟨mid, inside⟩ := exists_of_enclosed run
  unfold enclosed at run ⊢
  rw [inside] at run
  rw [more _ _ inside]
  exact run

theorem document_succ {depth : Nat} {bs rest : Bytes} {d : Document}
    (run : document depth bs = .done d rest) : document (depth + 1) bs = .done d rest := by
  -- By induction on the levels: what stands between brackets was read one level below.
  induction depth generalizing bs rest d with
  | zero =>
      obtain ⟨s, here, rfl⟩ | ⟨level, _, _, eq, -⟩ | ⟨level, _, _, eq, -⟩ := document_cases run
      · exact document_of_scalar here 1
      · cases eq
      · cases eq
  | succ depth ih =>
      obtain ⟨s, here, rfl⟩ | ⟨level, mid, ds, eq, here, inside, rfl⟩ |
        ⟨level, mid, es, eq, here, inside, rfl⟩ := document_cases run
      · exact document_of_scalar here _
      · cases eq
        rw [document_of_list here]
        apply bind_of_done (enclosed_mono _ inside)
        intro ds rest items
        rw [Json.items, itemsFrom_eq_series] at items ⊢
        exact series_mono (fun bs d rest run => ih run) items
      · cases eq
        rw [document_of_object here]
        apply bind_of_done (enclosed_mono _ inside)
        intro es rest entries
        rw [Json.entries, entriesFrom_eq_series] at entries ⊢
        refine series_mono (fun bs e rest run => ?_) entries
        obtain ⟨_, _, named, colon, value⟩ := exists_of_documentEntry run
        rw [documentEntry, bind_of_done named, bind_of_done colon, bind_of_done (ih value)]
        rfl

theorem document_of_le {n m : Nat} (le : n ≤ m) {bs rest : Bytes} {d : Document}
    (run : document n bs = .done d rest) : document m bs = .done d rest := by
  induction le with
  | refl => exact run
  | step _ ih => exact document_succ ih

/-- What holds of each item that is read holds of all items of a series. -/
theorem forall_mem_of_series {goesOn : Bool → Scan Bool} {s : Scan α} {P : α → Prop}
    (each : ∀ bs a rest, s bs = .done a rest → P a) {fuel : Nat} {first : Bool} {bs rest : Bytes}
    {as : List α} (run : series goesOn s fuel first bs = .done as rest) : ∀ a ∈ as, P a := by
  induction fuel generalizing first bs rest as with
  | zero =>
      obtain ⟨rfl, -⟩ := of_pure run
      simp
  | succ fuel ih =>
      rw [series] at run
      obtain ⟨on, mid, -, run⟩ := exists_of_bind run
      cases on with
      | false =>
          obtain ⟨rfl, -⟩ := of_pure run
          simp
      | true =>
          rw [if_pos rfl] at run
          obtain ⟨a, mid, head, run⟩ := exists_of_bind run
          obtain ⟨tail, mid, run', run⟩ := exists_of_bind run
          obtain ⟨rfl, -⟩ := of_pure run
          exact List.forall_mem_cons.mpr ⟨each _ _ _ head, ih run'⟩

theorem nesting_documentOf (s : Scalar) : (documentOf s).nesting = 0 := by
  cases s <;> rfl

theorem nesting_le_of_document {depth : Nat} {bs rest : Bytes} {d : Document}
    (run : document depth bs = .done d rest) : d.nesting ≤ depth := by
  induction depth generalizing bs rest d with
  | zero =>
      obtain ⟨s, here, rfl⟩ | ⟨level, _, _, eq, -⟩ | ⟨level, _, _, eq, -⟩ := document_cases run
      · exact Nat.le_of_eq (nesting_documentOf s)
      · cases eq
      · cases eq
  | succ depth ih =>
      obtain ⟨s, here, rfl⟩ | ⟨level, mid, ds, eq, here, inside, rfl⟩ |
        ⟨level, mid, es, eq, here, inside, rfl⟩ := document_cases run
      · rw [nesting_documentOf]
        exact Nat.zero_le _
      · cases eq
        obtain ⟨_, items⟩ := exists_of_enclosed inside
        rw [Json.items, itemsFrom_eq_series] at items
        apply Nat.succ_le_succ
        exact Document.nestingItems_le.mpr
          (forall_mem_of_series (fun bs d rest run => ih run) items)
      · cases eq
        obtain ⟨_, entries⟩ := exists_of_enclosed inside
        rw [Json.entries, entriesFrom_eq_series] at entries
        apply Nat.succ_le_succ
        apply Document.nestingEntries_le.mpr
        refine forall_mem_of_series (fun bs e rest run => ?_) entries
        obtain ⟨_, _, -, -, value⟩ := exists_of_documentEntry run
        exact ih value

end Depth

section Length

theorem exists_of_offer {bs mid : Bytes} {o : Offer} (run : offer bs = .done o mid) :
    ∃ b rest, dropBlanks bs = b :: rest ∧ offer (b :: rest) = .done o mid := by
  cases left : dropBlanks bs with
  | nil =>
      unfold offer at run
      rw [bind_blanks, left] at run
      cases run
  | cons b rest =>
      have solid := dropBlanks_eq_cons left
      refine ⟨b, rest, rfl, ?_⟩
      unfold offer at run ⊢
      rw [bind_blanks, left] at run
      rw [bind_blanks, dropBlanks_cons solid]
      exact run

/-- What stands at a place: a text after its quote, a bracket, or a scalar that is no text. -/
theorem offer_cases {bs mid : Bytes} {o : Offer} (run : offer bs = .done o mid) :
    (∃ tail s, dropBlanks bs = 34 :: tail ∧ Text.text tail = .done s mid ∧
        o = .scalar (.text s)) ∨
      (∃ s, o = .scalar s ∧ ∀ t, s ≠ .text t) ∨
      (mid = dropBlanks bs ∧ (o = .list ∨ o = .object)) := by
  obtain ⟨b, tail, left, run⟩ := exists_of_offer run
  rw [offer_cons (dropBlanks_eq_cons left)] at run
  split_ifs at run with null truth falsity quote list object number
  · obtain ⟨_, _, -, run⟩ := exists_of_bind run
    cases run
    exact .inr (.inl ⟨_, rfl, nofun⟩)
  · obtain ⟨_, _, -, run⟩ := exists_of_bind run
    cases run
    exact .inr (.inl ⟨_, rfl, nofun⟩)
  · obtain ⟨_, _, -, run⟩ := exists_of_bind run
    cases run
    exact .inr (.inl ⟨_, rfl, nofun⟩)
  · obtain ⟨s, _, read, run⟩ := exists_of_bind run
    cases run
    exact .inl ⟨tail, s, quote ▸ left, read, rfl⟩
  · cases run
    exact .inr (.inr ⟨left.symm, .inl rfl⟩)
  · cases run
    exact .inr (.inr ⟨left.symm, .inr rfl⟩)
  · obtain ⟨n, _, -, run⟩ := exists_of_bind run
    cases run
    cases n <;> exact .inr (.inl ⟨_, rfl, nofun⟩)
  · cases run

theorem length_of_offer_text {bs rest : Bytes} {s : String}
    (run : offer bs = .done (.scalar (.text s)) rest) : (Utf8.encode s).length < bs.length := by
  have short := length_dropBlanks_le bs
  obtain ⟨tail, _, left, read, eq⟩ | ⟨_, eq, other⟩ | ⟨-, eq | eq⟩ := offer_cases run
  · cases eq
    have inside := Text.length_of_text read
    rw [left, List.length_cons] at short
    omega
  · cases eq
    exact absurd rfl (other s)
  · cases eq
  · cases eq

theorem length_of_offer_object {bs mid : Bytes} (run : offer bs = .done .object mid) :
    mid.length ≤ bs.length := by
  obtain ⟨_, _, _, _, eq⟩ | ⟨_, eq, _⟩ | ⟨rfl, _⟩ := offer_cases run
  · cases eq
  · cases eq
  · exact length_dropBlanks_le bs

theorem length_of_objectGoesOn {bs mid : Bytes} {on : Bool}
    (run : objectGoesOn true bs = .done on mid) : mid.length ≤ bs.length := by
  have short := length_dropBlanks_le bs
  unfold objectGoesOn at run
  rw [bind_blanks] at run
  cases head : (dropBlanks bs).head? with
  | none =>
      rw [head] at run
      cases run
  | some b =>
      rw [head] at run
      by_cases close : b = 125
      · subst close
        cases run
        exact short
      · simp only [if_true] at run
        obtain ⟨-, run⟩ | ⟨-, run⟩ := of_ite run
        · cases run
          exact short
        · cases run

theorem length_of_document_object {depth : Nat} {bs rest : Bytes} {name : String} {d : Document}
    {es : List (String × Document)}
    (run : document depth bs = .done (.object ((name, d) :: es)) rest) :
    (Utf8.encode name).length < bs.length := by
  obtain ⟨s, -, eq⟩ | ⟨_, _, _, -, -, -, eq⟩ | ⟨level, mid, es', -, here, inside, eq⟩ :=
    document_cases run
  · cases s <;> cases eq
  · cases eq
  · cases eq
    obtain ⟨_, entries⟩ := exists_of_enclosed inside
    rw [Json.entries, entriesFrom_eq_series, series] at entries
    have outer := length_of_offer_object here
    obtain ⟨on, start, goes, run⟩ := exists_of_bind entries
    have inner := length_of_objectGoesOn goes
    cases on with
    | false => cases run
    | true =>
        rw [if_pos rfl] at run
        obtain ⟨e, _, head, run⟩ := exists_of_bind run
        obtain ⟨_, _, -, run⟩ := exists_of_bind run
        cases run
        obtain ⟨_, _, named, -, -⟩ := exists_of_documentEntry head
        rw [entryName, bind_skip] at named
        have short := Text.length_of_text named
        simp only [List.length_tail] at short inner
        omega

theorem length_of_document_text {depth : Nat} {bs rest : Bytes} {s : String}
    (run : document depth bs = .done (.text s) rest) : (Utf8.encode s).length < bs.length := by
  obtain ⟨scalar, here, eq⟩ | ⟨_, _, _, -, -, -, eq⟩ | ⟨_, _, _, -, -, -, eq⟩ :=
    document_cases run
  · cases scalar <;> cases eq
    exact length_of_offer_text here
  · cases eq
  · cases eq

end Length

end Json
end CacheFacade

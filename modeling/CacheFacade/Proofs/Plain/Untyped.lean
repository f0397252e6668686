import CacheFacade.Codec
import CacheFacade.Proofs.Json.Buffered
import CacheFacade.Proofs.Schema.Document
import CacheFacade.Schema.Catalogue

/-!
Types that take what comes, under the plain strategy: documents, and alternatives without a tag. A
bare text is written without quotes, so it comes back only if it is no document text itself; what
has brackets comes back only if a reader opens that many.
-/

namespace CacheFacade
namespace Plain

open Json

/-- A datum that is taken for what it is when its plain form is read: no bare text that is a
document text, and no more brackets than a text may open. -/
def Legible (x : Datum) : Prop :=
  (∀ s, x.bareText? = some s → ∀ d, readDocument (Utf8.encode s) ≠ .ok d) ∧
    x.document.nesting ≤ deepest

/-- Types that take what comes, with their values: documents as they are held, and alternatives
without a tag that a document text holds exactly. -/
inductive IsUntyped : Ty → Val → Prop where
  | document {d : Document} (value : d.IsValue) : IsUntyped .document (.document d)
  | untagged {name : String} {ts : List Ty} {v : Val}
      (exact : ((Ty.untagged name ts).announce v).Exact) : IsUntyped (.untagged name ts) v

/-- Of alternatives without a tag, the one of the value is the first that its document fits. -/
def FitsFirst : Ty → Val → Prop
  | .untagged name ts, v =>
    Buffered.read (.untagged name ts) ((Ty.untagged name ts).announce v).document.normalize = .ok v
  | _, _ => True

theorem scalarText?_of_bareText? {x : Datum} {s : String} (bare : x.bareText? = some s) :
    scalarText? x = some s := by
  cases x <;> cases bare <;> rfl

theorem document_of_bareText? {x : Datum} {s : String} (bare : x.bareText? = some s) :
    x.document = .text s := by
  cases x <;> cases bare <;> rfl

theorem write_of_bareText? {t : Ty} {v : Val} {s : String}
    (bare : (t.announce v).bareText? = some s) : write t v = .ok (Utf8.encode s) := by
  rw [write, scalarText?_of_bareText? bare]

theorem write_stands {t : Ty} {v : Val} (exact : (t.announce v).Exact)
    (held : (t.announce v).bareText? = none) :
    ∃ text, write t v = .ok text ∧ Stands (t.announce v).document text := by
  have written := Json.write_stands (t.announce v) exact
  unfold write
  generalize t.announce v = x at exact held written
  cases x with
  | bool b => exact ⟨_, rfl, stands_bool b⟩
  | int k n => exact ⟨_, rfl, stands_int exact⟩
  | f32 | f64 => cases exact
  | char | text | unitVariant => cases held
  | _ => exact written

theorem readDocument_of_stands {d : Document} {text : Bytes} (stands : Stands d text)
    (shallow : d.nesting ≤ deepest) : readDocument text = .ok d := by
  apply Scan.run_of_done
  simpa using stands.takes deepest shallow [] ends_nil

theorem nesting_le_of_readDocument {d d' : Document} {text : Bytes} (stands : Stands d text)
    (read : readDocument text = .ok d') : d.nesting ≤ deepest := by
  obtain ⟨rest, run⟩ := Scan.exists_of_run read
  by_contra deep
  -- With as many levels as it needs, the text is read as `d`, so with fewer it is no other one.
  have deeper := document_of_le (Nat.le_of_lt (Nat.not_le.mp deep)) run
  have whole := stands.takes d.nesting (Nat.le_refl _) [] ends_nil
  rw [List.append_nil, deeper] at whole
  cases whole
  exact deep (nesting_le_of_document run)

/-- No text names itself: a document in it is shorter. -/
theorem not_names_of_readDocument {s : String} {d : Document}
    (read : readDocument (Utf8.encode s) = .ok d) : ¬ d.normalize.Names s := by
  obtain ⟨rest, run⟩ := Scan.exists_of_run read
  rintro (same | ⟨inner, same⟩)
  · obtain rfl := Document.eq_text_of_normalize same
    exact absurd (length_of_document_text run) (Nat.lt_irrefl _)
  · cases d with
    | object es =>
        have sorted := Document.object.inj same
        cases es with
        | nil => cases sorted
        | cons e es =>
            obtain ⟨name, d⟩ := e
            have kept : name ∈ (Document.normalizeEntries ((name, d) :: es)).map (·.1) :=
              List.mem_cons_self
            have alone := Document.mem_names_sortEntries kept
            rw [sorted] at alone
            obtain rfl := List.mem_singleton.mp alone
            exact absurd (length_of_document_object run) (Nat.lt_irrefl _)
    | _ => cases same

theorem offer_of_readDocument {bs : Bytes} {d : Document} (read : readDocument bs = .ok d) :
    offer bs = .document d.normalize := by
  rw [offer, read]

theorem offer_of_bareText {s : String} (plain : ∀ d, readDocument (Utf8.encode s) ≠ .ok d) :
    offer (Utf8.encode s) = .text s := by
  rw [offer]
  split
  case h_1 d read => exact absurd read (plain d)
  case h_2 => rw [Utf8.decode_encode]

theorem offer_ne_document {bs : Bytes} (plain : ∀ d, readDocument bs ≠ .ok d) (d : Document) :
    offer bs ≠ .document d := by
  rw [offer]
  split
  case h_1 d' read => exact absurd read (plain d')
  case h_2 => split <;> nofun

/-- A legible value is offered as its document. Any other one is offered as a document that does not
name its text, or as no document although it has brackets to spare. -/
theorem offer_cases {t : Ty} {v : Val} (exact : (t.announce v).Exact) :
    ∃ bs, write t v = .ok bs ∧
      (Legible (t.announce v) ∧ (offer bs).document? = some (t.announce v).document.normalize ∨
      ¬ Legible (t.announce v) ∧
        ((∃ s d, (t.announce v).bareText? = some s ∧ offer bs = .document d ∧ ¬ d.Names s) ∨
          ((t.announce v).bareText? = none ∧ deepest < (t.announce v).document.nesting ∧
            ∀ d, offer bs ≠ .document d))) := by
  cases bare : (t.announce v).bareText? with
  | some s =>
      refine ⟨Utf8.encode s, write_of_bareText? bare, ?_⟩
      by_cases plain : ∀ d, readDocument (Utf8.encode s) ≠ .ok d
      · refine .inl ⟨⟨?_, ?_⟩, ?_⟩
        · intro s' same
          cases bare.symm.trans same
          exact plain
        · rw [document_of_bareText? bare]
          exact Nat.zero_le _
        · rw [offer_of_bareText plain, document_of_bareText? bare]
          rfl
      · obtain ⟨d, read⟩ := not_forall_not.mp plain
        refine .inr ⟨fun legible => plain (legible.1 s bare), .inl ?_⟩
        exact ⟨s, d.normalize, rfl, offer_of_readDocument read, not_names_of_readDocument read⟩
  | none =>
      obtain ⟨text, written, stands⟩ := write_stands exact bare
      refine ⟨text, written, ?_⟩
      by_cases shallow : (t.announce v).document.nesting ≤ deepest
      · refine .inl ⟨⟨?_, shallow⟩, ?_⟩
        · rw [bare]
          nofun
        · rw [offer_of_readDocument (readDocument_of_stands stands shallow)]
          rfl
      · refine .inr ⟨fun legible => shallow legible.2, .inr ⟨rfl, Nat.not_le.mp shallow, ?_⟩⟩
        exact offer_ne_document fun d read => shallow (nesting_le_of_readDocument stands read)

/-- Alternatives are tried on the document that is offered, be it a text. -/
theorem untagged_of_document? {name : String} {ts : List Ty} {o : Offer} {d : Document} {w : Val}
    (offered : o.document? = some d) :
    untagged name ts (Buffered.readers ts) o = .ok w ↔
      Buffered.read (.untagged name ts) d = .ok w := by
  have same : untagged name ts (Buffered.readers ts) o =
      untagged name ts (Buffered.readers ts) (.document d) := by
    cases o <;> cases offered <;> rfl
  rw [same, untagged, Buffered.read]
  cases Buffered.firstOf (Buffered.readers ts) 0 d with
  | some v => simp
  | none => constructor <;> intro refused <;> cases refused

theorem nesting_le_of_untagged {name : String} {ts : List Ty} {o : Offer} {w : Val}
    (none : ∀ d, o ≠ .document d)
    (reads : untagged name ts (Buffered.readers ts) o = .ok w) :
    ((Ty.untagged name ts).announce w).document.nesting ≤ 1 := by
  cases o with
  | document d => exact absurd rfl (none d)
  | text s => exact Buffered.nesting_le_of_read_text _ ((untagged_of_document? rfl).mp reads)
  | bytes raw =>
      unfold untagged at reads
      simp only at reads
      split at reads
      case h_1 chosen =>
        cases reads
        obtain ⟨i, t, w, rfl, here, taken⟩ := Buffered.exists_of_firstOf chosen
        rw [Nat.zero_add, Ty.announce, Ty.announceNth_of_getElem? here]
        exact Ty.nesting_le_of_accept_bytes taken
      case h_2 => cases reads

theorem document_returns_iff {d : Document} (value : d.IsValue) :
    ∃ bs, write .document (.document d) = .ok bs ∧
      (read .document bs = .ok (.document d) ↔ Legible d.announce) := by
  obtain ⟨exact, same⟩ := Document.announce_exact d value
  obtain ⟨bs, written, ⟨legible, offered⟩ | ⟨illegible, odd⟩⟩ :=
    offer_cases (t := .document) (v := .document d) exact
  · refine ⟨bs, written, iff_of_true ?_ legible⟩
    have whole : (offer bs).document? = some d := by
      rw [offered]
      change some d.announce.document.normalize = some d
      rw [same, Document.normalize_of_isValue d value]
    rw [read, whole]
  · refine ⟨bs, written, iff_of_false ?_ illegible⟩
    intro reads
    rw [read] at reads
    obtain ⟨s, d', bare, offered, other⟩ | ⟨bare, -, none⟩ := odd
    · rw [offered] at reads
      cases reads
      exact other (.inl (Document.eq_text_of_bareText? bare))
    · cases offered : offer bs with
      | document d' => exact none d' offered
      | text s =>
          rw [offered] at reads
          cases reads
          cases bare
      | bytes raw =>
          rw [offered] at reads
          cases reads

theorem untagged_returns_iff {name : String} {ts : List Ty} {v : Val}
    (exact : ((Ty.untagged name ts).announce v).Exact) :
    ∃ bs, write (.untagged name ts) v = .ok bs ∧
      (read (.untagged name ts) bs = .ok v ↔
        Legible ((Ty.untagged name ts).announce v) ∧ FitsFirst (.untagged name ts) v) := by
  obtain ⟨bs, written, ⟨legible, offered⟩ | ⟨illegible, odd⟩⟩ := offer_cases exact
  · refine ⟨bs, written, ?_⟩
    rw [read, untagged_of_document? offered]
    exact (and_iff_right legible).symm
  · refine ⟨bs, written, ?_⟩
    rw [read]
    refine ⟨fun reads => ?_, fun returned => absurd returned.1 illegible⟩
    obtain ⟨s, d, bare, offered, other⟩ | ⟨bare, deep, none⟩ := odd
    · rw [offered, untagged_of_document? rfl] at reads
      exact absurd (Buffered.names_of_read _ reads bare) other
    · have shallow := nesting_le_of_untagged none reads
      exact absurd (Nat.lt_of_lt_of_le deep shallow) (by decide)

theorem ok_of_mapError {α ε ε' : Type} {r : Except ε α} {f : ε → ε'} {a : α} :
    r.mapError f = .ok a ↔ r = .ok a := by
  cases r with
  | ok b => simp [Except.mapError]
  | error e => simp [Except.mapError]

/-- A value of a type that takes what comes is written, and comes back exactly if it is legible and
fits no alternative before its own. -/
theorem untyped_returns_iff {t : Ty} {v : Val} (untyped : IsUntyped t v) :
    ∃ bs, (Codec.described .plain t).encode v = .ok bs ∧
      ((Codec.described .plain t).decode bs = .ok v ↔ Legible (t.announce v) ∧ FitsFirst t v) := by
  have returned : ∃ bs, write t v = .ok bs ∧
      (read t bs = .ok v ↔ Legible (t.announce v) ∧ FitsFirst t v) := by
    cases untyped with
    | document value =>
        obtain ⟨bs, written, returned⟩ := document_returns_iff value
        exact ⟨bs, written, returned.trans (and_iff_left trivial).symm⟩
    | untagged exact => exact untagged_returns_iff exact
  obtain ⟨bs, written, returned⟩ := returned
  exact ⟨bs, ok_of_mapError.mpr written, ok_of_mapError.trans returned⟩

theorem fitsFirst_int {n : Int} (held : IntKind.i64.holds n = true) :
    FitsFirst Catalogue.intOrText (.variant 0 (.int n)) := by
  have taken : Buffered.read Catalogue.i64 (.int n) = .ok (.int n) := by
    change (if IntKind.i64.holds n then .ok (.int n) else _ : Except Cause Val) = _
    rw [if_pos held]
  change Buffered.read Catalogue.intOrText (.int n) = _
  rw [Catalogue.intOrText, Buffered.read, Buffered.readers, Buffered.firstOf, taken]

theorem fitsFirst_text (s : String) : FitsFirst Catalogue.intOrText (.variant 1 (.text s)) := rfl

theorem legible_hello : Legible (.text "hello") := by
  refine ⟨?_, Nat.zero_le _⟩
  intro s bare d read
  cases bare
  have fails : (readDocument (Utf8.encode "hello")).isOk = false := by rfl
  rw [read] at fails
  cases fails

/-- A word comes back from a document, and a word and an integer from an integer or text. -/
theorem untyped_returns_hello :
    IsUntyped .document (.document (.text "hello")) ∧
      IsUntyped Catalogue.intOrText (.variant 1 (.text "hello")) ∧
      IsUntyped Catalogue.intOrText (.variant 0 (.int 42)) ∧
      (∃ bs, (Codec.described .plain .document).encode (.document (.text "hello")) = .ok bs ∧
        (Codec.described .plain .document).decode bs = .ok (.document (.text "hello"))) ∧
      (∃ bs, (Codec.described .plain Catalogue.intOrText).encode (.variant 1 (.text "hello")) =
          .ok bs ∧
        (Codec.described .plain Catalogue.intOrText).decode bs =
          .ok (.variant 1 (.text "hello"))) ∧
      (∃ bs, (Codec.described .plain Catalogue.intOrText).encode (.variant 0 (.int 42)) = .ok bs ∧
        (Codec.described .plain Catalogue.intOrText).decode bs = .ok (.variant 0 (.int 42))) := by
  have document : IsUntyped .document (.document (.text "hello")) := .document trivial
  have word : IsUntyped Catalogue.intOrText (.variant 1 (.text "hello")) := .untagged trivial
  have integer : IsUntyped Catalogue.intOrText (.variant 0 (.int 42)) :=
    .untagged (isWord_iff.mpr (by decide))
  refine ⟨document, word, integer, ?_, ?_, ?_⟩
  · obtain ⟨bs, written, returned⟩ := untyped_returns_iff document
    exact ⟨bs, written, returned.mpr ⟨legible_hello, trivial⟩⟩
  · obtain ⟨bs, written, returned⟩ := untyped_returns_iff word
    exact ⟨bs, written, returned.mpr ⟨legible_hello, fitsFirst_text "hello"⟩⟩
  · obtain ⟨bs, written, returned⟩ := untyped_returns_iff integer
    have legible : Legible (.int .i64 42) := ⟨nofun, Nat.zero_le _⟩
    exact ⟨bs, written, returned.mpr ⟨legible, fitsFirst_int (by decide)⟩⟩

/-- A text of digits comes back as an integer, from a document and from an integer or text. -/
theorem not_returned_of_digits :
    IsUntyped .document (.document (.text "42")) ∧
      (Codec.described .plain .document).encode (.document (.text "42")) =
        .ok (Utf8.encode "42") ∧
      (Codec.described .plain .document).decode (Utf8.encode "42") = .ok (.document (.int 42)) ∧
      (Codec.described .plain .document).decode (Utf8.encode "42") ≠
        .ok (.document (.text "42")) ∧
      (Codec.described .plain Catalogue.intOrText).encode (.variant 1 (.text "42")) =
        .ok (Utf8.encode "42") ∧
      (Codec.described .plain Catalogue.intOrText).decode (Utf8.encode "42") =
        .ok (.variant 0 (.int 42)) := by
  have read : readDocument (Utf8.encode "42") = .ok (.int 42) := by rfl
  have document : (Codec.described .plain .document).decode (Utf8.encode "42") =
      .ok (.document (.int 42)) := by
    rw [Codec.decode, Plain.read, offer_of_readDocument read]
    rfl
  refine ⟨.document trivial, rfl, document, ?_, rfl, ?_⟩
  · rw [document]
    nofun
  · rw [Catalogue.intOrText, Codec.decode, Plain.read, offer_of_readDocument read]
    rfl

end Plain
end CacheFacade

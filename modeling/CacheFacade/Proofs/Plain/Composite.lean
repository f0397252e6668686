import CacheFacade.Proofs.Json.Composite
import CacheFacade.Proofs.Plain.Scalars
import CacheFacade.Proofs.Plain.Untyped

/-!
Composite types under the strategies that write documents. The document strategy reads back whatever
it writes; the plain strategy writes scalars and bare variants as their plain text and leaves the
rest to the document text, which it tells from the name of a variant by the brace in front.
-/

namespace CacheFacade

/-- A value is written, and what was written is read as that value. -/
def Codec.Returns (c : Codec) (v : Val) : Prop := ∃ bs, c.encode v = .ok bs ∧ c.decode bs = .ok v

namespace Plain

open Json

theorem read_of_spells {t : Ty} {n : Nat} {v : Val} {text : Bytes} (spells : Spells t n v text)
    (shallow : n ≤ deepest) : Json.read t text = .ok v := by
  apply Scan.run_of_done
  simpa using spells.takes deepest shallow [] ends_nil

/-- The plain form of a value is read as that value. -/
def Restored (t : Ty) (v : Val) : Prop := ∃ bs, write t v = .ok bs ∧ read t bs = .ok v

/-- What has no plain text is written as a document, and read as one. -/
theorem restored_of_written {t : Ty} {v : Val} (composed : scalarText? (t.announce v) = none)
    (asks : ∀ text, Writer.write (t.announce v) = .ok text →
      read t text = ofDocument (Json.read t text))
    (written : Written t v) (shallow : t.levels v ≤ deepest) : Restored t v := by
  obtain ⟨text, write, spells⟩ := written
  refine ⟨text, ?_, ?_⟩
  · rw [Plain.write]
    simp only [composed]
    exact write
  · rw [asks text write, read_of_spells spells shallow]
    rfl

theorem restored_variant_name (name : String) {variants : List (String × Body)} {i : Nat}
    {s : String} (here : variants[i]? = some (s, .unit)) (distinct : (variantNames variants).Nodup)
    (unbraced : ∀ s ∈ variantNames variants, s.toList.head? ≠ some '{') :
    Restored (.choice name variants) (.variant i .unit) := by
  have named := getElem?_variantNames here
  have plain := head?_encode_ne_openBrace (unbraced s (List.mem_of_getElem? named))
  refine ⟨Utf8.encode s, ?_, ?_⟩
  · rw [write, Ty.announce, Ty.announceVariant_of_getElem? here]
    rfl
  · rw [read, plain]
    simp only [Bool.false_eq_true, if_false, text_encode, bind, Except.bind]
    exact named_of_unit distinct here named

/-- A variant that holds something is written with a brace in front. -/
theorem head?_of_write_variant (name : String) {variants : List (String × Body)} {i : Nat}
    {s : String} {body : Body} {v : Val} {text : Bytes} (here : variants[i]? = some (s, body))
    (holds : body ≠ .unit) (held : body.content.Inhabits v)
    (written : Writer.write ((Ty.choice name variants).announce (.variant i v)) = .ok text) :
    text.head? = some openBrace := by
  rw [Ty.announce_variant name here] at written
  cases body with
  | unit => exact absurd rfl holds
  | wrap t =>
      obtain ⟨_, -, eq⟩ := Buffered.bind_eq_ok written
      cases eq
      rfl
  | tuple ts =>
      cases held with
      | tuple _ =>
          obtain ⟨_, -, eq⟩ := Buffered.bind_eq_ok written
          cases eq
          rfl
  | record fields =>
      cases held with
      | record _ _ _ =>
          obtain ⟨_, -, eq⟩ := Buffered.bind_eq_ok written
          cases eq
          rfl

theorem restored_variant_held (name : String) {variants : List (String × Body)} {i : Nat}
    {s : String} {body : Body} {v : Val} (here : variants[i]? = some (s, body))
    (holds : body ≠ .unit) (held : body.content.Inhabits v)
    (written : Written (.choice name variants) (.variant i v))
    (shallow : (Ty.choice name variants).levels (.variant i v) ≤ deepest) :
    Restored (.choice name variants) (.variant i v) := by
  have composed : scalarText? ((Ty.choice name variants).announce (.variant i v)) = none := by
    rw [Ty.announce_variant name here]
    cases body with
    | unit => exact absurd rfl holds
    | wrap t => rfl
    | tuple | record =>
        cases held
        rfl
  apply restored_of_written composed _ written shallow
  intro text write
  rw [read, head?_of_write_variant name here holds held write]
  rfl

theorem restored_scalar {t : Ty} {v : Val} (scalar : IsScalar t) (inhabits : Inhabits t v) :
    Restored t v := by
  refine ⟨Utf8.encode (spelling t v), ?_, read_spelling scalar inhabits⟩
  rw [write, scalarText?_announce scalar inhabits]

/-- The plain strategy reads back every value of a composite type. -/
theorem restored {t : Ty} {v : Val} (composite : t.IsComposite) (inhabits : t.Inhabits v)
    (shallow : t.levels v ≤ deepest) : Restored t v := by
  have all := written inhabits composite
  induction composite generalizing v with
  | bool =>
      cases inhabits with
      | bool b => exact restored_scalar .bool (.bool b)
  | int k =>
      cases inhabits with
      | int held => exact restored_scalar (.int k) (.int held)
  | char =>
      cases inhabits with
      | char c => exact restored_scalar .char (.char c)
  | text =>
      cases inhabits with
      | text s => exact restored_scalar .text (.text s)
  | wrapper name composite ih =>
      cases inhabits with
      | wrapper _ inner => exact ih inner shallow (written inner composite)
  | choice name _ distinct unbraced _ =>
      cases inhabits with
      | @choice _ _ i s body v here held =>
          by_cases bare : body = .unit
          · subst bare
            cases held with
            | unit => exact restored_variant_name name here distinct unbraced
          · exact restored_variant_held name here bare held all shallow
  | unit | unitNamed | option | list | tuple | tupleNamed | map | record =>
      refine restored_of_written ?_ (fun _ _ => rfl) all shallow
      cases inhabits <;> rfl

end Plain

namespace Json

theorem document_restored {d : Document} (value : d.IsValue) (shallow : d.nesting ≤ deepest) :
    ∃ bs, write .document (.document d) = .ok bs ∧ read .document bs = .ok (.document d) := by
  obtain ⟨exact, same⟩ := Document.announce_exact d value
  obtain ⟨text, write, stands⟩ := write_stands _ exact
  rw [same] at stands
  refine ⟨text, write, ?_⟩
  apply Scan.run_of_done
  have takes := stands.takes deepest shallow [] ends_nil
  rw [List.append_nil] at takes
  rw [Reader.read, Scan.bind_of_done takes, Document.normalize_of_isValue d value]
  rfl

end Json

/-- Values of composite types are read back under both strategies, and documents under their own
one, unless their text has more levels of brackets than a reader opens. The type bounds the levels:
there are at most two for each type that lies in another. -/
theorem returns_of_levels_le :
    (∀ t v, t.IsComposite → t.Inhabits v → t.levels v ≤ Json.deepest →
      (Codec.described .document t).Returns v ∧ (Codec.described .plain t).Returns v) ∧
    (∀ (t : Ty) v, t.Inhabits v → t.levels v ≤ t.nesting ∧ t.nesting ≤ 2 * t.depth) ∧
    ∀ d : Document, d.IsValue → d.nesting ≤ Json.deepest →
      (Codec.described .document .document).Returns (.document d) := by
  refine ⟨fun t v composite inhabits shallow => ⟨?_, ?_⟩, fun t v inhabits => ?_,
    fun d value shallow => ?_⟩
  · obtain ⟨text, write, spells⟩ := Json.written inhabits composite
    exact ⟨text, Plain.ok_of_mapError.mpr write,
      Plain.ok_of_mapError.mpr (Plain.read_of_spells spells shallow)⟩
  · obtain ⟨bs, write, read⟩ := Plain.restored composite inhabits shallow
    exact ⟨bs, Plain.ok_of_mapError.mpr write, Plain.ok_of_mapError.mpr read⟩
  · exact ⟨Ty.levels_le_nesting inhabits, t.nesting_le_depth⟩
  · obtain ⟨bs, write, read⟩ := Json.document_restored value shallow
    exact ⟨bs, Plain.ok_of_mapError.mpr write, Plain.ok_of_mapError.mpr read⟩

theorem isComposite_presence : Catalogue.presence.IsComposite := by
  have i64 : Ty.IsComposite Catalogue.i64 := .int _
  refine .choice _ ?_ (by decide) (by decide)
  simp only [List.forall_mem_cons]
  refine ⟨.unit, .record _ _ ?_ (by decide) ?_, .int _, .tuple (by simp [i64]), by simp⟩
  · simpa [Catalogue.field] using .text
  · simp [Catalogue.field, FieldSpec.plain]

theorem isComposite_settings : Catalogue.settings.IsComposite := by
  refine .record _ _ ?_ (by decide) ?_
  · simp only [List.forall_mem_cons]
    exact ⟨.int _, .text, .option .text trivial, by simp⟩
  · simp only [List.forall_mem_cons]
    exact ⟨nofun, nofun, fun _ => rfl, by simp⟩

/-- A variant with two integers, settings without a note, and an object with a list in it. -/
theorem returns_of_presence :
    (Catalogue.presence.Inhabits (.variant 3 (.list [.int (-7), .int 9])) ∧
      Catalogue.settings.Inhabits (.list [.int 20, .text "a \"b\"", .none])) ∧
    ((Codec.described .document Catalogue.presence).Returns
        (.variant 3 (.list [.int (-7), .int 9])) ∧
      (Codec.described .plain Catalogue.presence).Returns
        (.variant 3 (.list [.int (-7), .int 9]))) ∧
    ((Codec.described .document Catalogue.settings).Returns
        (.list [.int 20, .text "a \"b\"", .none]) ∧
      (Codec.described .plain Catalogue.settings).Returns
        (.list [.int 20, .text "a \"b\"", .none])) ∧
    (Codec.described .document .document).Returns
      (.document (.object [("a", .array [.null, .bool true]), ("b", .int 1)])) := by
  have moved : Catalogue.presence.Inhabits (.variant 3 (.list [.int (-7), .int 9])) :=
    .choice _ rfl (.tuple (.cons (.int (by decide)) (.cons (.int (by decide)) .nil)))
  have unnoted : Catalogue.settings.Inhabits (.list [.int 20, .text "a \"b\"", .none]) :=
    .record _ _ (.cons (.int (by decide)) (.cons (.text _) (.cons (.none _) .nil)))
  have value : (Document.object [("a", .array [.null, .bool true]), ("b", .int 1)]).IsValue := by
    refine ⟨by decide, ⟨trivial, trivial, trivial⟩, ?_, trivial⟩
    exact Json.isWord_iff.mpr (by decide)
  exact ⟨⟨moved, unnoted⟩,
    returns_of_levels_le.1 _ _ isComposite_presence moved (by decide),
    returns_of_levels_le.1 _ _ isComposite_settings unnoted (by decide),
    returns_of_levels_le.2.2 _ value (by decide)⟩

/-- A choice whose second variant is a record with a field of a choice like it, and so on. -/
def nestedChoice : Nat → Ty
  | 0 => .choice "Tree" [("Leaf", .unit)]
  | n + 1 => .choice "Tree" [("Leaf", .unit), ("Node", .record [(.plain "next", nestedChoice n)])]

/-- The value of such a choice that goes all the way down. -/
def nestedNode : Nat → Val
  | 0 => .variant 0 .unit
  | n + 1 => .variant 1 (.list [nestedNode n])

theorem isComposite_nestedChoice (n : Nat) : (nestedChoice n).IsComposite := by
  induction n with
  | zero => exact .choice _ (by simp [Body.content, Ty.IsComposite.unit]) (by decide) (by decide)
  | succ n ih =>
      refine .choice _ ?_ (by simp [variantNames]) (by simp [variantNames])
      simp only [List.forall_mem_cons]
      refine ⟨.unit, .record _ _ ?_ (by simp [fieldNames]) ?_, by simp⟩
      · simpa using ih
      · simp [FieldSpec.plain]

theorem inhabits_nestedNode (n : Nat) : (nestedChoice n).Inhabits (nestedNode n) := by
  induction n with
  | zero => exact .choice _ rfl .unit
  | succ n ih => exact .choice _ rfl (.record _ _ (.cons ih .nil))

theorem depth_nestedChoice (n : Nat) : (nestedChoice n).depth = n + 1 := by
  induction n with
  | zero => rfl
  | succ n ih =>
      simp only [nestedChoice, Ty.depth, Ty.depthVariants, Ty.depthBody, Ty.depthFields, ih]
      omega

/-- With 64 records in one another, each in brackets of its own and in those of its variant, a value
is written and not read, under either strategy. -/
theorem nested_choice_not_read :
    (nestedChoice 64).IsComposite ∧ (nestedChoice 64).depth ≤ 100 ∧
      (nestedChoice 64).Inhabits (nestedNode 64) ∧
      ∀ s ∈ [Strategy.document, .plain], ∃ bs f,
        (Codec.described s (nestedChoice 64)).encode (nestedNode 64) = .ok bs ∧
        (Codec.described s (nestedChoice 64)).decode bs = .error f ∧
        f.message = "recursion limit exceeded at line 1 column 1017" := by
  refine ⟨isComposite_nestedChoice 64, by rw [depth_nestedChoice]; decide, inhabits_nestedNode 64,
    fun s member => ?_⟩
  have run : ∀ s ∈ [Strategy.document, .plain],
      (match (Codec.described s (nestedChoice 64)).encode (nestedNode 64) with
        | .ok bs =>
          match (Codec.described s (nestedChoice 64)).decode bs with
          | .error f => f.message == "recursion limit exceeded at line 1 column 1017"
          | .ok _ => false
        | .error _ => false) = true := by
    decide +kernel
  have told := run s member
  split at told
  · split at told
    · exact ⟨_, _, ‹_›, ‹_›, eq_of_beq told⟩
    · cases told
  · cases told

end CacheFacade

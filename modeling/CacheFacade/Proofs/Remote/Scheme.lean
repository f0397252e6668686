import CacheFacade.Proofs.Remote.Parameters
import CacheFacade.Proofs.Text.Blank

/-!
Addresses without a scheme. They are read as with the usual scheme in front, unless a parameter holds
the mark of a scheme. Such a parameter keeps the scheme from being put in front: what stands before
the parameters is then a server's URL as it is, and all of it the scheme of the servers that the
parameters name.
-/

namespace CacheFacade
namespace Remote
namespace Address

/-- What stands before the first question mark. -/
def base (cs : List Char) : List Char := cs.takeWhile (· != '?')

/-- What stands behind the first question mark. -/
def query (cs : List Char) : List Char := (cs.dropWhile (· != '?')).drop 1

/-- The servers and the watched set that a whole text names. -/
def named (cs : List Char) : Address where
  nodes := nodesOf (base cs) (parameters (query cs))
  masterSet := masterSetOf (parameters (query cs))

/-- The usual scheme, with its mark. -/
def usual : List Char := "redis://".toList

/-- A text with the usual scheme in front. -/
def schemed (text : String) : String := String.ofList usual ++ Blank.trim text

/-- A text that is not blank and has no scheme before its parameters, whatever these hold. -/
structure Schemeless (text : String) : Prop where
  filled : Blank.trimChars text.toList ≠ []
  bare : ¬ schemeMark <:+: base (Blank.trimChars text.toList)

/-- A text and the same with the usual scheme are the same address, or both none. -/
def SchemeImplied (refusal? : String → Option String) (mode : Mode) (text : String) : Prop :=
  ∀ a, (parseFor refusal? mode text).1 = .ok a ↔ (parseFor refusal? mode (schemed text)).1 = .ok a

section

variable {refusal? : String → Option String} {mode : Mode} {text : String} {cs : List Char}

theorem checked_eq_ok_iff {a b : Address} :
    (do
      checkNodes refusal? a.nodes
      checkMasterSet mode a.masterSet
      return a : Except Fault Address) = .ok b ↔ Served refusal? mode a ∧ a = b := by
  have refused (f : Fault) : ¬ (.error f : Except Fault Address) = .ok b := by
    intro same
    cases same
  by_cases accepted : ∀ node ∈ a.nodes, refusal? node = none
  · rw [checkNodes_of_accepted accepted, checkMasterSet]
    by_cases unset : mode = .sentinel ∧ a.masterSet = none
    · rw [if_pos unset]
      exact iff_of_false (refused _) fun told => told.1.2 unset.1 unset.2
    · have served : Served refusal? mode a :=
        ⟨accepted, fun sentinel none => unset ⟨sentinel, none⟩⟩
      rw [if_neg unset]
      exact ⟨fun same => ⟨served, Except.ok.inj same⟩, fun told => congrArg Except.ok told.2⟩
  · obtain ⟨node, -, reason, -, fails⟩ := checkNodes_of_refused accepted
    rw [fails]
    exact iff_of_false (refused _) fun told => accepted told.1.1

theorem parseFor_of_filled (filled : Blank.trimChars text.toList ≠ []) :
    parseFor refusal? mode text =
      let whole := withScheme (Blank.trimChars text.toList)
      (do
        checkNodes refusal? (named whole).nodes
        checkMasterSet mode (named whole).masterSet
        return named whole, (parameters (query whole)).filterMap Parameter.line?) := by
  have some : (Blank.trimChars text.toList).isEmpty = false := by simp [filled]
  simp only [parseFor, some, Bool.false_eq_true, if_false, Split.getD_first?, named, base, query]

theorem parseFor_eq_ok_iff (filled : Blank.trimChars text.toList ≠ []) {a : Address} :
    (parseFor refusal? mode text).1 = .ok a ↔
      Served refusal? mode (named (withScheme (Blank.trimChars text.toList))) ∧
        named (withScheme (Blank.trimChars text.toList)) = a := by
  rw [parseFor_of_filled filled]
  exact checked_eq_ok_iff

theorem withScheme_of_marked (marked : schemeMark <:+: cs) : withScheme cs = cs :=
  if_pos (Split.isSome_first?_iff.mpr marked)

theorem withScheme_of_unmarked (unmarked : ¬ schemeMark <:+: cs) :
    withScheme cs = usual ++ cs :=
  if_neg (mt Split.isSome_first?_iff.mp unmarked)

theorem withScheme_usual_append : withScheme (usual ++ cs) = usual ++ cs := by
  have marked : schemeMark <:+: usual := ⟨"redis".toList, [], rfl⟩
  exact withScheme_of_marked (marked.trans (List.prefix_append usual cs).isInfix)

/-- The mark holds no question mark, so it stands before the parameters or in them. -/
theorem marked_iff : schemeMark <:+: cs ↔ schemeMark <:+: base cs ∨ schemeMark <:+: query cs := by
  have whole := List.takeWhile_append_dropWhile (p := (· != '?')) (l := cs)
  cases rest : cs.dropWhile (· != '?') with
  | nil =>
      have none : ¬ schemeMark <:+: query cs := by
        rw [query, rest]
        decide
      rw [rest, List.append_nil] at whole
      rw [base, whole]
      exact (or_iff_left none).symm
  | cons c back =>
      have stops : c = '?' := by simpa [rest] using List.head?_dropWhile_not (· != '?') cs
      have behind : query cs = back := by rw [query, rest, List.drop_one, List.tail_cons]
      rw [rest, stops] at whole
      rw [behind, ← Split.infix_append_cons_iff (by decide : '?' ∉ schemeMark)]
      exact (congrArg (schemeMark <:+: ·) whole.symm).to_iff

theorem ne_of_mem_usual : ∀ c ∈ usual, (c != '?') = true := List.all_eq_true.mp rfl

theorem base_usual_append : base (usual ++ cs) = usual ++ base cs :=
  List.takeWhile_append_of_pos ne_of_mem_usual

theorem trimChars_schemed (filled : Blank.trimChars text.toList ≠ []) :
    Blank.trimChars (schemed text).toList = usual ++ Blank.trimChars text.toList := by
  have chars : (schemed text).toList = usual ++ Blank.trimChars text.toList := by
    rw [schemed, Blank.trim, String.toList_append, String.toList_ofList, String.toList_ofList]
  rw [chars]
  apply Blank.trimChars_of_ends
  · intro c first
    cases first
    decide
  · rw [List.getLast?_append_of_ne_nil _ filled]
    exact Blank.isBlank_getLast?_trimChars

/-- The first server of an address is what stands before its parameters. -/
theorem named_ne_named_schemed : named (usual ++ cs) ≠ named cs := by
  intro same
  have first := (List.cons.inj (congrArg Address.nodes same)).1
  have lengths := congrArg List.length (String.ofList_injective first)
  rw [base_usual_append, List.length_append] at lengths
  have some : 0 < usual.length := by decide
  omega

/-- A text without a scheme is read as with the usual one exactly if no parameter holds the mark of a
scheme, or neither of both can be served. In the first case the two are the same altogether: the
address, or the reason of the refusal, and the lines about parameters that are passed over. -/
theorem schemeImplied_iff (refusal? : String → Option String) (mode : Mode) {text : String}
    (schemeless : Schemeless text) :
    (SchemeImplied refusal? mode text ↔
      (schemeMark <:+: query (Blank.trimChars text.toList) →
        ¬ Served refusal? mode (named (Blank.trimChars text.toList)) ∧
          ¬ Served refusal? mode (named (usual ++ Blank.trimChars text.toList)))) ∧
    (¬ schemeMark <:+: query (Blank.trimChars text.toList) →
      parseFor refusal? mode text = parseFor refusal? mode (schemed text)) := by
  obtain ⟨filled, bare⟩ := schemeless
  have trimmed := trimChars_schemed filled
  have filled' : Blank.trimChars (schemed text).toList ≠ [] := by
    rw [trimmed]
    exact List.append_ne_nil_of_right_ne_nil _ filled
  have whole : withScheme (Blank.trimChars (schemed text).toList) =
      usual ++ Blank.trimChars text.toList := by
    rw [trimmed]
    exact withScheme_usual_append
  by_cases marked : schemeMark <:+: query (Blank.trimChars text.toList)
  -- Both texts are taken as they are, and their first servers differ by the scheme.
  · refine ⟨?_, absurd marked⟩
    rw [SchemeImplied]
    simp only [parseFor_eq_ok_iff filled, parseFor_eq_ok_iff filled', whole,
      withScheme_of_marked (marked_iff.mpr (.inr marked)), marked, true_implies]
    constructor
    · intro same
      constructor
      · intro served
        exact named_ne_named_schemed ((same _).mp ⟨served, rfl⟩).2
      · intro served
        exact named_ne_named_schemed ((same _).mpr ⟨served, rfl⟩).2.symm
    · rintro ⟨left, right⟩ a
      exact iff_of_false (fun told => left told.1) fun told => right told.1
  · have unmarked : ¬ schemeMark <:+: Blank.trimChars text.toList := by
      rw [marked_iff]
      exact fun inside => inside.elim bare marked
    have same : parseFor refusal? mode text = parseFor refusal? mode (schemed text) := by
      rw [parseFor_of_filled filled, parseFor_of_filled filled', whole,
        withScheme_of_unmarked unmarked]
    refine ⟨iff_of_true (fun a => ?_) fun inside => absurd inside marked, fun _ => same⟩
    rw [same]

/-- Two nodes of a cluster, one of them in a parameter, with white space around the text. -/
theorem schemeImplied_nodes :
    Schemeless " localhost:7001?addr=10.0.0.2:7002 " ∧
      SchemeImplied Endpoint.refusal? .cluster " localhost:7001?addr=10.0.0.2:7002 " ∧
      (parse .cluster (schemed " localhost:7001?addr=10.0.0.2:7002 ")).1 =
        .ok ⟨["redis://localhost:7001", "redis://10.0.0.2:7002"], none⟩ := by
  have schemeless : Schemeless " localhost:7001?addr=10.0.0.2:7002 " :=
    ⟨nofun, mt Split.isSome_first?_iff.mpr nofun⟩
  have unmarked : ¬ schemeMark <:+:
      query (Blank.trimChars " localhost:7001?addr=10.0.0.2:7002 ".toList) :=
    mt Split.isSome_first?_iff.mpr nofun
  have implied := schemeImplied_iff Endpoint.refusal? .cluster schemeless
  exact ⟨schemeless, implied.1.mpr fun marked => absurd marked unmarked, rfl⟩

/-- A server with a name for the client that holds the mark of a scheme: it is refused, and served
with the usual scheme in front. -/
theorem not_schemeImplied_of_markedParameter :
    Schemeless "localhost:6379?client=svc://orders" ∧
      (parse .remote "localhost:6379?client=svc://orders").1 =
        .error (.config ("malformed remote address localhost:6379: " ++
          "Redis URL did not parse- InvalidClientConfig")) ∧
      (parse .remote (schemed "localhost:6379?client=svc://orders")).1 =
        .ok ⟨["redis://localhost:6379"], none⟩ ∧
      ¬ SchemeImplied Endpoint.refusal? .remote "localhost:6379?client=svc://orders" := by
  have schemeless : Schemeless "localhost:6379?client=svc://orders" :=
    ⟨nofun, mt Split.isSome_first?_iff.mpr nofun⟩
  have refused : (parse .remote "localhost:6379?client=svc://orders").1 =
      .error (.config ("malformed remote address localhost:6379: " ++
        "Redis URL did not parse- InvalidClientConfig")) := rfl
  have served : (parse .remote (schemed "localhost:6379?client=svc://orders")).1 =
      .ok ⟨["redis://localhost:6379"], none⟩ := rfl
  refine ⟨schemeless, refused, served, fun implied => ?_⟩
  have told := (implied _).mpr served
  exact nomatch refused.symm.trans told

end

end Address
end Remote
end CacheFacade

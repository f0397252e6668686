import CacheFacade.Proofs.Text.Split
import CacheFacade.Remote.Address
import Mathlib.Data.List.Basic

/-!
Addresses with parameters, as they are written and as they are meant. Whatever parameters stand
behind the question mark and whichever URLs the client refuses, an address is read as the servers
and the watched set that it names, or refused as a configuration.
-/

namespace CacheFacade
namespace Remote
namespace Address

/-- A parameter as it is written: a name alone, or a value behind the first equals sign. Where
nothing is written, the name has no characters. -/
inductive Segment where
  | bare (name : List Char)
  | valued (name value : List Char)

namespace Segment

def text : Segment → List Char
  | bare name => name
  | valued name value => name ++ '=' :: value

/-- No name holds an equals sign, and neither names nor values hold a separator. -/
def Formed : Segment → Prop
  | bare name => '=' ∉ name ∧ '&' ∉ name
  | valued name value => '=' ∉ name ∧ '&' ∉ name ∧ '&' ∉ value

instance : (p : Segment) → Decidable p.Formed
  | bare name => inferInstanceAs (Decidable ('=' ∉ name ∧ '&' ∉ name))
  | valued name value => inferInstanceAs (Decidable ('=' ∉ name ∧ '&' ∉ name ∧ '&' ∉ value))

/-- The value of a parameter of this name, unless it is empty. -/
def valueOf (key : String) : Segment → Option (List Char)
  | bare _ => none
  | valued name value => if name = key.toList ∧ value ≠ [] then some value else none

theorem notMem_text {p : Segment} (formed : p.Formed) : '&' ∉ p.text := by
  cases p with
  | bare name => exact formed.2
  | valued name value => simp [text, formed.2.1, formed.2.2]

end Segment

/-- An address with its parameters. -/
def written (base : List Char) (ps : List Segment) : List Char :=
  base ++ '?' :: ['&'].intercalate (ps.map Segment.text)

/-- The servers are the one before the parameters and those that they name, in their order and under
the same scheme; the last watched set counts. -/
def meant (base scheme : List Char) (ps : List Segment) : Address where
  nodes := String.ofList base ::
    (ps.filterMap (Segment.valueOf "addr")).map fun host =>
      String.ofList (scheme ++ "://".toList ++ host)
  masterSet := (ps.filterMap (Segment.valueOf "master_set")).getLast?.map String.ofList

/-- The client refuses no server, and sentinels have a set to watch. -/
def Served (refusal? : String → Option String) (mode : Mode) (a : Address) : Prop :=
  (∀ node ∈ a.nodes, refusal? node = none) ∧ (mode = .sentinel → a.masterSet ≠ none)

/-- Why an address is not served, in the words of its refusal. -/
inductive Objection (refusal? : String → Option String) (mode : Mode) (a : Address) : String → Prop
    where
  | refused {node reason : String} (named : node ∈ a.nodes) (told : refusal? node = some reason) :
      Objection refusal? mode a s!"malformed remote address {node}: {reason}"
  | unwatched (sentinel : mode = .sentinel) (unnamed : a.masterSet = none) :
      Objection refusal? mode a "sentinel address requires a master_set parameter"

section Parameters

variable {ps : List Segment}

theorem parameters_written (formed : ∀ p ∈ ps, p.Formed) :
    parameters (['&'].intercalate (ps.map Segment.text)) =
      ((ps.map Segment.text).filter fun cs => !cs.isEmpty).map parameter := by
  have apart : ∀ cs ∈ ps.map Segment.text, '&' ∉ cs :=
    List.forall_mem_map.mpr fun p member => Segment.notMem_text (formed p member)
  rw [parameters, Split.every_eq_splitOn]
  cases ps with
  | nil => rfl
  | cons p ps => rw [List.splitOn_intercalate '&' apart (by simp)]

/-- What is read off the parameters is read off each of them; of nothing, nothing is read. -/
theorem filterMap_parameters {α : Type} {read : Parameter → Option α}
    (ignores : ∀ name, read (.ignored name) = none) (formed : ∀ p ∈ ps, p.Formed) :
    (parameters (['&'].intercalate (ps.map Segment.text))).filterMap read =
      ps.filterMap fun p => read (parameter p.text) := by
  rw [parameters_written formed]
  clear formed
  induction ps with
  | nil => rfl
  | cons p ps ih =>
      rw [List.map_cons, List.filterMap_cons]
      cases empty : p.text.isEmpty with
      | true =>
          rw [List.filter_cons_of_neg (by simp [empty]), ih, List.isEmpty_iff.mp empty]
          simp only [show parameter [] = .ignored [] from rfl, ignores]
      | false =>
          rw [List.filter_cons_of_pos (by simp [empty]), List.map_cons, List.filterMap_cons, ih]

theorem parameter_valued {name : List Char} (formed : '=' ∉ name) (value : List Char) :
    parameter (name ++ '=' :: value) =
      if name = "addr".toList ∧ (!value.isEmpty) = true then .node value
      else if name = "master_set".toList ∧ (!value.isEmpty) = true then .watched value
      else .ignored name := by
  rw [parameter, Split.first?_append_cons formed]
  rfl

/-- A parameter names a server, or the watched set, or is passed over. -/
theorem parameter_cases {p : Segment} (formed : p.Formed) :
    (∃ host, p.valueOf "addr" = some host ∧ p.valueOf "master_set" = none ∧
      parameter p.text = .node host) ∨
    (∃ name, p.valueOf "addr" = none ∧ p.valueOf "master_set" = some name ∧
      parameter p.text = .watched name) ∨
    (p.valueOf "addr" = none ∧ p.valueOf "master_set" = none ∧
      ∃ name, parameter p.text = .ignored name) := by
  cases p with
  | bare name =>
      have alone : parameter name = .ignored name := by
        simp [parameter, Split.first?_of_notMem formed.1]
      exact .inr (.inr ⟨rfl, rfl, name, alone⟩)
  | valued name value =>
      simp only [Segment.valueOf, Segment.text, parameter_valued formed.1]
      have differ : "addr".toList ≠ "master_set".toList := by decide
      by_cases empty : value = []
      · exact .inr (.inr ⟨if_neg (by simp [empty]), if_neg (by simp [empty]), name,
          by rw [if_neg (by simp [empty]), if_neg (by simp [empty])]⟩)
      · have some : (!value.isEmpty) = true := by simp [empty]
        by_cases server : name = "addr".toList
        · exact .inl ⟨value, if_pos ⟨server, empty⟩,
            if_neg fun set => differ (server.symm.trans set.1), if_pos ⟨server, some⟩⟩
        · have other : ∀ {q : Prop}, ¬ (name = "addr".toList ∧ q) := fun both => server both.1
          by_cases set : name = "master_set".toList
          · exact .inr (.inl ⟨value, if_neg other, if_pos ⟨set, empty⟩,
              by rw [if_neg other, if_pos ⟨set, some⟩]⟩)
          · have neither : ∀ {q : Prop}, ¬ (name = "master_set".toList ∧ q) :=
              fun both => set both.1
            exact .inr (.inr ⟨if_neg other, if_neg neither, name,
              by rw [if_neg other, if_neg neither]⟩)

theorem nodesOf_written {base scheme rest : List Char}
    (qualified : Split.IsFirst schemeMark scheme rest base) (formed : ∀ p ∈ ps, p.Formed) :
    nodesOf base (parameters (['&'].intercalate (ps.map Segment.text))) =
      (meant base scheme ps).nodes := by
  change _ = String.ofList base :: (ps.filterMap (Segment.valueOf "addr")).map _
  rw [nodesOf, Split.first?_of_isFirst qualified, filterMap_parameters (fun _ => rfl) formed,
    List.map_filterMap]
  congr 1
  apply List.filterMap_congr
  intro p member
  obtain ⟨host, server, -, read⟩ | ⟨name, server, -, read⟩ | ⟨server, -, name, read⟩ :=
    parameter_cases (formed p member)
  all_goals
    rw [read, server]
    rfl

theorem masterSetOf_written (base scheme : List Char) (formed : ∀ p ∈ ps, p.Formed) :
    masterSetOf (parameters (['&'].intercalate (ps.map Segment.text))) =
      (meant base scheme ps).masterSet := by
  change _ = (ps.filterMap (Segment.valueOf "master_set")).getLast?.map String.ofList
  rw [masterSetOf, List.filterMap_reverse, List.head?_reverse,
    filterMap_parameters (fun _ => rfl) formed, ← List.getLast?_map, List.map_filterMap]
  congr 1
  apply List.filterMap_congr
  intro p member
  obtain ⟨host, -, set, read⟩ | ⟨name, -, set, read⟩ | ⟨-, set, name, read⟩ :=
    parameter_cases (formed p member)
  all_goals
    rw [read, set]
    rfl

end Parameters

section Checks

variable {refusal? : String → Option String}

theorem checkNodes_of_accepted {nodes : List String}
    (accepted : ∀ node ∈ nodes, refusal? node = none) : checkNodes refusal? nodes = .ok () := by
  induction nodes with
  | nil => rfl
  | cons node nodes ih =>
      obtain ⟨head, tail⟩ := List.forall_mem_cons.mp accepted
      rw [checkNodes, checkNode, head]
      exact ih tail

/-- A server that the client refuses is told with the reason. -/
theorem checkNodes_of_refused {nodes : List String}
    (refused : ¬ ∀ node ∈ nodes, refusal? node = none) :
    ∃ node ∈ nodes, ∃ reason, refusal? node = some reason ∧ checkNodes refusal? nodes =
      .error (.config s!"malformed remote address {node}: {reason}") := by
  induction nodes with
  | nil => exact absurd nofun refused
  | cons node nodes ih =>
      cases head : refusal? node with
      | some reason =>
          refine ⟨node, List.mem_cons_self, reason, head, ?_⟩
          rw [checkNodes, checkNode, head]
          rfl
      | none =>
          have later : ¬ ∀ node ∈ nodes, refusal? node = none := fun tail =>
            refused (List.forall_mem_cons.mpr ⟨head, tail⟩)
          obtain ⟨other, member, reason, told, fails⟩ := ih later
          refine ⟨other, List.mem_cons_of_mem _ member, reason, told, ?_⟩
          rw [checkNodes, checkNode, head]
          exact fails

end Checks

/-- A text that is an address with parameters, whatever white space is around it, is parsed to what
it means if that can be served, and is refused as a configuration otherwise. -/
theorem parsed_iff_served (refusal? : String → Option String) (mode : Mode) {text : String}
    {base scheme rest : List Char} {ps : List Segment}
    (qualified : Split.IsFirst schemeMark scheme rest base) (plain : '?' ∉ base)
    (formed : ∀ p ∈ ps, p.Formed) (trimmed : Blank.trimChars text.toList = written base ps) :
    (Served refusal? mode (meant base scheme ps) →
      (parseFor refusal? mode text).1 = .ok (meant base scheme ps)) ∧
    (¬ Served refusal? mode (meant base scheme ps) →
      ∃ message, (parseFor refusal? mode text).1 = .error (.config message) ∧
        Objection refusal? mode (meant base scheme ps) message) := by
  have parsed : (parseFor refusal? mode text).1 = (do
      checkNodes refusal? (meant base scheme ps).nodes
      checkMasterSet mode (meant base scheme ps).masterSet
      return meant base scheme ps) := by
    have filled : (written base ps).isEmpty = false := by simp [written]
    have marked : (Split.first? schemeMark (written base ps)).isSome := by
      have inside : schemeMark <:+: base := ⟨scheme, rest, qualified.parts.symm⟩
      exact Split.isSome_first?_iff.mpr (inside.trans (List.prefix_append _ _).isInfix)
    have split : Split.first? ['?'] (written base ps) =
        some (base, ['&'].intercalate (ps.map Segment.text)) := Split.first?_append_cons plain
    rw [parseFor, trimmed, filled]
    simp only [Bool.false_eq_true, if_false, withScheme, marked, if_true, split, Option.getD_some,
      nodesOf_written qualified formed, masterSetOf_written base scheme formed]
  rw [parsed]
  constructor
  · rintro ⟨accepted, watched⟩
    have set : ¬ (mode = .sentinel ∧ (meant base scheme ps).masterSet = none) := fun unwatched =>
      watched unwatched.1 unwatched.2
    rw [checkNodes_of_accepted accepted, checkMasterSet, if_neg set]
    rfl
  · intro unserved
    by_cases accepted : ∀ node ∈ (meant base scheme ps).nodes, refusal? node = none
    · have unset : mode = .sentinel ∧ (meant base scheme ps).masterSet = none := by
        by_contra set
        exact unserved ⟨accepted, fun sentinel none => set ⟨sentinel, none⟩⟩
      rw [checkNodes_of_accepted accepted, checkMasterSet, if_pos unset]
      exact ⟨_, rfl, .unwatched unset.1 unset.2⟩
    · obtain ⟨node, member, reason, told, fails⟩ := checkNodes_of_refused accepted
      rw [fails]
      exact ⟨_, rfl, .refused member told⟩

/-- Two sentinels, one of them in a parameter, among parameters without a name or a value, and a set
whose name holds an equals sign. -/
theorem parsed_sentinels :
    Split.IsFirst schemeMark "redis".toList "10.0.0.1:26379".toList
        "redis://10.0.0.1:26379".toList ∧
      (parse .sentinel
          " redis://10.0.0.1:26379?addr=&addr=10.0.0.2:26379&&flag&master_set=a=b ").1 =
        .ok ⟨["redis://10.0.0.1:26379", "redis://10.0.0.2:26379"], some "a=b"⟩ := by
  have qualified : Split.IsFirst schemeMark "redis".toList "10.0.0.1:26379".toList
      "redis://10.0.0.1:26379".toList := Split.isFirst_of_first? rfl
  let ps : List Segment := [.valued "addr".toList [], .valued "addr".toList "10.0.0.2:26379".toList,
    .bare [], .bare "flag".toList, .valued "master_set".toList "a=b".toList]
  have formed : ∀ p ∈ ps, p.Formed := by decide
  have served : Served Endpoint.refusal? .sentinel
      (meant "redis://10.0.0.1:26379".toList "redis".toList ps) := by
    refine ⟨?_, nofun⟩
    have named : (meant "redis://10.0.0.1:26379".toList "redis".toList ps).nodes =
        ["redis://10.0.0.1:26379", "redis://10.0.0.2:26379"] := by rfl
    rw [named]
    simp only [List.forall_mem_cons]
    exact ⟨by rfl, by rfl, nofun⟩
  refine ⟨qualified, (parsed_iff_served Endpoint.refusal? .sentinel qualified (by decide) formed
    ?_).1 served⟩
  rfl

end Address
end Remote
end CacheFacade

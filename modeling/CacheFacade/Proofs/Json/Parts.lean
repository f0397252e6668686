import CacheFacade.Json.Reader
import CacheFacade.Proofs.Json.Bracket
import CacheFacade.Proofs.Schema.Announce

/-!
Readers of typed values by their parts. A tuple is a series with a scan of its own for every item, a
record one with a slot for every name; a choice is its name, alone or with what it holds. Each is
read from what its parts are read from.
-/

namespace CacheFacade
namespace Json

open Scan

theorem ends_quote (rest : Bytes) : Ends (34 :: rest) := ends_cons rfl (by decide) rfl rest

theorem ends_colon (rest : Bytes) : Ends (58 :: rest) := ends_cons rfl (by decide) rfl rest

/-- Items with a comma before each one but the first. -/
def continued (first : Bool) (texts : List Bytes) : Bytes :=
  if first then Writer.commaSeparated texts else texts.flatMap (44 :: ·)

theorem Separates.goes {goesOn : Bool → Scan Bool} {opens : Bytes → Prop} {close : UInt8}
    (separates : Separates goesOn opens close) {text : Bytes} (opening : opens text)
    (first : Bool) (texts : List Bytes) (rest : Bytes) :
    goesOn first (continued first (text :: texts) ++ close :: rest) =
      .done true (text ++ (continued false texts ++ close :: rest)) := by
  have opens := separates.append text (continued false texts ++ close :: rest) opening
  cases first with
  | true =>
      rw [continued, if_pos rfl, commaSeparated_cons, List.append_assoc]
      exact separates.first _ opens
  | false =>
      rw [continued, if_neg Bool.false_ne_true, List.flatMap_cons, List.append_assoc,
        List.cons_append]
      exact separates.next _ opens

theorem Separates.ends_continued {goesOn : Bool → Scan Bool} {opens : Bytes → Prop} {close : UInt8}
    (separates : Separates goesOn opens close) (texts : List Bytes) (rest : Bytes) :
    Ends (continued false texts ++ close :: rest) :=
  separates.ends_flatMap texts rest

theorem continued_nil (first : Bool) (bs : Bytes) : continued first [] ++ bs = bs := by
  cases first <;> rfl

namespace Reader

section Scalars

variable {t : Ty} {s : Scalar} {text : Bytes} {v : Val}

theorem scalar_takes (offered : offer.Takes text (.scalar s)) (taken : t.accept s = .ok v) :
    (scalar t).Takes text v := by
  intro rest ends
  rw [scalar, placed, bind_of_done (offered rest ends)]
  simp only [taken]
  rfl

theorem quotedText_takes {name : String} (taken : t.accept (.text name) = .ok v) :
    (quotedText t).Takes (Writer.text name) v := by
  intro rest _
  have named : entryName (Writer.text name ++ rest) = .done name rest := by
    rw [text_append]
    exact Text.text_append name rest
  rw [quotedText, bind_of_done named, taken]
  rfl

theorem quotedNumber_takes {s : Scan Val} {b : UInt8} {bs : Bytes}
    (start : (b == 45 || isDigit b) = true) (takes : s.Takes (b :: bs) v) :
    (quotedNumber s).Takes (34 :: (b :: bs) ++ [34]) v := by
  intro rest _
  have bytes : 34 :: (b :: bs) ++ [34] ++ rest = 34 :: (b :: bs ++ 34 :: rest) := by simp
  rw [bytes, quotedNumber, bind_skip, List.tail_cons, bind_peek]
  simp only [List.cons_append, List.head?_cons, start, if_true]
  exact bind_of_done (takes (34 :: rest) (ends_quote rest)) _

theorem quotedBool_takes (b : Bool) :
    quotedBool.Takes (Writer.quoted (toString b)) (.bool b) := by
  intro rest _
  cases b <;> rfl

end Scalars

section Brackets

variable {α : Type} {onList onObject : Option (Nat → Scan α)} {s : Nat → Scan α} {a : α}
  {bs rest : Bytes} {depth : Nat}

theorem bracketed_list (expected : String) (inside : s depth bs = .done a (93 :: rest)) :
    bracketed expected (depth + 1) (some s) onObject (91 :: bs) = .done a rest :=
  enclosed_closeList inside

theorem bracketed_object (expected : String) (inside : s depth bs = .done a (125 :: rest)) :
    bracketed expected (depth + 1) onList (some s) (123 :: bs) = .done a rest := by
  cases onList <;> exact enclosed_closeObject inside

end Brackets

/-- A present value is told from an absent one by its first byte. -/
theorem optional_takes {α : Type} {absent a : α} {present : Scan α} {text : Bytes}
    (opens : OpensItem text) (told : text.head? ≠ some 110) (takes : present.Takes text a) :
    (optional absent present).Takes text a := by
  obtain ⟨b, bs, rfl, solid, -⟩ := opens
  intro rest ends
  rw [List.head?_cons] at told
  rw [List.cons_append, optional, bind_blanks, dropBlanks_cons solid]
  -- The text does not begin as a null does, by `told`.
  simp only [List.head?_cons]
  exact takes rest ends

theorem optional_takes_null {α : Type} (absent : α) (present : Scan α) :
    (optional absent present).Takes Writer.null absent := fun _ _ => rfl

/-- Scans, the values that they read, and the texts of these, item by item. -/
inductive Sequence : List (Scan Val) → List Val → List Bytes → Prop where
  | nil : Sequence [] [] []
  | cons {s : Scan Val} {v : Val} {text : Bytes} {ss : List (Scan Val)} {vs : List Val}
      {texts : List Bytes} (opens : OpensItem text) (takes : s.Takes text v)
      (rest : Sequence ss vs texts) : Sequence (s :: ss) (v :: vs) (text :: texts)

theorem inOrder_of_sequence {ss : List (Scan Val)} {vs : List Val} {texts : List Bytes}
    (sequence : Sequence ss vs texts) (what : String) (taken : Nat) (first : Bool) (rest : Bytes) :
    inOrder what ss taken first (continued first texts ++ 93 :: rest) = .done vs (93 :: rest) := by
  induction sequence generalizing taken first with
  | nil =>
      rw [continued_nil]
      rfl
  | cons opens takes _ ih =>
      rw [inOrder, bind_of_done (separates_list.goes opens first _ rest), if_pos rfl,
        bind_of_done (takes _ (separates_list.ends_continued _ rest)),
        bind_of_done (ih (taken + 1) false)]
      rfl

theorem bracketed_takes_list {ss : List (Scan Val)} {vs : List Val} {texts : List Bytes}
    (expected what : String) {depth : Nat} {scans : Nat → List (Scan Val)}
    {onObject : Option (Nat → Scan Val)} (each : scans depth = ss)
    (sequence : Sequence ss vs texts) :
    (bracketed expected (depth + 1)
      (some fun d => do return .list (← inOrder what (scans d) 0 true)) onObject).Takes
      (Writer.list texts) (.list vs) := by
  intro rest _
  subst each
  have bytes : Writer.list texts ++ rest = 91 :: (continued true texts ++ 93 :: rest) := by
    simp [Writer.list, continued]
  rw [bytes]
  exact bracketed_list expected
    (bind_of_done (inOrder_of_sequence sequence what 0 true rest) _)

section Records

/-- The name that an entry of a slot is written under, and its value. -/
def entryText (name : String) (text : Bytes) : Bytes := Writer.text name ++ 58 :: text

/-- Slots with their values: what is gathered for each of them, and the entries that are written. An
omitted slot has neither, and is filled again by the value that stands for its absence. -/
inductive Filled : List Slot → List Val → List (Option Val) → List Bytes → Prop where
  | nil : Filled [] [] [] []
  | written {slot : Slot} {v : Val} {text : Bytes} {slots : List Slot} {vs : List Val}
      {got : List (Option Val)} {entries : List Bytes} (takes : slot.scan.Takes text v)
      (rest : Filled slots vs got entries) :
      Filled (slot :: slots) (v :: vs) (some v :: got)
        (entryText slot.spec.name text :: entries)
  | omitted {slot : Slot} {v : Val} {slots : List Slot} {vs : List Val} {got : List (Option Val)}
      {entries : List Bytes} (absent : slot.spec.valueWhenAbsent slot.ty = .ok v)
      (rest : Filled slots vs got entries) : Filled (slot :: slots) (v :: vs) (none :: got) entries

variable {slots : List Slot} {vs : List Val} {got : List (Option Val)} {entries : List Bytes}

theorem finish_of_filled (filled : Filled slots vs got entries) : finish slots got = .ok vs := by
  induction filled with
  | nil => rfl
  | written _ _ ih =>
      rw [finish, ih]
      rfl
  | omitted absent _ ih =>
      rw [finish, ih, absent]
      rfl

theorem opens_of_filled (filled : Filled slots vs got entries) :
    ∀ entry ∈ entries, OpensEntry entry := by
  induction filled with
  | nil => simp
  | written _ _ ih => exact List.forall_mem_cons.mpr ⟨⟨_, text_append _ _⟩, ih⟩
  | omitted _ _ ih => exact ih

theorem entryName_entryText (name : String) (text rest : Bytes) :
    entryName (entryText name text ++ rest) = .done name (58 :: (text ++ rest)) := by
  rw [entryText, List.append_assoc, text_append]
  exact Text.text_append name _

/-- A name is found at the place of its slot, if no slot before has it. -/
theorem findIdx?_of_nodup {before later : List Slot} {slot : Slot}
    (distinct : ((before ++ slot :: later).map fun s => s.spec.name).Nodup) :
    (before ++ slot :: later).findIdx? (fun s => s.spec.name == slot.spec.name) =
      some before.length := by
  have fresh : slot.spec.name ∉ before.map fun s => s.spec.name := by
    rw [List.map_append, List.map_cons] at distinct
    exact fun member => (List.nodup_append.mp distinct).2.2 _ member _ List.mem_cons_self rfl
  rw [List.findIdx?_eq_some_iff_getElem]
  refine ⟨by simp, by simp, ?_⟩
  intro j before' same
  rw [List.getElem_append_left before'] at same
  exact fresh (List.mem_map.mpr ⟨_, List.getElem_mem _, beq_iff_eq.mp same⟩)

theorem gather_entry {before later : List Slot} {slot : Slot} {kept : List (Option Val)}
    (empties : List (Option Val)) (other : String → Scan (List (String × Document)))
    (distinct : ((before ++ slot :: later).map fun s => s.spec.name).Nodup)
    (level : kept.length = before.length) {text : Bytes} {v : Val}
    (takes : slot.scan.Takes text v) {rest : Bytes} (ends : Ends rest) :
    gather (before ++ slot :: later) other ⟨kept ++ none :: empties, []⟩
        (entryText slot.spec.name text ++ rest) =
      .done ⟨kept ++ some v :: empties, []⟩ rest := by
  have slot' : (before ++ slot :: later)[before.length]? = some slot := by simp
  have empty : (kept ++ none :: empties)[before.length]? = some none := by simp [← level]
  rw [gather, bind_of_done (entryName_entryText _ _ _), findIdx?_of_nodup distinct]
  simp only [empty, slot']
  change (slot.scan >>= fun v => _) (text ++ rest) = _
  rw [bind_of_done (takes rest ends), ← level, List.set_append_right _ _ (Nat.le_refl _),
    Nat.sub_self]
  rfl

/-- The entries that were written fill their slots, whatever is gathered before them. -/
theorem gatherAll_of_filled (filled : Filled slots vs got entries)
    (other : String → Scan (List (String × Document))) (before : List Slot)
    (kept : List (Option Val)) (level : kept.length = before.length)
    (distinct : ((before ++ slots).map fun s => s.spec.name).Nodup) {fuel : Nat}
    (enough : entries.length < fuel) (first : Bool) (rest : Bytes) :
    gatherAll (before ++ slots) other fuel first ⟨kept ++ slots.map fun _ => none, []⟩
        (continued first entries ++ 125 :: rest) =
      .done ⟨kept ++ got, []⟩ (125 :: rest) := by
  induction filled generalizing before kept fuel first with
  | nil =>
      obtain ⟨fuel, rfl⟩ := Nat.exists_eq_succ_of_ne_zero (Nat.ne_of_gt enough)
      rw [continued_nil, gatherAll, bind_of_done (separates_object.stop first rest)]
      rfl
  | @written slot v text slots vs got entries takes _ ih =>
      obtain ⟨fuel, rfl⟩ := Nat.exists_eq_succ_of_ne_zero (Nat.ne_of_gt (Nat.zero_lt_of_lt enough))
      have opens : OpensEntry (entryText slot.spec.name text) := ⟨_, text_append _ _⟩
      have goes := separates_object.goes opens first entries rest
      have entry := gather_entry (slots.map fun _ => none) other distinct level takes
        (separates_object.ends_continued entries rest)
      have level' : (kept ++ [some v]).length = (before ++ [slot]).length := by simp [level]
      rw [gatherAll, bind_of_done goes, if_pos rfl, List.map_cons, bind_of_done entry]
      rw [List.append_cons] at distinct ⊢
      rw [List.append_cons kept (some v), List.append_cons kept (some v) got]
      exact ih _ _ level' distinct (Nat.lt_of_succ_lt_succ enough) false
  | @omitted slot v slots vs got entries absent _ ih =>
      have level' : (kept ++ [none]).length = (before ++ [slot]).length := by simp [level]
      rw [List.append_cons] at distinct ⊢
      rw [List.map_cons, List.append_cons kept none, List.append_cons kept none got]
      exact ih _ _ level' distinct enough first

theorem recordEntries_of_filled (filled : Filled slots vs got entries) (strict : Bool)
    (distinct : (slots.map fun s => s.spec.name).Nodup) (rest : Bytes) :
    recordEntries strict slots (continued true entries ++ 125 :: rest) = .done vs (125 :: rest) := by
  have short : entries.length ≤ (continued true entries).length :=
    length_le_commaSeparated_of_ne_nil fun entry member =>
      separates_object.ne_nil entry (opens_of_filled filled entry member)
  have all : gathered slots (stranger strict slots) (continued true entries ++ 125 :: rest) =
      .done ⟨got, []⟩ (125 :: rest) := by
    rw [gathered]
    apply gatherAll_of_filled filled _ [] [] rfl distinct
    rw [List.length_append]
    omega
  rw [recordEntries, bind_of_done all]
  simp only [finish_of_filled filled]
  rfl

/-- Entries for the fields, between the brackets of an object. -/
theorem record_takes (filled : Filled slots vs got entries) (expected : String) (strict : Bool)
    {depth : Nat} {slotsAt : Nat → List Slot} (each : slotsAt depth = slots)
    (distinct : (slots.map fun s => s.spec.name).Nodup) :
    (record expected strict (depth + 1) slotsAt).Takes (123 :: continued true entries ++ [125])
      (.list vs) := by
  intro rest _
  subst each
  have bytes : 123 :: continued true entries ++ [125] ++ rest =
      123 :: (continued true entries ++ 125 :: rest) := by simp
  rw [bytes]
  exact bracketed_object expected (bind_of_done (recordEntries_of_filled filled strict distinct rest) _)

end Records

section Choices

variable {names : List String} {arms : List Arm} {i : Nat} {s : String} {arm : Arm} {v : Val}

theorem variantName_takes (distinct : names.Nodup) (here : names[i]? = some s) :
    (variantName names).Takes (Writer.text s) i := by
  intro rest _
  rw [variantName, placed, bind_of_done (offer_text s rest)]
  simp only [Buffered.variantAt_of_nodup distinct here]
  rfl

theorem choice_takes_name (expected : String) (depth : Nat) (distinct : names.Nodup)
    (here : names[i]? = some s) (there : arms[i]? = some arm) (bare : arm.bare = .ok v) :
    (choice expected depth names arms).Takes (Writer.text s) (.variant i v) := by
  intro rest ends
  have named := variantName_takes distinct here rest ends
  rw [text_append] at named ⊢
  rw [choice, bind_blanks, dropBlanks_cons rfl]
  simp only [List.head?_cons]
  rw [bind_of_done named]
  simp only [there, bare]
  rfl

theorem choice_takes_held (expected : String) {depth : Nat} {text : Bytes}
    (distinct : names.Nodup) (here : names[i]? = some s) (there : arms[i]? = some arm)
    (takes : (arm.held depth).Takes text v) :
    (choice expected (depth + 1) names arms).Takes (Writer.under s text) (.variant i v) := by
  intro rest ends
  have named := variantName_takes distinct here (58 :: (text ++ 125 :: rest)) (ends_colon _)
  have held := takes (125 :: rest) (ends_closeObject rest)
  have bytes : Writer.under s text ++ rest =
      123 :: (Writer.text s ++ 58 :: (text ++ 125 :: rest)) := by
    simp [Writer.under, Writer.object, Writer.commaSeparated]
  rw [text_append] at named bytes
  rw [bytes, choice, bind_blanks, dropBlanks_cons rfl]
  simp only [List.head?_cons]
  -- What stands between the brackets of the object is read as the variant.
  refine (bind_of_done (show deeper _ _ _ = .done (.variant i v) (125 :: rest) from ?_) _).trans rfl
  rw [deeper, bind_skip, List.tail_cons, bind_blanks, dropBlanks_cons rfl]
  simp only [List.head?_cons]
  rw [bind_of_done named]
  simp only [there]
  exact bind_of_done held _

end Choices

end Reader
end Json
end CacheFacade

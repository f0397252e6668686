import CacheFacade.Proofs.Json.Number
import CacheFacade.Proofs.Json.Text
import Mathlib.Data.List.Forall2

/-!
Lists and objects between their brackets. Both are series of items with commas between them, so what
is written with commas is read item by item; documents then follow from their parts.
-/

namespace CacheFacade
namespace Json

open Scan

/-- Items one after the other, for as long as `goesOn` finds another one. -/
def series {α : Type} (goesOn : Bool → Scan Bool) (item : Scan α) : Nat → Bool → Scan (List α)
  | 0, _ => pure []
  | fuel + 1, first => do
    if ← goesOn first then
      let a ← item
      return a :: (← series goesOn item fuel false)
    else pure []

theorem itemsFrom_eq_series {α : Type} (item : Scan α) (fuel : Nat) (first : Bool) :
    itemsFrom item fuel first = series listGoesOn item fuel first := by
  induction fuel generalizing first with
  | zero => rfl
  | succ fuel ih => simp only [itemsFrom, series, ih]

theorem entriesFrom_eq_series {α : Type} (entry : Scan α) (fuel : Nat) (first : Bool) :
    entriesFrom entry fuel first = series objectGoesOn entry fuel first := by
  induction fuel generalizing first with
  | zero => rfl
  | succ fuel ih => simp only [entriesFrom, series, ih]

/-- How a series is recognized: its items open in some way, a comma stands before every item but
the first, and a bracket after the last. -/
structure Separates (goesOn : Bool → Scan Bool) (opens : Bytes → Prop) (close : UInt8) : Prop where
  first : ∀ bs, opens bs → goesOn true bs = .done true bs
  next : ∀ bs, opens bs → goesOn false (44 :: bs) = .done true bs
  stop : ∀ first rest, goesOn first (close :: rest) = .done false (close :: rest)
  append : ∀ bs rest, opens bs → opens (bs ++ rest)
  ne_nil : ∀ bs, opens bs → bs ≠ []
  ends : ∀ rest, Ends (close :: rest)

/-- The first byte of an item of a list. -/
def OpensItem (bs : Bytes) : Prop := ∃ b rest, bs = b :: rest ∧ isBlankByte b = false ∧ b ≠ 93

/-- The first byte of an entry of an object. -/
def OpensEntry (bs : Bytes) : Prop := ∃ rest, bs = 34 :: rest

theorem separates_list : Separates listGoesOn OpensItem 93 where
  first := by
    rintro _ ⟨b, rest, rfl, solid, ne⟩
    unfold listGoesOn
    rw [bind_blanks, dropBlanks_cons solid]
    simp
  next := by
    rintro _ ⟨b, rest, rfl, solid, ne⟩
    have comma : dropBlanks (44 :: b :: rest) = 44 :: b :: rest := dropBlanks_cons rfl _
    unfold listGoesOn
    rw [bind_blanks, comma]
    simp [dropBlanks_cons solid]
  stop := fun _ _ => rfl
  append := by
    rintro _ rest' ⟨b, rest, rfl, solid⟩
    exact ⟨b, rest ++ rest', rfl, solid⟩
  ne_nil := by
    rintro _ ⟨b, rest, rfl, -⟩
    exact List.cons_ne_nil b rest
  ends := ends_closeList

theorem separates_object : Separates objectGoesOn OpensEntry 125 where
  first := by
    rintro _ ⟨rest, rfl⟩
    rfl
  next := by
    rintro _ ⟨rest, rfl⟩
    rfl
  stop := fun _ _ => rfl
  append := by
    rintro _ rest' ⟨rest, rfl⟩
    exact ⟨rest ++ rest', rfl⟩
  ne_nil := by
    rintro _ ⟨rest, rfl⟩
    exact List.cons_ne_nil 34 rest
  ends := ends_closeObject

theorem commaSeparated_cons (text : Bytes) (texts : List Bytes) :
    Writer.commaSeparated (text :: texts) = text ++ texts.flatMap (44 :: ·) := by
  induction texts generalizing text with
  | nil => rw [Writer.commaSeparated, List.flatMap_nil, List.append_nil]
  | cons next texts ih =>
      rw [Writer.commaSeparated, ih, List.flatMap_cons]
      · rfl
      · simp

theorem length_le_flatMap_comma (texts : List Bytes) :
    texts.length ≤ (texts.flatMap ((44 : UInt8) :: ·)).length := by
  induction texts with
  | nil => exact Nat.le_refl 0
  | cons text texts ih =>
      rw [List.flatMap_cons, List.length_append, List.length_cons, List.length_cons]
      omega

theorem length_le_commaSeparated_of_ne_nil {texts : List Bytes} (each : ∀ text ∈ texts, text ≠ []) :
    texts.length ≤ (Writer.commaSeparated texts).length := by
  cases texts with
  | nil => exact Nat.le_refl 0
  | cons text texts =>
      have one := List.length_pos_iff.mpr (each _ List.mem_cons_self)
      have more := length_le_flatMap_comma texts
      rw [commaSeparated_cons, List.length_append, List.length_cons]
      omega

section Series

variable {α : Type} {goesOn : Bool → Scan Bool} {opens : Bytes → Prop} {close : UInt8}
  {item : Scan α} {as : List α} {texts : List Bytes}

theorem Separates.ends_flatMap (separates : Separates goesOn opens close) (texts : List Bytes)
    (rest : Bytes) : Ends (texts.flatMap (44 :: ·) ++ close :: rest) := by
  cases texts with
  | nil => exact separates.ends rest
  | cons text texts => exact ends_comma _

theorem series_next (separates : Separates goesOn opens close)
    (each : List.Forall₂ (fun a text => opens text ∧ item.Takes text a) as texts) {fuel : Nat}
    (enough : as.length < fuel) (rest : Bytes) :
    series goesOn item fuel false (texts.flatMap (44 :: ·) ++ close :: rest) =
      .done as (close :: rest) := by
  induction each generalizing fuel with
  | nil =>
      obtain ⟨fuel, rfl⟩ := Nat.exists_eq_succ_of_ne_zero (Nat.ne_of_gt enough)
      rw [series]
      exact bind_of_done (separates.stop false rest) _
  | @cons a text as texts head _ ih =>
      obtain ⟨fuel, rfl⟩ := Nat.exists_eq_succ_of_ne_zero (Nat.ne_of_gt (Nat.zero_lt_of_lt enough))
      obtain ⟨opens, takes⟩ := head
      -- Behind the item stands a comma or the bracket, so that a number ends there.
      have goes := separates.next _ (separates.append text
        (texts.flatMap (44 :: ·) ++ close :: rest) opens)
      rw [List.flatMap_cons, List.append_assoc, List.cons_append, series, bind_of_done goes]
      rw [if_pos rfl, bind_of_done (takes _ (separates.ends_flatMap texts rest)),
        bind_of_done (ih (Nat.lt_of_succ_lt_succ enough))]
      rfl

/-- What is written with commas is read item by item, up to the bracket. -/
theorem series_commaSeparated (separates : Separates goesOn opens close)
    (each : List.Forall₂ (fun a text => opens text ∧ item.Takes text a) as texts) {fuel : Nat}
    (enough : as.length < fuel) (rest : Bytes) :
    series goesOn item fuel true (Writer.commaSeparated texts ++ close :: rest) =
      .done as (close :: rest) := by
  obtain ⟨fuel, rfl⟩ := Nat.exists_eq_succ_of_ne_zero (Nat.ne_of_gt (Nat.zero_lt_of_lt enough))
  cases each with
  | nil =>
      rw [series]
      exact bind_of_done (separates.stop true rest) _
  | @cons a text as texts head tail =>
      obtain ⟨opens, takes⟩ := head
      have goes := separates.first _ (separates.append text
        (texts.flatMap (44 :: ·) ++ close :: rest) opens)
      rw [commaSeparated_cons, List.append_assoc, series, bind_of_done goes, if_pos rfl,
        bind_of_done (takes _ (separates.ends_flatMap texts rest)),
        bind_of_done (series_next separates tail (Nat.lt_of_succ_lt_succ enough) rest)]
      rfl

theorem length_le_commaSeparated (separates : Separates goesOn opens close)
    (each : List.Forall₂ (fun a text => opens text ∧ item.Takes text a) as texts) :
    as.length ≤ (Writer.commaSeparated texts).length := by
  rw [each.length_eq]
  apply length_le_commaSeparated_of_ne_nil
  intro text member
  obtain ⟨i, bound, rfl⟩ := List.getElem_of_mem member
  exact separates.ne_nil _ (each.get (each.length_eq ▸ bound) bound).1

end Series

section Parts

variable {α : Type} {item : Scan α} {as : List α} {texts : List Bytes}

theorem items_commaSeparated
    (each : List.Forall₂ (fun a text => OpensItem text ∧ item.Takes text a) as texts)
    (rest : Bytes) :
    items item (Writer.commaSeparated texts ++ 93 :: rest) = .done as (93 :: rest) := by
  have short := length_le_commaSeparated separates_list each
  rw [items, itemsFrom_eq_series]
  apply series_commaSeparated separates_list each
  rw [List.length_append]
  omega

theorem entries_commaSeparated
    (each : List.Forall₂ (fun a text => OpensEntry text ∧ item.Takes text a) as texts)
    (rest : Bytes) :
    entries item (Writer.commaSeparated texts ++ 125 :: rest) = .done as (125 :: rest) := by
  have short := length_le_commaSeparated separates_object each
  rw [entries, entriesFrom_eq_series]
  apply series_commaSeparated separates_object each
  rw [List.length_append]
  omega

theorem enclosed_closeList {a : α} {bs rest : Bytes} (run : item bs = .done a (93 :: rest)) :
    enclosed closeList item bs = .done a rest := by
  rw [enclosed, run]
  rfl

theorem enclosed_closeObject {a : α} {bs rest : Bytes} (run : item bs = .done a (125 :: rest)) :
    enclosed closeObject item bs = .done a rest := by
  rw [enclosed, run]
  rfl

end Parts

theorem offer_cons {b : UInt8} (solid : isBlankByte b = false) (bs : Bytes) :
    offer (b :: bs) =
      if b = 110 then (expectWord [117, 108, 108] >>= fun _ => pure (.scalar .unit)) bs
      else if b = 116 then
        (expectWord [114, 117, 101] >>= fun _ => pure (.scalar (.bool true))) bs
      else if b = 102 then
        (expectWord [97, 108, 115, 101] >>= fun _ => pure (.scalar (.bool false))) bs
      else if b = 34 then (Text.text >>= fun s => pure (.scalar (.text s))) bs
      else if b = 91 then .done .list (b :: bs)
      else if b = 123 then .done .object (b :: bs)
      else if b == 45 || isDigit b then
        (Number.scan >>= fun n => pure (.scalar n.scalar)) (b :: bs)
      else failNext .expectedValue (b :: bs) := by
  unfold offer
  rw [bind_blanks, dropBlanks_cons solid]
  split_ifs with null truth falsity quote list object number
  case pos => subst null; rfl
  case pos => subst truth; rfl
  case pos => subst falsity; rfl
  case pos => subst quote; rfl
  case pos => subst list; rfl
  case pos => subst object; rfl
  case pos => simp only [List.head?_cons, if_pos number]
  case neg => simp only [List.head?_cons, if_neg number]

theorem offer_null (rest : Bytes) : offer (Writer.null ++ rest) = .done (.scalar .unit) rest := rfl

theorem offer_bool (b : Bool) (rest : Bytes) :
    offer (Writer.ascii (toString b) ++ rest) = .done (.scalar (.bool b)) rest := by
  cases b <;> rfl

theorem offer_list (bs : Bytes) : offer (91 :: bs) = .done .list (91 :: bs) := rfl

theorem offer_object (bs : Bytes) : offer (123 :: bs) = .done .object (123 :: bs) := rfl

theorem text_append (s : String) (rest : Bytes) :
    Writer.text s ++ rest = 34 :: ((Utf8.encode s).flatMap Writer.escape ++ 34 :: rest) := by
  simp [Writer.text]

theorem offer_text (s : String) (rest : Bytes) :
    offer (Writer.text s ++ rest) = .done (.scalar (.text s)) rest := by
  rw [text_append, offer_cons rfl]
  exact bind_of_done (Text.text_append s rest) _

theorem offer_number {b : UInt8} (start : (b == 45 || isDigit b) = true) (bs : Bytes) :
    offer (b :: bs) =
      (Number.scan >>= fun n => (pure (.scalar n.scalar) : Scan Offer)) (b :: bs) := by
  rw [offer_cons (isBlankByte_of_start start), if_neg (ne_of_start start rfl),
    if_neg (ne_of_start start rfl), if_neg (ne_of_start start rfl),
    if_neg (ne_of_start start rfl), if_neg (ne_of_start start rfl),
    if_neg (ne_of_start start rfl), if_pos start]

theorem encode_text_cons (n : Int) : ∃ b bs, Utf8.encode (Integer.text n) = b :: bs ∧
    (b == 45 || isDigit b) = true := by
  obtain ⟨b, bs, eq, digit⟩ := Number.digitBytes_cons n.natAbs
  rw [Number.encode_text]
  split
  · exact ⟨45, _, rfl, rfl⟩
  · exact ⟨b, bs, eq, by simp [digit]⟩

theorem offer_int {n : Int} (word : IsWord n) :
    offer.Takes (Writer.ascii (Writer.int n)) (.scalar (.int n)) := by
  intro rest ends
  obtain ⟨b, bs, eq, start⟩ := encode_text_cons n
  have read := Number.scan_text word rest ends
  change offer (Utf8.encode (Integer.text n) ++ rest) = _
  rw [eq] at read ⊢
  rw [List.cons_append] at read ⊢
  rw [offer_number start, bind_of_done read]
  rfl

end Json
end CacheFacade

import CacheFacade.Json.Reader
import CacheFacade.Proofs.Json.Announced
import CacheFacade.Proofs.Json.Buffered

/-!
What is written as a null. Any other value is written as a text that begins in another way, so an
optional value is read from it as present; from a null it is read as absent, whatever was written.
-/

namespace CacheFacade

namespace Datum

open Json

/-- The datum is written as a null: nothing, a unit, a number that is not finite, or a present one
of these. -/
def isNull : Datum → Bool
  | .none | .unit => true
  | .f32 bits => (Writer.f32? bits).isNone
  | .f64 bits => (Writer.f64? bits).isNone
  | .some d => isNull d
  | _ => false

end Datum

namespace FloatStyle

theorem exists_digit_toDigits (d : Nat) :
    ∃ c cs, Nat.toDigits 10 d = c :: cs ∧ c.isDigit = true := by
  obtain ⟨c, cs, digits⟩ := List.exists_cons_of_ne_nil (Nat.toDigits_ne_nil (b := 10) (n := d))
  exact ⟨c, cs, digits, Json.Number.isDigit_of_mem (digits ▸ List.mem_cons_self)⟩

theorem exists_digit_pointed (d : Nat) (g : Int) :
    ∃ c cs, pointed d g = c :: cs ∧ c.isDigit = true := by
  obtain ⟨c, cs, digits, digit⟩ := exists_digit_toDigits d
  simp only [pointed]
  split
  case isTrue => exact ⟨c, _, by rw [digits]; rfl, digit⟩
  case isFalse =>
    split
    case isTrue before =>
      obtain ⟨n, eq⟩ := Nat.exists_eq_succ_of_ne_zero (n := ((Nat.toDigits 10 d).length + g).toNat)
        (by omega)
      exact ⟨c, _, by rw [eq, digits]; rfl, digit⟩
    case isFalse => exact ⟨'0', _, rfl, rfl⟩

theorem exists_digit_exponential (d : Nat) (g : Int) :
    ∃ c cs, exponential d g = c :: cs ∧ c.isDigit = true := by
  obtain ⟨c, cs, digits, digit⟩ := exists_digit_toDigits d
  rw [exponential, digits]
  cases cs with
  | nil | cons => exact ⟨c, _, rfl, digit⟩

theorem exists_digit_magnitude (style : FloatStyle) (f : FloatFormat) (m : Nat) (e : Int) :
    ∃ c cs, style.magnitude f m e = c :: cs ∧ c.isDigit = true := by
  unfold magnitude
  split
  case isTrue => exact ⟨'0', _, rfl, rfl⟩
  case isFalse =>
    simp only
    split
    case isTrue => exact exists_digit_pointed _ _
    case isFalse => exact exists_digit_exponential _ _

end FloatStyle

namespace Json

open Scan

/-- The first byte of a present value. -/
def OpensPresent (bs : Bytes) : Prop := ∃ b rest, bs = b :: rest ∧ isBlankByte b = false ∧ b ≠ 110

theorem OpensPresent.head?_ne {bs : Bytes} (present : OpensPresent bs) : bs.head? ≠ some 110 := by
  obtain ⟨b, rest, rfl, -, other⟩ := present
  exact fun same => other (Option.some.inj same)

theorem not_opensPresent_null : ¬ OpensPresent Writer.null := by
  rintro ⟨b, rest, eq, -, other⟩
  exact other (List.cons.inj eq).1.symm

section Opens

theorem opensPresent_of_start {b : UInt8} (start : (b == 45 || isDigit b) = true) (rest : Bytes) :
    OpensPresent (b :: rest) :=
  ⟨b, rest, rfl, isBlankByte_of_start start, ne_of_start start rfl⟩

theorem opensPresent_int (n : Int) : OpensPresent (Writer.ascii (Writer.int n)) := by
  obtain ⟨b, bs, eq, start⟩ := encode_text_cons n
  rw [Writer.int, Writer.ascii, eq]
  exact opensPresent_of_start start bs

theorem opensPresent_number (style : FloatStyle) (f : FloatFormat) (negative : Bool) (m : Nat)
    (e : Int) : OpensPresent (Writer.ascii (style.text f negative m e)) := by
  obtain ⟨c, cs, text, digit⟩ := style.exists_digit_magnitude f m e
  rw [Writer.ascii, FloatStyle.text, Utf8.encode_ofList]
  cases negative with
  | true => exact opensPresent_of_start rfl _
  | false =>
      have small : c.toNat ≤ 127 := by
        have := Integer.digit_bounds digit
        omega
      simp only [Bool.false_eq_true, if_false, text, List.flatMap_cons,
        Utf8.utf8EncodeChar_of_le small, List.singleton_append]
      exact opensPresent_of_start (by simp [Number.isDigit_byte digit]) _

theorem opensPresent_float {style : FloatStyle} {f : FloatFormat} {bits : Nat}
    (finite : (Writer.float? style f bits).isNone = false) :
    OpensPresent (Writer.orNull (Writer.float? style f bits)) := by
  unfold Writer.float? at finite ⊢
  split at finite
  case h_1 => exact opensPresent_number _ _ _ _ _
  case h_2 => cases finite

end Opens

theorem write_of_isNull : (d : Datum) → d.isNull = true → Writer.write d = .ok Writer.null
  | .none, _ | .unit, _ => rfl
  | .f32 bits, null => by
      rw [Datum.isNull, Option.isNone_iff_eq_none] at null
      rw [Writer.write, null]
      rfl
  | .f64 bits, null => by
      rw [Datum.isNull, Option.isNone_iff_eq_none] at null
      rw [Writer.write, null]
      rfl
  | .some d, null => write_of_isNull d null

theorem opensPresent_of_write {text : Bytes} : (d : Datum) → d.isNull = false →
    Writer.write d = .ok text → OpensPresent text
  | .some d, present, written => opensPresent_of_write d present written
  | .bool true, _, rfl => ⟨116, _, rfl, rfl, by decide⟩
  | .bool false, _, rfl => ⟨102, _, rfl, rfl, by decide⟩
  | .int _ n, _, rfl => opensPresent_int n
  | .f32 bits, present, rfl => opensPresent_float present
  | .f64 bits, present, rfl => opensPresent_float present
  | .char _, _, rfl | .text _, _, rfl | .unitVariant _ _, _, rfl => ⟨34, _, rfl, rfl, by decide⟩
  | .bytes _, _, rfl => ⟨91, _, rfl, rfl, by decide⟩
  | .list ds, _, written | .tuple ds, _, written => by
      obtain ⟨texts, -, eq⟩ := Buffered.bind_eq_ok written
      cases eq
      exact ⟨91, _, rfl, rfl, by decide⟩
  | .map _ _, _, written | .record _, _, written | .wrapVariant _ _ _, _, written
  | .tupleVariant _ _ _, _, written | .recordVariant _ _ _, _, written => by
      obtain ⟨_, -, eq⟩ := Buffered.bind_eq_ok written
      cases eq
      exact ⟨123, _, rfl, rfl, by decide⟩

theorem null_or_opensPresent {d : Datum} {text : Bytes} (written : Writer.write d = .ok text) :
    text = Writer.null ∨ OpensPresent text := by
  cases null : d.isNull with
  | true =>
      rw [write_of_isNull d null] at written
      exact .inl (Except.ok.inj written).symm
  | false => exact .inr (opensPresent_of_write d null written)

theorem read_option_null (t : Ty) : read (.option t) Writer.null = .ok .none := rfl

theorem run_map {α β : Type} (s : Scan α) (f : α → β) (bs : Bytes) :
    (s >>= fun a => pure (f a)).run bs = (s.run bs).map f := by
  change Scan.run (Scan.bind s fun a => Scan.pure (f a)) bs = _
  unfold Scan.run Scan.bind
  cases s bs with
  | done a rest =>
      simp only [Scan.pure]
      split <;> rfl
  | refused c rest => rfl
  | failed f n => rfl

theorem read_option_of_opensPresent {t : Ty} {text : Bytes} (present : OpensPresent text) :
    read (.option t) text = (read t text).map .some := by
  have told := present.head?_ne
  obtain ⟨b, rest, rfl, solid, -⟩ := present
  rw [List.head?_cons] at told
  rw [read, read, ← run_map]
  have here : Reader.read (.option t) deepest (b :: rest) =
      (Reader.read t deepest >>= fun v => pure (.some v)) (b :: rest) := by
    rw [Reader.read, Reader.optional, bind_blanks, dropBlanks_cons solid]
    simp only [List.head?_cons]
  unfold Scan.run
  rw [here]

theorem read_option_eq_ok_iff {t : Ty} {text : Bytes} (present : OpensPresent text) {w : Val} :
    read (.option t) text = .ok w ↔ ∃ v, read t text = .ok v ∧ .some v = w := by
  rw [read_option_of_opensPresent present]
  cases read t text with
  | ok v => simp [Except.map]
  | error e => simp [Except.map]

end Json
end CacheFacade

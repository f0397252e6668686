import CacheFacade.Proofs.Compact.Varint
import CacheFacade.Proofs.Text.Utf8

/-!
The parts of the compact form. Each reader takes off the front what its writer puts there, whatever
stands behind; lengths are numbers of 64 bits.
-/

namespace CacheFacade

namespace Compact

open Reader

theorem takes_byte (b : UInt8) : Takes byte [b] b := fun _ => rfl

theorem takes_take (bs : Bytes) : Takes (take bs.length) bs bs := by
  intro rest
  simp [take]

theorem takes_varint {bits n : Nat} (positive : 0 < bits) (fits : n < 2 ^ bits) :
    Takes (varint bits) (Varint.write n) n := by
  intro rest
  rw [varint, Varint.read_write positive fits]

theorem takes_length {n : Nat} (fits : n < 2 ^ 64) : Takes length (Varint.write n) n :=
  takes_varint (by decide) fits

theorem takes_index {n : Nat} (fits : n < 2 ^ 32) : Takes index (Varint.write n) n :=
  takes_varint (by decide) fits

theorem takes_bool (b : Bool) : Takes bool [if b then 1 else 0] b := by
  cases b <;> exact (takes_byte _).finish (.done _)

theorem takes_wide {k : IntKind} {n : Int} (held : k.holds n = true) :
    Takes (do let m ← varint k.width.bits; return if k.signed then Varint.unfold m else (m : Int))
      (if k.signed then Varint.write (Varint.fold n) else Varint.write n.toNat) n := by
  have positive : 0 < k.width.bits := by cases k.width <;> decide
  by_cases signed : k.signed = true
  · simp only [signed, if_true]
    refine (takes_varint positive (Varint.fold_lt signed held)).finish ?_
    rw [Varint.unfold_fold]
    exact .done n
  · have nonneg := IntKind.nonneg_of_holds (eq_false_of_ne_true signed) held
    have high := (IntKind.holds_iff.mp held).2
    simp only [IntKind.greatest, signed, Bool.false_eq_true, if_false] at high
    have fits : n.toNat < 2 ^ k.width.bits := by
      change n.toNat < Nat.pow 2 k.width.bits
      omega
    simp only [signed]
    refine (takes_varint positive fits).finish ?_
    simp only [Bool.false_eq_true, if_false, Int.toNat_of_nonneg nonneg]
    exact .done n

theorem takes_int {k : IntKind} {n : Int} (held : k.holds n = true) :
    Takes (int k) (Writer.int k n) n := by
  have wide := takes_wide held
  obtain ⟨signed, width⟩ := k
  cases width with
  | w8 =>
      refine (takes_byte _).finish ?_
      have low : ((n % 256).toNat.toUInt8.toNat : Int) = n % 256 := by
        rw [Varint.toNat_toUInt8 (by omega)]
        omega
      rw [low]
      have same := IntKind.wrap_emod ⟨signed, .w8⟩ (Nat.dvd_refl 256) n
      change IntKind.wrap _ (n % 256) = _ at same
      rw [same, IntKind.wrap_of_holds held]
      exact .done n
  | w16 | w32 | w64 | w128 => cases signed <;> exact wide

theorem takes_fixed {size n : Nat} (fits : n < 256 ^ size) :
    Takes (fixed size) (lowFirst size n) n :=
  takes_ofLowFirst takes_take fits

theorem takes_bytes {bs : Bytes} (short : bs.length < 2 ^ 64) :
    Takes bytes (Writer.raw bs) bs :=
  (takes_length short).bind (takes_take bs)

theorem takes_text {s : String} (short : (Utf8.encode s).length < 2 ^ 64) :
    Takes text (Writer.raw (Utf8.encode s)) s := by
  refine (takes_bytes short).finish ?_
  rw [Utf8.decode_encode]
  exact .done s

theorem takes_char (c : Char) : Takes char (Writer.raw (Utf8.encode c.toString)) c := by
  have few : (Utf8.encode c.toString).length ≤ 4 := by
    have one : Utf8.encode c.toString = String.utf8EncodeChar c := by
      rw [Utf8.encode_eq_flatMap]
      simp [Char.toString]
    rw [one, String.length_utf8EncodeChar]
    exact c.utf8Size_le_four
  refine (takes_length (Nat.lt_of_le_of_lt few (by decide))).bind ?_
  rw [if_neg (Nat.not_lt.mpr few)]
  refine (takes_take _).finish ?_
  rw [Utf8.decode_encode]
  simp only [Char.toString, String.toList_singleton]
  exact .done c

section

variable {α β : Type}

theorem takes_absent (absent : α) (present : Unpack α) :
    Takes (option absent present) [0] absent :=
  (takes_byte 0).finish (.done absent)

theorem takes_present (absent : α) {present : Unpack α} {bs : Bytes} {a : α}
    (takes : Takes present bs a) : Takes (option absent present) (1 :: bs) a :=
  (takes_byte 1).bind takes

theorem takes_items_cons {item : Unpack α} {bs cs : Bytes} {a : α} {as : List α}
    (head : Takes item bs a) (tail : Takes (items item as.length) cs as) :
    Takes (items item (a :: as).length) (bs ++ cs) (a :: as) :=
  head.bind (tail.finish (.done _))

theorem takes_counted {item : Unpack α} {bs : Bytes} {as : List α} (few : as.length < 2 ^ 64)
    (content : Takes (items item as.length) bs as) :
    Takes (counted item) (Writer.counted as.length bs) as :=
  (takes_length few).bind content

theorem takes_pair {first : Unpack α} {second : Unpack β} {bs cs : Bytes} {a : α} {b : β}
    (front : Takes first bs a) (back : Takes second cs b) :
    Takes (pair first second) (bs ++ cs) (a, b) :=
  front.bind (back.finish (.done _))

end

/-- Readers one after the other take what stands one behind the other. -/
theorem takes_inOrder_cons {p : Unpack Val} {ps : List (Unpack Val)} {bs cs : Bytes} {v : Val}
    {vs : List Val} (head : Takes p bs v) (tail : Takes (inOrder ps) cs vs) :
    Takes (inOrder (p :: ps)) (bs ++ cs) (v :: vs) :=
  head.bind (tail.finish (.done _))

end Compact
end CacheFacade

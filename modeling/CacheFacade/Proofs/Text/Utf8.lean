import CacheFacade.Bytes
import Mathlib.Data.List.Basic
import Mathlib.Tactic.SplitIfs

/-!
Texts and their bytes. Decoding undoes encoding, and for a text given by its characters the bytes
are those of one character after the other.
-/

namespace CacheFacade
namespace Utf8

theorem toByteArray_encode (s : String) : (encode s).toByteArray = s.toByteArray := by
  apply ByteArray.ext
  apply Array.toList_inj.mp
  exact List.toList_data_toByteArray

@[simp] theorem decode_encode (s : String) : decode (encode s) = .ok s := by
  have valid : String.fromUTF8? s.toByteArray = some s := by
    unfold String.fromUTF8?
    rw [dif_pos s.isValidUTF8]
    rfl
  rw [decode, toByteArray_encode, valid]

theorem encode_of_decode {bs : Bytes} {s : String} (decoded : decode bs = .ok s) :
    encode s = bs := by
  unfold decode at decoded
  split at decoded
  case h_2 => cases decoded
  case h_1 _ valid =>
    cases decoded
    unfold String.fromUTF8? at valid
    split at valid
    · cases valid
      exact List.toList_data_toByteArray
    · cases valid

theorem encode_ofList (cs : List Char) :
    encode (String.ofList cs) = cs.flatMap String.utf8EncodeChar := by
  rw [encode, String.toByteArray_ofList, List.utf8Encode, List.toList_data_toByteArray]

theorem encode_eq_flatMap (s : String) : encode s = s.toList.flatMap String.utf8EncodeChar := by
  rw [← encode_ofList, String.ofList_toList]

/-- The byte of a character of ASCII. -/
def byte (c : Char) : UInt8 := UInt8.ofNat c.toNat

theorem toNat_byte {c : Char} (small : c.toNat ≤ 127) : (byte c).toNat = c.toNat := by
  rw [byte, UInt8.toNat_ofNat']
  omega

theorem utf8EncodeChar_of_le {c : Char} (small : c.toNat ≤ 127) :
    String.utf8EncodeChar c = [byte c] := by
  have small' : c.val.toNat ≤ 127 := small
  simp only [String.utf8EncodeChar, if_pos small']
  rfl

theorem flatMap_of_ascii (cs : List Char) (small : ∀ c ∈ cs, c.toNat ≤ 127) :
    cs.flatMap String.utf8EncodeChar = cs.map byte := by
  induction cs with
  | nil => rfl
  | cons c cs ih =>
      rw [List.flatMap_cons, utf8EncodeChar_of_le (small c List.mem_cons_self),
        ih fun c member => small c (List.mem_cons_of_mem _ member)]
      rfl

/-- A character outside ASCII is written without bytes of ASCII. -/
theorem le_of_mem_utf8EncodeChar {c : Char} (large : 127 < c.toNat) {b : UInt8}
    (member : b ∈ String.utf8EncodeChar c) : 128 ≤ b.toNat := by
  have large' : ¬ c.val.toNat ≤ 127 := Nat.not_le.mpr large
  simp only [String.utf8EncodeChar, if_neg large'] at member
  split_ifs at member
  all_goals
    simp only [List.mem_cons, List.not_mem_nil, or_false] at member
    rcases member with rfl | rfl | rfl | rfl
    all_goals
      rw [UInt8.toNat_ofNat']
      omega

theorem head?_utf8EncodeChar_of_lt {c : Char} (large : 127 < c.toNat) :
    ∃ b rest, String.utf8EncodeChar c = b :: rest ∧ 128 ≤ b.toNat := by
  cases shape : String.utf8EncodeChar c with
  | nil =>
      have length := String.length_utf8EncodeChar c
      rw [shape] at length
      exact absurd length.symm (Nat.ne_of_gt (Char.utf8Size_pos c))
  | cons b rest =>
      exact ⟨b, rest, rfl, le_of_mem_utf8EncodeChar large (shape ▸ List.mem_cons_self)⟩

theorem head?_toList_of_head?_encode {s : String} {b : UInt8} (small : b.toNat ≤ 127)
    (first : (encode s).head? = some b) : s.toList.head? = some (Char.ofNat b.toNat) := by
  rw [encode_eq_flatMap] at first
  cases chars : s.toList with
  | nil => simp [chars] at first
  | cons c cs =>
      rw [chars, List.flatMap_cons] at first
      by_cases ascii : c.toNat ≤ 127
      · rw [utf8EncodeChar_of_le ascii] at first
        obtain rfl := Option.some.inj first
        rw [toNat_byte ascii, Char.ofNat_toNat]
        rfl
      · obtain ⟨b', rest, bytes, large⟩ := head?_utf8EncodeChar_of_lt (Nat.not_le.mp ascii)
        rw [bytes] at first
        obtain rfl := Option.some.inj first
        omega

/-- A text whose only byte of ASCII is its last one ends with that character, the only one of ASCII
in it. -/
theorem toList_of_encode_concat {s : String} {front : Bytes} {last : UInt8}
    (bytes : encode s = front ++ [last]) (high : ∀ b ∈ front, 128 ≤ b.toNat)
    (low : last.toNat < 128) :
    ∃ cs c, s.toList = cs ++ [c] ∧ c.toNat ≤ 127 ∧ ∀ d ∈ cs, 127 < d.toNat := by
  rw [encode_eq_flatMap] at bytes
  obtain empty | ⟨cs, c, chars⟩ := List.eq_nil_or_concat s.toList
  · rw [empty] at bytes
    simp at bytes
  · rw [chars, List.concat_eq_append, List.flatMap_append, List.flatMap_singleton] at bytes
    have ascii : c.toNat ≤ 127 := by
      refine Nat.le_of_not_lt fun large => ?_
      obtain ⟨b, rest, shape, -⟩ := head?_utf8EncodeChar_of_lt large
      have ends : last ∈ String.utf8EncodeChar c := by
        have last? := congrArg List.getLast? bytes
        rw [shape, List.getLast?_append_cons, List.getLast?_append_cons] at last?
        rw [shape]
        exact List.mem_of_getLast? last?
      exact absurd (le_of_mem_utf8EncodeChar large ends) (Nat.not_le.mpr low)
    rw [utf8EncodeChar_of_le ascii] at bytes
    obtain ⟨before, -⟩ := List.append_inj' bytes rfl
    refine ⟨cs, c, by rw [chars, List.concat_eq_append], ascii, fun d member => ?_⟩
    refine Nat.lt_of_not_le fun small => ?_
    have inside : byte d ∈ front := by
      rw [← before]
      refine List.mem_flatMap.mpr ⟨d, member, ?_⟩
      rw [utf8EncodeChar_of_le small]
      exact List.mem_singleton_self _
    have large := high _ inside
    rw [toNat_byte small] at large
    omega

end Utf8
end CacheFacade

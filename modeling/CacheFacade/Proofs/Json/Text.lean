import CacheFacade.Json.Writer
import CacheFacade.Proofs.Json.Scan
import CacheFacade.Proofs.Text.Utf8

/-!
Texts of documents. A written text is read back whole, because the escape of a byte reads as that
byte; and a text that is read is shorter than the bytes it was read from.
-/

namespace CacheFacade
namespace Json

namespace Writer

/-- A byte is escaped by a letter that stands for it, or by its code if it is a control character
without one, and stands for itself otherwise. -/
theorem escape_cases (b : UInt8) :
    (∃ u, escape b = [92, u] ∧ u ≠ 117 ∧ Text.letter? u = some b) ∨
      (escape b = [92, 117, 48, 48, hexDigit (b.toNat / 16), hexDigit (b.toNat % 16)] ∧ b < 32) ∨
      (escape b = [b] ∧ b ≠ 34 ∧ b ≠ 92 ∧ ¬ b < 32) := by
  unfold escape
  split_ifs with quote backslash back tab line page return_ control
  case pos => exact .inl ⟨34, rfl, by decide, by rw [beq_iff_eq.mp quote]; rfl⟩
  case pos => exact .inl ⟨92, rfl, by decide, by rw [beq_iff_eq.mp backslash]; rfl⟩
  case pos => exact .inl ⟨98, rfl, by decide, by rw [beq_iff_eq.mp back]; rfl⟩
  case pos => exact .inl ⟨116, rfl, by decide, by rw [beq_iff_eq.mp tab]; rfl⟩
  case pos => exact .inl ⟨110, rfl, by decide, by rw [beq_iff_eq.mp line]; rfl⟩
  case pos => exact .inl ⟨102, rfl, by decide, by rw [beq_iff_eq.mp page]; rfl⟩
  case pos => exact .inl ⟨114, rfl, by decide, by rw [beq_iff_eq.mp return_]; rfl⟩
  case pos => exact .inr (.inl ⟨rfl, control⟩)
  case neg => exact .inr (.inr ⟨rfl, mt beq_iff_eq.mpr quote, mt beq_iff_eq.mpr backslash, control⟩)

theorem escape_ne_nil (b : UInt8) : escape b ≠ [] := by
  obtain ⟨u, eq, -⟩ | ⟨eq, -⟩ | ⟨eq, -⟩ := escape_cases b <;> simp [eq]

end Writer

namespace Text

open Scan

theorem escape_simple {b : UInt8} (other : b ≠ 117) (strict : Bool) (bs : Bytes) :
    escape strict (b :: bs) = simpleEscape b bs := by
  have ne : (b != 117) = true := bne_iff_ne.mpr other
  change (if b != 117 then simpleEscape b else _ : Scan Bytes) bs = _
  rw [ne, if_pos rfl]

theorem escape_letter {u b : UInt8} (other : u ≠ 117) (letter : letter? u = some b)
    (strict : Bool) (rest : Bytes) : escape strict (u :: rest) = .done [b] rest := by
  rw [escape_simple other, simpleEscape, letter]
  rfl

theorem escape_unit (strict : Bool) (bs : Bytes) :
    escape strict (117 :: bs) = (hexUnit >>= fun n =>
      if strict && isTrail n then fail .loneSurrogate
      else if isLead n then afterLead strict (bs.length + 1) n
      else pure (codePoint n)) bs := rfl

theorem hexDigit?_hexDigit {n : Nat} (small : n < 16) : hexDigit? (Writer.hexDigit n) = some n := by
  have all : ∀ n : Fin 16, hexDigit? (Writer.hexDigit n) = some n.val := by decide
  exact all ⟨n, small⟩

theorem escape_control {b : UInt8} (control : b < 32) (rest : Bytes) :
    escape true (117 :: 48 :: 48 :: Writer.hexDigit (b.toNat / 16) ::
      Writer.hexDigit (b.toNat % 16) :: rest) = .done [b] rest := by
  have small : b.toNat < 32 := control
  have unit : hexUnit (48 :: 48 :: Writer.hexDigit (b.toNat / 16) ::
      Writer.hexDigit (b.toNat % 16) :: rest) = .done b.toNat rest := by
    have zero : hexDigit? 48 = some 0 := rfl
    simp only [hexUnit, zero, hexDigit?_hexDigit (show b.toNat / 16 < 16 by omega),
      hexDigit?_hexDigit (show b.toNat % 16 < 16 by omega)]
    congr 1
    omega
  have lead : isLead b.toNat = false := by simp [isLead]; omega
  have trail : isTrail b.toNat = false := by simp [isTrail]; omega
  have point : codePoint b.toNat = [b] := by
    rw [codePoint, if_pos (by omega)]
    simp
  rw [escape_unit, bind_of_done unit, lead, trail, point]
  rfl

theorem body_quote (strict : Bool) (fuel : Nat) (acc rest : Bytes) :
    body strict (fuel + 1) acc (34 :: rest) = .done acc.reverse (34 :: rest) := rfl

theorem body_backslash {strict : Bool} {bs piece rest : Bytes}
    (escaped : escape strict bs = .done piece rest) (fuel : Nat) (acc : Bytes) :
    body strict (fuel + 1) acc (92 :: bs) = body strict fuel (piece.reverse ++ acc) rest := by
  change (escape strict >>= fun piece => body strict fuel (piece.reverse ++ acc)) bs = _
  rw [bind_of_done escaped]

theorem body_plain {b : UInt8} (quote : b ≠ 34) (backslash : b ≠ 92) (plain : ¬ b < 32)
    (strict : Bool) (fuel : Nat) (acc rest : Bytes) :
    body strict (fuel + 1) acc (b :: rest) = body strict fuel (b :: acc) rest := by
  simp [body, Json.quote, Json.backslash, quote, backslash, plain]

theorem body_escape (b : UInt8) (fuel : Nat) (acc rest : Bytes) :
    body true (fuel + 1) acc (Writer.escape b ++ rest) = body true fuel (b :: acc) rest := by
  -- Escapes work on bytes, not on characters, so nothing about UTF-8 is needed here.
  obtain ⟨u, eq, other, letter⟩ | ⟨eq, control⟩ | ⟨eq, quote, backslash, plain⟩ :=
    Writer.escape_cases b
  · rw [eq]
    exact body_backslash (escape_letter other letter true rest) fuel acc
  · rw [eq]
    exact body_backslash (escape_control control rest) fuel acc
  · rw [eq]
    exact body_plain quote backslash plain true fuel acc rest

theorem body_flatMap_escape (bs acc rest : Bytes) {fuel : Nat} (enough : bs.length < fuel) :
    body true fuel acc (bs.flatMap Writer.escape ++ 34 :: rest) =
      .done (acc.reverse ++ bs) (34 :: rest) := by
  induction bs generalizing fuel acc with
  | nil =>
      obtain ⟨fuel, rfl⟩ := Nat.exists_eq_succ_of_ne_zero (Nat.ne_of_gt enough)
      rw [List.append_nil]
      exact body_quote true fuel acc rest
  | cons b bs ih =>
      obtain ⟨fuel, rfl⟩ := Nat.exists_eq_succ_of_ne_zero (Nat.ne_of_gt (Nat.zero_lt_of_lt enough))
      rw [List.flatMap_cons, List.append_assoc, body_escape,
        ih (b :: acc) (Nat.lt_of_succ_lt_succ enough), List.reverse_cons, List.append_assoc]
      rfl

theorem length_le_flatMap_escape (bs : Bytes) : bs.length ≤ (bs.flatMap Writer.escape).length := by
  induction bs with
  | nil => exact Nat.le_refl 0
  | cons b bs ih =>
      have one := List.length_pos_iff.mpr (Writer.escape_ne_nil b)
      rw [List.flatMap_cons, List.length_append, List.length_cons]
      omega

theorem text_append (s : String) (rest : Bytes) :
    text ((Utf8.encode s).flatMap Writer.escape ++ 34 :: rest) = .done s rest := by
  have enough := length_le_flatMap_escape (Utf8.encode s)
  have fuel : (Utf8.encode s).length <
      ((Utf8.encode s).flatMap Writer.escape ++ 34 :: rest).length + 1 := by
    rw [List.length_append]
    omega
  unfold text
  rw [bind_of_done (body_flatMap_escape (Utf8.encode s) [] rest fuel)]
  simp

theorem length_codePoint_le (n : Nat) : (codePoint n).length ≤ 4 := by
  unfold codePoint
  split_ifs <;> simp

theorem length_of_hexUnit {bs rest : Bytes} {n : Nat} (run : hexUnit bs = .done n rest) :
    rest.length + 4 = bs.length := by
  unfold hexUnit at run
  split at run
  · split at run
    · cases run
      rfl
    · cases run
  · cases run

theorem exists_of_peek {α : Type} {f : UInt8 → Scan α} {bs rest : Bytes} {a : α}
    (run : (orEnd peek >>= f) bs = .done a rest) : ∃ b, f b bs = .done a rest := by
  cases bs with
  | nil => cases run
  | cons b bs => exact ⟨b, run⟩

theorem afterLead_strict (fuel lead : Nat) :
    afterLead true (fuel + 1) lead = (do
      let b ← orEnd peek
      if b = backslash then
        skip
        let u ← orEnd peek
        if u = 117 then
          skip
          let n ← hexUnit
          if isTrail n then pure (codePoint (0x10000 + (lead - 0xD800) * 1024 + (n - 0xDC00)))
          else fail .loneSurrogate
        else
          skip
          fail .cutEscape
      else
        skip
        fail .cutEscape) := by
  simp [afterLead]

/-- In a strict text a leading half is followed by an escaped trailing half, or it is refused. -/
theorem length_of_afterLead {fuel lead : Nat} {bs piece rest : Bytes}
    (run : afterLead true fuel lead bs = .done piece rest) :
    piece.length ≤ 4 ∧ rest.length ≤ bs.length := by
  cases fuel with
  | zero =>
      cases run
      exact ⟨length_codePoint_le lead, Nat.le_refl _⟩
  | succ fuel =>
      rw [afterLead_strict] at run
      obtain ⟨b, run⟩ := exists_of_peek run
      obtain ⟨-, run⟩ | ⟨-, run⟩ := of_ite run
      · rw [bind_skip] at run
        obtain ⟨u, run⟩ := exists_of_peek run
        obtain ⟨-, run⟩ | ⟨-, run⟩ := of_ite run
        · rw [bind_skip] at run
          obtain ⟨n, mid, unit, run⟩ := exists_of_bind run
          have four := length_of_hexUnit unit
          simp only [List.length_tail] at four
          obtain ⟨-, run⟩ | ⟨-, run⟩ := of_ite run
          · obtain ⟨rfl, rfl⟩ := of_pure run
            exact ⟨length_codePoint_le _, by omega⟩
          · cases run
        · cases run
      · cases run

theorem length_of_escape {bs piece rest : Bytes} (run : escape true bs = .done piece rest) :
    piece.length + rest.length ≤ bs.length := by
  cases bs with
  | nil => cases run
  | cons b bs =>
      rw [List.length_cons]
      by_cases unit : b = 117
      · subst unit
        rw [escape_unit] at run
        obtain ⟨n, mid, unit, run⟩ := exists_of_bind run
        have four := length_of_hexUnit unit
        obtain ⟨-, run⟩ | ⟨-, run⟩ := of_ite run
        · cases run
        obtain ⟨-, run⟩ | ⟨-, run⟩ := of_ite run
        · have after := length_of_afterLead run
          omega
        · cases run
          have short := length_codePoint_le n
          omega
      · rw [escape_simple unit, simpleEscape] at run
        cases letter : letter? b with
        | none =>
            rw [letter] at run
            cases run
        | some c =>
            rw [letter] at run
            cases run
            exact Nat.le_of_eq (Nat.add_comm 1 _)

theorem length_of_body {fuel : Nat} {acc bs raw rest : Bytes}
    (run : body true fuel acc bs = .done raw rest) :
    raw.length + rest.length ≤ acc.length + bs.length ∧ rest ≠ [] := by
  induction fuel generalizing acc bs with
  | zero => cases run
  | succ fuel ih =>
      rw [body, bind_peek] at run
      cases bs with
      | nil => cases run
      | cons b bs =>
          obtain ⟨-, run⟩ | ⟨-, run⟩ := of_ite run
          · cases run
            simp
          rw [bind_skip] at run
          obtain ⟨-, run⟩ | ⟨-, run⟩ := of_ite run
          · obtain ⟨piece, mid, escaped, run⟩ := exists_of_bind run
            have short := length_of_escape escaped
            obtain ⟨tail, ne⟩ := ih run
            simp at tail short ⊢
            exact ⟨by omega, ne⟩
          obtain ⟨-, run⟩ | ⟨-, run⟩ := of_ite run
          · cases run
          · obtain ⟨tail, ne⟩ := ih run
            simp at tail ⊢
            exact ⟨by omega, ne⟩

/-- A text that is read is shorter than its source: the closing quote is no part of it. -/
theorem length_of_text {bs rest : Bytes} {s : String} (run : text bs = .done s rest) :
    (Utf8.encode s).length < bs.length := by
  unfold text at run
  obtain ⟨raw, mid, read, run⟩ := exists_of_bind run
  obtain ⟨short, ne⟩ := length_of_body read
  have quote := List.length_pos_iff.mpr ne
  rw [bind_skip] at run
  cases decoded : Utf8.decode raw with
  | error f =>
      rw [decoded] at run
      cases run
  | ok s' =>
      rw [decoded] at run
      cases run
      rw [Utf8.encode_of_decode decoded]
      simp at short
      omega

end Text
end Json
end CacheFacade

import CacheFacade.Message.Reader
import CacheFacade.Message.Writer
import CacheFacade.Proofs.Compact.Varint
import CacheFacade.Proofs.Text.Utf8

/-!
The parts of a message on the wire: keys, scalars, and what stands behind its length. A reader that
repeats a step until a length is used up takes what the steps take one after the other.
-/

namespace CacheFacade
namespace Message

/-- The values of a kind. -/
inductive Kind.Holds : Kind → Val → Prop where
  | text (s : String) : Kind.Holds .text (.text s)
  | bytes (bs : Bytes) : Kind.Holds .bytes (.bytes bs)
  | bool (b : Bool) : Kind.Holds .bool (.bool b)
  | int32 {n : Int} (held : IntKind.i32.holds n = true) : Kind.Holds .int32 (.int n)
  | int64 {n : Int} (held : IntKind.i64.holds n = true) : Kind.Holds .int64 (.int n)
  | uint64 {n : Int} (held : IntKind.u64.holds n = true) : Kind.Holds .uint64 (.int n)
  | sint64 {n : Int} (held : IntKind.i64.holds n = true) : Kind.Holds .sint64 (.int n)
  | double (bits : UInt64) : Kind.Holds .double (.f64 bits)
  | fixed32 {n : Int} (held : IntKind.u32.holds n = true) : Kind.Holds .fixed32 (.int n)

namespace Writer

theorem natCast_word (n : Int) : (word n : Int) = n % (Nat.pow 2 64 : Nat) :=
  Int.toNat_of_nonneg (Int.emod_nonneg n (by decide))

theorem word_lt (n : Int) : word n < 2 ^ 64 := by
  have below : (word n : Int) < (Nat.pow 2 64 : Nat) := by
    rw [natCast_word]
    exact Int.emod_lt_of_pos n (by decide)
  exact Int.ofNat_lt.mp below

theorem word_of_holds {n : Int} (held : IntKind.u64.holds n = true) : (word n : Int) = n := by
  rw [natCast_word]
  exact IntKind.wrap_of_holds held

/-- An integer with a sign takes all bits of the word, and is told by as many as its kind has. -/
theorem wrap_word {k : IntKind} (narrow : Nat.pow 2 k.width.bits ∣ Nat.pow 2 64) {n : Int}
    (held : k.holds n = true) : k.wrap (word n) = n := by
  rw [natCast_word, IntKind.wrap_emod k narrow, IntKind.wrap_of_holds held]

theorem delimited_ne_nil (bs : Bytes) : delimited bs ≠ [] := by
  simp [delimited, Varint.write_ne_nil]

theorem key_ne_nil (number : Nat) (w : Wire) : key number w ≠ [] := Varint.write_ne_nil _

theorem length_le_delimited (bs : Bytes) : bs.length ≤ (delimited bs).length := by
  simp [delimited]

theorem scalar_ne_nil {k : Kind} {v : Val} (held : k.Holds v) : scalar k v ≠ [] := by
  cases held with
  | text | bytes => exact delimited_ne_nil _
  | bool => exact List.cons_ne_nil _ _
  | int32 | int64 | uint64 | sint64 => exact Varint.write_ne_nil _
  | double | fixed32 => simp [scalar, Compact.lowFirst]

end Writer

open Reader

theorem takes_varint {n : Nat} (fits : n < 2 ^ 64) : Takes varint (Varint.write n) n := by
  intro rest
  rw [varint, Varint.read_write (by decide) fits]

theorem takes_take (bs : Bytes) : Takes (take bs.length) bs bs := by
  intro rest
  simp [take]

theorem takes_key {number : Nat} (positive : 0 < number) (small : number < 2 ^ 29) (w : Wire) :
    Takes key (Writer.key number w) (number, w) := by
  have code : w.code < 8 := by cases w <;> decide
  refine (takes_varint (by omega)).finish ?_
  have fits : ¬ Nat.pow 2 32 ≤ number * 8 + w.code := by
    change ¬ 2 ^ 32 ≤ number * 8 + w.code
    omega
  have low : (number * 8 + w.code) % 8 = w.code := by omega
  have high : (number * 8 + w.code) / 8 = number := by omega
  simp only [if_neg fits, low, high, Wire.ofCode?_code, if_neg (Nat.ne_of_gt positive)]
  exact .done _

theorem takes_delimitedBytes {bs : Bytes} (short : bs.length < 2 ^ 64) :
    Takes delimitedBytes (Writer.delimited bs) bs :=
  (takes_varint short).bind (takes_take bs)

theorem takes_fixed {size n : Nat} (fits : n < 256 ^ size) :
    Takes (fixed size) (Compact.lowFirst size n) n :=
  Compact.takes_ofLowFirst takes_take fits

theorem takes_scalar {k : Kind} {v : Val} (held : k.Holds v)
    (short : (Writer.scalar k v).length < 2 ^ 64) : Takes (scalar k) (Writer.scalar k v) v := by
  cases held with
  | text s =>
      have inner := Nat.lt_of_le_of_lt (Writer.length_le_delimited (Utf8.encode s)) short
      refine (takes_delimitedBytes inner).finish ?_
      rw [Utf8.decode_encode]
      exact .done _
  | bytes bs =>
      have inner := Nat.lt_of_le_of_lt (Writer.length_le_delimited bs) short
      exact (takes_delimitedBytes inner).finish (.done _)
  | bool b =>
      have truth := takes_varint (n := if b then 1 else 0) (by split <;> decide)
      rw [Varint.write_of_lt (by split <;> decide)] at truth
      cases b <;> exact truth.finish (.done _)
  | int32 held =>
      refine (takes_varint (Writer.word_lt _)).finish ?_
      rw [Writer.wrap_word (by decide) held]
      exact .done _
  | int64 held =>
      refine (takes_varint (Writer.word_lt _)).finish ?_
      rw [Writer.wrap_word (by decide) held]
      exact .done _
  | uint64 held =>
      refine (takes_varint (Writer.word_lt _)).finish ?_
      rw [Writer.word_of_holds held]
      exact .done _
  | sint64 held =>
      refine (takes_varint (Varint.fold_lt (k := .i64) rfl held)).finish ?_
      rw [Varint.unfold_fold]
      exact .done _
  | double bits =>
      refine (takes_fixed bits.toNat_lt).finish ?_
      simpa using Takes.done _
  | @fixed32 n held =>
      obtain ⟨low, high⟩ := IntKind.holds_iff.mp held
      change 0 ≤ n at low
      change n ≤ (Nat.pow 2 32 : Nat) - 1 at high
      have fits : n.toNat < 256 ^ 4 := by
        have few : (Nat.pow 2 32 : Nat) = 256 ^ 4 := by decide
        omega
      refine (takes_fixed fits).finish ?_
      rw [Int.toNat_of_nonneg low]
      exact .done _

theorem takes_checkWire (w : Wire) : Takes (checkWire w w) [] () := by
  rw [checkWire, if_pos rfl]
  exact .done ()

theorem takes_checked {k : Kind} {v : Val} (held : k.Holds v)
    (short : (Writer.scalar k v).length < 2 ^ 64) :
    Takes (checked k k.wire) (Writer.scalar k v) v :=
  (takes_checkWire k.wire).bind (takes_scalar held short)

theorem takes_inside {α : Type} (type field : String) {p : Unpack α} {bs : Bytes} {a : α}
    (takes : Takes p bs a) : Takes (inside type field p) bs a := by
  intro rest
  rw [inside, takes rest]

section

variable {α : Type} {step : α → Unpack α}

/-- Steps that take some bytes each, one after the other. -/
inductive Steps (step : α → Unpack α) : α → Bytes → α → Prop where
  | done (a : α) : Steps step a [] a
  | more {a b c : α} {bs cs : Bytes} (some : bs ≠ []) (first : Takes (step a) bs b)
      (others : Steps step b cs c) : Steps step a (bs ++ cs) c

theorem stepsTo_succ (limit fuel : Nat) (a : α) (bs : Bytes) :
    stepsTo limit step (fuel + 1) a bs =
      if limit < bs.length then (step a >>= stepsTo limit step fuel) bs
      else if bs.length = limit then .ok (a, bs) else .error ⟨[], .lengthExceeded⟩ := by
  change (if limit < bs.length then step a >>= stepsTo limit step fuel
    else if bs.length = limit then pure a else refuse .lengthExceeded) bs = _
  split
  · rfl
  · split <;> rfl

namespace Steps

theorem one {a b : α} {bs : Bytes} (some : bs ≠ []) (takes : Takes (step a) bs b) :
    Steps step a bs b := by
  simpa using Steps.more some takes (.done b)

theorem trans {a b c : α} {bs cs : Bytes} (first : Steps step a bs b)
    (second : Steps step b cs c) : Steps step a (bs ++ cs) c := by
  induction first with
  | done => exact second
  | more some takes _ ih =>
      rw [List.append_assoc]
      exact .more some takes (ih second)

/-- The steps end where the length says, if there is fuel for a step a byte. -/
theorem stepsTo {a b : α} {bs : Bytes} (steps : Steps step a bs b) (rest : Bytes) {fuel : Nat}
    (enough : bs.length < fuel) :
    Reader.stepsTo rest.length step fuel a (bs ++ rest) = .ok (b, rest) := by
  induction steps generalizing fuel with
  | done a =>
      obtain ⟨fuel, rfl⟩ := Nat.exists_eq_succ_of_ne_zero (Nat.ne_zero_of_lt enough)
      rw [stepsTo_succ, List.nil_append, if_neg (Nat.lt_irrefl _), if_pos rfl]
  | @more a b c bs cs some first _ ih =>
      obtain ⟨fuel, rfl⟩ := Nat.exists_eq_succ_of_ne_zero (Nat.ne_zero_of_lt enough)
      have taken : 0 < bs.length := List.length_pos_iff.mpr some
      rw [List.length_append] at enough
      have left : rest.length < (bs ++ cs ++ rest).length := by
        simp only [List.length_append]
        omega
      rw [stepsTo_succ, if_pos left, List.append_assoc]
      simp only [bind, StateT.bind, Except.bind, first (cs ++ rest)]
      exact ih (by omega)

/-- Steps behind the length of what they take. -/
theorem delimited {a b : α} {bs : Bytes} (steps : Steps step a bs b) (short : bs.length < 2 ^ 64) :
    Takes (Reader.delimited step a) (Writer.delimited bs) b := by
  refine (takes_varint short).bind ?_
  intro rest
  have whole : bs.length ≤ (bs ++ rest).length := by simp
  have limit : (bs ++ rest).length - bs.length = rest.length := by simp
  have run := steps.stepsTo rest (Nat.lt_succ_of_le whole)
  rw [← limit] at run
  simpa [bind, StateT.bind, Except.bind, get, getThe, MonadStateOf.get, StateT.get, pure,
    Except.pure, Nat.not_lt.mpr whole] using run

end Steps

end

end Message
end CacheFacade

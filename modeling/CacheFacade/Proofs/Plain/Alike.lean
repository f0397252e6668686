import CacheFacade.Proofs.Plain.Untyped

/-!
Where the plain strategy and the document strategy are alike: at the types that ask for a value with
parts, in wrappers or not, and at no others. What either of them writes of such a type is read alike
by both, and so is every other byte string, down to the message of a refusal.
-/

namespace CacheFacade

/-- A probe that asks for an absent or a present value, for bytes, a unit, a list or a map. -/
def Request.AsksForParts : Request → Prop
  | .bytes | .option | .unit | .list | .tuple _ | .map | .record _ => True
  | _ => False

namespace Ty

/-- The type asks for a value that has no plain text: an optional one, a unit, bytes, a list, a
tuple, a map or a record, in wrappers or not. -/
def AsksForParts : Ty → Prop
  | .unit | .unitNamed _ | .bareNone | .bytes | .option _ | .list _ | .tuple _ | .tupleNamed _ _
  | .map _ _ | .record _ _ _ | .openRecord _ _ => True
  | .wrapper _ t => AsksForParts t
  | .probe r => r.AsksForParts
  | _ => False

end Ty

namespace Codec

/-- What a read tells: the value, or the message of the refusal. -/
def told (c : Codec) (bs : Bytes) : Except String Val := (c.decode bs).mapError ReadFault.message

/-- What one codec writes of a value is read by the other as the second value. -/
def Passes (c c' : Codec) (v w : Val) : Prop := ∃ bs, c.encode v = .ok bs ∧ c'.decode bs = .ok w

end Codec

namespace Json
namespace Reader

open Scan

/-- Nothing is left to scan, and the scan asked for a value. -/
def Starved {α : Type} (s : Scan α) : Prop := s [] = .failed (.grammar .endInValue) 0

theorem Starved.bind {α β : Type} {s : Scan α} (starved : Starved s) (f : α → Scan β) :
    Starved (s >>= f) := by
  change Scan.bind s f [] = _
  rw [Scan.bind, starved]

end Reader

end Json

namespace Plain

theorem scalarText?_of_asksForParts : (t : Ty) → t.AsksForParts → (v : Val) →
    scalarText? (t.announce v) = none
  | .wrapper _ t, asks, v => scalarText?_of_asksForParts t asks v
  | .unit, _, v | .unitNamed _, _, v | .bareNone, _, v | .bytes, _, v | .option _, _, v
  | .list _, _, v | .tuple _, _, v | .tupleNamed _ _, _, v | .map _ _, _, v | .record _ _ _, _, v
  | .openRecord _ _, _, v | .probe _, _, v => by cases v <;> rfl

theorem write_of_asksForParts {t : Ty} (asks : t.AsksForParts) (v : Val) :
    write t v = Json.write t v := by
  rw [write]
  simp only [scalarText?_of_asksForParts t asks v]
  rfl

theorem read_of_asksForParts : (t : Ty) → t.AsksForParts → (bs : Bytes) →
    read t bs = ofDocument (Json.read t bs)
  | .wrapper _ t, asks, bs => read_of_asksForParts t asks bs
  | .unit, _, _ | .unitNamed _, _, _ | .bareNone, _, _ | .bytes, _, _ | .option _, _, _
  | .list _, _, _ | .tuple _, _, _ | .tupleNamed _ _, _, _ | .map _ _, _, _ | .record _ _ _, _, _
  | .openRecord _ _, _, _ => rfl
  | .probe .bytes, _, _ | .probe .option, _, _ | .probe .unit, _, _ | .probe .list, _, _
  | .probe (.tuple _), _, _ | .probe .map, _, _ | .probe (.record _), _, _ => rfl

theorem told_plain (t : Ty) (bs : Bytes) :
    (Codec.described .plain t).told bs = (read t bs).mapError Fault.message := by
  rw [Codec.told, Codec.decode]
  cases read t bs <;> rfl

end Plain

open Codec

/-- Where two codecs write alike and read alike, each reads what the other writes as what itself
would have written. -/
theorem Codec.passes_congr {c c' d d' : Codec} {v : Val} (writes : c.encode v = d.encode v)
    (reads : ∀ bs, c'.told bs = d'.told bs) (w : Val) : c.Passes c' v w ↔ d.Passes d' v w := by
  have ok_iff (e : Codec) (bs : Bytes) : e.decode bs = .ok w ↔ e.told bs = .ok w :=
    Plain.ok_of_mapError.symm
  simp only [Passes, writes, ok_iff, reads]

section Asking

variable {t : Ty} {s s' : Strategy}

theorem encode_of_asksForParts (asks : t.AsksForParts) (writes : s ≠ .compact) (v : Val) :
    (described s t).encode v = (described .document t).encode v := by
  cases s with
  | plain =>
      exact congrArg (Except.mapError WriteFault.document) (Plain.write_of_asksForParts asks v)
  | document => rfl
  | compact => exact absurd rfl writes

theorem told_of_asksForParts (asks : t.AsksForParts) (reads : s ≠ .compact) (bs : Bytes) :
    (described s t).told bs = (described .document t).told bs := by
  cases s with
  | plain =>
      rw [Plain.told_plain, Plain.read_of_asksForParts t asks, told, decode]
      cases Json.read t bs <;> rfl
  | document => rfl
  | compact => exact absurd rfl reads

theorem passes_of_asksForParts (asks : t.AsksForParts) (writes : s ≠ .compact)
    (reads : s' ≠ .compact) (v w : Val) :
    (described s t).Passes (described s' t) v w ↔
      (described .document t).Passes (described .document t) v w :=
  passes_congr (encode_of_asksForParts asks writes v) (told_of_asksForParts asks reads) w

end Asking

/-- A list in two wrappers, with blanks in front and a stray byte behind. -/
example :
    let bs := Utf8.encode " [\"a\"] x"
    let t := Ty.wrapper "Shelf" (.wrapper "Tags" (.list .text))
    (described .plain t).told bs = .error "trailing characters at line 1 column 8" := by
  rfl

end CacheFacade

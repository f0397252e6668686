import CacheFacade.Numeral.Integer
import CacheFacade.Span

/-!
The lifetime that is left to a field of a hash, and the codes that a server answers for it.
-/

namespace CacheFacade

inductive FieldTtl where
  | missing
  | persistent
  | expires (d : Span)
deriving Repr, DecidableEq

namespace FieldTtl

/-- The meaning of a code: minus two for a missing field, another negative one for a field without a
lifetime, else the seconds that are left. -/
def ofCode (code : Int) : FieldTtl :=
  if code = -2 then missing
  else if code < 0 then persistent
  else expires (.ofSeconds code.toNat)

/-- The code of a lifetime; its whole seconds are taken as a signed word of 64 bits. -/
def toCode : FieldTtl → Int
  | missing => -2
  | persistent => -1
  | expires d => IntKind.i64.wrap d.seconds

def fieldExists : FieldTtl → Bool
  | missing => false
  | _ => true

def describe : FieldTtl → String
  | missing => "Missing"
  | persistent => "Persistent"
  | expires d => s!"Expires({d.text})"

end FieldTtl
end CacheFacade

import CacheFacade.Compact.Varint
import CacheFacade.Schema.Acceptance

/-!
Reading a typed value in the compact form. Nothing in the bytes says what they are, so a type that
takes what comes cannot be read. Bytes after the value are not looked at.
-/

namespace CacheFacade
namespace Compact

inductive Fault where
  | cut
  | badVarint
  | badBool
  | badChar
  | badText
  | badOption
  | unsupported
  /-- The type refused the value; the form keeps no account of why. -/
  | refused
deriving Repr, DecidableEq

def Fault.message : Fault → String
  | cut => "Hit the end of buffer, expected more data"
  | badVarint => "Found a varint that didn't terminate. Is the usize too big for this platform?"
  | badBool => "Found a bool that wasn't 0 or 1"
  | badChar => "Found an invalid unicode char"
  | badText => "Tried to parse invalid utf-8"
  | badOption => "Found an Option discriminant that wasn't 0 or 1"
  | unsupported => "This is a feature that PostCard will never implement"
  | refused => "Serde Deserialization Error"

/-- Takes a value off the front of the bytes. -/
abbrev Unpack := StateT Bytes (Except Fault)

namespace Reader

def refuse {α : Type} (f : Fault) : Unpack α := throw f

def byte : Unpack UInt8 := fun
  | [] => .error .cut
  | b :: bs => .ok (b, bs)

def take (n : Nat) : Unpack Bytes := fun bs =>
  if n ≤ bs.length then .ok (bs.take n, bs.drop n) else .error .cut

def varint (bits : Nat) : Unpack Nat := fun bs =>
  match Varint.read (.ofBits bits) bs with
  | .ok r => .ok r
  | .error .cut => .error .cut
  | .error .endless => .error .badVarint

/-- A length; it takes the width of an address. -/
def length : Unpack Nat := varint 64

def index : Unpack Nat := varint 32

def bool : Unpack Bool := do
  match ← byte with
  | 0 => return false
  | 1 => return true
  | _ => refuse .badBool

def int (k : IntKind) : Unpack Int := do
  match k.width with
  | .w8 => return k.wrap (← byte).toNat
  | w =>
    let n ← varint w.bits
    return if k.signed then Varint.unfold n else n

/-- The number whose bytes are given, the low ones first. -/
def ofLowFirst : Bytes → Nat
  | [] => 0
  | b :: bs => b.toNat + 256 * ofLowFirst bs

def fixed (size : Nat) : Unpack Nat := return ofLowFirst (← take size)

def bytes : Unpack Bytes := do take (← length)

def text : Unpack String := do
  match Utf8.decode (← bytes) with
  | .ok s => return s
  | .error _ => refuse .badText

/-- A text of at most four bytes; its first character counts. -/
def char : Unpack Char := do
  let n ← length
  if 4 < n then refuse .badChar
  else
    match Utf8.decode (← take n) with
    | .error _ => refuse .badChar
    | .ok s =>
      match s.toList with
      | c :: _ => return c
      | [] => refuse .badChar

def option {α : Type} (absent : α) (present : Unpack α) : Unpack α := do
  match ← byte with
  | 0 => return absent
  | 1 => present
  | _ => refuse .badOption

/-- As many items as the count says. -/
def items {α : Type} (item : Unpack α) : Nat → Unpack (List α)
  | 0 => return []
  | n + 1 => do
    let a ← item
    return a :: (← items item n)

def counted {α : Type} (item : Unpack α) : Unpack (List α) := do items item (← length)

def pair {α β : Type} (first : Unpack α) (second : Unpack β) : Unpack (α × β) := do
  let a ← first
  return (a, ← second)

def inOrder : List (Unpack Val) → Unpack (List Val)
  | [] => return []
  | p :: ps => do
    let v ← p
    return v :: (← inOrder ps)

/-- A document cannot be read, so only an empty sequence of them can. -/
def noItems {α : Type} (empty : α) (n : Nat) : Unpack α :=
  if n = 0 then return empty else refuse .unsupported

def probe : Request → Unpack Sighting
  | .bool => return .bool (← bool)
  | .char => return .char (← char)
  | .text => return .text (← text)
  | .bytes => return .bytes (← bytes)
  | .option => option .none (refuse .unsupported)
  | .unit => return .unit
  | .list => do noItems (.list []) (← length)
  | .map => do noItems (.map []) (← length)
  | .tuple n | .record n => noItems (.list []) n
  | .any | .identifier | .wrapper | .ignored => refuse .unsupported

mutual

/-- Takes the value of a type. -/
def read : Ty → Unpack Val
  | .bool => return .bool (← bool)
  | .int k => return .int (← int k)
  | .f32 => return .f32 (← fixed 4).toUInt32
  | .f64 => return .f64 (← fixed 8).toUInt64
  | .char => return .char (← char)
  | .text => return .text (← text)
  | .bytes => return .bytes (← bytes)
  | .unit | .unitNamed _ | .bareNone => return .unit
  | .option t => option .none (.some <$> read t)
  | .list t => .list <$> counted (read t)
  | .tuple ts | .tupleNamed _ ts => .list <$> inOrder (readers ts)
  | .map k t => return .map (Val.sortEntries (← counted (pair (read k) (read t))))
  | .wrapper _ t => read t
  | .record _ _ fields => .list <$> inOrder (fieldReaders fields)
  | .openRecord _ fields => do
    let n ← length
    if n ≠ 0 then refuse .unsupported
    else
      match fields.mapM (fun f => f.1.valueWhenAbsent f.2) with
      | .ok vs => return .list (vs ++ [.map []])
      | .error _ => refuse .refused
  | .choice _ variants => do
    let i ← index
    match (bodyReaders variants)[i]? with
    | some p => .variant i <$> p
    | none => refuse .refused
  | .even => do
    match Ty.checkEven (.int (← int .i64)) with
    | .ok v => return v
    | .error _ => refuse .refused
  | .probe r => return .sighting (← probe r)
  | .tagged _ _ _ | .untagged _ _ | .document => refuse .unsupported

def readers : List Ty → List (Unpack Val)
  | [] => []
  | t :: ts => read t :: readers ts

def fieldReaders : List (FieldSpec × Ty) → List (Unpack Val)
  | [] => []
  | (_, t) :: fields => read t :: fieldReaders fields

def bodyReaders : List (String × Body) → List (Unpack Val)
  | [] => []
  | (_, body) :: rest => readBody body :: bodyReaders rest

def readBody : Body → Unpack Val
  | .unit => return .unit
  | .wrap t => read t
  | .tuple ts => .list <$> inOrder (readers ts)
  | .record fields => .list <$> inOrder (fieldReaders fields)

end

end Reader

/-- The value of a type that the bytes start with. -/
def read (t : Ty) (bs : Bytes) : Except Fault Val :=
  match (Reader.read t).run bs with
  | .ok (v, _) => .ok v
  | .error f => .error f

end Compact
end CacheFacade

import CacheFacade.Compact.Reader
import CacheFacade.Message.Schema

/-!
Reading a message. Fields may come in any order and more than once: the last scalar counts, lists
grow, and messages are merged. Fields with unknown numbers are passed over. A fault in a field names
the field and those around it.
-/

namespace CacheFacade
namespace Message

inductive Cause where
  | badVarint
  | badKey (n : Nat)
  | zeroNumber
  | badWire (code : Nat)
  | wrongWire (found expected : Wire)
  | cut
  | notText
  | lengthExceeded
  | tooDeep
  | strayGroupEnd
deriving Repr, DecidableEq

def Cause.message : Cause → String
  | badVarint => "invalid varint"
  | badKey n => s!"invalid key value: {n}"
  | zeroNumber => "invalid tag value: 0"
  | badWire code => s!"invalid wire type value: {code}"
  | wrongWire found expected =>
    s!"invalid wire type: {found.name} (expected {expected.name})"
  | cut => "buffer underflow"
  | notText => "invalid string value: data is not UTF-8 encoded"
  | lengthExceeded => "delimited length exceeded"
  | tooDeep => "recursion limit reached"
  | strayGroupEnd => "unexpected end group tag"

/-- A cause and the fields it lies in, the innermost first. -/
structure Fault where
  path : List (String × String)
  cause : Cause
deriving Repr, DecidableEq

def Fault.message (f : Fault) : String :=
  "failed to decode Protobuf message: " ++
    String.join (f.path.map fun p => s!"{p.1}.{p.2}: ") ++ f.cause.message

abbrev Unpack := StateT Bytes (Except Fault)

namespace Reader

def refuse {α : Type} (c : Cause) : Unpack α := throw ⟨[], c⟩

/-- Names the field that a fault lies in. -/
def inside {α : Type} (type field : String) (p : Unpack α) : Unpack α := fun bs =>
  match p bs with
  | .ok r => .ok r
  | .error f => .error { f with path := f.path ++ [(type, field)] }

/-- The messages and groups that may lie in one another. -/
def deepest : Nat := 100

def varint : Unpack Nat := fun bs =>
  match Varint.read (.ofBits 64) bs with
  | .ok r => .ok r
  | .error _ => .error ⟨[], .badVarint⟩

def take (n : Nat) : Unpack Bytes := fun bs =>
  if n ≤ bs.length then .ok (bs.take n, bs.drop n) else .error ⟨[], .cut⟩

/-- The number of a field and the way it is written. -/
def key : Unpack (Nat × Wire) := do
  let n ← varint
  if Nat.pow 2 32 ≤ n then refuse (.badKey n)
  else
    match Wire.ofCode? (n % 8) with
    | none => refuse (.badWire (n % 8))
    | some w => if n / 8 = 0 then refuse .zeroNumber else return (n / 8, w)

def checkWire (found expected : Wire) : Unpack Unit :=
  if found = expected then return () else refuse (.wrongWire found expected)

def delimitedBytes : Unpack Bytes := do take (← varint)

def fixed (size : Nat) : Unpack Nat := return Compact.Reader.ofLowFirst (← take size)

/-- A scalar after its key. -/
def scalar : Kind → Unpack Val
  | .text => do
    match Utf8.decode (← delimitedBytes) with
    | .ok s => return .text s
    | .error _ => refuse .notText
  | .bytes => return .bytes (← delimitedBytes)
  | .bool => return .bool ((← varint) ≠ 0)
  | .int32 => return .int (IntKind.i32.wrap (← varint))
  | .int64 => return .int (IntKind.i64.wrap (← varint))
  | .uint64 => return .int (← varint)
  | .sint64 => return .int (Varint.unfold (← varint))
  | .double => return .f64 (← fixed 8).toUInt64
  | .fixed32 => return .int (← fixed 4)

def checked (k : Kind) (w : Wire) : Unpack Val := do
  checkWire w k.wire
  scalar k

/-- Repeats a step until as many bytes are left as a length allows; a step may not pass that end. -/
def stepsTo {α : Type} (limit : Nat) (step : α → Unpack α) : Nat → α → Unpack α
  | 0, a => return a
  | fuel + 1, a => do
    let left := (← get).length
    if limit < left then stepsTo limit step fuel (← step a)
    else if left = limit then return a
    else refuse .lengthExceeded

def delimited {α : Type} (step : α → Unpack α) (a : α) : Unpack α := do
  let n ← varint
  let left := (← get).length
  if left < n then refuse .cut else stepsTo (left - n) step (left + 1) a

/-- Passes over a group up to its end; `skip` passes over one field in it. -/
def skipGroup (number : Nat) (skip : Nat → Wire → Unpack Unit) : Nat → Unpack Unit
  | 0 => refuse .cut
  | fuel + 1 => do
    let (n, w) ← key
    if w = .groupEnd then if n = number then return () else refuse .strayGroupEnd
    else
      skip n w
      skipGroup number skip fuel

/-- Passes over a field of an unknown number. -/
def skip : Nat → Nat → Wire → Unpack Unit
  | 0, _, _ => refuse .tooDeep
  | depth + 1, number, w => do
    match w with
    | .varint => discard varint
    | .fixed32 => discard (take 4)
    | .fixed64 => discard (take 8)
    | .delimited => discard delimitedBytes
    | .groupStart => skipGroup number (skip depth) ((← get).length + 1)
    | .groupEnd => refuse .strayGroupEnd

def items : Val → List Val
  | .list vs => vs
  | _ => []

def entries : Val → List (Val × Val)
  | .map es => es
  | _ => []

/-- One part of a map entry; parts with other numbers are passed over. -/
def entryPart (depth : Nat) (e : Val × Val) : Unpack (Val × Val) := do
  let (n, w) ← key
  if n = 1 then return (← checked .text w, e.2)
  else if n = 2 then return (e.1, ← checked .int64 w)
  else
    skip depth n w
    return e

def repeated (k : Kind) (w : Wire) (vs : List Val) : Unpack (List Val) := do
  if k.wire ≠ .delimited ∧ w = .delimited then
    delimited (fun vs => return vs ++ [← scalar k]) vs
  else return vs ++ [← checked k w]

/-- A field of a shape that holds no message, added to what was there before. -/
def simple (depth : Nat) (shape : Shape) (w : Wire) (old : Val) : Unpack Val := do
  match shape with
  | .single k => checked k w
  | .optional k => return .some (← checked k w)
  | .repeated k => return .list (← repeated k w (items old))
  | .counts =>
    match depth with
    | 0 => refuse .tooDeep
    | depth + 1 =>
      let e ← delimited (entryPart depth) (.text "", .int 0)
      return .map (Val.insertEntry e.1 e.2 (entries old))
  | .same => return old

/-- Merges one field into the values of a message. `depth` messages may still be opened. -/
def mergeField (t : MessageType) : Nat → List Val → Unpack (List Val)
  | depth, values => do
    let (number, w) ← key
    match t.fields.findIdx? (fun f => f.number == number) with
    | none =>
      skip depth number w
      return values
    | some i =>
      match t.fields[i]?, values[i]? with
      | some f, some old =>
        let v ← inside t.name f.name <| match f.shape with
          | .same => do
            checkWire w .delimited
            match depth with
            | 0 => refuse .tooDeep
            | depth + 1 =>
              let inner := match old with
                | .some (.list vs) => vs
                | _ => t.default
              return .some (.list (← delimited (mergeField t depth) inner))
          | shape => simple depth shape w old
        return values.set i v
      | _, _ => return values

end Reader

/-- The message that the bytes hold. -/
def read (t : MessageType) (bs : Bytes) : Except Fault Val :=
  let merge := Reader.mergeField t Reader.deepest
  match (Reader.stepsTo 0 merge (bs.length + 1) t.default).run bs with
  | .ok (vs, _) => .ok (.list vs)
  | .error f => .error f

end Message
end CacheFacade

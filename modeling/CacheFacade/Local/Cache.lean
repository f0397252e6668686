import CacheFacade.Capabilities
import CacheFacade.Config
import CacheFacade.Key
import CacheFacade.Local.Store
import CacheFacade.Lock.Table

/-!
The engine inside the process: values, counters and hashes in one store, and a table of locks. A
hash has one lifetime for all its fields, a counter is read and written in two steps, and a new
lifetime for a key evicts it.
-/

namespace CacheFacade
namespace Local

/-- What a key holds. The fields of a hash are sorted by name. -/
inductive Item where
  | value (v : Val)
  | counter (n : Int)
  | hash (fields : List (String × Val))

/-- A cost is counted in 32 bits. -/
def Item.cost : Item → Nat
  | value _ | counter _ => 1
  | hash fields => max 1 (min fields.length (Nat.pow 2 32 - 1))

structure Cache where
  keys : KeySpace
  codec : Codec
  defaultTtl : Option Span
  /-- The lifetime that a read gives an entry. -/
  touch : Option Span
  lease : Span
  now : Nat
  store : Store Item
  locks : Lock.Table

namespace Cache

abbrev Result (α : Type) := Step Cache α

def ofConfig (c : Config) : Cache where
  keys := ⟨c.name⟩
  codec := c.codec
  defaultTtl := c.ttl
  touch := if c.touch then c.ttl else none
  lease := c.leaseOf
  now := 0
  store := .empty c.budget
  locks := .empty

/-- The line that is logged when a cache is opened. -/
def openingLine (c : Config) : Line :=
  let touches := c.touch && c.ttl.isSome
  .done s!"Local cache {c.name} initialized (cost budget: {c.budget}, touch: {touches})"

def sleep (c : Cache) (d : Span) : Cache :=
  let now := c.now + d.nanos
  { c with now := now, store := c.store.pass c.now now }

def lookUp (c : Cache) (key : String) : Option Item × Cache :=
  let (item, store) := c.store.read key c.now c.touch
  (item, { c with store := store })

def put (c : Cache) (key : String) (item : Item) (life : Expiry) : Cache :=
  { c with store := c.store.write key item item.cost c.now life }

def evict (c : Cache) (key : String) : Cache := { c with store := c.store.remove key }

/-- The value that an item reads as; a counter is read from its text by the codec. -/
def valueOf (codec : Codec) : Option Item → Option Val
  | some (.value v) => some v
  | some (.counter n) => (codec.decode (Utf8.encode (Integer.text n))).toOption
  | _ => none

def hitOrMiss {α : Type} (found : Option α) : String := if found.isSome then "HIT" else "MISS"

def get (c : Cache) (key : String) : Result (Option Val) :=
  let key := c.keys.qualify key
  let (item, c) := c.lookUp key
  let v := valueOf c.codec item
  ⟨.ok v, c, [.done s!"Local GET {key} -> {hitOrMiss v}"]⟩

def set (c : Cache) (key : String) (v : Val) : Result Unit :=
  let key := c.keys.qualify key
  ⟨.ok (), c.put key (.value v) (.ofTtl c.defaultTtl), [.done s!"Local SET {key}"]⟩

def setFor (c : Cache) (key : String) (v : Val) (ttl : Span) : Result Unit :=
  let key := c.keys.qualify key
  ⟨.ok (), c.put key (.value v) (.ofTtl (some ttl)),
    [.done s!"Local SET {key} (TTL: {ttl.text})"]⟩

def delete (c : Cache) (key : String) : Result Unit :=
  let key := c.keys.qualify key
  ⟨.ok (), c.evict key, [.done s!"Local DELETE {key}"]⟩

/-- Removes keys one after the other and counts those under which something stood. -/
def removeAll : List String → Cache → Nat × Cache
  | [], c => (0, c)
  | key :: keys, c =>
    let (n, after) := removeAll keys (c.evict key)
    (if (c.store.find? key).isSome then n + 1 else n, after)

def deleteAll (c : Cache) (keys : List String) : Result Nat :=
  let (n, after) := removeAll (c.keys.qualifyAll keys) c
  ⟨.ok n, after, [.done s!"Local MDELETE {keys.length} keys ({n} removed)"]⟩

/-- A live entry cannot be given another lifetime, so the key goes. -/
def expire (c : Cache) (key : String) (ttl : Span) : Result Unit :=
  let key := c.keys.qualify key
  ⟨.ok (), c.evict key, [.done s!"Local EXPIRE {key} ({ttl.text}) -> evicted"]⟩

def notInteger (key : String) : Fault := .wrongType s!"value at {key} is not an integer"

/-- The integer that a text stands for, with white space around it. -/
def integerOf (bs : Bytes) : Option Int := do
  let s ← (Utf8.decode bs).toOption
  (Integer.read .i64 (Blank.trim s)).toOption

/-- The integer that an item holds, by the text that the codec writes for it. -/
def itemInteger (codec : Codec) (key : String) : Item → Except Fault Int × List Line
  | .counter n => (.ok n, [])
  | .hash _ => (.error (.wrongType s!"{key} holds a hash, not an integer"), [])
  | .value v =>
    match codec.encode v with
    | .error f => (.error (.serialization f.message), [codec.failureLine f])
    | .ok bs =>
      match integerOf bs with
      | some n => (.ok n, [])
      | none => (.error (notInteger key), [])

def addTo (c : Cache) (key : String) (delta : Int) (life : Expiry) (current : Int) :
    Result Int :=
  let next := current + delta
  if IntKind.i64.holds next then
    ⟨.ok next, c.put key (.counter next) life, [.done s!"Local INCRBY {key} {delta} -> {next}"]⟩
  else ⟨.error (.wrongType s!"increment of {key} would overflow"), c, []⟩

def increment (c : Cache) (key : String) (delta : Int) : Result Int :=
  let key := c.keys.qualify key
  match c.lookUp key with
  | (none, c) => c.addTo key delta .never 0
  | (some item, c) =>
    match itemInteger c.codec key item with
    | (.ok n, _) => c.addTo key delta .keep n
    | (.error f, lines) => ⟨.error f, c, lines⟩

def decrement (c : Cache) (key : String) (delta : Int) : Result Int :=
  if IntKind.i64.holds (-delta) then c.increment key (-delta)
  else ⟨.error (.wrongType s!"decrement by {delta} would overflow"), c, []⟩

def notHash (key : String) : Fault := .wrongType s!"{key} does not hold a hash"

def putField (c : Cache) (key field : String) (v : Val) (fields : List (String × Val))
    (life : Expiry) : Result Unit :=
  ⟨.ok (), c.put key (.hash (Document.insertEntry field v fields)) life,
    [.done s!"Local HSET {key} {field} ({life.describe})"]⟩

/-- Writes a field. A given lifetime is that of the whole hash; without one, a hash that is there
keeps its own and a new one gets the default. -/
def storeField (c : Cache) (key field : String) (v : Val) (ttl : Option Span) : Result Unit :=
  let key := c.keys.qualify key
  match c.lookUp key with
  | (none, c) => c.putField key field v [] (.ofTtl (ttl.or c.defaultTtl))
  | (some (.hash fields), c) =>
    c.putField key field v fields (if ttl.isSome then .ofTtl ttl else .keep)
  | (some _, c) => ⟨.error (notHash key), c, []⟩

def fieldGet (c : Cache) (key field : String) : Result (Option Val) :=
  let key := c.keys.qualify key
  let (item, c) := c.lookUp key
  let v := match item with
    | some (.hash fields) => fields.lookup field
    | _ => none
  ⟨.ok v, c, [.done s!"Local HGET {key} {field} -> {hitOrMiss v}"]⟩

def fields (c : Cache) (key : String) : Result (List (String × Val)) :=
  let key := c.keys.qualify key
  match c.lookUp key with
  | (none, c) => ⟨.ok [], c, []⟩
  | (some (.hash fields), c) => ⟨.ok fields, c, []⟩
  | (some _, c) => ⟨.error (notHash key), c, []⟩

/-- A hash that lost its last field is gone. -/
def fieldDelete (c : Cache) (key : String) (names : List String) : Result Unit :=
  let key := c.keys.qualify key
  match c.lookUp key with
  | (none, c) => ⟨.ok (), c, []⟩
  | (some (.hash fields), c) =>
    let left := fields.filter fun f => !names.contains f.1
    let c := if left.isEmpty then c.evict key else c.put key (.hash left) .keep
    ⟨.ok (), c, [.done s!"Local HDEL {key} ({names.length} fields)"]⟩
  | (some _, c) => ⟨.error (notHash key), c, []⟩

/-- Fields have no lifetime of their own here. -/
def fieldExpire (c : Cache) (key field : String) (ttl : Span) : Result Bool :=
  let key := c.keys.qualify key
  ⟨.ok false, c, [.done s!"Local HEXPIRE {key} {field} ({ttl.text}) -> unsupported, ignored"]⟩

def fieldTtl (c : Cache) (key field : String) : Result FieldTtl :=
  let key := c.keys.qualify key
  let (item, c) := c.lookUp key
  let there := match item with
    | some (.hash fields) => (fields.lookup field).isSome
    | _ => false
  ⟨.ok (if there then .persistent else .missing), c, []⟩

def run (c : Cache) : Action → Result Reply
  | .get key => (c.get key).map .found id
  | .set key v => (c.set key v).map (fun _ => .done) id
  | .setFor key v ttl => (c.setFor key v ttl).map (fun _ => .done) id
  | .delete key => (c.delete key).map (fun _ => .done) id
  | .deleteAll keys => (c.deleteAll keys).map .count id
  | .expire key ttl => (c.expire key ttl).map (fun _ => .done) id
  | .increment key delta => (c.increment key delta).map .number id
  | .decrement key delta => (c.decrement key delta).map .number id
  | .fieldSet key field v => (c.storeField key field v none).map (fun _ => .done) id
  | .fieldSetFor key field v ttl => (c.storeField key field v (some ttl)).map (fun _ => .done) id
  | .fieldGet key field => (c.fieldGet key field).map .found id
  | .fields key => (c.fields key).map .fields id
  | .fieldDelete key names => (c.fieldDelete key names).map (fun _ => .done) id
  | .fieldExpire key field ttl => (c.fieldExpire key field ttl).map .flag id
  | .fieldTtl key field => (c.fieldTtl key field).map .fieldTtl id

/-- Takes a lock without waiting; this engine has no other way. -/
def tryLock (c : Cache) (key : String) : Result Lock.Guard :=
  (c.locks.take (c.keys.qualify key) c.now c.lease).map id fun locks =>
    { c with locks := locks }

def unlock (c : Cache) (g : Lock.Guard) : Result Unit :=
  (c.locks.release g).map id fun locks => { c with locks := locks }

/-- Drops every entry and frees every lock. -/
def close (c : Cache) : Result Unit :=
  ⟨.ok (), { c with store := c.store.clear, locks := c.locks.clear },
    [.warning s!"Local cache {c.keys.name} closed - all entries cleared!"]⟩

def capabilities : Capabilities := .inProcess

end Cache
end Local
end CacheFacade

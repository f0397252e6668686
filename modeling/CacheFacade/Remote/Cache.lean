import CacheFacade.Action
import CacheFacade.Capabilities
import CacheFacade.Remote.Quorum
import CacheFacade.Remote.Pool

/-!
The engine on a server. Each operation on data sends one command at most; what it writes is encoded
before a connection is asked for. Counters and the lifetimes of fields are the server's own. The
engine takes any serializer; a cache is an engine whose serializer is a codec.
-/

namespace CacheFacade
namespace Remote

structure Engine where
  keys : KeySpace
  serializer : Serializer
  defaultTtl : Option Span
  /-- The lifetime that a read gives what it reads. -/
  touch : Option Span
  quorum : Quorum

namespace Engine

abbrev Result (α : Type) := Plan (Except Fault α)

/-- The engine of a configuration, with a serializer that need not be its codec. -/
def ofConfig (c : Config) (serializer : Serializer) : Engine where
  keys := ⟨c.name⟩
  serializer := serializer
  defaultTtl := c.ttl
  touch := if c.touch then c.ttl else none
  quorum := .ofConfig c

/-- Goes on with a result that is no fault. -/
def andThen {α β : Type} (p : Result α) (f : α → Result β) : Result β := p.bind fun
  | .ok a => f a
  | .error e => .done (.error e)

/-- Answers after a line about what was done. -/
def answer {α : Type} (line : String) (a : α) : Result α := .log (.done line) (.done (.ok a))

def refused {α : Type} (r : Rejection) : Result α :=
  (Plan.logLines r.lines).bind fun _ => .done (.error (.serialization r.text))

/-- Encodes a value, and goes on with its bytes. -/
def encoded {β : Type} (c : Engine) (v : Val) (f : Bytes → Result β) : Result β :=
  match c.serializer.encode v with
  | .ok bs => f bs
  | .error r => refused r

/-- The value of bytes that were found at a key. -/
def decoded (c : Engine) (key : String) (bs : Bytes) : Result Val :=
  match c.serializer.decode bs with
  | .ok v => .done (.ok v)
  | .error text =>
    let f : Fault := .deserialization text
    .log ⟨.error, s!"✗ Redis value at {key} does not decode with {c.serializer.name}: {f.message}"⟩
      (.done (.error f))

def decodedIfFound (c : Engine) (key : String) : Option Bytes → Result (Option Val)
  | none => .done (.ok none)
  | some bs => andThen (c.decoded key bs) fun v => .done (.ok (some v))

def hitOrMiss (found : Option Bytes) : String := if found.isSome then "HIT" else "MISS"

def get (c : Engine) (key : String) : Result (Option Val) :=
  let key := c.keys.qualify key
  let command := match c.touch with
    | some ttl => .getFor key (milliseconds ttl)
    | none => .get key
  andThen (.query command (Answer.readOptional Answer.readBytes)) fun found =>
    .log (.done s!"Redis GET {key} -> {hitOrMiss found}") (c.decodedIfFound key found)

/-- Writes a value; a zero lifetime means none. -/
def setFor (c : Engine) (key : String) (v : Val) (ttl : Span) : Result Unit :=
  let key := c.keys.qualify key
  c.encoded v fun bs =>
    if ttl.isZero then
      andThen (.query (.set key bs) Answer.readAny) fun _ => answer s!"Redis SET {key}" ()
    else
      andThen (.query (.setFor key bs (milliseconds ttl)) Answer.readAny) fun _ =>
        answer s!"Redis SET {key} (TTL: {ttl.text})" ()

def set (c : Engine) (key : String) (v : Val) : Result Unit :=
  c.setFor key v (c.defaultTtl.getD .zero)

def delete (c : Engine) (key : String) : Result Unit :=
  let key := c.keys.qualify key
  andThen (.query (.delete [key]) (Answer.readInteger .u64)) fun _ =>
    answer s!"Redis DELETE {key}" ()

/-- Without keys there is nothing to send. -/
def deleteAll (c : Engine) (keys : List String) : Result Nat :=
  if keys.isEmpty then .done (.ok 0)
  else andThen (.query (.delete (c.keys.qualifyAll keys)) (Answer.readInteger .u64)) fun n =>
    answer s!"Redis MDELETE {keys.length} keys ({n} removed)" n.toNat

def expire (c : Engine) (key : String) (ttl : Span) : Result Unit :=
  let key := c.keys.qualify key
  andThen (.query (.expire key (milliseconds ttl)) (Answer.readInteger .i64)) fun n =>
    let applied := decide (n = 1)
    answer s!"Redis EXPIRE {key} ({ttl.text}) -> {applied}" ()

def increment (c : Engine) (key : String) (delta : Int) : Result Int :=
  let key := c.keys.qualify key
  andThen (.query (.increment key delta) (Answer.readInteger .i64)) fun n =>
    answer s!"Redis INCRBY {key} {delta} -> {n}" n

def decrement (c : Engine) (key : String) (delta : Int) : Result Int :=
  let key := c.keys.qualify key
  andThen (.query (.decrement key delta) (Answer.readInteger .i64)) fun n =>
    answer s!"Redis DECRBY {key} {delta} -> {n}" n

/-- Writes a field; a zero lifetime means none. -/
def fieldSetFor (c : Engine) (key field : String) (v : Val) (ttl : Span) : Result Unit :=
  let key := c.keys.qualify key
  c.encoded v fun bs =>
    if ttl.isZero then
      andThen (.query (.fieldSet key field bs) (Answer.readInteger .i64)) fun _ =>
        answer s!"Redis HSET {key} {field}" ()
    else
      andThen (.query (.fieldSetFor key field bs (milliseconds ttl)) (Answer.readInteger .i64)) fun _ =>
        answer s!"Redis HSETEX {key} {field} (TTL: {ttl.text})" ()

def fieldSet (c : Engine) (key field : String) (v : Val) : Result Unit :=
  c.fieldSetFor key field v (c.defaultTtl.getD .zero)

/-- Asks for the bytes of a field. A read that touches answers with a list. -/
def fieldBytes (c : Engine) (key field : String) : Result (Option Bytes) :=
  match c.touch with
  | some ttl =>
    andThen (.query (.fieldGetFor key field (milliseconds ttl))
      (Answer.readList (Answer.readOptional Answer.readBytes))) fun found =>
      .done (.ok (found.getLast?.join))
  | none => .query (.fieldGet key field) (Answer.readOptional Answer.readBytes)

def fieldGet (c : Engine) (key field : String) : Result (Option Val) :=
  let key := c.keys.qualify key
  andThen (c.fieldBytes key field) fun found =>
    .log (.done s!"Redis HGET {key} {field} -> {hitOrMiss found}") (c.decodedIfFound key found)

/-- The values of fields, or the fault of the first one that does not decode. -/
def decodedFields (c : Engine) (key : String) :
    List (String × Bytes) → Result (List (String × Val))
  | [] => .done (.ok [])
  | (name, bs) :: rest =>
    andThen (c.decoded key bs) fun v =>
      andThen (c.decodedFields key rest) fun vs => .done (.ok ((name, v) :: vs))

def fields (c : Engine) (key : String) : Result (List (String × Val)) :=
  let key := c.keys.qualify key
  andThen (.query (.fields key) Answer.readFields) fun found =>
    andThen (c.decodedFields key found) fun vs =>
      answer s!"Redis HGETALL {key} ({vs.length} fields)" vs

/-- Without names there is nothing to send. -/
def fieldDelete (c : Engine) (key : String) (names : List String) : Result Unit :=
  if names.isEmpty then .done (.ok ())
  else
    let key := c.keys.qualify key
    andThen (.query (.fieldDelete key names) (Answer.readInteger .u64)) fun n =>
      answer s!"Redis HDEL {key} ({n} removed)" ()

def fieldExpire (c : Engine) (key field : String) (ttl : Span) : Result Bool :=
  let key := c.keys.qualify key
  andThen (.query (.fieldExpire key field (milliseconds ttl))
    (Answer.readList (Answer.readInteger .i64))) fun codes =>
    let applied := decide (codes.head? = some 1)
    answer s!"Redis HEXPIRE {key} {field} ({ttl.text}) -> {applied}" applied

def fieldTtl (c : Engine) (key field : String) : Result FieldTtl :=
  let key := c.keys.qualify key
  andThen (.query (.fieldTtl key field) (Answer.readList (Answer.readInteger .i64))) fun codes =>
    match codes.head? with
    | some code => .done (.ok (.ofCode code))
    | none => .done (.error (.backend s!"empty HTTL reply for {key}"))

def reply {α : Type} (p : Result α) (f : α → Reply) : Result Reply :=
  andThen p fun a => .done (.ok (f a))

def plan (c : Engine) : Action → Result Reply
  | .get key => reply (c.get key) .found
  | .set key v => reply (c.set key v) fun _ => .done
  | .setFor key v ttl => reply (c.setFor key v ttl) fun _ => .done
  | .delete key => reply (c.delete key) fun _ => .done
  | .deleteAll keys => reply (c.deleteAll keys) .count
  | .expire key ttl => reply (c.expire key ttl) fun _ => .done
  | .increment key delta => reply (c.increment key delta) .number
  | .decrement key delta => reply (c.decrement key delta) .number
  | .fieldSet key field v => reply (c.fieldSet key field v) fun _ => .done
  | .fieldSetFor key field v ttl => reply (c.fieldSetFor key field v ttl) fun _ => .done
  | .fieldGet key field => reply (c.fieldGet key field) .found
  | .fields key => reply (c.fields key) .fields
  | .fieldDelete key names => reply (c.fieldDelete key names) fun _ => .done
  | .fieldExpire key field ttl => reply (c.fieldExpire key field ttl) .flag
  | .fieldTtl key field => reply (c.fieldTtl key field) .fieldTtl

end Engine

structure Cache extends Engine where
  codec : Codec
  coded : serializer = codec.serializer

namespace Cache

def ofConfig (c : Config) : Cache where
  toEngine := .ofConfig c c.codec.serializer
  codec := c.codec
  coded := rfl

def openingLine (c : Config) : Line :=
  .ready s!"Redis cache {c.name} initialized ({c.mode.name} mode, serializer: {c.codec.name})"

/-- Asks the server for a sign of life. -/
def isAlive : Engine.Result Bool :=
  Engine.andThen (.query .ping Answer.readText) fun s => .done (.ok (Split.holds "PONG" s))

def capabilities : Capabilities := .remote

end Cache
end Remote
end CacheFacade

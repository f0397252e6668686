import CacheFacade.Bytes
import CacheFacade.Numeral.Integer
import CacheFacade.Span

/-!
The commands that are sent to a server, and the words that each one is sent as. Lifetimes are whole
milliseconds.
-/

namespace CacheFacade
namespace Remote

/-- A lifetime in milliseconds that a server accepts: zero is refused, so the least is one. -/
def milliseconds (d : Span) : Nat := max 1 (min d.millis (Nat.pow 2 64 - 1))

inductive Command where
  | ping
  | get (key : String)
  /-- Reads a value and gives it a new lifetime. -/
  | getFor (key : String) (ttl : Nat)
  | set (key : String) (value : Bytes)
  | setFor (key : String) (value : Bytes) (ttl : Nat)
  | delete (keys : List String)
  | expire (key : String) (ttl : Nat)
  | increment (key : String) (delta : Int)
  | decrement (key : String) (delta : Int)
  | fieldSet (key field : String) (value : Bytes)
  | fieldSetFor (key field : String) (value : Bytes) (ttl : Nat)
  | fieldGet (key field : String)
  | fieldGetFor (key field : String) (ttl : Nat)
  | fields (key : String)
  | fieldDelete (key : String) (names : List String)
  | fieldExpire (key field : String) (ttl : Nat)
  | fieldTtl (key field : String)
  /-- Writes a token at a key that holds nothing. -/
  | acquire (key token : String) (ttl : Nat)
  /-- Gives a key a new lifetime if it still holds the token. -/
  | extend (key token : String) (ttl : Nat)
  /-- Removes a key if it still holds the token. -/
  | release (key token : String)
deriving Repr, DecidableEq

namespace Command

/-- A script that does something with a key that holds the token given, and nothing otherwise. -/
def ifHeld (action : String) : String :=
  "\nif redis.call(\"GET\", KEYS[1]) == ARGV[1] then\n    return " ++ action ++ "\nend\nreturn 0\n"

def renewalScript : String := ifHeld "redis.call(\"PEXPIRE\", KEYS[1], ARGV[2])"

def removalScript : String := ifHeld "redis.call(\"DEL\", KEYS[1])"

def texts (ws : List String) : List Bytes := ws.map Utf8.encode

/-- The words that name one field, with a lifetime for it. -/
def oneFieldFor (ttl : Nat) (field : String) : List Bytes :=
  texts ["PX", toString ttl, "FIELDS", "1", field]

def words : Command → List Bytes
  | ping => texts ["PING"]
  | get key => texts ["GET", key]
  | getFor key ttl => texts ["GETEX", key, "PX", toString ttl]
  | set key value => texts ["SET", key] ++ [value]
  | setFor key value ttl => texts ["SET", key] ++ value :: texts ["PX", toString ttl]
  | delete keys => texts ("DEL" :: keys)
  | expire key ttl => texts ["PEXPIRE", key, toString ttl]
  | increment key delta => texts ["INCRBY", key, Integer.text delta]
  | decrement key delta => texts ["DECRBY", key, Integer.text delta]
  | fieldSet key field value => texts ["HSET", key, field] ++ [value]
  | fieldSetFor key field value ttl => texts ["HSETEX", key] ++ oneFieldFor ttl field ++ [value]
  | fieldGet key field => texts ["HGET", key, field]
  | fieldGetFor key field ttl => texts ["HGETEX", key] ++ oneFieldFor ttl field
  | fields key => texts ["HGETALL", key]
  | fieldDelete key names => texts ("HDEL" :: key :: names)
  | fieldExpire key field ttl => texts ["HPEXPIRE", key, toString ttl, "FIELDS", "1", field]
  | fieldTtl key field => texts ["HTTL", key, "FIELDS", "1", field]
  | acquire key token ttl => texts ["SET", key, token, "NX", "PX", toString ttl]
  | extend key token ttl => texts ["EVAL", renewalScript, "1", key, token, toString ttl]
  | release key token => texts ["EVAL", removalScript, "1", key, token]

/-- The keys that a command works on, in the order in which they are sent. -/
def keys : Command → List String
  | ping => []
  | delete keys => keys
  | get key | getFor key _ | set key _ | setFor key _ _ | expire key _ | increment key _
  | decrement key _ | fieldSet key _ _ | fieldSetFor key _ _ _ | fieldGet key _
  | fieldGetFor key _ _ | fields key | fieldDelete key _ | fieldExpire key _ _ | fieldTtl key _
  | acquire key _ _ | extend key _ _ | release key _ => [key]

/-- The lifetime that a command gives. -/
def ttl? : Command → Option Nat
  | getFor _ ttl | setFor _ _ ttl | expire _ ttl | fieldSetFor _ _ _ ttl | fieldGetFor _ _ ttl
  | fieldExpire _ _ ttl | acquire _ _ ttl | extend _ _ ttl => some ttl
  | _ => none

/-- The token of a lock that a command carries. -/
def token? : Command → Option String
  | acquire _ token _ | extend _ token _ | release _ token => some token
  | _ => none

end Command
end Remote
end CacheFacade

import CacheFacade.Schema.Type

/-!
The types of values that a cache can be opened for, by name: scalars, optional values, sequences,
maps, the records and variants of a session store, and probes that show what a format offers.
-/

namespace CacheFacade
namespace Catalogue

def field (name : String) (t : Ty) : FieldSpec × Ty := (.plain name, t)

def i64 : Ty := .int .i64
def u64 : Ty := .int .u64

def device : Ty := .choice "Device" [("Mobile", .unit), ("Desktop", .unit)]

def status : Ty :=
  .choice "Status" [("active", .unit), ("suspended", .unit), ("deleted_forever", .unit)]

def presence : Ty :=
  .choice "Presence" [("Offline", .unit), ("Online", .record [field "device" .text]),
    ("Away", .wrap (.int .u32)), ("Moved", .tuple [i64, i64])]

def session : Ty :=
  .record "Session" false [field "token" .text, field "user_id" u64, field "active" .bool]

def product : Ty :=
  .record "Product" false [field "id" .text, field "name" .text, field "price" .f64,
    field "in_stock" .bool, field "quantity" (.int .i32)]

def order : Ty :=
  .record "Order" false [field "id" u64, field "items" (.list product), field "status" status,
    field "note" (.option .text), field "gift" presence]

def settings : Ty :=
  .record "Settings" true [field "maxItems" (.int .u32),
    (⟨"label", some (.text ""), false⟩, .text), (⟨"note", some .none, true⟩, .option .text)]

def flat : Ty := .openRecord "Flat" [field "id" u64]

def intOrText : Ty := .untagged "IntOrText" [i64, .text]

def shape : Ty :=
  .tagged "Shape" "kind" [("Circle", .record [field "r" i64]),
    ("Square", .record [field "side" i64]), ("Empty", .unit)]

def userId : Ty := .wrapper "UserId" u64

def scalars : List (String × Ty) :=
  [("bool", .bool), ("i8", .int .i8), ("i16", .int .i16), ("i32", .int .i32), ("i64", i64),
    ("i128", .int .i128), ("u8", .int .u8), ("u16", .int .u16), ("u32", .int .u32), ("u64", u64),
    ("u128", .int .u128), ("f32", .f32), ("f64", .f64), ("char", .char), ("string", .text),
    ("unit", .unit), ("blob", .bytes), ("even", .even), ("bare_none", .bareNone),
    ("value", .document), ("marker", .unitNamed "Marker")]

def options : List (String × Ty) :=
  [("opt_i64", .option i64), ("opt_string", .option .text), ("opt_bool", .option .bool),
    ("opt_f64", .option .f64), ("opt_device", .option device), ("opt_char", .option .char),
    ("opt_opt_i64", .option (.option i64))]

def sequences : List (String × Ty) :=
  [("vec_i64", .list i64), ("vec_string", .list .text), ("vec_u8", .list (.int .u8)),
    ("vec_f64", .list .f64), ("vec_f32", .list .f32), ("vec_opt_bool", .list (.option .bool)),
    ("pair", .tuple [i64, .text]), ("point", .tupleNamed "Point" [i64, i64]),
    ("map_string", .map .text i64), ("map_int", .map i64 .text), ("map_vec", .map (.list i64) i64),
    ("map_bool", .map .bool i64)]

def wrappers : List (String × Ty) :=
  [("user_id", userId), ("label", .wrapper "Label" .text), ("ratio", .wrapper "Ratio" .f64),
    ("tags", .wrapper "Tags" (.list .text)), ("maybe", .wrapper "Maybe" (.option i64)),
    ("owner", .wrapper "Owner" userId), ("held", .wrapper "Held" device)]

def records : List (String × Ty) :=
  [("session", session), ("product", product), ("order", order), ("settings", settings),
    ("flat", flat), ("device", device), ("status", status), ("presence", presence),
    ("int_or_text", intOrText), ("shape", shape)]

def probes : List (String × Ty) :=
  [("ask_any", .probe .any), ("ask_bool", .probe .bool), ("ask_char", .probe .char),
    ("ask_str", .probe .text), ("ask_string", .probe .text), ("ask_ident", .probe .identifier),
    ("ask_identifier", .probe .identifier), ("ask_bytes", .probe .bytes),
    ("ask_byte_buf", .probe .bytes), ("ask_option", .probe .option), ("ask_unit", .probe .unit),
    ("ask_unit_struct", .probe .unit), ("ask_newtype", .probe .wrapper), ("ask_seq", .probe .list),
    ("ask_tuple", .probe (.tuple 2)), ("ask_tuple_struct", .probe (.tuple 2)),
    ("ask_map", .probe .map), ("ask_struct", .probe (.record 2)), ("ask_ignored", .probe .ignored),
    ("ask_ignored_any", .probe .ignored)]

def all : List (String × Ty) := scalars ++ options ++ sequences ++ wrappers ++ records ++ probes

def find? (name : String) : Option Ty := all.lookup name

end Catalogue
end CacheFacade

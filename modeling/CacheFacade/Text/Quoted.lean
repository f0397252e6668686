import CacheFacade.Text.Invisible

/-!
The quoted form of a text: between double quotes, with quotes and backslashes escaped and every
character without a glyph of its own written by its code point.
-/

namespace CacheFacade
namespace Quoted

def codePoint (c : Char) : String :=
  "\\u\x7b" ++ String.ofList (Nat.toDigits 16 c.toNat) ++ "\x7d"

def escape (c : Char) : String :=
  match c with
  | '\x00' => "\\0"
  | '\t' => "\\t"
  | '\r' => "\\r"
  | '\n' => "\\n"
  | '"' => "\\\""
  | '\\' => "\\\\"
  | c => if isInvisible c then codePoint c else c.toString

def text (s : String) : String :=
  "\"" ++ s.foldl (fun acc c => acc ++ escape c) "" ++ "\""

end Quoted
end CacheFacade

import LetTree.Text.Unseen

/-!
# Quoted text

How a message shows a piece of source text: between double quotes, with a backslash before a quote
or a backslash, short names for the common controls, and unseen characters by number.
-/

namespace LetTree.Text

/-- The written form of one character of a quoted text. -/
def escape (c : Char) : String :=
  match c with
  | '"' => "\\\""
  | '\\' => "\\\\"
  | '\n' => "\\n"
  | '\r' => "\\r"
  | '\t' => "\\t"
  | '\x00' => "\\0"
  | c =>
    if unseen c then "\\u\x7b" ++ String.ofList (Nat.toDigits 16 c.toNat) ++ "\x7d"
    else String.singleton c

/-- A text between double quotes, every character in its written form. -/
def quoted (text : String) : String :=
  "\"" ++ String.join (text.toList.map escape) ++ "\""

end LetTree.Text

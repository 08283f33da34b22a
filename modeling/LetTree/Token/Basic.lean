import LetTree.Source.Span
import LetTree.Value

/-!
# Tokens

The units of the language that the grammar is about. A token carries the value of its text: an
integer the number, a string the text that its escapes stand for. The grammar does not depend on
where tokens come from, so an operator token may carry any text, known or not.
-/

namespace LetTree

/-- A unit of source text. -/
inductive Token where
  | letWord
  | fnWord
  | type (ty : Ty)
  | operator (text : String)
  | equals
  | leftBrace
  | rightBrace
  | leftParen
  | rightParen
  | semicolon
  | comma
  | colon
  | arrow
  | integer (n : UInt64)
  | string (s : String)
  | identifier (name : String)
  | comment
  deriving DecidableEq, Repr

namespace Token

def describe : Token → String
  | letWord => "keyword 'let'"
  | fnWord => "keyword 'fn'"
  | type ty => "type '" ++ ty.text ++ "'"
  | operator text => "operator '" ++ text ++ "'"
  | equals => "'='"
  | leftBrace => "'\x7b'"
  | rightBrace => "'\x7d'"
  | leftParen => "'('"
  | rightParen => "')'"
  | semicolon => "';'"
  | comma => "','"
  | colon => "':'"
  | arrow => "'->'"
  | integer n => "integer " ++ toString n.toNat
  | string s => "string \"" ++ s ++ "\""
  | identifier name => "identifier '" ++ name ++ "'"
  | comment => "comment"

/-- A token with the place of its text. -/
structure Placed where
  token : Token
  span : Span
  deriving DecidableEq, Repr

end Token

end LetTree

import LetTree.Operator
import LetTree.Text.Digits
import LetTree.Token.Basic

/-!
# Lexemes

The classes of text from which tokens are read. For each class `Lexeme.length?` gives the length of
the longest text of the class at the beginning of what is left of a source, and `Lexeme.read` gives
the meaning of such a text. `longest` picks the class with the longest text.
-/

namespace LetTree

/-- How an integer is written. -/
inductive Base where
  | binary
  | decimal
  | hexadecimal
  deriving DecidableEq, Repr

namespace Base

def radix : Base → Nat
  | binary => 2
  | decimal => 10
  | hexadecimal => 16

/-- The characters before the digits. -/
def mark : Base → List Char
  | binary => ['0', 'b']
  | decimal => []
  | hexadecimal => ['0', 'x']

end Base

/-- The characters between tokens: space, tab, carriage return, line feed and form feed. -/
def isBlank (c : Char) : Bool :=
  c = ' ' || c = '\t' || c = '\r' || c = '\n' || c = '\x0c'

/-- The characters a name may start with. -/
def isNameStart (c : Char) : Bool :=
  ('a' ≤ c && c ≤ 'z') || ('A' ≤ c && c ≤ 'Z') || c = '_'

/-- The characters a name may go on with. -/
def isNamePart (c : Char) : Bool :=
  isNameStart c || ('0' ≤ c && c ≤ '9')

/-! ### Strings and comments -/

/-- How far a string goes after its opening quote: the number of characters up to and with the
    closing quote. Without a closing quote, or with a backslash before a line feed ahead of it, the
    string is open, and the characters up to the end or up to that line feed are counted. -/
def stringExtent : List Char → Nat × Bool
  | [] => (0, false)
  | '"' :: _ => (1, true)
  | '\\' :: '\n' :: _ => (1, false)
  | '\\' :: _ :: cs =>
    let (n, closed) := stringExtent cs
    (n + 2, closed)
  | _ :: cs =>
    let (n, closed) := stringExtent cs
    (n + 1, closed)

/-- The number of characters up to the end of the first `*/`. -/
def commentExtent? : List Char → Option Nat
  | [] => none
  | '*' :: '/' :: _ => some 2
  | _ :: cs => (commentExtent? cs).map (· + 1)

/-- What a backslash and the character after it stand for in a string. -/
def escaped : Char → List Char
  | 'n' => ['\n']
  | 'r' => ['\r']
  | 't' => ['\t']
  | '\\' => ['\\']
  | '"' => ['"']
  | '0' => ['\x00']
  | c => ['\\', c]

/-- The text that the inside of a string stands for. -/
def unescape : List Char → List Char
  | [] => []
  | '\\' :: c :: cs => escaped c ++ unescape cs
  | c :: cs => c :: unescape cs

/-! ### Words and symbols -/

/-- The words that are not names. -/
def keywords : List (String × Token) :=
  [("let", .letWord), ("fn", .fnWord), ("int", .type .int), ("string", .type .string),
    ("void", .type .void), ("auto", .type .auto)]

def Token.ofWord (word : String) : Token :=
  (keywords.lookup word).getD (.identifier word)

/-- The tokens with a fixed spelling outside words. -/
def symbols : List (String × Token) :=
  (Operator.table.map fun op => (op.text, .operator op.text)) ++
    [("=", .equals), ("\x7b", .leftBrace), ("\x7d", .rightBrace), ("(", .leftParen),
      (")", .rightParen), (";", .semicolon), (",", .comma), (":", .colon), ("->", .arrow)]

/-! ### Classes -/

inductive Lexeme where
  | blanks
  | lineComment
  | blockComment
  | numeral (base : Base)
  | string
  | word
  | symbol (spelling : String) (token : Token)
  deriving DecidableEq, Repr

/-- What a text of a class amounts to. -/
inductive Reading where
  | skip
  | token (t : Token)
  | outOfRange
  deriving DecidableEq, Repr

namespace Lexeme

def all : List Lexeme :=
  [blanks, lineComment, blockComment, numeral .binary, numeral .decimal, numeral .hexadecimal,
    string, word] ++ symbols.map fun (spelling, token) => symbol spelling token

/-- The number of characters at the beginning that satisfy a test, if there are any. -/
def run? (test : Char → Bool) (cs : List Char) : Option Nat :=
  match cs.takeWhile test with
  | [] => none
  | run => some run.length

/-- The length of the longest text of a class at the beginning of `cs`. -/
def length? (lexeme : Lexeme) (cs : List Char) : Option Nat :=
  match lexeme with
  | blanks => run? isBlank cs
  | lineComment =>
    match cs with
    | '/' :: '/' :: rest => some ((rest.takeWhile (· ≠ '\n')).length + 2)
    | _ => none
  | blockComment =>
    match cs with
    | '/' :: '*' :: rest => (commentExtent? rest).map (· + 2)
    | _ => none
  | numeral base =>
    if base.mark.isPrefixOf cs then
      (run? (Text.isDigit base.radix) (cs.drop base.mark.length)).map (· + base.mark.length)
    else none
  | string =>
    match cs with
    | '"' :: rest =>
      match stringExtent rest with
      | (n, true) => some (n + 1)
      | (_, false) => none
    | _ => none
  | word =>
    match cs with
    | c :: rest => if isNameStart c then some ((rest.takeWhile isNamePart).length + 1) else none
    | [] => none
  | symbol spelling _ =>
    if spelling.toList.isPrefixOf cs then some spelling.length else none

/-- The meaning of a text of a class. -/
def read (lexeme : Lexeme) (text : List Char) : Reading :=
  match lexeme with
  | blanks | lineComment | blockComment => .skip
  | numeral base =>
    let n := Text.digitsValue base.radix (text.drop base.mark.length)
    if n < UInt64.size then .token (.integer (UInt64.ofNat n)) else .outOfRange
  | string => .token (.string (String.ofList (unescape (text.drop 1).dropLast)))
  | word => .token (.ofWord (String.ofList text))
  | symbol _ token => .token token

/-- Of two matches the longer one, and the first of two that are equally long. -/
def longer (best : Option (Lexeme × Nat)) (lexeme : Lexeme) (length : Option Nat) :
    Option (Lexeme × Nat) :=
  match best, length with
  | some (l, n), some m => if n < m then some (lexeme, m) else some (l, n)
  | none, some m => some (lexeme, m)
  | best, none => best

/-- The class with the longest text at the beginning of `cs`, and the length of that text. -/
def longest (cs : List Char) : Option (Lexeme × Nat) :=
  all.foldl (fun best lexeme => longer best lexeme (lexeme.length? cs)) none

end Lexeme

end LetTree

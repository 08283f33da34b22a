import LetTree.Text.Digits

/-!
# Strings, keys and blanks of a TOML document

The readers here take characters from the front of a document and give what they have read together
with the characters left, or nothing if the document breaks a rule.
-/

namespace LetTree.Toml

abbrev Scan := StateT (List Char) Option

namespace Scan

def exactly (text : List Char) : Scan Unit := fun cs =>
  if text.isPrefixOf cs then some ((), cs.drop text.length) else none

/-- Takes the next character if it is one of those given, and says whether it was. -/
def oneOf (choices : List Char) : Scan Bool := fun cs =>
  match cs with
  | c :: rest => if choices.contains c then some (true, rest) else some (false, cs)
  | [] => some (false, [])

/-- Takes the characters that satisfy a test, up to the first that does not. -/
def takeWhile (test : Char → Bool) : Scan (List Char) := fun cs =>
  some (cs.takeWhile test, cs.dropWhile test)

end Scan

/-! ### Blanks -/

def isBlank (c : Char) : Bool :=
  c = ' ' || c = '\t'

/-- The characters that may stand in comments and strings: all but controls other than a tab. -/
def isPlain (c : Char) : Bool :=
  c = '\t' || (' ' ≤ c && c ≠ '\x7f')

def blanks : Scan Unit := fun cs => some ((), cs.dropWhile isBlank)

/-- The end of a line, with what follows it: a line feed, or a carriage return and a line feed. -/
def newline? : List Char → Option (List Char)
  | '\n' :: cs => some cs
  | '\r' :: '\n' :: cs => some cs
  | _ => none

def comment : Scan Unit := fun cs =>
  match cs with
  | '#' :: rest => some ((), rest.dropWhile isPlain)
  | _ => some ((), cs)

/-- Skips blanks, comments and ends of lines. Inside a comment everything plain is skipped. -/
def gap (inComment : Bool) : List Char → List Char
  | [] => []
  | '\n' :: cs => gap false cs
  | '\r' :: '\n' :: cs => gap false cs
  | c :: cs =>
    if inComment then (if isPlain c then gap true cs else c :: cs)
    else if isBlank c then gap false cs
    else if c = '#' then gap true cs
    else c :: cs

/-- Skips blanks, comments and ends of lines. -/
def gaps : Scan Unit := fun cs => some ((), gap false cs)

/-! ### Strings -/

/-- The character with a given number, if there is one. -/
def charOf? (n : Nat) : Option Char :=
  if n < 0xD800 || (0xDFFF < n && n < 0x110000) then some (Char.ofNat n) else none

/-- The character whose number is written with hexadecimal digits. -/
def numbered? (digits : List Char) : Option Char :=
  if digits.all (Text.isDigit 16) then charOf? (Text.digitsValue 16 digits) else none

def escape? : Char → Option Char
  | 'b' => some '\x08'
  | 't' => some '\t'
  | 'n' => some '\n'
  | 'f' => some '\x0c'
  | 'r' => some '\r'
  | 'e' => some '\x1b'
  | '"' => some '"'
  | '\\' => some '\\'
  | _ => none

/-- Puts a character in front of a string that has been read. -/
def prepend (c : Char) (read : Option (List Char × List Char)) : Option (List Char × List Char) :=
  read.map fun (s, rest) => (c :: s, rest)

/-- The rest of a string in double quotes, and what follows the closing quote. -/
def basicRest : List Char → Option (List Char × List Char)
  | [] => none
  | '"' :: cs => some ([], cs)
  | '\\' :: 'x' :: a :: b :: cs => do prepend (← numbered? [a, b]) (basicRest cs)
  | '\\' :: 'u' :: a :: b :: c :: d :: cs => do prepend (← numbered? [a, b, c, d]) (basicRest cs)
  | '\\' :: 'U' :: a :: b :: c :: d :: e :: f :: g :: h :: cs => do
    prepend (← numbered? [a, b, c, d, e, f, g, h]) (basicRest cs)
  | '\\' :: c :: cs => do prepend (← escape? c) (basicRest cs)
  | c :: cs => if isPlain c && c ≠ '\\' then prepend c (basicRest cs) else none

/-- The rest of a string in single quotes, which has no escapes. -/
def literalRest : List Char → Option (List Char × List Char)
  | [] => none
  | '\'' :: cs => some ([], cs)
  | c :: cs => if isPlain c then prepend c (literalRest cs) else none

/-- The rest of a string in three double quotes. It may hold line ends and quotes of its own, two of
    them even right before the closing ones. After a backslash at the end of a line, blanks and line
    ends are left out (`joining`) up to the next other character. -/
def blockRest (joining : Bool) : List Char → Option (List Char × List Char)
  | [] => none
  | '"' :: '"' :: '"' :: '"' :: '"' :: cs => some (['"', '"'], cs)
  | '"' :: '"' :: '"' :: '"' :: cs => some (['"'], cs)
  | '"' :: '"' :: '"' :: cs => some ([], cs)
  | '\n' :: cs => if joining then blockRest true cs else prepend '\n' (blockRest false cs)
  | '\r' :: '\n' :: cs => if joining then blockRest true cs else prepend '\n' (blockRest false cs)
  | '\\' :: 'x' :: a :: b :: cs => do prepend (← numbered? [a, b]) (blockRest false cs)
  | '\\' :: 'u' :: a :: b :: c :: d :: cs => do
    prepend (← numbered? [a, b, c, d]) (blockRest false cs)
  | '\\' :: 'U' :: a :: b :: c :: d :: e :: f :: g :: h :: cs => do
    prepend (← numbered? [a, b, c, d, e, f, g, h]) (blockRest false cs)
  | '\\' :: cs =>
    if (newline? (cs.dropWhile isBlank)).isSome then blockRest true cs
    else
      match cs with
      | c :: cs => do prepend (← escape? c) (blockRest false cs)
      | [] => none
  | c :: cs =>
    if joining && isBlank c then blockRest true cs
    else if isPlain c then prepend c (blockRest false cs)
    else none

/-- The rest of a string in three single quotes, which has no escapes. -/
def literalBlockRest : List Char → Option (List Char × List Char)
  | [] => none
  | '\'' :: '\'' :: '\'' :: '\'' :: '\'' :: cs => some (['\'', '\''], cs)
  | '\'' :: '\'' :: '\'' :: '\'' :: cs => some (['\''], cs)
  | '\'' :: '\'' :: '\'' :: cs => some ([], cs)
  | '\n' :: cs => prepend '\n' (literalBlockRest cs)
  | '\r' :: '\n' :: cs => prepend '\n' (literalBlockRest cs)
  | c :: cs => if isPlain c then prepend c (literalBlockRest cs) else none

/-- Leaves out a line end right after an opening of three quotes. -/
def afterOpening (cs : List Char) : List Char :=
  (newline? cs).getD cs

/-- Takes a string of any form, if the next character is a quote. -/
def string : Scan String := fun cs =>
  let read :=
    match cs with
    | '"' :: '"' :: '"' :: cs => blockRest false (afterOpening cs)
    | '\'' :: '\'' :: '\'' :: cs => literalBlockRest (afterOpening cs)
    | '"' :: cs => basicRest cs
    | '\'' :: cs => literalRest cs
    | _ => none
  read.map fun (s, rest) => (String.ofList s, rest)

/-! ### Keys -/

/-- The characters of a key without quotes. -/
def isKeyPart (c : Char) : Bool :=
  ('a' ≤ c && c ≤ 'z') || ('A' ≤ c && c ≤ 'Z') || ('0' ≤ c && c ≤ '9') || c = '_' || c = '-'

/-- Takes one part of a key: a word, or a string on one line. -/
def keyPart : Scan String := fun cs =>
  match cs with
  | '"' :: rest => (basicRest rest).map fun (s, rest) => (String.ofList s, rest)
  | '\'' :: rest => (literalRest rest).map fun (s, rest) => (String.ofList s, rest)
  | _ =>
    match cs.takeWhile isKeyPart with
    | [] => none
    | word => some (String.ofList word, cs.dropWhile isKeyPart)

/-- Takes a key: parts with dots between them, and blanks around the dots. -/
def key (cs : List Char) : Option (List String × List Char) :=
  match keyPart cs with
  | none => none
  | some (part, rest) =>
    match rest.dropWhile isBlank with
    | '.' :: more =>
      let next := more.dropWhile isBlank
      if next.length < cs.length then
        (key next).map fun (parts, rest) => (part :: parts, rest)
      else none
    | others => some ([part], others)
  termination_by cs.length

end LetTree.Toml

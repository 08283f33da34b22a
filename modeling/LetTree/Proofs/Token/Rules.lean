import Mathlib.Data.Nat.Digits.Defs
import LetTree.Proofs.Token.Pattern
import LetTree.Token.Lexer

/-!
# The lexical rules

The patterns of the language, what a text of each of them means, and what it is to cut a source into
such texts: at every place the longest text of any pattern is taken. Nothing here says how a longest
text is found.
-/

namespace LetTree

namespace Lexical

/-! ### Patterns -/

def isDecimal (c : Char) : Bool := '0' ≤ c && c ≤ '9'

def isLetter (c : Char) : Bool := ('a' ≤ c && c ≤ 'z') || ('A' ≤ c && c ≤ 'Z') || c = '_'

def isHexadecimal (c : Char) : Bool :=
  isDecimal c || ('a' ≤ c && c ≤ 'f') || ('A' ≤ c && c ≤ 'F')

/-- The pattern `[ \t\r\n\f]+`. -/
def blanks : Pattern := .plus (.one fun c => [' ', '\t', '\r', '\n', '\x0c'].contains c)

/-- The pattern `//[^\n]*`. -/
def lineComment : Pattern := .seq (.exactly ['/', '/']) (.star (.one (· != '\n')))

/-- The pattern `/\*[^*]*\*+([^/*][^*]*\*+)*/`. -/
def blockComment : Pattern :=
  .seq (.exactly ['/', '*']) (.seq (.star (.one (· != '*'))) (.seq (.plus (.one (· == '*')))
    (.seq (.star (.seq (.one fun c => c != '/' && c != '*')
      (.seq (.star (.one (· != '*'))) (.plus (.one (· == '*')))))) (.exactly ['/']))))

/-- The patterns `0b[01]+`, `[0-9]+` and `0x[0-9a-fA-F]+`. -/
def numeral : Base → Pattern
  | .binary => .seq (.exactly ['0', 'b']) (.plus (.one fun c => c = '0' || c = '1'))
  | .decimal => .plus (.one isDecimal)
  | .hexadecimal => .seq (.exactly ['0', 'x']) (.plus (.one isHexadecimal))

/-- The pattern `"([^"\\]|\\.)*"`, where the dot stands for any character but a line feed. -/
def string : Pattern :=
  .seq (.exactly ['"']) (.seq (.star (.either (.one fun c => c != '"' && c != '\\')
    (.seq (.exactly ['\\']) (.one (· != '\n'))))) (.exactly ['"']))

/-- The pattern `[a-zA-Z_][a-zA-Z0-9_]*`. -/
def identifier : Pattern :=
  .seq (.one isLetter) (.star (.one fun c => isLetter c || isDecimal c))

/-- The pattern `\^\^|&&|\|\||<<|>>|[-+*/%|&^]`. -/
def operator : Pattern :=
  .either (.exactly ['^', '^']) (.either (.exactly ['&', '&']) (.either (.exactly ['|', '|'])
    (.either (.exactly ['<', '<']) (.either (.exactly ['>', '>'])
      (.one fun c => ['-', '+', '*', '/', '%', '|', '&', '^'].contains c)))))

/-- The reserved words. -/
def words : List (List Char × Token) :=
  [(['l', 'e', 't'], .letWord), (['f', 'n'], .fnWord), (['i', 'n', 't'], .type .int),
    (['s', 't', 'r', 'i', 'n', 'g'], .type .string), (['v', 'o', 'i', 'd'], .type .void),
    (['a', 'u', 't', 'o'], .type .auto)]

def punctuation : List (List Char × Token) :=
  [(['='], .equals), (['\x7b'], .leftBrace), (['\x7d'], .rightBrace), (['('], .leftParen),
    ([')'], .rightParen), ([';'], .semicolon), ([','], .comma), ([':'], .colon),
    (['-', '>'], .arrow)]

/-! ### Meanings -/

/-- The value of a digit; letters of both cases are digits. -/
def digitValue (c : Char) : Nat :=
  ['0', '1', '2', '3', '4', '5', '6', '7', '8', '9', 'a', 'b', 'c', 'd', 'e', 'f'].idxOf c.toLower

/-- The number that a numeral stands for. -/
def numeralValue (base : Base) (text : List Char) : Nat :=
  Nat.ofDigits base.radix ((text.drop base.mark.length).reverse.map digitValue)

/-- The characters that have a meaning after a backslash. -/
def escapes : List (Char × Char) :=
  [('n', '\n'), ('r', '\r'), ('t', '\t'), ('\\', '\\'), ('"', '"'), ('0', '\x00')]

/-- The text that the inside of a string stands for. A backslash before a character without a
    meaning stands for itself. -/
inductive Denotes : List Char → List Char → Prop where
  | nil : Denotes [] []
  | plain {c : Char} {body value : List Char} (hc : c ≠ '\\') (h : Denotes body value) :
      Denotes (c :: body) (c :: value)
  | escape {c d : Char} {body value : List Char} (hc : (c, d) ∈ escapes) (h : Denotes body value) :
      Denotes ('\\' :: c :: body) (d :: value)
  | kept {c : Char} {body value : List Char} (hc : ∀ d, (c, d) ∉ escapes)
      (h : Denotes body value) : Denotes ('\\' :: c :: body) ('\\' :: c :: value)

/-- What a text means: one rule for each pattern. A reserved word is not an identifier. -/
inductive Reads : List Char → Reading → Prop where
  | blanks {text : List Char} (h : blanks.Matches text) : Reads text .skip
  | lineComment {text : List Char} (h : lineComment.Matches text) : Reads text .skip
  | blockComment {text : List Char} (h : blockComment.Matches text) : Reads text .skip
  | integer {base : Base} {text : List Char} {n : UInt64} (h : (numeral base).Matches text)
      (hn : n.toNat = numeralValue base text) : Reads text (.token (.integer n))
  | outOfRange {base : Base} {text : List Char} (h : (numeral base).Matches text)
      (hn : 2 ^ 64 ≤ numeralValue base text) : Reads text .outOfRange
  | string {body value : List Char} (h : string.Matches ('"' :: body ++ ['"']))
      (hvalue : Denotes body value) :
      Reads ('"' :: body ++ ['"']) (.token (.string (String.ofList value)))
  | word {text : List Char} {t : Token} (h : (text, t) ∈ words) : Reads text (.token t)
  | identifier {text : List Char} (h : identifier.Matches text) (hword : ∀ t, (text, t) ∉ words) :
      Reads text (.token (.identifier (String.ofList text)))
  | operator {text : List Char} (h : operator.Matches text) :
      Reads text (.token (.operator (String.ofList text)))
  | punctuation {text : List Char} {t : Token} (h : (text, t) ∈ punctuation) :
      Reads text (.token t)

/-- A text of one of the patterns. -/
def Declared (text : List Char) : Prop := ∃ r, Reads text r

/-! ### Cutting a source -/

/-- The longest text of any pattern that `cs` begins with is `text`, and `rest` comes after it. -/
structure Munch (cs text rest : List Char) : Prop where
  split : cs = text ++ rest
  nonempty : text ≠ []
  declared : Declared text
  longest : ∀ other, other <+: cs → Declared other → other.length ≤ text.length

/-- No pattern has a text at the beginning of `cs`. -/
def Stuck (cs : List Char) : Prop := cs ≠ [] ∧ ∀ other, other <+: cs → other ≠ [] → ¬ Declared other

/-- A text that can be completed to one of a pattern. -/
def Viable (text : List Char) : Prop := ∃ more, Declared (text ++ more)

/-- The text at fault where no pattern has one: as far as one could still have been completed, and
    one character at least. -/
structure AtFault (cs text : List Char) : Prop where
  begins : text <+: cs
  nonempty : text ≠ []
  viable : Viable text ∨ text.length = 1
  longest : ∀ other, other <+: cs → Viable other → other.length ≤ text.length

/-- The result of cutting `cs`, which begins at the byte `offset` of its source, into longest texts.
    The first text that is stuck or out of range ends it. -/
inductive Tokenizes : Nat → List Char → Except LexError (List Token.Placed) → Prop where
  | done {offset : Nat} : Tokenizes offset [] (.ok [])
  | skip {offset : Nat} {cs text rest : List Char} {r : Except LexError (List Token.Placed)}
      (h : Munch cs text rest) (hread : Reads text .skip)
      (hrest : Tokenizes (offset + Text.bytes text) rest r) : Tokenizes offset cs r
  | token {offset : Nat} {cs text rest : List Char} {t : Token}
      {r : Except LexError (List Token.Placed)} (h : Munch cs text rest)
      (hread : Reads text (.token t)) (hrest : Tokenizes (offset + Text.bytes text) rest r) :
      Tokenizes offset cs (r.map (⟨t, ⟨offset, offset + Text.bytes text⟩⟩ :: ·))
  | outOfRange {offset : Nat} {cs text rest : List Char} (h : Munch cs text rest)
      (hread : Reads text .outOfRange) :
      Tokenizes offset cs
        (.error ⟨⟨offset, offset + Text.bytes text⟩, .outOfRange (String.ofList text)⟩)
  | stuck {offset : Nat} {cs text : List Char} (h : Stuck cs) (hfault : AtFault cs text) :
      Tokenizes offset cs
        (.error ⟨⟨offset, offset + Text.bytes text⟩, .unexpected (String.ofList text)⟩)

/-- What is left of a source at a place between two of its longest texts. -/
inductive Reaches : List Char → List Char → Prop where
  | here {cs : List Char} : Reaches cs cs
  | next {cs text rest last : List Char} (h : Munch cs text rest) (hrest : Reaches rest last) :
      Reaches cs last

/-- No token can be read at the beginning of `cs`: it is stuck, or begins with a numeral that is too
    large. -/
def Fails (cs : List Char) : Prop :=
  Stuck cs ∨ ∃ text rest, Munch cs text rest ∧ Reads text .outOfRange

end Lexical

end LetTree

import LetTree.Text.Quoted
import LetTree.Token.Lexeme

/-!
# Reading tokens

A source text is read from its beginning, one lexeme after the other, each the longest that any
class allows. Blanks and comments give no token. Reading fails where no class has a text, and at a
numeral too large for 64 bits.
-/

namespace LetTree

/-- Why a source text cannot be read into tokens. -/
inductive LexCause where
  | unexpected (text : String)
  | outOfRange (numeral : String)
  deriving DecidableEq, Repr

/-- A failure to read tokens, and the place of the text at fault. -/
structure LexError where
  span : Span
  cause : LexCause
  deriving DecidableEq, Repr

def LexError.message (e : LexError) : String :=
  match e.cause with
  | .unexpected text => "unexpected character: " ++ Text.quoted text
  | .outOfRange numeral => "integer literal out of range: " ++ numeral

namespace Token

/-- The length of the text at fault where no class has a text: one character, except that a string
    without an end is at fault as a whole. -/
def strayLength : List Char → Nat
  | '"' :: rest => (stringExtent rest).1 + 1
  | _ => 1

/-- Reads the tokens of a text that begins at the byte `offset` of its source. -/
def lexFrom (offset : Nat) : List Char → Except LexError (List Placed)
  | [] => .ok []
  | c :: rest =>
    match Lexeme.longest (c :: rest) with
    | none =>
      let text := (c :: rest).take (strayLength (c :: rest))
      .error ⟨⟨offset, offset + Text.bytes text⟩, .unexpected (String.ofList text)⟩
    | some (lexeme, length) =>
      let text := (c :: rest).take length
      let stop := offset + Text.bytes text
      -- A lexeme has at least one character, so this drops `length` characters in all.
      let others := rest.drop (length - 1)
      match lexeme.read text with
      | .skip => lexFrom stop others
      | .token t => (lexFrom stop others).map (⟨t, ⟨offset, stop⟩⟩ :: ·)
      | .outOfRange => .error ⟨⟨offset, stop⟩, .outOfRange (String.ofList text)⟩
  termination_by cs => cs.length
  decreasing_by all_goals simp only [List.length_drop, List.length_cons]; omega

def lex (source : String) : Except LexError (List Placed) :=
  lexFrom 0 source.toList

end Token

end LetTree

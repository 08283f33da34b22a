import LetTree.Token.Basic

/-!
# Errors of the grammar

Why a list of tokens is not a program, and where.
-/

namespace LetTree

/-- What the grammar asks for at a place. -/
inductive Expected where
  | token (t : Token)
  | identifier
  | type
  | expression
  | integerLiteral
  | item
  deriving DecidableEq, Repr

def Expected.text : Expected → String
  | .token t => t.describe
  | .identifier => "identifier"
  | .type => "type"
  | .expression => "expression"
  | .integerLiteral => "integer literal"
  | .item => "'let' or 'fn'"

/-- The reasons to refuse a list of tokens. A token not found stands for the end of the list. -/
inductive ParseCause where
  | unexpected (expected : Expected) (found : Option Token)
  | unknownOperator (text : String)
  | duplicateParameter (name : String)
  | tooDeep (limit : Nat)
  | tooTall (limit : Nat)
  | integerOutOfRange (negative : Bool) (n : UInt64)
  deriving DecidableEq, Repr

/-- The number of an integer literal as it is reported: with its sign. -/
def literalText (negative : Bool) (n : UInt64) : String :=
  (if negative then "-" else "") ++ toString n.toNat

def ParseCause.message : ParseCause → String
  | .unexpected expected found =>
    let found :=
      match found with
      | some t => t.describe
      | none => "end of file"
    "expected " ++ expected.text ++ ", found " ++ found
  | .unknownOperator text => "unknown operator '" ++ text ++ "'"
  | .duplicateParameter name => "duplicate parameter '" ++ name ++ "'"
  | .tooDeep limit => "expression nesting exceeds the limit of " ++ toString limit
  | .tooTall limit => "expression tree height exceeds the limit of " ++ toString limit
  | .integerOutOfRange negative n =>
    "integer literal " ++ literalText negative n ++ " is out of range for int"

/-- A reason with its place. -/
structure ParseError where
  span : Span
  cause : ParseCause
  deriving DecidableEq, Repr

def ParseError.message (e : ParseError) : String :=
  e.cause.message ++ " at " ++ toString e.span.start ++ ".." ++ toString e.span.stop

def ParseError.report (e : ParseError) (source : String) (file : Option String) : String :=
  "error: " ++ e.cause.message ++ "\n" ++ e.span.excerpt source file e.cause.message

end LetTree

/-!
# Types and constants

The four type names of the language, the constants that literals denote, and declarations, which
give a name its type.
-/

namespace LetTree

inductive Ty where
  | int
  | string
  | void
  | auto
  deriving DecidableEq, Repr

def Ty.text : Ty → String
  | .int => "int"
  | .string => "string"
  | .void => "void"
  | .auto => "auto"

/-- Every type but `auto`, which leaves the choice to the initializer. -/
def Ty.resolved : Ty → Bool
  | .auto => false
  | _ => true

/-- A constant: a 64-bit integer, a text, or one of the two values without content. -/
inductive Value where
  | int (n : Int64)
  | string (s : String)
  | void
  | auto
  deriving DecidableEq, Repr

namespace Value

def ty : Value → Ty
  | int _ => .int
  | string _ => .string
  | void => .void
  | auto => .auto

def int? : Value → Option Int64
  | int n => some n
  | _ => none

def string? : Value → Option String
  | string s => some s
  | _ => none

/-- The text of a constant in an outline; a string stands between quotes as it is. -/
def text : Value → String
  | int n => toString n.toInt
  | string s => "\"" ++ s ++ "\""
  | void => "void"
  | auto => "auto"

end Value

structure Declaration where
  ty : Ty
  name : String
  deriving DecidableEq, Repr

/-- The text of a declaration: the name first. -/
def Declaration.text (d : Declaration) : String :=
  d.name ++ ": " ++ d.ty.text

end LetTree

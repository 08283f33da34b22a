import LetTree.Node.Basic

/-!
# Types of expressions

The type of an expression is the common type of its constants. A binding inside an expression has
the type it declares.
-/

namespace LetTree

/-- Why an expression has no type. -/
inductive TypeError where
  | mismatch (op : Operator) (left right : Ty)
  | untyped (kind : Node.Kind)
  deriving DecidableEq, Repr

def TypeError.message : TypeError → String
  | .mismatch op left right =>
    "mismatched operand types for '" ++ op.text ++ "': " ++ left.text ++ " and " ++ right.text
  | .untyped kind => "cannot determine the type of a " ++ kind.text ++ " node"

namespace Node

/-- The type of an expression; the left operand is looked at first. -/
def typeOf : Node → Except TypeError Ty
  | binary op left right => do
    let l ← left.typeOf
    let r ← right.typeOf
    if l = r then return l else throw (.mismatch op l r)
  | value v => return v.ty
  | binding decl _ => return decl.ty
  | other => throw (.untyped other.kind)

end Node

end LetTree

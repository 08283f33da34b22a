import LetTree.Constant.Arithmetic
import LetTree.Node.Basic

/-!
# Folding

Folding computes the integer that a tree of integer constants and operators stands for. An operand
that is a constant is looked at before an operand that is itself a tree, so a string on the right is
reported before anything inside the left operand is.
-/

namespace LetTree

/-- Why a tree does not stand for an integer. -/
inductive FoldError where
  | notInteger (found : Ty)
  | notConstant (kind : Node.Kind)
  | arithmetic (e : ArithmeticError)
  deriving DecidableEq, Repr

def FoldError.message : FoldError → String
  | .notInteger found => "cannot fold a " ++ found.text ++ " value as an integer"
  | .notConstant kind => "a " ++ kind.text ++ " node is not a constant expression"
  | .arithmetic e => e.message

abbrev Folded := Except (Halt FoldError) Int64

def Value.fold (v : Value) : Folded :=
  match v.int? with
  | some n => .ok n
  | none => .error (.error (.notInteger v.ty))

/-- Applies an operator to folded operands. -/
def Operator.fold (lhs : Int64) (op : Operator) (rhs : Int64) : Folded :=
  (op.apply lhs rhs).mapError (.map .arithmetic)

namespace Node

/-- The integer that a tree stands for; a binding stands for its initializer. -/
def fold : Node → Folded
  | binding _ init => init.fold
  | value v => v.fold
  | binary op left right =>
    match left.value?, right.value? with
    | some l, some r => do op.fold (← l.fold) (← r.fold)
    | some l, none => do op.fold (← l.fold) (← right.fold)
    | none, some r => do
      let rhs ← r.fold
      let lhs ← left.fold
      op.fold lhs rhs
    | none, none => do op.fold (← left.fold) (← right.fold)
  | other => .error (.error (.notConstant other.kind))

theorem fold_of_value? {n : Node} {v : Value} (h : n.value? = some v) : v.fold = n.fold := by
  cases n <;> cases h
  rfl

end Node

end LetTree

import LetTree.Grammar.Parse
import LetTree.Node.Basic

/-!
# Expressions

An expression is a literal or a parenthesised expression, followed by operators and their right
operands as long as the operators bind tightly enough. Its nesting and the height of its tree are
limited by the same number: nesting is checked when a level is opened, height when a right operand
has been taken.
-/

namespace LetTree

structure Measured where
  node : Node
  height : Nat

namespace Parse

/-- The integers of literals without a sign. -/
def positive? (n : UInt64) : Option Int64 :=
  if (n.toNat : Int) ≤ Int64.maxValue.toInt then some (Int64.ofInt n.toNat) else none

/-- The integers of literals after a minus sign; the least integer has no other literal. -/
def negative? (n : UInt64) : Option Int64 :=
  if Int64.minValue.toInt ≤ -(n.toNat : Int) then some (Int64.ofInt (-(n.toNat : Int))) else none

/-- The result of an integer literal that stands at `span`. -/
def literal (span : Span) (negative : Bool) (n : UInt64) : Parse Measured := fun _ ts =>
  match if negative then negative? n else positive? n with
  | some i => .ok (⟨.value (.int i), 1⟩, ts)
  | none => .error ⟨⟨span, .integerOutOfRange negative n⟩, ts, 0⟩

/-- Takes a literal or a parenthesised expression. A minus sign belongs to the integer after it. -/
def primary (inner : Parse Measured) : Parse Measured := fun s ts =>
  match ts with
  | ⟨.integer n, span⟩ :: rest => literal span false n s rest
  | ⟨.operator text, span⟩ :: rest =>
    if text = "-" then
      match rest with
      | ⟨.integer n, last⟩ :: rest => literal (span.merge last) true n s rest
      | _ => unexpected .integerLiteral s rest
    else unexpected .expression s ts
  | ⟨.string text, _⟩ :: rest => .ok (⟨.value (.string text), 1⟩, rest)
  | ⟨.leftParen, _⟩ :: rest =>
    (do
      let e ← inner
      expect .rightParen
      return e : Parse Measured) s rest
  | _ => unexpected .expression s ts

/-- Takes operators whose left power is at least `least`, each with its right operand, and joins
    them to the operand on the left. -/
def operators (operand : Nat → Parse Measured) (least : Nat) (left : Measured) : Parse Measured :=
  fun s ts =>
    match ts with
    | ⟨.operator text, span⟩ :: rest =>
      let op := Operator.ofToken text
      if !op.known then .error ⟨⟨span, .unknownOperator text⟩, ts, 0⟩
      else if op.bindingPower.1 < least then .ok (left, ts)
      else
        match operand op.bindingPower.2 s rest with
        | .error stop => .error stop
        | .ok (right, rest') =>
          let height := max left.height right.height + 1
          let joined : Measured := ⟨.binary op left.node right.node, height⟩
          if s.limit < height then .error ⟨⟨span, .tooTall s.limit⟩, rest', 0⟩
          else if rest'.length ≤ rest.length then operators operand least joined s rest'
          else .ok (joined, rest')
    | _ => .ok (left, ts)
  termination_by _ ts => ts.length
  decreasing_by simp only [List.length_cons]; omega

/-- Runs a step one level further in: when it stops, that level is still open. -/
def nested {α : Type} (p : Parse α) : Parse α := fun s ts =>
  match p s ts with
  | .ok r => .ok r
  | .error stop => .error ⟨stop.error, stop.rest, stop.opened + 1⟩

/-- Takes an expression whose operators have at least the left power `least`, with room for so many
    levels. -/
def expressionIn : Nat → Nat → Parse Measured
  | 0, _ => fun s ts => .error ⟨⟨place s ts, .tooDeep s.limit⟩, ts, 1⟩
  | room + 1, least => fun s ts =>
    nested (do
      let first ← primary (expressionIn room 0)
      operators (expressionIn room) least first) s ts

def expression : Parse Node := fun s ts =>
  (do
    let e ← expressionIn (s.limit - s.depth) 0
    return e.node : Parse Node) s ts

end Parse

end LetTree

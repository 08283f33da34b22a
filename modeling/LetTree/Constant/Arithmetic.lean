import LetTree.Operator
import LetTree.Value

/-!
# Arithmetic of constants

The value of an operator on two 64-bit integers. Sums, differences, products and quotients are
computed exactly and then have to fit into 64 bits, and a power is a chain of such products; nothing
wraps, except that a left shift drops the bits that leave the word.
-/

namespace LetTree

/-- Why an operator has no value at two operands. -/
inductive ArithmeticError where
  | divisionByZero
  | moduloByZero
  | overflow (lhs : Int64) (op : Operator) (rhs : Int64)
  | shiftOutOfRange (amount : Int64)
  | negativeExponent (exponent : Int64)
  deriving DecidableEq, Repr

/-- How an evaluation ends without a value: with an error, or at an operator that has no meaning.
    The latter is no error of the program under analysis, and so it is not reported as one. -/
inductive Halt (ε : Type) where
  | error (e : ε)
  | unknownOperator
  deriving DecidableEq, Repr

/-- Changes the error and leaves the other end alone. -/
def Halt.map {ε δ : Type} (f : ε → δ) : Halt ε → Halt δ
  | .error e => .error (f e)
  | .unknownOperator => .unknownOperator

/-- The wording of an evaluation that met an operator without meaning. -/
def Halt.unknownOperatorMessage : String :=
  "apply_operator: unknown operator reached the evaluator"

namespace Operator

/-- The integers that fit into 64 bits. -/
def fits (n : Int) : Bool :=
  Int64.minValue.toInt ≤ n && n ≤ Int64.maxValue.toInt

/-- An exact result as a 64-bit integer, if it fits. -/
def checked (n : Int) (otherwise : ArithmeticError) : Except ArithmeticError Int64 :=
  if fits n then .ok (Int64.ofInt n) else .error otherwise

def truth (b : Bool) : Int64 :=
  if b then 1 else 0

/-- A shift by an amount that is less than the width of a word. -/
def shifted (amount : Int64) (result : Int64) : Except ArithmeticError Int64 :=
  if 0 ≤ amount.toInt && amount.toInt ≤ 63 then .ok result else .error (.shiftOutOfRange amount)

/-- The product `acc * base ^ exponent` by repeated squaring, where every product on the way has to
    fit. The base is squared only while a factor is still to come. -/
def powerFrom (overflow : ArithmeticError) (acc base : Int64) (exponent : Nat) :
    Except ArithmeticError Int64 :=
  if exponent = 0 then .ok acc
  else do
    let acc ← if exponent % 2 = 1 then checked (acc.toInt * base.toInt) overflow else .ok acc
    if exponent = 1 then .ok acc
    else powerFrom overflow acc (← checked (base.toInt * base.toInt) overflow) (exponent / 2)
  termination_by exponent

/-- An exact power. Exponents from 2 ^ 32 on are not computed: there only the bases 0, 1 and -1 have
    a power that fits. -/
def exponentiate (base exponent : Int64) : Except ArithmeticError Int64 :=
  let e := exponent.toInt
  let overflow := .overflow base power exponent
  if e < 0 then .error (.negativeExponent exponent)
  else if e < 4294967296 then powerFrom overflow 1 base e.toNat
  else if base = 0 || base = 1 then .ok base
  else if base = -1 then .ok (if e % 2 = 0 then 1 else -1)
  else .error overflow

/-- The value of an operator at two integers. -/
def apply (lhs : Int64) (op : Operator) (rhs : Int64) : Except (Halt ArithmeticError) Int64 :=
  let a := lhs.toInt
  let b := rhs.toInt
  let outcome (r : Except ArithmeticError Int64) : Except (Halt ArithmeticError) Int64 :=
    r.mapError .error
  match op with
  | add => outcome (checked (a + b) (.overflow lhs op rhs))
  | sub => outcome (checked (a - b) (.overflow lhs op rhs))
  | mul => outcome (checked (a * b) (.overflow lhs op rhs))
  | div =>
    if b = 0 then .error (.error .divisionByZero)
    else outcome (checked (a.tdiv b) (.overflow lhs op rhs))
  | mod =>
    -- The remainder has no value where the quotient has none.
    if b = 0 then .error (.error .moduloByZero)
    else if fits (a.tdiv b) then .ok (Int64.ofInt (a.tmod b))
    else .error (.error (.overflow lhs op rhs))
  | shr => outcome (shifted rhs (lhs >>> rhs))
  | shl => outcome (shifted rhs (lhs <<< rhs))
  | logicalAnd => .ok (truth (a ≠ 0 && b ≠ 0))
  | logicalOr => .ok (truth (a ≠ 0 || b ≠ 0))
  | bitOr => .ok (lhs ||| rhs)
  | bitAnd => .ok (lhs &&& rhs)
  | bitXor => .ok (lhs ^^^ rhs)
  | power => outcome (exponentiate lhs rhs)
  | unknown => .error .unknownOperator

end Operator

def ArithmeticError.message : ArithmeticError → String
  | .divisionByZero => "division by zero in constant expression"
  | .moduloByZero => "modulo by zero in constant expression"
  | .overflow lhs op rhs =>
    "arithmetic overflow in constant expression: "
      ++ toString lhs.toInt ++ " " ++ op.text ++ " " ++ toString rhs.toInt
  | .shiftOutOfRange amount =>
    "shift amount " ++ toString amount.toInt ++ " out of range in constant expression"
  | .negativeExponent exponent =>
    "negative exponent " ++ toString exponent.toInt ++ " in constant expression"

end LetTree

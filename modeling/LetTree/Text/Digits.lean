/-!
# Digits

The values of digits and of runs of digits in any base up to sixteen.
-/

namespace LetTree.Text

/-- The value of a digit, whatever the base. -/
def digit? (c : Char) : Option Nat :=
  if '0' ≤ c && c ≤ '9' then some (c.toNat - '0'.toNat)
  else if 'a' ≤ c && c ≤ 'f' then some (c.toNat - 'a'.toNat + 10)
  else if 'A' ≤ c && c ≤ 'F' then some (c.toNat - 'A'.toNat + 10)
  else none

/-- A digit of a base has a value below the radix. -/
def isDigit (radix : Nat) (c : Char) : Bool :=
  match digit? c with
  | some d => d < radix
  | none => false

/-- The number that digits stand for, the first one weighing most. -/
def digitsValue (radix : Nat) (digits : List Char) : Nat :=
  digits.foldl (fun n c => n * radix + (digit? c).getD 0) 0

end LetTree.Text

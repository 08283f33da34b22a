/-!
# Binary operators

The thirteen binary operators with their spellings, their numeric codes and their binding powers.
An operator is found from a token by the first three characters of the token alone; no spelling is
that long, so a longer token never passes for an operator.
-/

namespace LetTree

/-- The binary operators; `unknown` stands for a token that spells none of them. -/
inductive Operator where
  | add
  | sub
  | mul
  | div
  | mod
  | shr
  | shl
  | logicalAnd
  | logicalOr
  | bitOr
  | bitAnd
  | bitXor
  | power
  | unknown
  deriving DecidableEq, Repr

namespace Operator

/-- Every operator that has a spelling, in the order of its code. -/
def table : List Operator :=
  [add, sub, mul, div, mod, shr, shl, logicalAnd, logicalOr, bitOr, bitAnd, bitXor, power]

/-- The text of an operator, in source and in messages. -/
def text : Operator → String
  | add => "+"
  | sub => "-"
  | mul => "*"
  | div => "/"
  | mod => "%"
  | shr => ">>"
  | shl => "<<"
  | logicalAnd => "&&"
  | logicalOr => "||"
  | bitOr => "|"
  | bitAnd => "&"
  | bitXor => "^"
  | power => "^^"
  | unknown => "<ERROR>"

/-- An operator is known when it has a spelling. -/
def known : Operator → Bool
  | unknown => false
  | _ => true

/-! ### Tokens -/

/-- The operator that a token spells, read off the first three characters of the token. -/
def ofToken (token : String) : Operator :=
  let key := String.ofList (token.toList.take 3)
  (table.find? fun op => op.text == key).getD unknown

theorem ofToken_text (op : Operator) : ofToken op.text = op := by
  cases op <;> rfl

theorem length_text_lt {op : Operator} (hop : op.known = true) : op.text.toList.length < 3 := by
  cases op with
  | unknown => cases hop
  | _ => decide

/-- Cutting a token off after three characters makes no spelling of it. -/
theorem ofList_take_eq_text_iff {token : String} {op : Operator} (hop : op.known = true) :
    String.ofList (token.toList.take 3) = op.text ↔ token = op.text := by
  have hlength := length_text_lt hop
  constructor
  · intro hkey
    have hshort : token.toList.length < 3 := by
      rw [← hkey, String.toList_ofList, List.length_take] at hlength
      omega
    rwa [List.take_of_length_le (Nat.le_of_lt hshort), String.ofList_toList] at hkey
  · rintro rfl
    rw [List.take_of_length_le (Nat.le_of_lt hlength), String.ofList_toList]

theorem ofToken_eq_iff {token : String} {op : Operator} (hop : op.known = true) :
    ofToken token = op ↔ token = op.text := by
  constructor
  · intro htoken
    apply (ofList_take_eq_text_iff hop).mp
    rcases hfind : table.find? fun op => op.text == String.ofList (token.toList.take 3) with
      _ | found
    · have hunknown : ofToken token = unknown := by simp [ofToken, hfind]
      rw [← htoken, hunknown] at hop
      cases hop
    · obtain rfl : found = op := by simpa [ofToken, hfind] using htoken
      have hfound := List.find?_some hfind
      exact (beq_iff_eq.mp hfound).symm
  · rintro rfl
    exact ofToken_text op

/-- A token that spells a known operator is the spelling of that operator, in full. -/
theorem text_ofToken {token : String} (h : (ofToken token).known = true) :
    (ofToken token).text = token :=
  ((ofToken_eq_iff h).mp rfl).symm

structure Unrecognised where
  token : String
  deriving DecidableEq, Repr

def Unrecognised.message (e : Unrecognised) : String :=
  s!"unknown operator '{e.token}'"

/-- Reads a token as an operator; the failure carries the whole token. -/
def read (token : String) : Except Unrecognised Operator :=
  match ofToken token with
  | unknown => .error ⟨token⟩
  | op => .ok op

/-! ### Codes -/

/-- The code of an operator: its place in the table counted from one, and zero for `unknown`. -/
def code (op : Operator) : Nat :=
  match table.idxOf? op with
  | some place => place + 1
  | none => 0

def ofCode? : Nat → Option Operator
  | 0 => none
  | place + 1 => table[place]?

/-- The operator with a given code; a code outside the table gives `unknown`. -/
def ofCode (code : Nat) : Operator :=
  (ofCode? code).getD unknown

/-- The text shown for a code: zero is the text of `unknown`, a code past the table has its own. -/
def codeText (code : Nat) : String :=
  if code = 0 then unknown.text
  else
    match ofCode? code with
    | some op => op.text
    | none => "<UNKNOWN>"

/-! ### Precedence -/

/-- The left and right binding power of an operator. A higher power binds tighter, and the operator
    is left associative exactly when its right power is the greater one. -/
def bindingPower : Operator → Nat × Nat
  | logicalOr => (1, 2)
  | logicalAnd => (3, 4)
  | bitOr => (5, 6)
  | bitXor => (7, 8)
  | bitAnd => (9, 10)
  | shl | shr => (11, 12)
  | add | sub => (13, 14)
  | mul | div | mod => (15, 16)
  | power => (18, 17)
  | unknown => (0, 0)

end Operator

end LetTree

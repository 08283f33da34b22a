import Mathlib.Data.Int.Bitwise
import LetTree.Constant.Arithmetic

/-!
# Exactness of the operators

The operators on 64-bit integers against operations on integers of any size. A result is the exact
one, and a failure has one of the documented reasons, at exactly the operands the reason is about.
Only the left shift is not exact: it gives the residue that 64 bits can hold. Remainders and powers
are left out here.
-/

namespace LetTree

/-- The integers that fit into 64 bits. -/
def InRange (n : Int) : Prop := -2 ^ 63 ≤ n ∧ n ≤ 2 ^ 63 - 1

theorem inRange_toInt (i : Int64) : InRange i.toInt :=
  ⟨i.le_toInt, Int.le_sub_one_of_lt i.toInt_lt⟩

namespace Operator

/-- The operator has the integer `n` as its value at two operands. -/
def Gives (op : Operator) (a b : Int64) (n : Int) : Prop :=
  InRange n ∧ ∃ i : Int64, op.apply a b = .ok i ∧ i.toInt = n

/-- The operator has no value at two operands, for a reason. -/
def FailsWith (op : Operator) (a b : Int64) (e : ArithmeticError) : Prop :=
  op.apply a b = .error (.error e)

variable {op : Operator} {a b : Int64} {n : Int}

theorem gives_of_ok {i : Int64} (h : op.apply a b = .ok i) : op.Gives a b i.toInt :=
  ⟨inRange_toInt i, i, h, rfl⟩

theorem Gives.not_failsWith (h : op.Gives a b n) (e : ArithmeticError) : ¬ op.FailsWith a b e := by
  obtain ⟨-, i, hi, -⟩ := h
  intro hfails
  rw [FailsWith, hi] at hfails
  cases hfails

theorem Gives.unique {m : Int} (h : op.Gives a b n) (h' : op.Gives a b m) : n = m := by
  obtain ⟨-, i, hi, rfl⟩ := h
  obtain ⟨-, j, hj, rfl⟩ := h'
  rw [hi] at hj
  cases hj
  rfl

theorem FailsWith.unique {e e' : ArithmeticError} (h : op.FailsWith a b e)
    (h' : op.FailsWith a b e') : e = e' := by
  rw [FailsWith, h] at h'
  cases h'
  rfl

/-! ### Results that are checked -/

theorem fits_iff : fits n = true ↔ InRange n := by
  simp only [fits, InRange, Int64.toInt_minValue, Int64.toInt_maxValue, Bool.and_eq_true,
    decide_eq_true_eq]

theorem checked_of_inRange (h : InRange n) (e : ArithmeticError) :
    ∃ i : Int64, checked n e = .ok i ∧ i.toInt = n := by
  refine ⟨Int64.ofInt n, by rw [checked, if_pos (fits_iff.mpr h)], ?_⟩
  exact Int64.toInt_ofInt_of_le h.1 (Int.lt_of_le_sub_one h.2)

theorem checked_of_not_inRange (h : ¬ InRange n) (e : ArithmeticError) :
    checked n e = .error e := by
  rw [checked, if_neg (fun hfits => h (fits_iff.mp hfits))]

/-- The exact result if it is in range, and an overflow that names the operands otherwise. -/
def ExactOrOverflow (op : Operator) (a b : Int64) (n : Int) : Prop :=
  (InRange n → op.Gives a b n) ∧ (¬ InRange n → op.FailsWith a b (.overflow a op b))

theorem exactOrOverflow_of_checked
    (h : op.apply a b = (checked n (.overflow a op b)).mapError Halt.error) :
    op.ExactOrOverflow a b n := by
  constructor
  · intro hrange
    obtain ⟨i, hi, hn⟩ := checked_of_inRange hrange (.overflow a op b)
    rw [hi] at h
    exact ⟨hrange, i, h, hn⟩
  · intro hrange
    rw [checked_of_not_inRange hrange] at h
    exact h

namespace ExactOrOverflow

theorem gives_iff (h : op.ExactOrOverflow a b n) {m : Int} :
    op.Gives a b m ↔ InRange m ∧ m = n := by
  constructor
  · intro hm
    refine ⟨hm.1, ?_⟩
    by_cases hrange : InRange n
    · exact hm.unique (h.1 hrange)
    · exact absurd (h.2 hrange) (hm.not_failsWith _)
  · rintro ⟨hrange, rfl⟩
    exact h.1 hrange

theorem failsWith_iff (h : op.ExactOrOverflow a b n) {e : ArithmeticError} :
    op.FailsWith a b e ↔ ¬ InRange n ∧ e = .overflow a op b := by
  constructor
  · intro hfails
    by_cases hrange : InRange n
    · exact absurd hfails ((h.1 hrange).not_failsWith e)
    · exact ⟨hrange, hfails.unique (h.2 hrange)⟩
  · rintro ⟨hrange, rfl⟩
    exact h.2 hrange

end ExactOrOverflow

/-! ### Quotients -/

/-- A quotient of integers in range is in range, with one exception: there is no positive integer as
    large as the least one. -/
theorem inRange_tdiv_iff (a b : Int64) :
    InRange (a.toInt.tdiv b.toInt) ↔ ¬ (a.toInt = -2 ^ 63 ∧ b.toInt = -1) := by
  obtain ⟨hmin, hmax⟩ := inRange_toInt a
  constructor
  · rintro hrange ⟨ha, hb⟩
    rw [ha, hb] at hrange
    exact absurd hrange.2 (by decide)
  · intro hne
    by_cases hone : b.toInt = 1
    · rw [hone, Int.tdiv_one]
      exact ⟨hmin, hmax⟩
    · have habs : (a.toInt.tdiv b.toInt).natAbs = a.toInt.natAbs / b.toInt.natAbs :=
        Int.natAbs_tdiv _ _
      have hle : a.toInt.natAbs / b.toInt.natAbs ≤ a.toInt.natAbs := Nat.div_le_self _ _
      -- Division by anything but 1 and -1 makes the quotient smaller than the dividend.
      have hlt : b.toInt ≠ -1 → 0 < a.toInt.natAbs →
          a.toInt.natAbs / b.toInt.natAbs < a.toInt.natAbs := by
        intro hneg hpos
        by_cases hzero : b.toInt = 0
        · simpa [hzero] using hpos
        · exact Nat.div_lt_self hpos (by omega)
      unfold InRange
      omega

/-! ### Shifts -/

theorem shift_amount (h0 : 0 ≤ b.toInt) (h63 : b.toInt ≤ 63) :
    (b.toBitVec.smod 64).toNat = b.toInt.toNat := by
  have hint : (b.toBitVec.smod 64).toInt = b.toInt := by
    rw [BitVec.toInt_smod, Int64.toInt_toBitVec]
    exact Int.fmod_eq_of_lt h0 (Int.lt_add_one_of_le h63)
  rw [BitVec.toInt_eq_toNat_cond] at hint
  split at hint <;> omega

/-- A right shift rounds down, also below zero. -/
theorem toInt_shiftRight (h0 : 0 ≤ b.toInt) (h63 : b.toInt ≤ 63) :
    (a >>> b).toInt = a.toInt.fdiv (2 ^ b.toInt.toNat) := by
  rw [← Int64.toInt_toBitVec, Int64.toBitVec_shiftRight, BitVec.toInt_sshiftRight',
    shift_amount h0 h63, Int64.toInt_toBitVec, Int.shiftRight_eq_div_pow,
    Int.fdiv_eq_ediv_of_nonneg _ (Int.pow_nonneg (by decide))]
  norm_cast

/-- A left shift keeps the residue that fits into 64 bits. -/
theorem toInt_shiftLeft (h0 : 0 ≤ b.toInt) (h63 : b.toInt ≤ 63) :
    (a <<< b).toInt = (a.toInt * 2 ^ b.toInt.toNat).bmod (2 ^ 64) := by
  have ha : a.toInt = (a.toBitVec.toNat : Int).bmod (2 ^ 64) := by
    rw [← BitVec.toInt_eq_toNat_bmod, Int64.toInt_toBitVec]
  rw [← Int64.toInt_toBitVec, Int64.toBitVec_shiftLeft, BitVec.shiftLeft_eq', shift_amount h0 h63,
    BitVec.toInt_shiftLeft, Nat.shiftLeft_eq, ha, Int.bmod_mul_bmod]
  norm_cast

theorem shifted_of_inRange {r : Int64} (h0 : 0 ≤ b.toInt) (h63 : b.toInt ≤ 63) :
    shifted b r = .ok r := by
  simp [shifted, h0, h63]

theorem shifted_of_outside {r : Int64} (h : b.toInt < 0 ∨ 63 < b.toInt) :
    shifted b r = .error (.shiftOutOfRange b) := by
  rw [shifted, if_neg]
  simp only [Bool.and_eq_true, decide_eq_true_eq]
  omega

/-! ### Bits -/

/-- The bits of a word are those of its integer, with a negative integer in two's complement. -/
theorem testBit_toInt (i : Int64) {k : Nat} (hk : k < 64) :
    i.toInt.testBit k = i.toBitVec.getLsbD k := by
  rw [← Int64.toInt_toBitVec, ← BitVec.testBit_toNat, BitVec.toInt_eq_toNat_cond]
  have hlt := i.toBitVec.isLt
  generalize i.toBitVec.toNat = m at hlt
  split
  · rfl
  · have hneg : (m : Int) - (2 ^ 64 : Nat) = Int.negSucc (2 ^ 64 - (m + 1)) := by
      rw [Int.negSucc_eq]
      omega
    rw [hneg, Int.testBit, Nat.testBit_two_pow_sub_succ hlt]
    simp [hk]

/-- The operator has a value, each of whose 64 bits is made from the same bits of the operands. -/
def ActsOnBits (op : Operator) (a b : Int64) (f : Bool → Bool → Bool) : Prop :=
  ∃ i : Int64, op.apply a b = .ok i ∧
    ∀ k < 64, i.toInt.testBit k = f (a.toInt.testBit k) (b.toInt.testBit k)

theorem actsOnBits_of_ok {i : Int64} {f : Bool → Bool → Bool} (h : op.apply a b = .ok i)
    (hbits : ∀ k < 64,
      i.toBitVec.getLsbD k = f (a.toBitVec.getLsbD k) (b.toBitVec.getLsbD k)) :
    op.ActsOnBits a b f := by
  refine ⟨i, h, ?_⟩
  intro k hk
  rw [testBit_toInt i hk, testBit_toInt a hk, testBit_toInt b hk]
  exact hbits k hk

/-! ### All operators -/

/-- The documented reasons of failure. -/
inductive Documented (a b : Int64) : Operator → ArithmeticError → Prop where
  | divisionByZero : Documented a b div .divisionByZero
  | overflow {op : Operator} (h : op ∈ [add, sub, mul, div]) : Documented a b op (.overflow a op b)
  | shiftOutOfRange {op : Operator} (h : op ∈ [shr, shl]) : Documented a b op (.shiftOutOfRange b)

/-- What the operators do at two integers. -/
structure ExactAt (a b : Int64) : Prop where
  sum : add.ExactOrOverflow a b (a.toInt + b.toInt)
  difference : sub.ExactOrOverflow a b (a.toInt - b.toInt)
  product : mul.ExactOrOverflow a b (a.toInt * b.toInt)
  quotient_by_zero : div.FailsWith a b .divisionByZero ↔ b.toInt = 0
  quotient_overflow : div.FailsWith a b (.overflow a div b) ↔ a.toInt = -2 ^ 63 ∧ b.toInt = -1
  /-- Every other quotient is truncated toward zero. -/
  quotient : b.toInt ≠ 0 → ¬ (a.toInt = -2 ^ 63 ∧ b.toInt = -1) →
    div.Gives a b (a.toInt.tdiv b.toInt)
  shift_out_of_range : ∀ op ∈ [shr, shl],
    (op.FailsWith a b (.shiftOutOfRange b) ↔ b.toInt < 0 ∨ 63 < b.toInt)
  /-- A right shift is a division that rounds down. -/
  right_shift : 0 ≤ b.toInt → b.toInt ≤ 63 → shr.Gives a b (a.toInt.fdiv (2 ^ b.toInt.toNat))
  /-- A left shift is a product, reduced to the signed integers of 64 bits. -/
  left_shift : 0 ≤ b.toInt → b.toInt ≤ 63 →
    shl.Gives a b ((a.toInt * 2 ^ b.toInt.toNat).bmod (2 ^ 64))
  conjunction : logicalAnd.Gives a b (if a.toInt ≠ 0 ∧ b.toInt ≠ 0 then 1 else 0)
  disjunction : logicalOr.Gives a b (if a.toInt ≠ 0 ∨ b.toInt ≠ 0 then 1 else 0)
  bits_or : bitOr.ActsOnBits a b Bool.or
  bits_and : bitAnd.ActsOnBits a b Bool.and
  bits_xor : bitXor.ActsOnBits a b Bool.xor
  /-- There is no other way to fail. -/
  documented : ∀ op ∉ [mod, power, unknown], ∀ halt, op.apply a b = .error halt →
    ∃ e, halt = .error e ∧ Documented a b op e

theorem div_of_zero (h : b.toInt = 0) : div.FailsWith a b .divisionByZero := by
  simp only [FailsWith, apply, if_pos h]

theorem div_of_ne_zero (h : b.toInt ≠ 0) : div.ExactOrOverflow a b (a.toInt.tdiv b.toInt) := by
  apply exactOrOverflow_of_checked
  simp only [apply, if_neg h]

theorem div_failsWith_divisionByZero_iff :
    div.FailsWith a b .divisionByZero ↔ b.toInt = 0 := by
  by_cases hzero : b.toInt = 0
  · exact iff_of_true (div_of_zero hzero) hzero
  · rw [(div_of_ne_zero hzero).failsWith_iff]
    simp [hzero]

theorem div_failsWith_overflow_iff :
    div.FailsWith a b (.overflow a div b) ↔ a.toInt = -2 ^ 63 ∧ b.toInt = -1 := by
  by_cases hzero : b.toInt = 0
  · refine iff_of_false ?_ (by omega)
    intro hfails
    cases hfails.unique (div_of_zero hzero)
  · rw [(div_of_ne_zero hzero).failsWith_iff, inRange_tdiv_iff, not_not]
    exact and_iff_left rfl

theorem shift_failsWith_iff {r : Int64}
    (h : op.apply a b = (shifted b r).mapError Halt.error) :
    op.FailsWith a b (.shiftOutOfRange b) ↔ b.toInt < 0 ∨ 63 < b.toInt := by
  constructor
  · intro hfails
    by_contra hinside
    rw [shifted_of_inRange (by omega) (by omega)] at h
    exact (gives_of_ok h).not_failsWith _ hfails
  · intro hout
    rw [shifted_of_outside hout] at h
    exact h

theorem shift_gives {r : Int64} (h : op.apply a b = (shifted b r).mapError Halt.error)
    (h0 : 0 ≤ b.toInt) (h63 : b.toInt ≤ 63) : op.Gives a b r.toInt := by
  rw [shifted_of_inRange h0 h63] at h
  exact gives_of_ok h

theorem gives_truth {c : Prop} [Decidable c] (h : op.apply a b = .ok (truth (decide c))) :
    op.Gives a b (if c then 1 else 0) := by
  have htruth : (truth (decide c)).toInt = if c then 1 else 0 := by
    by_cases hc : c <;> simp [truth, hc]
  rw [← htruth]
  exact gives_of_ok h

/-! ### Reasons of failure -/

theorem documented_of_failsWith {e : ArithmeticError} {halt : Halt ArithmeticError}
    (h : op.apply a b = .error halt) (hfails : op.FailsWith a b e) (he : Documented a b op e) :
    ∃ e, halt = .error e ∧ Documented a b op e := by
  rw [hfails] at h
  cases h
  exact ⟨e, rfl, he⟩

theorem ExactOrOverflow.documented (hexact : op.ExactOrOverflow a b n)
    (hop : op ∈ [add, sub, mul, div]) {halt : Halt ArithmeticError}
    (h : op.apply a b = .error halt) : ∃ e, halt = .error e ∧ Documented a b op e := by
  by_cases hrange : InRange n
  · obtain ⟨-, i, hi, -⟩ := hexact.1 hrange
    rw [hi] at h
    cases h
  · exact documented_of_failsWith h (hexact.2 hrange) (.overflow hop)

theorem shift_documented {r : Int64} (hshift : op.apply a b = (shifted b r).mapError Halt.error)
    (hop : op ∈ [shr, shl]) {halt : Halt ArithmeticError} (h : op.apply a b = .error halt) :
    ∃ e, halt = .error e ∧ Documented a b op e := by
  by_cases hout : b.toInt < 0 ∨ 63 < b.toInt
  · exact documented_of_failsWith h ((shift_failsWith_iff hshift).mpr hout) (.shiftOutOfRange hop)
  · obtain ⟨-, i, hi, -⟩ := shift_gives hshift (by omega) (by omega)
    rw [hi] at h
    cases h

theorem documented_of_error (hop : op ∉ [mod, power, unknown]) {halt : Halt ArithmeticError}
    (h : op.apply a b = .error halt) : ∃ e, halt = .error e ∧ Documented a b op e := by
  cases op with
  | add | sub | mul => exact (exactOrOverflow_of_checked rfl).documented (by decide) h
  | div =>
    by_cases hzero : b.toInt = 0
    · exact documented_of_failsWith h (div_of_zero hzero) .divisionByZero
    · exact (div_of_ne_zero hzero).documented (by decide) h
  | shr | shl => exact shift_documented rfl (by decide) h
  | logicalAnd | logicalOr | bitOr | bitAnd | bitXor => cases h
  | mod | power | unknown => exact absurd (by decide) hop

end Operator

/-- **The operators are exact.**  At all operands, sums, differences and products are the exact ones
    or overflow, quotients are truncated and fail at zero and at one other pair of operands, shifts
    are a product and a rounded quotient unless the amount is not that of a bit, the logical
    operators give 1 or 0, and the others act on each bit. They fail in no other way. -/
theorem operators_exact (a b : Int64) : Operator.ExactAt a b where
  sum := Operator.exactOrOverflow_of_checked rfl
  difference := Operator.exactOrOverflow_of_checked rfl
  product := Operator.exactOrOverflow_of_checked rfl
  quotient_by_zero := Operator.div_failsWith_divisionByZero_iff
  quotient_overflow := Operator.div_failsWith_overflow_iff
  quotient := by
    intro hzero hother
    exact (Operator.div_of_ne_zero hzero).1 ((Operator.inRange_tdiv_iff a b).mpr hother)
  shift_out_of_range := by
    intro op hop
    simp only [List.mem_cons, List.not_mem_nil, or_false] at hop
    rcases hop with rfl | rfl
    · exact Operator.shift_failsWith_iff rfl
    · exact Operator.shift_failsWith_iff rfl
  right_shift := by
    intro h0 h63
    rw [← Operator.toInt_shiftRight h0 h63]
    exact Operator.shift_gives rfl h0 h63
  left_shift := by
    intro h0 h63
    rw [← Operator.toInt_shiftLeft h0 h63]
    exact Operator.shift_gives rfl h0 h63
  conjunction := Operator.gives_truth (by simp [Operator.apply])
  disjunction := Operator.gives_truth (by simp [Operator.apply])
  bits_or := Operator.actsOnBits_of_ok rfl fun k _ => BitVec.getLsbD_or
  bits_and := Operator.actsOnBits_of_ok rfl fun k _ => BitVec.getLsbD_and
  bits_xor := Operator.actsOnBits_of_ok rfl fun k _ => BitVec.getLsbD_xor
  documented := fun _ hop _ h => Operator.documented_of_error hop h

end LetTree

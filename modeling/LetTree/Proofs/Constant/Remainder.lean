import LetTree.Proofs.Constant.Exactness

/-!
# Remainders

The remainder is what the truncated quotient leaves of the dividend. It is smaller in size than the
divisor, so that it fits into 64 bits for all operands, even for the two whose quotient does not
fit. The operator gives the remainder wherever there is a quotient that fits, and at those two
operands it reports an overflow instead.
-/

namespace LetTree

namespace Operator

variable {a b : Int64}

theorem natAbs_tmod_lt_iff : (a.toInt.tmod b.toInt).natAbs < b.toInt.natAbs ↔ b.toInt ≠ 0 := by
  rw [Int.natAbs_tmod]
  constructor
  · intro hlt hzero
    simp [hzero] at hlt
  · intro hne
    exact Nat.mod_lt _ (Int.natAbs_pos.mpr hne)

/-- The remainder fits, also where the quotient does not. -/
theorem inRange_tmod (a b : Int64) : InRange (a.toInt.tmod b.toInt) := by
  by_cases hzero : b.toInt = 0
  · rw [hzero, Int.tmod_zero]
    exact inRange_toInt a
  · have hsize := natAbs_tmod_lt_iff (a := a).mpr hzero
    obtain ⟨hmin, hmax⟩ := inRange_toInt b
    unfold InRange
    omega

/-! ### The three outcomes -/

theorem mod_of_zero (h : b.toInt = 0) : mod.apply a b = .error (.error .moduloByZero) := by
  simp only [apply, if_pos h]

theorem mod_of_inRange (hzero : b.toInt ≠ 0) (h : InRange (a.toInt.tdiv b.toInt)) :
    mod.Gives a b (a.toInt.tmod b.toInt) := by
  have hrange := inRange_tmod a b
  refine ⟨hrange, Int64.ofInt (a.toInt.tmod b.toInt), ?_, ?_⟩
  · simp only [apply, if_neg hzero, if_pos (fits_iff.mpr h)]
  · exact Int64.toInt_ofInt_of_le hrange.1 (Int.lt_of_le_sub_one hrange.2)

theorem mod_of_not_inRange (hzero : b.toInt ≠ 0) (h : ¬ InRange (a.toInt.tdiv b.toInt)) :
    mod.apply a b = .error (.error (.overflow a mod b)) := by
  simp only [apply, if_neg hzero, if_neg (mt fits_iff.mp h)]

theorem mod_gives_iff {n : Int} :
    mod.Gives a b n ↔
      b.toInt ≠ 0 ∧ InRange (a.toInt.tdiv b.toInt) ∧ n = a.toInt.tmod b.toInt := by
  constructor
  · intro hgives
    have hzero : b.toInt ≠ 0 := fun h => hgives.not_failsWith _ (mod_of_zero h)
    have hrange : InRange (a.toInt.tdiv b.toInt) := by
      by_contra h
      exact hgives.not_failsWith _ (mod_of_not_inRange hzero h)
    exact ⟨hzero, hrange, hgives.unique (mod_of_inRange hzero hrange)⟩
  · rintro ⟨hzero, hrange, rfl⟩
    exact mod_of_inRange hzero hrange

theorem mod_eq_error_iff {halt : Halt ArithmeticError} :
    mod.apply a b = .error halt ↔
      (b.toInt = 0 ∧ halt = .error .moduloByZero) ∨
        ¬ InRange (a.toInt.tdiv b.toInt) ∧ halt = .error (.overflow a mod b) := by
  by_cases hzero : b.toInt = 0
  · -- By zero the quotient counts as zero, which is in range.
    have hrange : InRange (a.toInt.tdiv b.toInt) := (inRange_tdiv_iff a b).mpr (by omega)
    rw [mod_of_zero hzero]
    constructor
    · rintro ⟨⟩
      exact .inl ⟨hzero, rfl⟩
    · rintro (⟨-, rfl⟩ | ⟨hout, -⟩)
      · rfl
      · exact absurd hrange hout
  · by_cases hrange : InRange (a.toInt.tdiv b.toInt)
    · obtain ⟨-, i, hi, -⟩ := mod_of_inRange hzero hrange
      simp [hi, hzero, hrange]
    · simp [mod_of_not_inRange hzero hrange, hzero, hrange, eq_comm]

end Operator

/-- What is left of an integer when a quotient that is cut off towards zero has been taken. -/
def remainder (a b : Int64) : Int := a.toInt - b.toInt * a.toInt.tdiv b.toInt

/-- **Remainders are exact where the quotient fits.**  The remainder fits into 64 bits at all
    operands, and it is smaller in size than a divisor other than zero. It is the value of the
    operator unless the divisor is zero, which is reported as such, or the least integer is divided
    by -1, where an overflow is reported. -/
theorem remainder_exact (a b : Int64) :
    InRange (remainder a b) ∧
    ((remainder a b).natAbs < b.toInt.natAbs ↔ b.toInt ≠ 0) ∧
    (∀ n, Operator.mod.Gives a b n ↔
      b.toInt ≠ 0 ∧ ¬ (a.toInt = -2 ^ 63 ∧ b.toInt = -1) ∧ n = remainder a b) ∧
    ∀ halt, Operator.mod.apply a b = .error halt ↔
      (b.toInt = 0 ∧ halt = .error .moduloByZero) ∨
        (a.toInt = -2 ^ 63 ∧ b.toInt = -1) ∧ halt = .error (.overflow a .mod b) := by
  have hremainder : a.toInt.tmod b.toInt = remainder a b := Int.tmod_def _ _
  rw [← hremainder, ← Operator.inRange_tdiv_iff]
  refine ⟨Operator.inRange_tmod a b, Operator.natAbs_tmod_lt_iff, ?_, ?_⟩
  · intro n
    exact Operator.mod_gives_iff
  · intro halt
    rw [Operator.mod_eq_error_iff, Operator.inRange_tdiv_iff, not_not]

/-- The remainder of the least integer by -1 is zero, and still the operator has no value there. -/
theorem remainder_of_least_refused :
    ¬ ∀ a b : Int64, b.toInt ≠ 0 → Operator.mod.Gives a b (remainder a b) := by
  intro h
  have hgives := h Int64.minValue (-1) (by decide)
  exact hgives.not_failsWith (.overflow Int64.minValue .mod (-1)) rfl

end LetTree

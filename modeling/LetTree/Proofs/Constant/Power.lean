import Mathlib.Algebra.Order.Ring.Int
import Mathlib.Algebra.Ring.Parity
import Mathlib.Tactic.Linarith
import Mathlib.Tactic.Ring
import LetTree.Proofs.Constant.Exactness

/-!
# Powers

A power is found by repeated squaring on 64-bit integers, and every product on the way has to fit.
This loses no result: if a power is in range, so are all products that lead to it. Two facts are
behind it. A partial product only grows in size without changing its sign, as what is still missing
is a power of a square. And a square that is a factor of an integer in range is in range itself,
because the size of the least integer, 2 ^ 63, is not a square.
-/

namespace LetTree

/-! ### Factors of integers in range -/

theorem inRange_zero : InRange 0 := by
  unfold InRange
  decide

theorem InRange.of_mul_pos {n k : Int} (h : InRange (n * k)) (hk : 1 ≤ k) : InRange n := by
  obtain ⟨hmin, hmax⟩ := h
  unfold InRange
  constructor
  · nlinarith
  · nlinarith

/-- A square that is a factor of an integer in range is in range. -/
theorem InRange.square_of_mul {m b : Int} (h : InRange (m * (b * b))) (hm : m ≠ 0) :
    InRange (b * b) := by
  have hsquare : 0 ≤ b * b := mul_self_nonneg b
  have hle : b * b ≤ 2 ^ 63 := by
    obtain ⟨hmin, hmax⟩ := h
    rcases Int.lt_or_gt_of_ne hm with hneg | hpos
    · nlinarith
    · nlinarith
  -- The largest square up to 2 ^ 63 is smaller than 2 ^ 63.
  have hroot : -3037000499 ≤ b ∧ b ≤ 3037000499 := by
    constructor
    · by_contra hlt
      nlinarith
    · by_contra hlt
      nlinarith
  unfold InRange
  constructor
  · linarith
  · nlinarith

/-- Beyond the 63rd, the powers of a base other than 0, 1 and -1 are out of range. -/
theorem not_inRange_pow {b : Int} (hb : 2 ≤ b.natAbs) {n : Nat} (hn : 64 ≤ n) :
    ¬ InRange (b ^ n) := by
  have hlarge : 2 ^ 64 ≤ (b ^ n).natAbs := by
    rw [Int.natAbs_pow]
    calc 2 ^ 64 ≤ 2 ^ n := Nat.pow_le_pow_right (by decide) hn
      _ ≤ b.natAbs ^ n := Nat.pow_le_pow_left hb n
  unfold InRange
  omega

namespace Operator

variable {e : ArithmeticError}

/-! ### Repeated squaring -/

theorem checked_toInt (i : Int64) (e : ArithmeticError) : checked i.toInt e = .ok i := by
  obtain ⟨j, hj, hint⟩ := checked_of_inRange (inRange_toInt i) e
  rw [hj, Int64.toInt_inj.mp hint]

/-- A check can be left out if a later check that fails in the same way fails where it does. -/
theorem checked_bind {m n : Int} {f : Int64 → Except ArithmeticError Int64}
    (hrange : InRange n → InRange m) (hf : ∀ i : Int64, i.toInt = m → f i = checked n e) :
    (checked m e >>= f) = checked n e := by
  by_cases hm : InRange m
  · obtain ⟨i, hi, hint⟩ := checked_of_inRange hm e
    rw [hi]
    exact hf i hint
  · rw [checked_of_not_inRange hm, checked_of_not_inRange fun hn => hm (hrange hn)]
    rfl

/-- What a round multiplies into the result, and what it leaves to the next one. -/
theorem round_pow (base : Int) (n : Nat) :
    base ^ n = base ^ (n % 2) * (base * base) ^ (n / 2) := by
  rw [← pow_two, ← pow_mul, ← pow_add, Nat.mod_add_div]

/-- The square of the base is in range if there is a round that uses it. -/
theorem inRange_square {acc base : Int} (hzero : acc = 0 → base = 0) {n : Nat} (hn : 2 ≤ n)
    (h : InRange (acc * base ^ n)) : InRange (base * base) := by
  by_cases hbase : base = 0
  · rw [hbase]
    exact inRange_zero
  · have hsplit : acc * base ^ n = acc * base ^ (n - 2) * (base * base) := by
      obtain ⟨k, rfl⟩ := Nat.exists_eq_add_of_le hn
      rw [Nat.add_sub_cancel_left]
      ring
    rw [hsplit] at h
    exact h.square_of_mul (mul_ne_zero (fun hacc => hbase (hzero hacc)) (pow_ne_zero _ hbase))

/-- The product of an odd round is in range. -/
theorem inRange_product {acc base : Int} {n : Nat} (hodd : n % 2 = 1)
    (h : InRange (acc * base ^ n)) : InRange (acc * base) := by
  by_cases hbase : base = 0
  · rw [hbase, mul_zero]
    exact inRange_zero
  · rw [round_pow, hodd, pow_one, ← mul_assoc] at h
    have hsquare : 0 < base * base := mul_self_pos.mpr hbase
    exact h.of_mul_pos (one_le_pow₀ hsquare)

theorem powerFrom_zero (acc base : Int64) : powerFrom e acc base 0 = .ok acc := by
  rw [powerFrom, if_pos rfl]

theorem powerFrom_one (acc base : Int64) :
    powerFrom e acc base 1 = checked (acc.toInt * base.toInt) e := by
  rw [powerFrom]
  cases checked (acc.toInt * base.toInt) e <;> rfl

theorem powerFrom_even (acc base : Int64) {n : Nat} (hn : 2 ≤ n) (heven : n % 2 = 0) :
    powerFrom e acc base n =
      (checked (base.toInt * base.toInt) e >>= fun square => powerFrom e acc square (n / 2)) := by
  rw [powerFrom, if_neg (by omega), if_neg (by omega)]
  simp only [if_neg (show n ≠ 1 by omega)]
  rfl

theorem powerFrom_odd (acc base : Int64) {n : Nat} (hn : 2 ≤ n) (hodd : n % 2 = 1) :
    powerFrom e acc base n =
      (checked (acc.toInt * base.toInt) e >>= fun acc =>
        checked (base.toInt * base.toInt) e >>= fun square => powerFrom e acc square (n / 2)) := by
  rw [powerFrom, if_neg (by omega), if_pos hodd]
  simp only [if_neg (show n ≠ 1 by omega)]

/-- Repeated squaring is a single check of the exact product. The invariant is that the result so
    far is not zero unless the base is: with a result of zero, a square that is too large would be
    reported although the product is in range. -/
theorem powerFrom_eq_checked (n : Nat) : ∀ acc base : Int64, (acc.toInt = 0 → base.toInt = 0) →
    powerFrom e acc base n = checked (acc.toInt * base.toInt ^ n) e := by
  induction n using Nat.strongRecOn with
  | _ n ih =>
    intro acc base hzero
    rcases (by omega : n = 0 ∨ n = 1 ∨ 2 ≤ n) with rfl | rfl | hn
    · rw [powerFrom_zero, pow_zero, mul_one, checked_toInt]
    · rw [powerFrom_one, pow_one]
    · have hhalf : n / 2 < n := by omega
      rcases Nat.mod_two_eq_zero_or_one n with heven | hodd
      · rw [powerFrom_even acc base hn heven]
        refine checked_bind (inRange_square hzero hn) fun square hsquare => ?_
        rw [ih _ hhalf, hsquare, round_pow base.toInt n, heven, pow_zero, one_mul]
        rw [hsquare]
        exact fun hacc => mul_eq_zero_of_left (hzero hacc) _
      · rw [powerFrom_odd acc base hn hodd]
        refine checked_bind (inRange_product hodd) fun product hproduct => ?_
        refine checked_bind (inRange_square hzero hn) fun square hsquare => ?_
        rw [ih _ hhalf, hproduct, hsquare, round_pow base.toInt n, hodd, pow_one, mul_assoc]
        rw [hproduct, hsquare]
        intro hnull
        rcases mul_eq_zero.mp hnull with hacc | hbase
        · exact mul_eq_zero_of_left (hzero hacc) _
        · exact mul_eq_zero_of_left hbase _

/-! ### Both ranges of exponents -/

/-- The bases that have a power in range at every exponent, and their powers. -/
theorem exponentiate_of_large (base exponent : Int64) (h : 2 ^ 32 ≤ exponent.toInt) :
    exponentiate base exponent =
      checked (base.toInt ^ exponent.toInt.toNat) (.overflow base power exponent) := by
  have hpos : exponent.toInt.toNat ≠ 0 := by omega
  rw [exponentiate, if_neg (by omega), if_neg (by omega)]
  by_cases hzero : base = 0
  · rw [hzero, Int64.toInt_zero, zero_pow hpos]
    rfl
  by_cases hone : base = 1
  · rw [hone, Int64.toInt_one, one_pow]
    rfl
  by_cases hneg : base = -1
  · rw [hneg, if_neg (by decide), if_pos rfl, show (-1 : Int64).toInt = -1 from rfl]
    rcases Int.emod_two_eq_zero_or_one exponent.toInt with heven | hodd
    · rw [if_pos heven, Even.neg_one_pow (Nat.even_iff.mpr (by omega))]
      rfl
    · rw [if_neg (by omega), Odd.neg_one_pow (Nat.odd_iff.mpr (by omega))]
      rfl
  · have hbase : 2 ≤ base.toInt.natAbs := by
      have h0 : base.toInt ≠ 0 := fun h => hzero (Int64.toInt_inj.mp h)
      have h1 : base.toInt ≠ 1 := fun h => hone (Int64.toInt_inj.mp h)
      have h2 : base.toInt ≠ -1 := fun h => hneg (Int64.toInt_inj.mp h)
      omega
    rw [checked_of_not_inRange (not_inRange_pow hbase (by omega))]
    simp [hzero, hone, hneg]

theorem exponentiate_eq_checked (base exponent : Int64) (h : 0 ≤ exponent.toInt) :
    exponentiate base exponent =
      checked (base.toInt ^ exponent.toInt.toNat) (.overflow base power exponent) := by
  by_cases hlarge : 2 ^ 32 ≤ exponent.toInt
  · exact exponentiate_of_large base exponent hlarge
  · rw [exponentiate, if_neg (by omega), if_pos (by omega),
      powerFrom_eq_checked _ _ _ fun hone => absurd hone (by decide), Int64.toInt_one, one_mul]

theorem power_of_nonneg {b e : Int64} (h : 0 ≤ e.toInt) :
    power.ExactOrOverflow b e (b.toInt ^ e.toInt.toNat) := by
  apply exactOrOverflow_of_checked
  rw [apply, exponentiate_eq_checked b e h]

theorem power_of_neg {b e : Int64} (h : e.toInt < 0) :
    power.FailsWith b e (.negativeExponent e) := by
  rw [FailsWith, apply, exponentiate, if_pos h]
  rfl

end Operator

/-- **Powers are exact.**  At every base and exponent there is one of three outcomes: the exponent
    is negative, which is reported as such; or the exact power is in range and is the value; or it
    is out of range and there is an overflow. -/
theorem power_exact (b e : Int64) :
    (Operator.power.FailsWith b e (.negativeExponent e) ↔ e.toInt < 0) ∧
    (∀ n, Operator.power.Gives b e n ↔
      0 ≤ e.toInt ∧ InRange n ∧ n = b.toInt ^ e.toInt.toNat) ∧
    (Operator.power.FailsWith b e (.overflow b .power e) ↔
      0 ≤ e.toInt ∧ ¬ InRange (b.toInt ^ e.toInt.toNat)) := by
  rcases Int.lt_or_le e.toInt 0 with hneg | hpos
  · have hfails := Operator.power_of_neg (b := b) hneg
    refine ⟨iff_of_true hfails hneg, fun n => ?_, ?_⟩
    · exact iff_of_false (fun hgives => hgives.not_failsWith _ hfails) (by omega)
    · exact iff_of_false (fun hoverflow => nomatch hfails.unique hoverflow) (by omega)
  · have hexact := Operator.power_of_nonneg (b := b) hpos
    refine ⟨?_, fun n => ?_, ?_⟩
    · rw [hexact.failsWith_iff]
      exact iff_of_false (fun h => nomatch h.2) (by omega)
    · rw [hexact.gives_iff]
      exact (and_iff_right hpos).symm
    · rw [hexact.failsWith_iff]
      exact and_comm.trans (and_congr_left fun _ => iff_of_true rfl hpos)

/-- Results at the end of the range, and an exponent above 2 ^ 32. -/
example :
    (Operator.power.apply (-2) 63).toOption = some Int64.minValue ∧
      (Operator.power.apply (-8) 21).toOption = some Int64.minValue ∧
      (Operator.power.apply (-1) 4294967297).toOption = some (-1) := by
  decide +kernel

end LetTree

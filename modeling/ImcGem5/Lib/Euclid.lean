import Mathlib.Data.Int.ModEq
import Mathlib.Tactic.Ring
import Mathlib.Tactic.LinearCombination

/-! The extended Euclid loop in the form that keeps one pair of coefficients. The remainders
are multiples of the number modulo the modulus, and the coefficients alternate in sign and
grow against the remainders, so that none is larger than the modulus. -/

namespace ImcGem5.Lib.Euclid

variable {a n valA valB : Nat} {x0 x1 : Int}

structure Bezout (a n valA valB : Nat) (x0 x1 : Int) : Prop where
  first : (valA : Int) ≡ a * x1 [ZMOD n]
  second : (valB : Int) ≡ a * x0 [ZMOD n]
  size : valA * x0.natAbs + valB * x1.natAbs = n
  signs : 0 ≤ x0 ∧ x1 ≤ 0 ∨ x0 ≤ 0 ∧ 0 ≤ x1

theorem bezout_initial (a n : Nat) : Bezout a n a n 0 1 where
  first := by rw [mul_one]
  second := by
    rw [mul_zero]
    exact Int.modEq_zero_iff_dvd.mpr (dvd_refl _)
  size := by simp
  signs := .inr ⟨le_refl _, by decide⟩

theorem natAbs_sub_mul (signs : 0 ≤ x0 ∧ x1 ≤ 0 ∨ x0 ≤ 0 ∧ 0 ≤ x1) (q : Nat) : (x1 - q * x0).natAbs = x1.natAbs + q * x0.natAbs := by
  have product : ((q : Int) * x0).natAbs = q * x0.natAbs := by rw [Int.natAbs_mul, Int.natAbs_natCast]
  obtain ⟨up, down⟩ | ⟨down, up⟩ := signs
  · have positive : 0 ≤ (q : Int) * x0 := mul_nonneg (Int.natCast_nonneg q) up
    omega
  · have negative : (q : Int) * x0 ≤ 0 := mul_nonpos_of_nonneg_of_nonpos (Int.natCast_nonneg q) down
    omega

section

variable (bezout : Bezout a n valA valB x0 x1)
include bezout

theorem Bezout.step :
    Bezout a n valB (valA % valB) (x1 - (valA / valB : Nat) * x0) x0 where
  first := bezout.second
  second := by
    have division : ((valA % valB : Nat) : Int) = valA - (valA / valB : Nat) * valB := by
      have whole := Nat.div_add_mod' valA valB
      omega
    rw [division, show (a : Int) * (x1 - (valA / valB : Nat) * x0) = a * x1 - (valA / valB : Nat) * (a * x0) by ring]
    exact bezout.first.sub (bezout.second.mul_left _)
  size := by
    rw [natAbs_sub_mul bezout.signs]
    have division := Nat.div_add_mod' valA valB
    have size := bezout.size
    calc valB * (x1.natAbs + valA / valB * x0.natAbs) + valA % valB * x0.natAbs
        = (valA / valB * valB + valA % valB) * x0.natAbs + valB * x1.natAbs := by ring
      _ = n := by rw [division, size]
  signs := by
    obtain ⟨up, down⟩ | ⟨down, up⟩ := bezout.signs
    · refine .inr ⟨?_, up⟩
      have positive : 0 ≤ ((valA / valB : Nat) : Int) * x0 := mul_nonneg (Int.natCast_nonneg _) up
      omega
    · refine .inl ⟨?_, down⟩
      have negative : ((valA / valB : Nat) : Int) * x0 ≤ 0 := mul_nonpos_of_nonneg_of_nonpos (Int.natCast_nonneg _) down
      omega

theorem Bezout.natAbs_le (positive : 0 < valA) : x0.natAbs ≤ n := by
  have size := bezout.size
  have least : x0.natAbs ≤ valA * x0.natAbs := Nat.le_mul_of_pos_left _ positive
  omega

theorem Bezout.two_mul_natAbs_le (more : 1 < valA) : 2 * x0.natAbs ≤ n := by
  have size := bezout.size
  have least : 2 * x0.natAbs ≤ valA * x0.natAbs := Nat.mul_le_mul_right _ more
  omega

end

end ImcGem5.Lib.Euclid

import ImcGem5.Riscv.Alu
import Mathlib.Tactic.Ring

/-! The high halves of products are exact. The carry into the high half is that of the two
middle products and the upper part of the low one, and the magnitude of a negative product
is turned around with a correction if nothing is left in the low half. -/

namespace ImcGem5.Riscv.Proofs.Multiply
open BitVec Int

theorem lowHalf_toNat (value : RegVal) : (lowHalf value).toNat = value.toNat % 2 ^ 32 := by
  unfold lowHalf
  rw [toNat_setWidth, toNat_setWidth]
  omega

theorem highHalf_toNat (value : RegVal) : (value >>> 32).toNat = value.toNat / 2 ^ 32 := by
  rw [toNat_ushiftRight, Nat.shiftRight_eq_div_pow]

theorem half_mul_le {first second : Nat} (one : first < 2 ^ 32) (two : second < 2 ^ 32) :
    first * second ≤ (2 ^ 32 - 1) * (2 ^ 32 - 1) :=
  Nat.mul_le_mul (by omega) (by omega)

theorem mul_toNat {first second : RegVal} (one : first.toNat < 2 ^ 32) (two : second.toNat < 2 ^ 32) :
    (first * second).toNat = first.toNat * second.toNat := by
  have bound := half_mul_le one two
  rw [BitVec.toNat_mul]
  omega

theorem mul_split (rs1 rs2 : Nat) : rs1 * rs2 = rs1 / 2 ^ 32 * (rs2 / 2 ^ 32) * 2 ^ 64 +
    (rs1 / 2 ^ 32 * (rs2 % 2 ^ 32) + rs1 % 2 ^ 32 * (rs2 / 2 ^ 32)) * 2 ^ 32 + rs1 % 2 ^ 32 * (rs2 % 2 ^ 32) := by
  conv_lhs => rw [← Nat.div_add_mod rs1 (2 ^ 32), ← Nat.div_add_mod rs2 (2 ^ 32)]
  ring

theorem mulhu_64_toNat (rs1 rs2 : RegVal) : (mulhu_64 rs1 rs2).toNat = rs1.toNat * rs2.toNat / 2 ^ 64 := by
  have lo1 := lowHalf_toNat rs1
  have lo2 := lowHalf_toNat rs2
  have hi1 := highHalf_toNat rs1
  have hi2 := highHalf_toNat rs2
  have split := mul_split rs1.toNat rs2.toNat
  rw [← lo1, ← lo2, ← hi1, ← hi2] at split
  have boundLo1 : (lowHalf rs1).toNat < 2 ^ 32 := by omega
  have boundLo2 : (lowHalf rs2).toNat < 2 ^ 32 := by omega
  have boundHi1 : (rs1 >>> 32).toNat < 2 ^ 32 := by omega
  have boundHi2 : (rs2 >>> 32).toNat < 2 ^ 32 := by omega
  have hi := mul_toNat boundHi1 boundHi2
  have mid1 := mul_toNat boundHi1 boundLo2
  have mid2 := mul_toNat boundLo1 boundHi2
  have lo := mul_toNat boundLo1 boundLo2
  have boundHi := half_mul_le boundHi1 boundHi2
  have boundMid1 := half_mul_le boundHi1 boundLo2
  rw [← hi, ← mid1, ← mid2, ← lo] at split
  rw [split]
  unfold mulhu_64
  simp only [BitVec.toNat_add, highHalf_toNat, lowHalf_toNat]
  omega

theorem slt_zero (value : RegVal) : value.slt 0 = decide (value.toInt < 0) := rfl

theorem abs64_toNat (value : RegVal) : (abs64 value).toNat = value.toInt.natAbs := by
  have cond := toInt_eq_toNat_cond value
  unfold abs64
  rw [slt_zero]
  by_cases negative : value.toInt < 0
  · rw [if_pos (decide_eq_true negative), toNat_neg]
    split at cond <;> omega
  · rw [if_neg (by rw [decide_eq_false negative]; exact Bool.false_ne_true)]
    split at cond <;> omega

theorem natAbs_le (value : RegVal) : value.toInt.natAbs ≤ 2 ^ 63 := by
  have cond := toInt_eq_toNat_cond value
  split at cond <;> omega

theorem mul_low (rs1 rs2 : RegVal) : ((rs1 * rs2).toNat : Int) = rs1.toInt * rs2.toInt % 2 ^ 64 := by
  have same : rs1 * rs2 = BitVec.ofInt 64 (rs1.toInt * rs2.toInt) := by
    rw [ofInt_mul, ofInt_toInt, ofInt_toInt]
  rw [same, toNat_ofInt]
  exact toNat_of_nonneg (emod_nonneg _ (by decide))

theorem mul_low_unsigned (rs1 rs2 : RegVal) : ((rs1 * rs2).toNat : Int) = rs1.toInt * rs2.toNat % 2 ^ 64 := by
  have same : rs1 * rs2 = BitVec.ofInt 64 (rs1.toInt * rs2.toNat) := by
    rw [ofInt_mul, ofInt_toInt, ofInt_natCast, BitVec.ofNat_toNat, setWidth_eq]
  rw [same, toNat_ofInt]
  exact toNat_of_nonneg (emod_nonneg _ (by decide))

section
variable {rs1 rs2 res : RegVal} {magnitude : Nat} {product : Int}

theorem signHigh_true (high : res.toNat = magnitude / 2 ^ 64) (bound : magnitude < 2 ^ 127) (negative : product = -magnitude)
    (low : ((rs1 * rs2).toNat : Int) = product % 2 ^ 64) : (signHigh true rs1 rs2 res).toInt = product / 2 ^ 64 := by
  have turned : (~~~res).toNat = 2 ^ 64 - 1 - magnitude / 2 ^ 64 := by rw [toNat_not, high]
  unfold signHigh
  rw [if_pos rfl, toInt_eq_toNat_cond, BitVec.toNat_add, turned]
  by_cases zero : rs1 * rs2 = 0
  · have one : (1 : RegVal).toNat = 1 := rfl
    have none : ((rs1 * rs2).toNat : Int) = 0 := by rw [zero]; rfl
    rw [if_pos zero, one]
    split <;> omega
  · have one : (0 : RegVal).toNat = 0 := rfl
    have some : (rs1 * rs2).toNat ≠ 0 := fun none => zero (eq_of_toNat_eq none)
    rw [if_neg zero, one]
    split <;> omega

theorem signHigh_false (high : res.toNat = magnitude / 2 ^ 64) (bound : magnitude < 2 ^ 127) (positive : product = magnitude) :
    (signHigh false rs1 rs2 res).toInt = product / 2 ^ 64 := by
  unfold signHigh
  rw [if_neg Bool.false_ne_true, toInt_eq_toNat_cond, high, positive]
  split <;> omega

end

theorem mulh_64_toInt (rs1 rs2 : RegVal) : (mulh_64 rs1 rs2).toInt = rs1.toInt * rs2.toInt / 2 ^ 64 := by
  have high := mulhu_64_toNat (abs64 rs1) (abs64 rs2)
  rw [abs64_toNat, abs64_toNat, ← natAbs_mul] at high
  have bound : (rs1.toInt * rs2.toInt).natAbs < 2 ^ 127 := by
    have le := Nat.mul_le_mul (natAbs_le rs1) (natAbs_le rs2)
    rw [← natAbs_mul] at le
    omega
  unfold mulh_64
  rw [slt_zero, slt_zero]
  by_cases negative1 : rs1.toInt < 0
  · by_cases negative2 : rs2.toInt < 0
    · rw [decide_eq_true negative1, decide_eq_true negative2]
      have positive := Int.mul_nonneg_of_nonpos_of_nonpos negative1.le negative2.le
      exact signHigh_false high bound (natAbs_of_nonneg positive).symm
    · rw [decide_eq_true negative1, decide_eq_false negative2]
      have negative := Int.mul_nonpos_of_nonpos_of_nonneg negative1.le (not_lt.mp negative2)
      exact signHigh_true high bound (by omega) (mul_low rs1 rs2)
  · by_cases negative2 : rs2.toInt < 0
    · rw [decide_eq_false negative1, decide_eq_true negative2]
      have negative := Int.mul_nonpos_of_nonneg_of_nonpos (not_lt.mp negative1) negative2.le
      exact signHigh_true high bound (by omega) (mul_low rs1 rs2)
    · rw [decide_eq_false negative1, decide_eq_false negative2]
      have positive := Int.mul_nonneg (not_lt.mp negative1) (not_lt.mp negative2)
      exact signHigh_false high bound (natAbs_of_nonneg positive).symm

theorem mulhsu_64_toInt (rs1 rs2 : RegVal) : (mulhsu_64 rs1 rs2).toInt = rs1.toInt * rs2.toNat / 2 ^ 64 := by
  have high := mulhu_64_toNat (abs64 rs1) rs2
  have same : rs1.toInt.natAbs * rs2.toNat = (rs1.toInt * rs2.toNat).natAbs := by rw [natAbs_mul, natAbs_natCast]
  rw [abs64_toNat, same] at high
  have bound : (rs1.toInt * rs2.toNat).natAbs < 2 ^ 127 := by
    have le := Nat.mul_le_mul (natAbs_le rs1) (by omega : rs2.toNat ≤ 2 ^ 64 - 1)
    omega
  unfold mulhsu_64
  rw [slt_zero]
  by_cases negative : rs1.toInt < 0
  · rw [decide_eq_true negative]
    have below := Int.mul_nonpos_of_nonpos_of_nonneg negative.le (natCast_nonneg rs2.toNat)
    exact signHigh_true high bound (by omega) (mul_low_unsigned rs1 rs2)
  · rw [decide_eq_false negative]
    have above := Int.mul_nonneg (not_lt.mp negative) (natCast_nonneg rs2.toNat)
    exact signHigh_false high bound (natAbs_of_nonneg above).symm

/-- Each high half is the product without its low 64 bits, and the two halves are the product. -/
theorem high_halves_exact (rs1 rs2 : RegVal) :
    ((mulhu_64 rs1 rs2).toNat = rs1.toNat * rs2.toNat / 2 ^ 64 ∧
      rs1.toNat * rs2.toNat = (mulhu_64 rs1 rs2).toNat * 2 ^ 64 + (rs1 * rs2).toNat) ∧
    ((mulh_64 rs1 rs2).toInt = rs1.toInt * rs2.toInt / 2 ^ 64 ∧
      rs1.toInt * rs2.toInt = (mulh_64 rs1 rs2).toInt * 2 ^ 64 + (rs1 * rs2).toNat) ∧
    ((mulhsu_64 rs1 rs2).toInt = rs1.toInt * rs2.toNat / 2 ^ 64 ∧
      rs1.toInt * rs2.toNat = (mulhsu_64 rs1 rs2).toInt * 2 ^ 64 + (rs1 * rs2).toNat) := by
  refine ⟨⟨mulhu_64_toNat rs1 rs2, ?_⟩, ⟨mulh_64_toInt rs1 rs2, ?_⟩, ⟨mulhsu_64_toInt rs1 rs2, ?_⟩⟩
  · rw [mulhu_64_toNat, BitVec.toNat_mul]
    exact (Nat.div_add_mod' _ _).symm
  · rw [mulh_64_toInt, mul_low]
    exact (ediv_mul_add_emod _ _).symm
  · rw [mulhsu_64_toInt, mul_low_unsigned]
    exact (ediv_mul_add_emod _ _).symm

end ImcGem5.Riscv.Proofs.Multiply

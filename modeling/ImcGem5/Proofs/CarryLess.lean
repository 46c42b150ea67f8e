import ImcGem5.Lib.CarryLess
import ImcGem5.Riscv.Alu

/-! The three products without carries are windows of one product of polynomials: each loop
collects, for every bit of its result, the terms of one coefficient. -/

namespace ImcGem5.Riscv.Proofs.CarryLess
open Lib.CarryLess List

variable {rvType : RiscvType} {index : Nat}

theorem xlen_le (rvType : RiscvType) : xlen rvType ≤ 64 := by cases rvType <;> decide

theorem xlen_pos (rvType : RiscvType) : 0 < xlen rvType := by cases rvType <;> decide

def operand (rvType : RiscvType) (value : RegVal) : BitVec (xlen rvType) := value.setWidth (xlen rvType)

theorem getLsbD_operand (value : RegVal) (bound : index < xlen rvType) : (operand rvType value).getLsbD index = value.getLsbD index := by
  rw [operand, BitVec.getLsbD_setWidth, decide_eq_true bound, Bool.true_and]

theorem getLsbD_rvZext (value : RegVal) (index : Nat) : (rvZext rvType value).getLsbD index = (operand rvType value).getLsbD index := by
  cases rvType with
  | rv64 =>
    rw [operand]
    simp [rvZext, xlen]
  | rv32 =>
    simp only [rvZext, operand, xlen, BitVec.getLsbD_setWidth]
    by_cases bound : index < 32
    · rw [decide_eq_true (bound.trans (by decide) : index < 64), Bool.true_and]
    · rw [decide_eq_false bound, Bool.false_and, Bool.and_false]

theorem rvSext_eq (value : RegVal) : rvSext rvType value = (operand rvType value).signExtend 64 := by
  cases rvType with
  | rv64 =>
    rw [operand]
    simp [rvSext, xlen]
  | rv32 => rfl

theorem testBit_eq (value : RegVal) (i : Nat) : ((value >>> i) &&& 1 ≠ 0) = (value.getLsbD i = true) := by
  apply propext
  constructor
  · intro some
    by_contra none
    apply some
    apply BitVec.eq_of_getLsbD_eq
    intro index _
    have one : (1 : RegVal).getLsbD index = decide (index = 0) := by
      have same : (1 : RegVal) = 1#64 <<< 0 := rfl
      rw [same]
      simp
    rw [BitVec.getLsbD_and, BitVec.getLsbD_ushiftRight, one]
    by_cases zero : index = 0
    · subst zero
      simpa using none
    · simp [zero]
  · intro set none
    have bit := congrArg (fun word : RegVal => word.getLsbD 0) none
    simp [set] at bit

theorem clmulLoop_bit (rs2 : RegVal) (term : Nat → RegVal) (first count index : Nat) :
    coefficient ((clmulLoop rs2 term first count).getLsbD index) =
      ((range' first count).map fun i => coefficient (rs2.getLsbD i) * coefficient ((term i).getLsbD index)).sum := by
  unfold clmulLoop
  simp only [testBit_eq]
  rw [coefficient_foldl rs2.getLsbD]
  have zero : coefficient ((0 : RegVal).getLsbD index) = 0 := by
    change coefficient ((0#64).getLsbD index) = 0
    rw [BitVec.getLsbD_zero]
    rfl
  rw [zero, zero_add]

noncomputable def product (rvType : RiscvType) (rs1 rs2 : RegVal) : Polynomial (ZMod 2) :=
  poly (operand rvType rs1) * poly (operand rvType rs2)

theorem coeff_product (rs1 rs2 : RegVal) (index : Nat) : (product rvType rs1 rs2).coeff index =
    ((range' 0 (xlen rvType)).map fun i => coefficient (rs2.getLsbD i) *
      coefficient (decide (i ≤ index) && (operand rvType rs1).getLsbD (index - i))).sum := by
  rw [product, coeff_mul, sum_range]
  apply Finset.sum_congr rfl
  intro i inside
  rw [getLsbD_operand rs2 (Finset.mem_range.mp inside)]

theorem clmulLoop_eq {rs1 rs2 : RegVal} {term : Nat → RegVal} {start : Nat} (terms : ∀ i < xlen rvType, (term i).getLsbD index =
      (decide (i ≤ start + index) && (operand rvType rs1).getLsbD (start + index - i))) :
    coefficient ((clmulLoop rs2 term 0 (xlen rvType)).getLsbD index) = (product rvType rs1 rs2).coeff (start + index) := by
  rw [clmulLoop_bit, coeff_product]
  congr 1
  apply map_congr_left
  intro i member
  have bound : i < xlen rvType := by
    rw [mem_range'_1] at member
    omega
  rw [terms i bound]

section

variable (rs1 rs2 : RegVal)
include rs1 rs2

theorem low_bits (bound : index < xlen rvType) :
    coefficient ((clmulLoop rs2 (fun i => rs1 <<< i) 0 (xlen rvType)).getLsbD index) = (product rvType rs1 rs2).coeff (0 + index) := by
  apply clmulLoop_eq
  intro i _
  have small := bound.trans_le (xlen_le rvType)
  rw [Nat.zero_add, getLsbD_operand rs1 (by omega), BitVec.getLsbD_shiftLeft, decide_eq_true small, Bool.true_and]
  congr 1
  rw [← decide_not]
  exact decide_eq_decide.mpr not_lt

theorem reversed_bits (index : Nat) :
    coefficient ((clmulLoop rs2 (fun i => rvZext rvType rs1 >>> (xlen rvType - i - 1)) 0 (xlen rvType)).getLsbD index) =
      (product rvType rs1 rs2).coeff (xlen rvType - 1 + index) := by
  apply clmulLoop_eq
  intro i bound
  rw [decide_eq_true (by omega), Bool.true_and, BitVec.getLsbD_ushiftRight, getLsbD_rvZext]
  congr 1
  omega

theorem high_bits (index : Nat) : coefficient ((clmulh rvType rs1 rs2).getLsbD index) =
    (product rvType rs1 rs2).coeff (xlen rvType + index) := by
  have count : xlen rvType = (xlen rvType - 1) + 1 := (Nat.sub_add_cancel (xlen_pos rvType)).symm
  have whole : coefficient ((clmulLoop rs2 (fun i => rvZext rvType rs1 >>> (xlen rvType - i)) 0 (xlen rvType)).getLsbD index) =
      (product rvType rs1 rs2).coeff (xlen rvType + index) := by
    apply clmulLoop_eq
    intro i bound
    rw [decide_eq_true (by omega), Bool.true_and, BitVec.getLsbD_ushiftRight, getLsbD_rvZext]
    congr 1
    omega
  have none : coefficient ((rvZext rvType rs1 >>> (xlen rvType - 0)).getLsbD index) = 0 := by
    rw [BitVec.getLsbD_ushiftRight, getLsbD_rvZext, BitVec.getLsbD_of_ge _ _ (by omega)]
    rfl
  rw [← whole, clmulLoop_bit, clmulh, clmulLoop_bit]
  conv_rhs => rw [count, range'_succ, map_cons, sum_cons, ← count]
  rw [none, mul_zero, zero_add]

theorem high_zero (top : xlen rvType - 1 ≤ index) : (clmulh rvType rs1 rs2).getLsbD index = false := by
  apply coefficient_inj
  rw [high_bits, coeff_product]
  apply sum_eq_zero
  intro value member
  obtain ⟨i, inside, rfl⟩ := List.mem_map.mp member
  have bound : i < xlen rvType := by
    rw [mem_range'_1] at inside
    omega
  rw [BitVec.getLsbD_of_ge (operand rvType rs1) _ (by omega), Bool.and_false]
  exact mul_zero _

theorem clmul_eq : clmul rvType rs1 rs2 = (bitsOf (product rvType rs1 rs2) 0 (xlen rvType)).signExtend 64 := by
  rw [clmul, rvSext_eq]
  congr 1
  apply eq_bitsOf
  intro index bound
  rw [getLsbD_operand _ bound, low_bits rs1 rs2 bound]

theorem clmulr_eq : clmulr rvType rs1 rs2 = (bitsOf (product rvType rs1 rs2) (xlen rvType - 1) (xlen rvType)).signExtend 64 := by
  rw [clmulr, rvSext_eq]
  congr 1
  apply eq_bitsOf
  intro index bound
  rw [getLsbD_operand _ bound, reversed_bits]

theorem clmulh_eq : clmulh rvType rs1 rs2 = (bitsOf (product rvType rs1 rs2) (xlen rvType) (xlen rvType)).signExtend 64 := by
  have positive := xlen_pos rvType
  have word : operand rvType (clmulh rvType rs1 rs2) = bitsOf (product rvType rs1 rs2) (xlen rvType) (xlen rvType) := by
    apply eq_bitsOf
    intro index bound
    rw [getLsbD_operand _ bound, high_bits]
  have sign : (operand rvType (clmulh rvType rs1 rs2)).msb = false := by
    rw [BitVec.msb_eq_getLsbD_last, getLsbD_operand _ (by omega)]
    exact high_zero rs1 rs2 le_rfl
  rw [← word]
  apply BitVec.eq_of_getLsbD_eq
  intro index bound
  rw [BitVec.getLsbD_signExtend, decide_eq_true bound, Bool.true_and]
  by_cases inside : index < xlen rvType
  · rw [if_pos inside, getLsbD_operand _ inside]
  · rw [if_neg inside, sign]
    exact high_zero rs1 rs2 (by omega)

end

theorem operand_signExtend (word : BitVec (xlen rvType)) : operand rvType (word.signExtend 64) = word := by
  apply BitVec.eq_of_getLsbD_eq
  intro index bound
  rw [getLsbD_operand _ bound, BitVec.getLsbD_signExtend, if_pos bound, decide_eq_true (bound.trans_le (xlen_le rvType)), Bool.true_and]

/-- The parts of one product of polynomials, each in a register. -/
theorem carryless_products (rvType : RiscvType) (rs1 rs2 : RegVal) :
    clmul rvType rs1 rs2 = (bitsOf (product rvType rs1 rs2) 0 (xlen rvType)).signExtend 64 ∧
    clmulh rvType rs1 rs2 = (bitsOf (product rvType rs1 rs2) (xlen rvType) (xlen rvType)).signExtend 64 ∧
    clmulr rvType rs1 rs2 = (bitsOf (product rvType rs1 rs2) (xlen rvType - 1) (xlen rvType)).signExtend 64 ∧
    operand rvType (clmulr rvType rs1 rs2) =
      (operand rvType (clmulh rvType rs1 rs2) <<< 1) ||| (operand rvType (clmul rvType rs1 rs2) >>> (xlen rvType - 1)) ∧
    clmul rvType rs1 rs2 = clmul rvType rs2 rs1 ∧ clmulh rvType rs1 rs2 = clmulh rvType rs2 rs1 ∧
      clmulr rvType rs1 rs2 = clmulr rvType rs2 rs1 := by
  have commutes : product rvType rs1 rs2 = product rvType rs2 rs1 := mul_comm _ _
  have positive := xlen_pos rvType
  refine ⟨clmul_eq rs1 rs2, clmulh_eq rs1 rs2, clmulr_eq rs1 rs2, ?_, ?_, ?_, ?_⟩
  · rw [clmulr_eq, clmulh_eq, clmul_eq, operand_signExtend, operand_signExtend, operand_signExtend]
    exact window_shift _ positive
  · rw [clmul_eq, clmul_eq, commutes]
  · rw [clmulh_eq, clmulh_eq, commutes]
  · rw [clmulr_eq, clmulr_eq, commutes]

end ImcGem5.Riscv.Proofs.CarryLess

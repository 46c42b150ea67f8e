import Mathlib.Algebra.Polynomial.Coeff
import Mathlib.Data.List.GetD
import Mathlib.Algebra.Field.ZMod

/-! Words as polynomials over the field of two elements. A sum of polynomials is an exclusive
or of words, so a loop that collects shifted words collects the terms of a product. -/

namespace ImcGem5.Lib.CarryLess
open Polynomial List

variable {width : Nat}

def coefficient (value : Bool) : ZMod 2 := if value then 1 else 0

theorem coefficient_xor (first second : Bool) : coefficient (first ^^ second) = coefficient first + coefficient second := by
  revert first second
  decide

noncomputable def poly (word : BitVec width) : Polynomial (ZMod 2) :=
  ∑ i ∈ Finset.range width, C (coefficient (word.getLsbD i)) * X ^ i

theorem coeff_poly (word : BitVec width) (index : Nat) : (poly word).coeff index = coefficient (word.getLsbD index) := by
  simp only [poly, finsetSum_coeff, coeff_C_mul_X_pow, Finset.sum_ite_eq, Finset.mem_range]
  split
  · rfl
  next outside =>
    rw [BitVec.getLsbD_of_ge word index (not_lt.mp outside)]
    rfl

theorem coeff_mul (first second : BitVec width) (index : Nat) : (poly first * poly second).coeff index =
    ∑ i ∈ Finset.range width, coefficient (second.getLsbD i) * coefficient (decide (i ≤ index) && first.getLsbD (index - i)) := by
  have split : poly first * poly second = ∑ i ∈ Finset.range width, C (coefficient (second.getLsbD i)) * (poly first * X ^ i) := by
    conv_lhs => rw [poly.eq_def second, Finset.mul_sum]
    apply Finset.sum_congr rfl
    intro i _
    ring
  rw [split, finsetSum_coeff]
  apply Finset.sum_congr rfl
  intro i _
  rw [coeff_C_mul, coeff_mul_X_pow', coeff_poly]
  by_cases below : i ≤ index
  · rw [if_pos below, decide_eq_true below, Bool.true_and]
  · rw [if_neg below, decide_eq_false below, Bool.false_and]
    rfl

/-- So many coefficients, from `start` on, as a word. -/
noncomputable def bitsOf (product : Polynomial (ZMod 2)) (start count : Nat) : BitVec count :=
  (BitVec.ofBoolListLE ((range count).map fun i => decide (product.coeff (start + i) = 1))).setWidth count

theorem getLsbD_bitsOf (product : Polynomial (ZMod 2)) (start : Nat) {count index : Nat} (bound : index < count) :
    coefficient ((bitsOf product start count).getLsbD index) = product.coeff (start + index) := by
  have two : ∀ value : ZMod 2, coefficient (decide (value = 1)) = value := by decide
  rw [bitsOf, BitVec.getLsbD_setWidth, BitVec.getLsbD_ofBoolListLE, decide_eq_true bound, Bool.true_and,
    getD_eq_getElem _ _ (by simpa using bound), getElem_map, getElem_range, two]

theorem coefficient_inj {first second : Bool} (same : coefficient first = coefficient second) : first = second := by
  revert first second
  decide

theorem eq_bitsOf {product : Polynomial (ZMod 2)} {start : Nat} {word : BitVec width}
    (same : ∀ index < width, coefficient (word.getLsbD index) = product.coeff (start + index)) : word = bitsOf product start width := by
  apply BitVec.eq_of_getLsbD_eq
  intro index bound
  apply coefficient_inj
  rw [same index bound, getLsbD_bitsOf product start bound]

theorem window_shift (product : Polynomial (ZMod 2)) {count : Nat} (positive : 0 < count) :
    bitsOf product (count - 1) count = (bitsOf product count count <<< 1) ||| (bitsOf product 0 count >>> (count - 1)) := by
  apply BitVec.eq_of_getLsbD_eq
  intro index bound
  rw [BitVec.getLsbD_or, BitVec.getLsbD_shiftLeft, BitVec.getLsbD_ushiftRight, decide_eq_true bound, Bool.true_and]
  apply coefficient_inj
  rw [getLsbD_bitsOf product _ bound]
  cases index with
  | zero =>
    rw [decide_eq_true Nat.one_pos, Bool.not_true, Bool.false_and, Bool.false_or, getLsbD_bitsOf product _ (by omega)]
    congr 1
    omega
  | succ =>
    rw [decide_eq_false (by omega), Bool.not_false, Bool.true_and, BitVec.getLsbD_of_ge (bitsOf product 0 count) _ (by omega),
      Bool.or_false, getLsbD_bitsOf product _ (by omega)]
    congr 1
    omega

theorem coefficient_foldl (chosen : Nat → Bool) (term : Nat → BitVec width) (items : List Nat) (word : BitVec width) (index : Nat) :
    coefficient ((items.foldl (fun result i => if chosen i = true then result ^^^ term i else result) word).getLsbD index) =
      coefficient (word.getLsbD index) + (items.map fun i => coefficient (chosen i) * coefficient ((term i).getLsbD index)).sum := by
  induction items generalizing word with
  | nil => simp
  | cons item _ ih =>
    rw [foldl_cons, ih, map_cons, sum_cons]
    cases picked : chosen item with
    | true =>
      rw [if_pos rfl, BitVec.getLsbD_xor, coefficient_xor, add_assoc]
      congr 2
      exact (one_mul _).symm
    | false =>
      rw [if_neg Bool.false_ne_true]
      have none : coefficient false = 0 := rfl
      rw [none, zero_mul, zero_add]

theorem sum_range (term : Nat → ZMod 2) (count : Nat) : ((range' 0 count).map term).sum = ∑ i ∈ Finset.range count, term i := by
  rw [← range_eq_range']
  rfl

end ImcGem5.Lib.CarryLess

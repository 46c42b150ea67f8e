import ImcGem5.Base.IntMath
import Mathlib.Tactic.Ring
import Mathlib.Tactic.LinearCombination

/-! Wide products are exact: a word is cut into two halves, and the product of two words is put
together from those of the halves. -/

namespace ImcGem5.Base.Proofs.WideProduct
open BitVec hiding and_self

section Halves

theorem mul_places (A a B b p : Nat) (positive : 0 < p) :
    (A * p + a) * (B * p + b) / (p * p) = A * B + (a * b / p + A * b + a * B) / p := by
  have places : (A * p + a) * (B * p + b) = (a * b + p * (A * b + a * B)) + p * (p * (A * B)) := by ring
  rw [places, ← Nat.div_div_eq_div_mul, Nat.add_mul_div_left _ _ positive, Nat.add_mul_div_left _ _ positive,
    Nat.add_mul_div_left _ _ positive, Nat.add_assoc (a * b / p), Nat.add_comm (A * B)]

theorem mul_half_le {x y : Nat} (first : x < 2 ^ 32) (second : y < 2 ^ 32) : x * y ≤ 2 ^ 64 - 2 ^ 33 + 1 := by
  have bound : x * y ≤ (2 ^ 32 - 1) * (2 ^ 32 - 1) := Nat.mul_le_mul (Nat.le_sub_one_of_lt first) (Nat.le_sub_one_of_lt second)
  exact bound.trans (by decide)

variable {val valA valB : BitVec 64}

theorem lowHalf_toNat : (lowHalf val).toNat = val.toNat % 2 ^ 32 := by
  rw [lowHalf, toNat_setWidth, toNat_setWidth]
  omega

theorem highHalf_toNat : (highHalf val).toNat = val.toNat / 2 ^ 32 := by
  rw [highHalf, lowHalf_toNat, toNat_ushiftRight, Nat.shiftRight_eq_div_pow]
  omega

theorem lowHalf_lt : (lowHalf val).toNat < 2 ^ 32 := by
  rw [lowHalf_toNat]
  exact Nat.mod_lt _ (by decide)

theorem highHalf_lt : (highHalf val).toNat < 2 ^ 32 := by
  rw [highHalf_toNat]
  omega

theorem halves : (highHalf val).toNat * 2 ^ 32 + (lowHalf val).toNat = val.toNat := by
  rw [highHalf_toNat, lowHalf_toNat]
  omega

theorem mul_exact {x y : BitVec 64} (first : x.toNat < 2 ^ 32) (second : y.toNat < 2 ^ 32) : (x * y).toNat = x.toNat * y.toNat := by
  rw [toNat_mul]
  apply Nat.mod_eq_of_lt
  have bound := mul_half_le first second
  omega

theorem half_toNat (x : BitVec 64) : (x >>> 1).toNat = x.toNat / 2 := by
  rw [toNat_ushiftRight, Nat.shiftRight_eq_div_pow]

theorem bit_toNat (x : BitVec 64) : (x &&& 1).toNat = x.toNat % 2 := by
  rw [toNat_and]
  exact Nat.and_one_is_mod _

end Halves

section Unsigned

/-- No partial sum wraps. -/
structure NoCarryLost (A a B b : BitVec 64) : Prop where
  ab : (a * b).toNat = a.toNat * b.toNat
  Ab : (A * b).toNat = A.toNat * b.toNat
  aB : (a * B).toNat = a.toNat * B.toNat
  AB : (A * B).toNat = A.toNat * B.toNat
  halves : (sumHalves (highHalf (a * b)) (A * b) (a * B)).toNat =
    (highHalf (a * b)).toNat / 2 + (A * b).toNat / 2 + (a * B).toNat / 2
  bits : (sumBits (highHalf (a * b)) (A * b) (a * B)).toNat = (highHalf (a * b)).toNat % 2 + (A * b).toNat % 2 + (a * B).toNat % 2
  c2 : (sumHalves (highHalf (a * b)) (A * b) (a * B) + (sumBits (highHalf (a * b)) (A * b) (a * B) >>> 1)).toNat =
    (sumHalves (highHalf (a * b)) (A * b) (a * B)).toNat + (sumBits (highHalf (a * b)) (A * b) (a * B)).toNat / 2
  high : (A * B + (sumHalves (highHalf (a * b)) (A * b) (a * B) + (sumBits (highHalf (a * b)) (A * b) (a * B) >>> 1)) >>> 31).toNat =
    (A * B).toNat + ((highHalf (a * b)).toNat + (A * b).toNat + (a * B).toNat) / 2 ^ 32

variable {c1 Ab aB : BitVec 64}

theorem sumBits_toNat : (sumBits c1 Ab aB).toNat = c1.toNat % 2 + Ab.toNat % 2 + aB.toNat % 2 := by
  rw [sumBits, toNat_add, toNat_add, bit_toNat, bit_toNat, bit_toNat]
  omega

theorem sumHalves_toNat (small : c1.toNat < 2 ^ 32) (first : Ab.toNat ≤ 2 ^ 64 - 2 ^ 33 + 1) (second : aB.toNat ≤ 2 ^ 64 - 2 ^ 33 + 1) :
    (sumHalves c1 Ab aB).toNat = c1.toNat / 2 + Ab.toNat / 2 + aB.toNat / 2 := by
  rw [sumHalves, toNat_add, toNat_add, half_toNat, half_toNat, half_toNat]
  omega

variable {A a B b : BitVec 64}

theorem noCarryLost (highA : A.toNat < 2 ^ 32) (lowA : a.toNat < 2 ^ 32) (highB : B.toNat < 2 ^ 32) (lowB : b.toNat < 2 ^ 32) :
    NoCarryLost A a B b := by
  have Ab := mul_exact highA lowB
  have aB := mul_exact lowA highB
  have AB := mul_exact highA highB
  have small := @highHalf_lt (a * b)
  have first := mul_half_le highA lowB
  have second := mul_half_le lowA highB
  have most := mul_half_le highA highB
  rw [← Ab] at first
  rw [← aB] at second
  have halves := sumHalves_toNat small first second
  have bits := @sumBits_toNat (highHalf (a * b)) (A * b) (a * B)
  have c2 : (sumHalves (highHalf (a * b)) (A * b) (a * B) + (sumBits (highHalf (a * b)) (A * b) (a * B) >>> 1)).toNat =
      (sumHalves (highHalf (a * b)) (A * b) (a * B)).toNat + (sumBits (highHalf (a * b)) (A * b) (a * B)).toNat / 2 := by
    rw [toNat_add, half_toNat]
    omega
  refine ⟨mul_exact lowA lowB, Ab, aB, AB, halves, bits, c2, ?_⟩
  rw [toNat_add, toNat_ushiftRight, c2, halves, bits, Nat.shiftRight_eq_div_pow]
  omega

variable (valA valB : BitVec 64)

theorem mulUnsignedManual_high : (mulUnsignedManual valA valB).1.toNat = valA.toNat * valB.toNat / 2 ^ 64 := by
  have kept := noCarryLost (@highHalf_lt valA) (@lowHalf_lt valA) (@highHalf_lt valB) (@lowHalf_lt valB)
  have places := mul_places (highHalf valA).toNat (lowHalf valA).toNat (highHalf valB).toNat (lowHalf valB).toNat (2 ^ 32) (by decide)
  rw [halves, halves, ← kept.ab, ← kept.AB, ← kept.Ab, ← kept.aB, ← highHalf_toNat] at places
  exact kept.high.trans places.symm

theorem mulUnsignedManual_exact :
    (mulUnsignedManual valA valB).1.toNat * 2 ^ 64 + (mulUnsignedManual valA valB).2.toNat = valA.toNat * valB.toNat := by
  rw [mulUnsignedManual_high, mulUnsignedManual, toNat_mul]
  exact Nat.div_add_mod' _ _

theorem mulUnsigned_int128_exact :
    (mulUnsigned true valA valB).1.toNat * 2 ^ 64 + (mulUnsigned true valA valB).2.toNat = valA.toNat * valB.toNat := by
  have bound : valA.toNat * valB.toNat < 2 ^ 128 := by
    have less := Nat.mul_lt_mul'' valA.isLt valB.isLt
    exact less.trans_eq (by decide)
  have val : (valA.setWidth 128 * valB.setWidth 128).toNat = valA.toNat * valB.toNat := by
    rw [toNat_mul, toNat_setWidth, toNat_setWidth, Nat.mod_eq_of_lt (valA.isLt.trans (by decide)),
      Nat.mod_eq_of_lt (valB.isLt.trans (by decide)), Nat.mod_eq_of_lt bound]
  rw [mulUnsigned, if_pos rfl]
  rw [toNat_setWidth, toNat_setWidth, toNat_ushiftRight, val, Nat.shiftRight_eq_div_pow]
  omega

theorem eq_of_toNat {one other : BitVec 64 × BitVec 64}
    (same : one.1.toNat * 2 ^ 64 + one.2.toNat = other.1.toNat * 2 ^ 64 + other.2.toNat) : one = other := by
  refine Prod.ext (eq_of_toNat_eq ?_) (eq_of_toNat_eq ?_)
  · omega
  · omega

theorem mulUnsigned_eq (int128 : Bool) : mulUnsigned int128 valA valB = mulUnsignedManual valA valB := by
  cases int128 with
  | false => rfl
  | true => exact eq_of_toNat ((mulUnsigned_int128_exact valA valB).trans (mulUnsignedManual_exact valA valB).symm)

end Unsigned

section Signed

variable (valA valB : BitVec 64)

theorem toInt_eq (val : BitVec 64) : val.toInt = val.toNat - (if val.slt 0 then 2 ^ 64 else 0) := by
  have sign : val.slt 0 = val.msb := slt_zero_eq_msb
  rw [toInt_eq_msb_cond, sign]
  split
  · rfl
  · rw [sub_zero]

theorem natAbs_mul_le : (valA.toInt * valB.toInt).natAbs ≤ 2 ^ 126 := by
  have bound : ∀ val : BitVec 64, val.toInt.natAbs ≤ 2 ^ 63 := by
    intro val
    have low := val.le_toInt
    have high := val.toInt_lt
    omega
  rw [Int.natAbs_mul]
  exact (Nat.mul_le_mul (bound valA) (bound valB)).trans (by decide)

theorem toInt_of_dvd {val : BitVec 64} {k : Int} (agrees : (2 ^ 64 : Int) ∣ val.toNat - k) (low : -2 ^ 63 ≤ k) (high : k < 2 ^ 63) :
    val.toInt = k := by
  rw [toInt_eq_toNat_cond]
  split
  · omega
  · omega

theorem sub_dvd (x y : BitVec 64) : (2 ^ 64 : Int) ∣ (x - y).toNat - (x.toNat - y.toNat) := by
  rw [toNat_sub]
  omega

/-- What the high word of two signed words should be, from that of the unsigned ones. -/
def corrected (high : Nat) : Int :=
  high - (if valA.slt 0 then valB.toNat else 0) - (if valB.slt 0 then valA.toNat else 0) +
    (if valA.slt 0 ∧ valB.slt 0 then 2 ^ 64 else 0)

variable {valA valB}

theorem corrected_exact {high low : Nat} (exact_ : high * 2 ^ 64 + low = valA.toNat * valB.toNat) :
    corrected valA valB high * 2 ^ 64 + low = valA.toInt * valB.toInt := by
  have product : (high : Int) * 2 ^ 64 + low = valA.toNat * valB.toNat := by exact_mod_cast exact_
  rw [corrected, toInt_eq valA, toInt_eq valB]
  cases valA.slt 0 with
  | false =>
    cases valB.slt 0 with
    | false =>
      simp only [Bool.false_eq_true, if_false, and_self]
      linear_combination product
    | true =>
      simp only [Bool.false_eq_true, if_false, if_true, false_and]
      linear_combination product
  | true =>
    cases valB.slt 0 with
    | false =>
      simp only [Bool.false_eq_true, if_false, if_true, and_false]
      linear_combination product
    | true =>
      simp only [if_true, and_self]
      linear_combination product

theorem corrected_dvd (high : BitVec 64) : (2 ^ 64 : Int) ∣
    (if valB.slt 0 then (if valA.slt 0 then high - valB else high) - valA else if valA.slt 0 then high - valB else high).toNat -
      corrected valA valB high.toNat := by
  have first := sub_dvd high valB
  have second := sub_dvd high valA
  have both := sub_dvd (high - valB) valA
  rw [corrected]
  cases valA.slt 0 with
  | false =>
    cases valB.slt 0 with
    | false => simp
    | true =>
      simp only [Bool.false_eq_true, if_false, if_true, false_and]
      omega
  | true =>
    cases valB.slt 0 with
    | false =>
      simp only [Bool.false_eq_true, if_false, if_true, and_false]
      omega
    | true =>
      simp only [if_true, and_self]
      omega

theorem mulSignedManual_exact (int128 : Bool) :
    (mulSignedManual int128 valA valB).1.toInt * 2 ^ 64 + (mulSignedManual int128 valA valB).2.toNat = valA.toInt * valB.toInt := by
  have product := corrected_exact (mulUnsignedManual_exact valA valB)
  have bound := natAbs_mul_le valA valB
  rw [mulSignedManual, mulUnsigned_eq, ← product]
  rw [toInt_of_dvd (corrected_dvd (mulUnsignedManual valA valB).1)]
  · omega
  · omega

theorem mulSigned_int128_exact :
    (mulSigned true valA valB).1.toInt * 2 ^ 64 + (mulSigned true valA valB).2.toNat = valA.toInt * valB.toInt := by
  have bound := natAbs_mul_le valA valB
  have val : (valA.signExtend 128 * valB.signExtend 128).toInt = valA.toInt * valB.toInt := by
    rw [toInt_mul, toInt_signExtend_of_le (by decide), toInt_signExtend_of_le (by decide)]
    apply Int.bmod_eq_of_le
    · omega
    · omega
  rw [mulSigned, if_pos rfl]
  rw [← val] at bound ⊢
  generalize valA.signExtend 128 * valB.signExtend 128 = product at bound ⊢
  have whole : (2 ^ 128 : Int) ∣ product.toNat - product.toInt := by
    rw [toInt_eq_toNat_cond]
    split
    · simp
    · simp
  have high : (2 ^ 64 : Int) ∣ ((product.sshiftRight 64).setWidth 64).toNat - product.toInt / 2 ^ 64 := by
    have shifted : (product.sshiftRight 64).toInt = product.toInt / 2 ^ 64 := by
      rw [toInt_sshiftRight, Int.shiftRight_eq_div_pow]
      norm_cast
    rw [toNat_setWidth, ← shifted, toInt_eq_toNat_cond]
    split
    · omega
    · omega
  rw [toInt_of_dvd high (by omega) (by omega), toNat_setWidth]
  omega

theorem mulSigned_eq (int128 : Bool) : mulSignedManual int128 valA valB = mulSigned true valA valB := by
  have same := (@mulSignedManual_exact valA valB int128).trans mulSigned_int128_exact.symm
  refine Prod.ext (eq_of_toInt_eq ?_) (eq_of_toNat_eq ?_)
  · omega
  · omega

/-- The portable multiplications lose nothing, and agree with those of the compiler's wide type. -/
theorem wideProducts_exact (int128 : Bool) (valA valB : BitVec 64) :
    ((mulUnsignedManual valA valB).1.toNat * 2 ^ 64 + (mulUnsignedManual valA valB).2.toNat = valA.toNat * valB.toNat ∧
      NoCarryLost (highHalf valA) (lowHalf valA) (highHalf valB) (lowHalf valB) ∧
      mulUnsignedManual valA valB = mulUnsigned true valA valB) ∧
    (mulSignedManual int128 valA valB).1.toInt * 2 ^ 64 + (mulSignedManual int128 valA valB).2.toNat = valA.toInt * valB.toInt ∧
      mulSignedManual int128 valA valB = mulSigned true valA valB := by
  refine ⟨⟨mulUnsignedManual_exact valA valB, ?_, (mulUnsigned_eq valA valB true).symm⟩, mulSignedManual_exact int128, mulSigned_eq int128⟩
  exact noCarryLost highHalf_lt lowHalf_lt highHalf_lt lowHalf_lt

end Signed

end ImcGem5.Base.Proofs.WideProduct

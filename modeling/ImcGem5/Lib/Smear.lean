import Mathlib.Algebra.GroupWithZero.Nat
import Mathlib.Data.Nat.Log
import Mathlib.Tactic.Common

/-! Rounding up to a power of two: shifting a word to the right and adding what it had sets
every bit below the highest one. -/

namespace ImcGem5.Lib

variable {width : Nat} {word smeared : BitVec width}

/-- A bit is set exactly if the word has one less than `reach` places above it, or there. -/
def Smeared (reach : Nat) (word smeared : BitVec width) : Prop :=
  ∀ index, smeared.getLsbD index = true ↔ ∃ distance < reach, word.getLsbD (index + distance) = true

theorem smeared_one (word : BitVec width) : Smeared 1 word word := by
  intro index
  constructor
  · intro set
    exact ⟨0, Nat.one_pos, set⟩
  · rintro ⟨distance, _, set⟩
    obtain rfl : distance = 0 := by omega
    exact set

theorem Smeared.double {reach : Nat} (below : Smeared reach word smeared) : Smeared (2 * reach) word (smeared ||| smeared >>> reach) := by
  intro index
  rw [BitVec.getLsbD_or, Bool.or_eq_true, BitVec.getLsbD_ushiftRight, below, below]
  constructor
  · rintro (⟨distance, near, set⟩ | ⟨distance, near, set⟩)
    · exact ⟨distance, by omega, set⟩
    · refine ⟨reach + distance, by omega, ?_⟩
      rwa [← Nat.add_assoc, Nat.add_comm index]
  · rintro ⟨distance, near, set⟩
    by_cases close : distance < reach
    · exact .inl ⟨distance, close, set⟩
    · refine .inr ⟨distance - reach, by omega, ?_⟩
      rwa [show reach + index + (distance - reach) = index + distance by omega]

theorem Smeared.toNat_eq {exponent : Nat} (all : Smeared width word smeared)
    (below : word.toNat < 2 ^ exponent) (above : ∀ smaller < exponent, 2 ^ smaller ≤ word.toNat) :
    smeared.toNat = 2 ^ exponent - 1 := by
  apply Nat.eq_of_testBit_eq
  intro index
  rw [Nat.testBit_two_pow_sub_one, BitVec.testBit_toNat, Bool.eq_iff_iff, all, decide_eq_true_eq]
  constructor
  · rintro ⟨distance, _, set⟩
    have least : 2 ^ (index + distance) ≤ word.toNat := Nat.ge_two_pow_of_testBit set
    have less := (Nat.pow_lt_pow_iff_right Nat.one_lt_two).mp (least.trans_lt below)
    omega
  · intro inside
    have highest : 2 ^ (exponent - 1) ≤ word.toNat := above (exponent - 1) (by omega)
    have narrow := (Nat.pow_lt_pow_iff_right Nat.one_lt_two).mp (highest.trans_lt word.isLt)
    refine ⟨exponent - 1 - index, by omega, ?_⟩
    rw [show index + (exponent - 1 - index) = exponent - 1 by omega]
    apply Nat.testBit_of_two_pow_le_and_two_pow_add_one_gt highest
    rwa [Nat.sub_add_cancel (by omega)]

theorem Smeared.toNat_clog {value : Nat} (all : Smeared width word smeared)
    (before : word.toNat + 1 = value) : smeared.toNat + 1 = 2 ^ Nat.clog 2 value := by
  have next : value ≤ 2 ^ Nat.clog 2 value := Nat.le_pow_clog Nat.one_lt_two value
  have above : ∀ smaller < Nat.clog 2 value, 2 ^ smaller ≤ word.toNat := by
    intro smaller less
    have least := (Nat.lt_clog_iff_pow_lt Nat.one_lt_two).mp less
    omega
  rw [all.toNat_eq (by omega) above, Nat.sub_add_cancel Nat.one_le_two_pow]

end ImcGem5.Lib

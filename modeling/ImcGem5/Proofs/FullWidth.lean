import ImcGem5.Isa.Instruction
import ImcGem5.Proofs.InMemory
import Mathlib.Data.Int.ModEq

/-! Modular operations at full width. Sums and products are cut to 64 bits before the
remainder is taken, and the subtraction works on signed words, where a modulus from 2^63 on is
negative. Each result is right under a condition on the operands, and only then. -/

namespace ImcGem5.Mem.Proofs.FullWidth
open Lib BitVec Int ImcOp

variable {valA valB valC : Word}

theorem cut_mod_iff (value modulus : Nat) : value % 2 ^ 64 % modulus = value % modulus ↔ modulus ∣ 2 ^ 64 * (value / 2 ^ 64) := by
  have parts := Nat.div_add_mod value (2 ^ 64)
  have less : value % 2 ^ 64 ≤ value := Nat.mod_le _ _
  have lost : value - value % 2 ^ 64 = 2 ^ 64 * (value / 2 ^ 64) := by omega
  rw [← lost]
  exact Nat.modEq_iff_dvd' less

theorem carry_dvd_iff (modulus : Nat) {sum : Nat} (bound : sum < 2 ^ 65) :
    modulus ∣ 2 ^ 64 * (sum / 2 ^ 64) ↔ sum < 2 ^ 64 ∨ modulus ∣ 2 ^ 64 := by
  by_cases small : sum < 2 ^ 64
  · rw [Nat.div_eq_of_lt small, Nat.mul_zero]
    exact iff_of_true (Nat.dvd_zero _) (.inl small)
  · have one : sum / 2 ^ 64 = 1 := by omega
    rw [one, Nat.mul_one]
    exact ⟨.inr, fun fits => fits.resolve_left small⟩

theorem ne_zero (positive : 1 ≤ valC.toNat) : valC ≠ 0 := by
  rintro rfl
  exact absurd positive (by decide)

theorem addmod_exact_iff (positive : 1 ≤ valC.toNat) :
    (∃ value, addmodResult valA valB valC = .ok value ∧ value.toNat = (valA.toNat + valB.toNat) % valC.toNat) ↔
      valA.toNat + valB.toNat < 2 ^ 64 ∨ valC.toNat ∣ 2 ^ 64 := by
  have computed : addmodResult valA valB valC = .ok ((valA + valB) % valC) := by
    rw [addmodResult, unsignedRem, if_neg (ne_zero positive)]
  have widthA := valA.isLt
  have widthB := valB.isLt
  have short : valA.toNat + valB.toNat < 2 ^ 65 := by omega
  rw [← carry_dvd_iff valC.toNat short, ← cut_mod_iff, computed, ← BitVec.toNat_add, ← toNat_umod]
  simp

theorem mulmod_exact_iff (positive : 1 ≤ valC.toNat) :
    (∃ value, mulmodResult valA valB valC = .ok value ∧ value.toNat = valA.toNat * valB.toNat % valC.toNat) ↔
      valC.toNat ∣ 2 ^ 64 * (valA.toNat * valB.toNat / 2 ^ 64) := by
  have computed : mulmodResult valA valB valC = .ok (valA * valB % valC) := by
    rw [mulmodResult, unsignedRem, if_neg (ne_zero positive)]
  rw [← cut_mod_iff, computed, ← BitVec.toNat_mul, ← toNat_umod]
  simp

theorem signedRem_ok {value divisor : Word} (nonzero : divisor ≠ 0) (fits : ¬(value = intMin 64 ∧ divisor = -1)) :
    ∃ remainder, signedRem value divisor = .ok remainder ∧ remainder.toInt = value.toInt.tmod divisor.toInt := by
  refine ⟨value.srem divisor, ?_, toInt_srem _ _⟩
  rw [signedRem, if_neg]
  rintro (zero | least)
  · exact nonzero zero
  · exact fits least

theorem submod_ok (nonzero : valC ≠ 0) (fits : ¬(valA - valB = intMin 64 ∧ valC = -1)) :
    ∃ value, submodResult valA valB valC = .ok value ∧
      value.toInt = (((valA - valB).toInt.tmod valC.toInt + valC.toInt).bmod (2 ^ 64)).tmod valC.toInt := by
  obtain ⟨first, firstComputed, firstValue⟩ := signedRem_ok nonzero fits
  have secondFits : ¬(first + valC = intMin 64 ∧ valC = -1) := by
    rintro ⟨least, rfl⟩
    have zero : first.toInt = 0 := by
      rw [firstValue]
      apply tmod_eq_zero_of_dvd
      exact Int.neg_dvd.mpr (one_dvd _)
    have sum : (first + -1).toInt = -1 := by
      rw [toInt_add, zero]
      decide
    rw [least] at sum
    exact absurd sum (by decide)
  obtain ⟨last, lastComputed, lastValue⟩ := signedRem_ok nonzero secondFits
  refine ⟨last, ?_, ?_⟩
  · rw [submodResult, firstComputed, ok_bind, lastComputed]
  · rw [lastValue, toInt_add, firstValue]

theorem bmod_cases (value : Int) (low : -(2 ^ 64) ≤ value) (high : value < 2 ^ 64) :
    value.bmod (2 ^ 64) =
      if value < -(2 ^ 63) then value + 2 ^ 64 else if value < 2 ^ 63 then value else value - 2 ^ 64 := by
  rw [bmod_def]
  split <;> split <;> (try split) <;> omega

theorem toInt_cases (value : Word) : value.toInt = if value.toNat < 2 ^ 63 then (value.toNat : Int) else value.toNat - 2 ^ 64 := by
  have cond := toInt_eq_toNat_cond value
  split <;> split at cond <;> omega

theorem toInt_difference (valA valB : Word) : (valA - valB).toInt = ((valA.toNat : Int) - valB.toNat).bmod (2 ^ 64) := by
  rw [toInt_sub, toInt_eq_toNat_bmod, toInt_eq_toNat_bmod, bmod_sub_bmod, sub_bmod_bmod]

theorem tmod_of_nonneg {value divisor : Int} (nonneg : 0 ≤ value) : value.tmod divisor = (value.natAbs % divisor.natAbs : Nat) := by
  have size := natAbs_tmod value divisor
  have sign := tmod_nonneg divisor nonneg
  omega

theorem tmod_of_nonpos {value divisor : Int} (nonpos : value ≤ 0) : value.tmod divisor = -(value.natAbs % divisor.natAbs : Nat) := by
  have opposite : (-value).tmod divisor = ((-value).natAbs % divisor.natAbs : Nat) := tmod_of_nonneg (by omega)
  rw [neg_tmod, natAbs_neg] at opposite
  omega

theorem reduced_difference {a b n : Nat} (reducedA : a < n) (reducedB : b < n) :
    ((a : Int) - b) % n = if b ≤ a then (a : Int) - b else a - b + n := by
  split
  · exact emod_eq_of_lt (by omega) (by omega)
  · rw [← add_emod_right]
    exact emod_eq_of_lt (by omega) (by omega)

theorem minus_one_toNat : (-1 : Word).toNat = 2 ^ 64 - 1 := by decide

theorem submod_positive_iff (signed : valC.toNat < 2 ^ 63) (reducedA : valA.toNat < valC.toNat) (reducedB : valB.toNat < valC.toNat) :
    (∃ value, submodResult valA valB valC = .ok value ∧
        (value.toNat : Int) = ((valA.toNat : Int) - valB.toNat) % valC.toNat) ↔
      valA.toNat < valB.toNat ∨ valA.toNat + valC.toNat < 2 ^ 63 + valB.toNat := by
  have fits : ¬(valA - valB = intMin 64 ∧ valC = -1) := by
    rintro ⟨_, rfl⟩
    rw [minus_one_toNat] at signed
    omega
  obtain ⟨value, computed, exact⟩ := submod_ok (ne_zero (by omega)) fits
  have modulus : valC.toInt = valC.toNat := by rw [toInt_cases, if_pos signed]
  have difference : (valA - valB).toInt = valA.toNat - valB.toNat := by
    rw [toInt_difference, bmod_cases _ (by omega) (by omega), if_neg (by omega), if_pos (by omega)]
  have first : (valA - valB).toInt.tmod valC.toInt = valA.toNat - valB.toNat := by
    rw [difference, modulus]
    obtain nonneg | negative := Int.le_total 0 ((valA.toNat : Int) - valB.toNat)
    · rw [tmod_of_nonneg nonneg, Nat.mod_eq_of_lt (by omega)]
      omega
    · rw [tmod_of_nonpos negative, Nat.mod_eq_of_lt (by omega)]
      omega
  rw [first, modulus, bmod_cases _ (by omega) (by omega), if_neg (by omega)] at exact
  simp only [computed, Except.ok.injEq, exists_eq_left', reduced_difference reducedA reducedB]
  have unsigned := toInt_cases value
  by_cases overflow : (valA.toNat : Int) - valB.toNat + valC.toNat < 2 ^ 63
  · rw [if_pos overflow, tmod_of_nonneg (by omega), natAbs_natCast] at exact
    have holds : valA.toNat < valB.toNat ∨ valA.toNat + valC.toNat < 2 ^ 63 + valB.toNat := by omega
    refine iff_of_true ?_ holds
    by_cases order : valB.toNat ≤ valA.toNat
    · have size : ((valA.toNat : Int) - valB.toNat + valC.toNat).natAbs = valA.toNat - valB.toNat + valC.toNat := by omega
      rw [size, Nat.add_mod_right, Nat.mod_eq_of_lt (by omega)] at exact
      rw [if_pos order]
      split at unsigned <;> omega
    · rw [Nat.mod_eq_of_lt (by omega)] at exact
      rw [if_neg order]
      split at unsigned <;> omega
  · rw [if_neg overflow, tmod_of_nonpos (by omega)] at exact
    refine iff_of_false ?_ (by omega)
    rw [if_pos (by omega)]
    split at unsigned <;> omega

theorem nonpositive_iff {value : Word} {m n : Nat} {expected : Int} (sum : m + n = 2 ^ 64)
    (high : expected < n) (nonpos : value.toInt ≤ 0) (bound : value.toInt.natAbs < m) :
    (value.toNat : Int) = expected ↔ value.toInt = 0 ∧ expected = 0 := by
  have unsigned := toInt_cases value
  split at unsigned <;> omega

theorem submod_negative_iff (signed : 2 ^ 63 ≤ valC.toNat) (reducedA : valA.toNat < valC.toNat) (reducedB : valB.toNat < valC.toNat) :
    (∃ value, submodResult valA valB valC = .ok value ∧
        (value.toNat : Int) = ((valA.toNat : Int) - valB.toNat) % valC.toNat) ↔
      valA.toNat = valB.toNat ∨ valA.toNat < valB.toNat ∧
        2 * valC.toNat < 2 ^ 64 + (valB.toNat - valA.toNat) ∧ valB.toNat - valA.toNat + valC.toNat < 2 ^ 64 := by
  have widthC := valC.isLt
  by_cases fits : valA - valB = intMin 64 ∧ valC = -1
  · obtain ⟨least, rfl⟩ := fits
    rw [minus_one_toNat]
    refine iff_of_false ?_ ?_
    · simp [submodResult, signedRem, least]
    · rintro (same | ⟨less, _, bound⟩)
      · rw [eq_of_toNat_eq same, BitVec.sub_self] at least
        exact absurd least (by decide)
      · omega
  obtain ⟨value, computed, exact⟩ := submod_ok (ne_zero (by omega)) fits
  simp only [computed, Except.ok.injEq, exists_eq_left', reduced_difference reducedA reducedB]
  obtain ⟨m, sum⟩ : ∃ m, m + valC.toNat = 2 ^ 64 := ⟨2 ^ 64 - valC.toNat, by omega⟩
  have modulus : valC.toInt = -(m : Int) := by
    rw [toInt_cases, if_neg (by omega)]
    omega
  have divisor : (-(m : Int)).natAbs = m := by omega
  have reduced : ∀ number, number % m < m := fun number => Nat.mod_lt number (by omega)
  have cut := toInt_difference valA valB
  rw [bmod_cases _ (by omega) (by omega)] at cut
  rw [modulus] at exact
  -- every case that does not wrap in the second sum leaves a remainder that is not positive
  have wrong : value.toInt ≤ 0 → value.toInt.natAbs < m → (value.toInt = 0 ∨ valA.toNat ≠ valB.toNat) →
      (¬(valA.toNat < valB.toNat ∧ 2 * valC.toNat < 2 ^ 64 + (valB.toNat - valA.toNat) ∧
        valB.toNat - valA.toNat + valC.toNat < 2 ^ 64)) →
      ((value.toNat : Int) = (if valB.toNat ≤ valA.toNat then (valA.toNat : Int) - valB.toNat
        else valA.toNat - valB.toNat + valC.toNat) ↔
      valA.toNat = valB.toNat ∨ valA.toNat < valB.toNat ∧
        2 * valC.toNat < 2 ^ 64 + (valB.toNat - valA.toNat) ∧ valB.toNat - valA.toNat + valC.toNat < 2 ^ 64) := by
    intro nonpos bound zero outside
    rw [nonpositive_iff sum (by split <;> omega) nonpos bound]
    split <;> omega
  have equal : valA.toNat = valB.toNat → (valA - valB).toInt.natAbs % m = 0 := by
    intro same
    have zero : (valA - valB).toInt.natAbs = 0 := by omega
    rw [zero, Nat.zero_mod]
  have less := reduced (valA - valB).toInt.natAbs
  obtain nonneg | negative := Int.le_total 0 (valA - valB).toInt
  · rw [tmod_of_nonneg nonneg, divisor, bmod_cases _ (by omega) (by omega), if_neg (by omega), if_pos (by omega),
      tmod_of_nonpos (by omega), divisor] at exact
    have last := reduced ((((valA - valB).toInt.natAbs % m : Nat) : Int) + -(m : Int)).natAbs
    apply wrong
    · omega
    · omega
    · by_cases same : valA.toNat = valB.toNat
      · rw [equal same, show (((0 : Nat) : Int) + -(m : Int)).natAbs = m by omega, Nat.mod_self] at exact
        exact .inl exact
      · exact .inr same
    · omega
  · rw [tmod_of_nonpos negative, divisor] at exact
    by_cases wraps : -((valA - valB).toInt.natAbs % m : Nat) + -(m : Int) < -(2 ^ 63)
    · rw [bmod_cases _ (by omega) (by omega), if_pos wraps, tmod_of_nonneg (by omega), divisor] at exact
      have short : (valA - valB).toInt.natAbs < m := by
        by_contra long
        have folded := Nat.mod_le ((valA - valB).toInt.natAbs - m) m
        rw [← Nat.mod_eq_sub_mod (by omega)] at folded
        omega
      have order : (valA - valB).toInt.natAbs = valB.toNat - valA.toNat ∧ valA.toNat < valB.toNat := by
        rw [Nat.mod_eq_of_lt short] at wraps
        omega
      have wrapped : (-((valB.toNat - valA.toNat : Nat) : Int) + -(m : Int) + 2 ^ 64).natAbs =
          valC.toNat - (valB.toNat - valA.toNat) := by omega
      rw [Nat.mod_eq_of_lt short, order.1, wrapped] at exact
      have last := reduced (valC.toNat - (valB.toNat - valA.toNat))
      have unsigned := toInt_cases value
      rw [if_neg (by omega)]
      by_cases fit : valC.toNat - (valB.toNat - valA.toNat) < m
      · rw [Nat.mod_eq_of_lt fit] at exact
        refine iff_of_true ?_ ?_
        · split at unsigned <;> omega
        · omega
      · refine iff_of_false ?_ ?_
        · split at unsigned <;> omega
        · omega
    · have sized : (-((valA - valB).toInt.natAbs % m : Nat) + -(m : Int)).natAbs = (valA - valB).toInt.natAbs % m + m := by
        omega
      rw [bmod_cases _ (by omega) (by omega), if_neg wraps, if_pos (by omega), tmod_of_nonpos (by omega), divisor, sized,
        Nat.add_mod_right, Nat.mod_mod] at exact
      apply wrong
      · omega
      · omega
      · by_cases same : valA.toNat = valB.toNat
        · rw [equal same] at exact
          exact .inl exact
        · exact .inr same
      · rintro ⟨order, bound, _⟩
        have size : (valA - valB).toInt.natAbs = valB.toNat - valA.toNat := by omega
        rw [size, Nat.mod_eq_of_lt (by omega)] at wraps
        omega

def integer (op : ImcOp) (a b n : Nat) : Int :=
  match op with
  | .addmod => ((a : Int) + b) % n
  | .submod => ((a : Int) - b) % n
  | .mulmod => ((a : Int) * b) % n
  | _ => 0

/-- The operands for which the width of the words does not show. -/
def Exact (op : ImcOp) (a b n : Nat) : Prop :=
  match op with
  | .addmod => a + b < 2 ^ 64 ∨ n ∣ 2 ^ 64
  | .submod =>
    if n < 2 ^ 63 then a < b ∨ a + n < 2 ^ 63 + b
    else a = b ∨ a < b ∧ 2 * n < 2 ^ 64 + (b - a) ∧ b - a + n < 2 ^ 64
  | .mulmod => n ∣ 2 ^ 64 * (a * b / 2 ^ 64)
  | _ => True

instance (op : ImcOp) (a b n : Nat) : Decidable (Exact op a b n) :=
  match op with
  | .addmod => inferInstanceAs (Decidable (a + b < 2 ^ 64 ∨ n ∣ 2 ^ 64))
  | .submod => inferInstanceAs (Decidable (if n < 2 ^ 63 then a < b ∨ a + n < 2 ^ 63 + b
      else a = b ∨ a < b ∧ 2 * n < 2 ^ 64 + (b - a) ∧ b - a + n < 2 ^ 64))
  | .mulmod => inferInstanceAs (Decidable (n ∣ 2 ^ 64 * (a * b / 2 ^ 64)))
  | .mulimc | .invmod | .cmpimc => isTrue trivial

theorem compute_exact_iff {op : ImcOp} {word : Nat → Word} (three : arity op = 3) (positive : 1 ≤ (word 2).toNat)
    (reducedA : (word 0).toNat < (word 2).toNat) (reducedB : (word 1).toNat < (word 2).toNat) :
    (∃ value, compute op word = .ok value ∧
        (value.toNat : Int) = integer op (word 0).toNat (word 1).toNat (word 2).toNat) ↔
      Exact op (word 0).toNat (word 1).toNat (word 2).toNat := by
  cases op with
  | addmod =>
    simp only [compute, Exact, integer]
    rw [← addmod_exact_iff positive]
    norm_cast
  | submod =>
    simp only [compute, Exact, integer]
    split
    next signed => exact submod_positive_iff signed reducedA reducedB
    next signed => exact submod_negative_iff (by omega) reducedA reducedB
  | mulmod =>
    simp only [compute, Exact, integer]
    rw [← mulmod_exact_iff positive]
    norm_cast
  | mulimc => cases three
  | invmod => cases three
  | cmpimc => cases three

/-- A reduced result is stored under a condition on the operands, for every modulus and all
reduced operands. -/
theorem stored_exact_iff {op : ImcOp} {mem : AbstractMemory} {pkt : Packet} (three : arity op = 3) (fits : Fits op mem pkt)
    (positive : 1 ≤ operandWord mem pkt 2) (reducedA : operandWord mem pkt 0 < operandWord mem pkt 2)
    (reducedB : operandWord mem pkt 1 < operandWord mem pkt 2) :
    Stores op mem pkt (integer op (operandWord mem pkt 0) (operandWord mem pkt 1) (operandWord mem pkt 2)) ↔
      Exact op (operandWord mem pkt 0) (operandWord mem pkt 1) (operandWord mem pkt 2) :=
  (stores_iff fits _).trans (compute_exact_iff three positive reducedA reducedB)

def operandMemory (first second third : Word) : AbstractMemory :=
  { idleMemory.mem with
    pmem := Store.setWord (Store.setWord (Store.setWord (fun _ => 0) 0 first) 8 second) 16 third }

theorem operandMemory_words (first second third : Word) :
    (operandMemory first second third).pmem.word 0 = first ∧ (operandMemory first second third).pmem.word 8 = second ∧
      (operandMemory first second third).pmem.word 16 = third := by
  refine ⟨?_, ?_, ?_⟩ <;> simp [operandMemory, Store.word_setWord_disjoint]

def ternaryPacket (op : ImcOp) : Packet := Isa.imcPacket 1 op [0, 8, 16, 24]

theorem ternaryPacket_fits {op : ImcOp} (three : arity op = 3) (first second third : Word) :
    Fits op (operandMemory first second third) (ternaryPacket op) where
  long := by
    rw [three]
    exact Nat.le_refl _
  backed position bound := by
    rw [three] at bound
    match position, bound with
    | 0, _ | 1, _ | 2, _ | 3, _ => rfl

/-- With the largest modulus the sum of the largest operands wraps, and is off by one. -/
theorem largest_sum_wrong : ¬∀ (op : ImcOp) (mem : AbstractMemory) (pkt : Packet), arity op = 3 → Fits op mem pkt →
    1 ≤ operandWord mem pkt 2 → operandWord mem pkt 0 < operandWord mem pkt 2 →
    operandWord mem pkt 1 < operandWord mem pkt 2 →
    Stores op mem pkt (integer op (operandWord mem pkt 0) (operandWord mem pkt 1) (operandWord mem pkt 2)) := by
  intro claimed
  have stores := claimed .addmod (operandMemory (-2) (-2) (-1)) (ternaryPacket .addmod) rfl (ternaryPacket_fits rfl _ _ _)
    (by decide) (by decide) (by decide)
  rw [stores_iff (ternaryPacket_fits rfl _ _ _), result] at stores
  have exact := (compute_exact_iff rfl (by decide) (by decide) (by decide)).mp stores
  exact absurd exact (by decide)

theorem middle_sum_exact : Stores .addmod (operandMemory 3 5 7) (ternaryPacket .addmod) 1 :=
  (stored_exact_iff rfl (ternaryPacket_fits rfl 3 5 7) (by decide) (by decide) (by decide)).mpr (by decide)

end ImcGem5.Mem.Proofs.FullWidth

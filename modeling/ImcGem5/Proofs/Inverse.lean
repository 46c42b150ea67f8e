import ImcGem5.Lib.Euclid
import ImcGem5.Proofs.FullWidth

/-! The loop of INVMOD. As long as the modulus fits into an int it is the extended Euclid
loop, and the int temporaries hold what they are given: the first quotient may be cut, but is
multiplied by zero. The loop ends in a division by zero exactly when the operands share a
factor. -/

namespace ImcGem5.Mem.Proofs.Inverse
open Lib Euclid BitVec ImcOp

variable {a n : Nat} {valA valB : Word} {x0 x1 : BitVec 32}

theorem signExtend_setWidth (small : valB.toNat < 2 ^ 31) : (valB.setWidth 32).signExtend 64 = valB := by
  have narrow : (valB.setWidth 32).toNat = valB.toNat := by
    rw [toNat_setWidth, Nat.mod_eq_of_lt (by omega)]
  rw [signExtend_eq_setWidth_of_msb_false]
  · apply eq_of_toNat_eq
    rw [toNat_setWidth, narrow, Nat.mod_eq_of_lt (by omega)]
  · rw [msb_eq_false_iff_two_mul_lt, narrow]
    omega

theorem toInt_setWidth (small : valA.toNat < 2 ^ 31) : (valA.setWidth 32).toInt = valA.toNat := by
  have narrow : (valA.setWidth 32).toNat = valA.toNat := by
    rw [toNat_setWidth, Nat.mod_eq_of_lt (by omega)]
  rw [toInt_eq_toNat_of_lt (by omega), narrow]

theorem bmod_of_natAbs_lt {value : Int} (small : value.natAbs < 2 ^ 31) : value.bmod (2 ^ 32) = value := by
  apply Int.bmod_eq_of_le
  · omega
  · omega

theorem toInt_assigned {q : BitVec 32} (small : (x1.toInt - q.toInt * x0.toInt).natAbs < 2 ^ 31) :
    (x1 - q * x0).toInt = x1.toInt - q.toInt * x0.toInt := by
  rw [toInt_sub, toInt_mul, Int.sub_bmod_bmod, bmod_of_natAbs_lt small]

theorem nonzero_iff : valB = 0 ↔ valB.toNat = 0 := by
  constructor
  · rintro rfl
    rfl
  · intro zero
    exact eq_of_toNat_eq zero

theorem more_iff : (1 : Word) < valA ↔ 1 < valA.toNat := by
  rw [lt_def]
  rfl

theorem loop_inverts (small : n < 2 ^ 31) (boundA : valA.toNat < 2 ^ 31) (boundB : valB.toNat < 2 ^ 31)
    (bezout : Bezout a n valA.toNat valB.toNat x0.toInt x1.toInt) (coprime : Nat.gcd valA.toNat valB.toNat = 1)
    (positive : 0 < valA.toNat) (reduced : x1.toInt.natAbs < n) :
    ∃ inverse, invmodLoop valA valB x0 x1 = .ok inverse ∧ (1 : Int) ≡ a * inverse.toInt [ZMOD n] ∧
      inverse.toInt.natAbs < n := by
  induction steps : valB.toNat using Nat.strongRecOn generalizing valA valB x0 x1 with
  | ind count ih =>
    rw [invmodLoop]
    by_cases more : (1 : Word) < valA
    · have above := more_iff.mp more
      have nonzero : valB ≠ 0 := by
        intro zero
        rw [nonzero_iff.mp zero, Nat.gcd_zero_right] at coprime
        omega
      have some : 0 < valB.toNat := Nat.pos_of_ne_zero fun zero => nonzero (nonzero_iff.mpr zero)
      rw [if_pos more, if_neg nonzero, signExtend_setWidth boundB]
      have quotient : (valA / valB).toNat = valA.toNat / valB.toNat := toNat_udiv
      have remainder : (valA % valB).toNat = valA.toNat % valB.toNat := toNat_umod
      have quotientInt : ((valA / valB).setWidth 32).toInt = (valA.toNat / valB.toNat : Nat) := by
        rw [toInt_setWidth, quotient]
        rw [quotient]
        exact Nat.lt_of_le_of_lt (Nat.div_le_self _ _) boundA
      have next := bezout.step
      have half := bezout.two_mul_natAbs_le above
      have assigned : (x1 - (valA / valB).setWidth 32 * x0).toInt = x1.toInt - (valA.toNat / valB.toNat : Nat) * x0.toInt := by
        rw [toInt_assigned, quotientInt]
        rw [quotientInt]
        have := next.natAbs_le some
        omega
      have less : valA.toNat % valB.toNat < valB.toNat := Nat.mod_lt _ some
      rw [← assigned, ← remainder] at next
      refine ih (valA % valB).toNat (by omega) boundB (by omega) next ?_ some (by omega) rfl
      rw [remainder, Nat.gcd_comm, ← Nat.gcd_rec, Nat.gcd_comm]
      exact coprime
    · rw [if_neg more]
      refine ⟨x1, rfl, ?_, reduced⟩
      have one : valA.toNat = 1 := by
        rw [more_iff] at more
        omega
      have congruent := bezout.first
      rw [one] at congruent
      exact congruent

structure Inverts (a n r : Nat) : Prop where
  below : r < n
  product : a * r ≡ 1 [MOD n]
  unique : ∀ other < n, a * other ≡ 1 [MOD n] → other = r

theorem Inverts.of_modEq {r : Nat} (below : r < n) (product : (1 : Int) ≡ a * r [ZMOD n]) : Inverts a n r where
  below := below
  product := by
    apply (Int.natCast_modEq_iff).mp
    push_cast
    exact product.symm
  unique := by
    intro other bound inverse
    have same : other ≡ r [MOD n] := by
      have product : a * r ≡ 1 [MOD n] := by
        apply (Int.natCast_modEq_iff).mp
        push_cast
        exact product.symm
      calc other = other * 1 := (Nat.mul_one _).symm
        _ ≡ other * (a * r) [MOD n] := (product.symm.mul_left other)
        _ = a * other * r := by rw [Nat.mul_comm a other, Nat.mul_assoc]
        _ ≡ 1 * r [MOD n] := inverse.mul_right r
        _ = r := Nat.one_mul r
    exact Nat.ModEq.eq_of_lt_of_lt same bound below

theorem corrected_inverts {inverse : BitVec 32} (small : valB.toNat < 2 ^ 31)
    (product : (1 : Int) ≡ a * inverse.toInt [ZMOD valB.toNat]) (bound : inverse.toInt.natAbs < valB.toNat) :
    Inverts a valB.toNat ((if inverse.slt 0 then inverse + valB.setWidth 32 else inverse).signExtend 64).toNat := by
  have modulus := toInt_setWidth small
  have shifted : inverse.toInt < 0 → (inverse + valB.setWidth 32).toInt = inverse.toInt + valB.toNat := by
    intro negative
    rw [toInt_add, modulus, bmod_of_natAbs_lt]
    omega
  have corrected : (if inverse.slt 0 then inverse + valB.setWidth 32 else inverse).toInt =
      if inverse.toInt < 0 then inverse.toInt + valB.toNat else inverse.toInt := by
    by_cases negative : inverse.toInt < 0
    · have below : inverse.slt 0 = true := by simpa [slt_iff_toInt_lt] using negative
      rw [if_pos below, if_pos negative, shifted negative]
    · have above : ¬inverse.slt 0 = true := by simpa [slt_iff_toInt_lt] using negative
      rw [if_neg above, if_neg negative]
  generalize (if inverse.slt 0 then inverse + valB.setWidth 32 else inverse) = last at corrected
  have extended : (last.signExtend 64).toInt = last.toInt := toInt_signExtend_of_le (by decide)
  have cond := toInt_eq_toNat_cond (last.signExtend 64)
  have value : ((last.signExtend 64).toNat : Int) = if inverse.toInt < 0 then inverse.toInt + valB.toNat else inverse.toInt := by
    split at cond <;> split at corrected <;> omega
  apply Inverts.of_modEq
  · split at value <;> omega
  · rw [value]
    split
    · have same : (a : Int) * (inverse.toInt + valB.toNat) ≡ a * inverse.toInt [ZMOD valB.toNat] :=
        Int.add_modEq_right.mul_left _
      exact product.trans same.symm
    · exact product

theorem invmod_inverts (positive : 1 ≤ valA.toNat) (large : 2 ≤ valB.toNat) (coprime : Nat.gcd valA.toNat valB.toNat = 1)
    (narrow : valA.toNat = 1 ∨ valB.toNat < 2 ^ 31) :
    ∃ value, invmodResult valA valB = .ok value ∧ Inverts valA.toNat valB.toNat value.toNat := by
  have notOne : valB ≠ 1 := by
    rintro rfl
    exact absurd large (by decide)
  rw [invmodResult, if_neg notOne]
  by_cases more : (1 : Word) < valA
  · have above := more_iff.mp more
    have small : valB.toNat < 2 ^ 31 := by omega
    have nonzero : valB ≠ 0 := by
      rw [Ne, nonzero_iff]
      omega
    have remainder : (valA % valB).toNat = valA.toNat % valB.toNat := toNat_umod
    have less : valA.toNat % valB.toNat < valB.toNat := Nat.mod_lt _ (by omega)
    -- the first quotient is multiplied by x0 = 0, whatever an int makes of it
    have cut : (1 : BitVec 32) - (valA / valB).setWidth 32 * 0 = 1 := by simp
    have bezout : Bezout valA.toNat valB.toNat valB.toNat (valA % valB).toNat (1 : BitVec 32).toInt (0 : BitVec 32).toInt := by
      rw [remainder]
      simpa using (bezout_initial valA.toNat valB.toNat).step
    obtain ⟨_, ran, product, bound⟩ := loop_inverts small small (by omega) bezout
      (by rw [remainder, Nat.gcd_comm, ← Nat.gcd_rec, Nat.gcd_comm]; exact coprime) (by omega) (by simp; omega)
    refine ⟨_, ?_, corrected_inverts small product bound⟩
    rw [invmodLoop, if_pos more, if_neg nonzero, signExtend_setWidth small, cut, ran]
    rfl
  · have one : valA.toNat = 1 := by
      rw [more_iff] at more
      omega
    have word : (1 : Word).toNat = 1 := rfl
    refine ⟨1, ?_, ?_⟩
    · rw [invmodLoop, if_neg more]
      rfl
    · rw [one, word]
      exact Inverts.of_modEq large (Int.ModEq.refl _)

theorem invmod_from_int {value : Word} (computed : invmodResult valA valB = .ok value) :
    value.toNat < 2 ^ 31 ∨ 2 ^ 64 - 2 ^ 31 ≤ value.toNat := by
  rw [invmodResult] at computed
  split at computed
  · cases computed
    exact .inl (by decide)
  · obtain ⟨x1, _, computed⟩ := of_bind computed
    cases computed
    generalize (if x1.slt 0 then x1 + valB.setWidth 32 else x1) = last
    have extended : (last.signExtend 64).toInt = last.toInt := toInt_signExtend_of_le (by decide)
    have low := le_toInt last
    have high := toInt_lt (x := last)
    have cond := toInt_eq_toNat_cond (last.signExtend 64)
    split at cond <;> omega

section
variable {mem : AbstractMemory} {pkt : Packet}

/-- The inverse of coprime words is stored when the modulus fits into an int, and always for
the word 1; an inverse that an int cannot hold is never stored. -/
theorem inverse_stored (fits : Fits .invmod mem pkt) (positive : 1 ≤ operandWord mem pkt 0)
    (large : 2 ≤ operandWord mem pkt 1) (coprime : Nat.gcd (operandWord mem pkt 0) (operandWord mem pkt 1) = 1) :
    (operandWord mem pkt 0 = 1 ∨ operandWord mem pkt 1 < 2 ^ 31 →
      ∃ r : Nat, Stores .invmod mem pkt r ∧ Inverts (operandWord mem pkt 0) (operandWord mem pkt 1) r) ∧
    ∀ r : Nat, Inverts (operandWord mem pkt 0) (operandWord mem pkt 1) r → 2 ^ 31 ≤ r → r < 2 ^ 64 - 2 ^ 31 →
      ¬Stores .invmod mem pkt r := by
  constructor
  · intro narrow
    obtain ⟨value, computed, inverts⟩ := invmod_inverts positive large coprime narrow
    exact ⟨value.toNat, (stores_iff fits _).mpr ⟨value, computed, rfl⟩, inverts⟩
  · intro r inverts low high
    rw [stores_iff fits]
    rintro ⟨value, computed, _⟩
    obtain narrow | negative := invmod_from_int computed
    · omega
    · omega

end

def binaryPacket (op : ImcOp) : Packet := Isa.imcPacket 1 op [0, 8, 16]

theorem binaryPacket_fits {op : ImcOp} (two : arity op = 2) (first second : Word) :
    Fits op (FullWidth.operandMemory first second 0) (binaryPacket op) where
  long := by
    rw [two]
    exact Nat.le_refl _
  backed position bound := by
    rw [two] at bound
    match position, bound with
    | 0, _ | 1, _ | 2, _ => rfl

/-- Modulo 2^32 the loop ends after one step: the modulus becomes zero in an int. -/
theorem inverse_of_three_lost : ¬∀ (mem : AbstractMemory) (pkt : Packet), Fits .invmod mem pkt →
    1 ≤ operandWord mem pkt 0 → 2 ≤ operandWord mem pkt 1 →
    Nat.gcd (operandWord mem pkt 0) (operandWord mem pkt 1) = 1 →
    ∃ r : Nat, Stores .invmod mem pkt r ∧ Inverts (operandWord mem pkt 0) (operandWord mem pkt 1) r := by
  intro claimed
  have fits := @binaryPacket_fits .invmod rfl 3 (2 ^ 32)
  obtain ⟨r, stores, inverts⟩ := claimed _ _ fits (by decide) (by decide) (by decide)
  obtain ⟨value, computed, same⟩ := (stores_iff fits _).mp stores
  have zero : invmodResult 3 (2 ^ 32) = .ok 0 := by
    rw [invmodResult, if_neg (by decide), invmodLoop, if_pos (by decide), if_neg (by decide), invmodLoop, if_neg (by decide)]
    rfl
  have value_zero : value = 0 := Except.ok.inj (computed.symm.trans zero)
  have product := inverts.product
  rw [show r = 0 by rw [value_zero] at same; exact_mod_cast same.symm] at product
  exact absurd product (by decide)

theorem inverse_of_three : ∃ r : Nat, Stores .invmod (FullWidth.operandMemory 3 7 0) (binaryPacket .invmod) r ∧ Inverts 3 7 r :=
  (inverse_stored (binaryPacket_fits rfl 3 7) (by decide) (by decide) (by decide)).1 (.inr (by decide))

/-- What the loop gives to its int temporaries, before any of it is cut: the quotient, t
twice, the product, x0 and x1. -/
def temporaries (valA valB : Word) (x0 x1 : BitVec 32) : List Int :=
  if 1 < valA then
    if valB = 0 then []
    else
      let q := (valA / valB).setWidth 32
      [((valA.toNat / valB.toNat : Nat) : Int), (valB.toNat : Int), x0.toInt, q.toInt * x0.toInt, x1.toInt - q.toInt * x0.toInt, x0.toInt] ++
        temporaries ((valB.setWidth 32).signExtend 64) (valA % valB) (x1 - q * x0) x0
  else []
termination_by valB.toNat
decreasing_by
  rename_i positive
  have nonzero : valB.toNat ≠ 0 := fun same => positive (BitVec.eq_of_toNat_eq same)
  rw [BitVec.toNat_umod]
  exact Nat.mod_lt _ (Nat.pos_of_ne_zero nonzero)

def IsInt (value : Int) : Prop := -(2 ^ 31) ≤ value ∧ value < 2 ^ 31

theorem product_le {x0 x1 : Int} (signs : 0 ≤ x0 ∧ x1 ≤ 0 ∨ x0 ≤ 0 ∧ 0 ≤ x1) (q : Nat) :
    ((q : Int) * x0).natAbs ≤ (x1 - q * x0).natAbs := by
  rw [natAbs_sub_mul signs, Int.natAbs_mul, Int.natAbs_natCast]
  exact Nat.le_add_left _ _

theorem temporaries_fit (small : n < 2 ^ 31) (boundA : valA.toNat < 2 ^ 31) (boundB : valB.toNat < 2 ^ 31)
    (bezout : Bezout a n valA.toNat valB.toNat x0.toInt x1.toInt) : ∀ value ∈ temporaries valA valB x0 x1, IsInt value := by
  induction steps : valB.toNat using Nat.strongRecOn generalizing valA valB x0 x1 with
  | ind count ih =>
    intro value member
    rw [temporaries] at member
    by_cases more : (1 : Word) < valA
    · rw [if_pos more] at member
      by_cases zero : valB = 0
      · rw [if_pos zero] at member
        cases member
      · rw [if_neg zero, signExtend_setWidth boundB] at member
        have above := more_iff.mp more
        have some : 0 < valB.toNat := Nat.pos_of_ne_zero fun empty => zero (nonzero_iff.mpr empty)
        have less : valA.toNat % valB.toNat < valB.toNat := Nat.mod_lt _ some
        have share : valA.toNat / valB.toNat ≤ valA.toNat := Nat.div_le_self _ _
        have remainder : (valA % valB).toNat = valA.toNat % valB.toNat := toNat_umod
        have quotient : (valA / valB).toNat = valA.toNat / valB.toNat := toNat_udiv
        have quotientInt : ((valA / valB).setWidth 32).toInt = (valA.toNat / valB.toNat : Nat) := by
          rw [toInt_setWidth (by omega), quotient]
        have next := bezout.step
        have coefficient := bezout.natAbs_le (by omega)
        have nextCoefficient := next.natAbs_le some
        have product := product_le bezout.signs (valA.toNat / valB.toNat)
        have assigned : (x1 - (valA / valB).setWidth 32 * x0).toInt = x1.toInt - (valA.toNat / valB.toNat : Nat) * x0.toInt := by
          rw [toInt_assigned, quotientInt]
          rw [quotientInt]
          omega
        rw [← assigned, ← remainder] at next
        obtain now | later := List.mem_append.mp member
        · simp only [quotientInt, List.mem_cons, List.not_mem_nil, or_false] at now
          unfold IsInt
          obtain rfl | rfl | rfl | rfl | rfl | rfl := now <;> omega
        · exact ih (valA % valB).toNat (by omega) boundB (by omega) next rfl value later
    · rw [if_neg more] at member
      cases member

theorem product_is_one (small : valA.toNat < 2 ^ 31) (large : 2 ≤ valB.toNat) (narrow : valB.toNat < 2 ^ 31) {value : Word}
    (inverts : Inverts valA.toNat valB.toNat value.toNat) : mulmodResult valA value valB = .ok 1 := by
  have below := inverts.below
  have bound : valA.toNat * value.toNat ≤ 2 ^ 31 * 2 ^ 31 := Nat.mul_le_mul (by omega) (by omega)
  have uncut : valB.toNat ∣ 2 ^ 64 * (valA.toNat * value.toNat / 2 ^ 64) := by
    rw [Nat.div_eq_of_lt (by omega)]
    exact Nat.dvd_zero _
  obtain ⟨product, computed, exact⟩ := (FullWidth.mulmod_exact_iff (by omega)).mpr uncut
  rw [computed]
  congr
  apply eq_of_toNat_eq
  rw [exact, inverts.product]
  exact Nat.mod_eq_of_lt large

section
variable {mem : AbstractMemory} {pkt : Packet}

/-- For words that fit into an int, the product of a number with its stored inverse is stored
as one, and no temporary of the loop overflows. -/
theorem inverse_times_number (fits : Fits .invmod mem pkt) (positive : 1 ≤ operandWord mem pkt 0)
    (small : operandWord mem pkt 0 < 2 ^ 31) (large : 2 ≤ operandWord mem pkt 1) (narrow : operandWord mem pkt 1 < 2 ^ 31)
    (coprime : Nat.gcd (operandWord mem pkt 0) (operandWord mem pkt 1) = 1) :
    (∃ mid effects, AbstractMemory.handler .invmod mem pkt = .ok (mid, effects) ∧
      ∀ later product, Fits .mulmod later product → operandWord later product 0 = operandWord mem pkt 0 →
        operandWord later product 1 = operandWord mid pkt 2 → operandWord later product 2 = operandWord mem pkt 1 →
        Stores .mulmod later product 1) ∧
    ∀ value ∈ temporaries (mem.pmem.word (address pkt 0).toNat) (mem.pmem.word (address pkt 1).toNat) 0 1, IsInt value := by
  constructor
  · obtain ⟨value, computed, inverts⟩ := invmod_inverts positive large coprime (.inr narrow)
    obtain ⟨mid, effects, ran, word⟩ := (stores_iff fits value.toNat).mpr ⟨value, computed, rfl⟩
    refine ⟨mid, effects, ran, fun later product fitsProduct number inverse modulus => ?_⟩
    have sameNumber := eq_of_toNat_eq number
    have sameModulus := eq_of_toNat_eq modulus
    have sameInverse : later.pmem.word (address product 1).toNat = value := by
      apply eq_of_toNat_eq
      exact inverse.trans (Int.ofNat.inj word)
    rw [stores_iff fitsProduct, result, compute, sameNumber, sameModulus, sameInverse]
    exact ⟨1, product_is_one small large narrow inverts, rfl⟩
  · exact temporaries_fit narrow small narrow (bezout_initial _ _)

end

theorem three_times_inverse : ∃ mid effects,
    AbstractMemory.handler .invmod (FullWidth.operandMemory 3 7 0) (binaryPacket .invmod) = .ok (mid, effects) ∧
      Stores .mulmod (FullWidth.operandMemory 3 (mid.pmem.word 16) 7) (FullWidth.ternaryPacket .mulmod) 1 := by
  obtain ⟨⟨mid, effects, ran, times⟩, _⟩ := inverse_times_number (@binaryPacket_fits .invmod rfl 3 7) (by decide) (by decide)
    (by decide) (by decide) (by decide)
  obtain ⟨first, second, third⟩ := FullWidth.operandMemory_words 3 (mid.pmem.word 16) 7
  refine ⟨mid, effects, ran, times _ _ (FullWidth.ternaryPacket_fits rfl _ _ _) ?_ ?_ ?_⟩
  · exact congrArg BitVec.toNat first
  · exact congrArg BitVec.toNat second
  · exact congrArg BitVec.toNat third

end ImcGem5.Mem.Proofs.Inverse

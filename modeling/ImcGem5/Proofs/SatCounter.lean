import ImcGem5.Base.SatCounter
import Mathlib.Data.Nat.Bitwise
import Mathlib.Order.Lattice

/-! A saturating counter against integers that are clamped after every operation. A shift to the
left is the exception: what it moves out of the container is no longer there to be clamped. -/

namespace ImcGem5.Base.Proofs.SatCounter
open Lib Mem GenericSatCounter
open BitVec (intMin ult_iff_toNat_lt toNat_zero toNat_sub_of_le le_def)

def most (bits : Nat) : Int := 2 ^ bits - 1

def clamp (bits : Nat) (value : Int) : Int := max 0 (min value (most bits))

def clamped (bits : Nat) (initial value : Int) : SatOp → Int
  | .increment => clamp bits (value + 1)
  | .decrement => clamp bits (value - 1)
  | .shiftRight shift => clamp bits (value / 2 ^ shift.toNat)
  | .shiftLeft shift => clamp bits (value * 2 ^ shift.toNat)
  | .add operand => clamp bits (value + operand.toInt)
  | .subtract operand => clamp bits (value - operand.toInt)
  | .saturate => most bits
  | .reset => clamp bits initial

def reference (bits : Nat) (initial : Int) : Int → List SatOp → List Int
  | _, [] => []
  | value, op :: ops => clamped bits initial value op :: reference bits initial (clamped bits initial value op) ops

/-- Shifts are by less than the width of the container, and operands can be negated. -/
def Legal (T : Container) : SatOp → Prop
  | .shiftRight shift => 0 ≤ shift.toInt ∧ shift.toInt < T.width
  | .shiftLeft shift => 0 ≤ shift.toInt ∧ shift.toInt < T.width
  | .add operand => operand ≠ intMin 64
  | .subtract operand => operand ≠ intMin 64
  | _ => True

instance (T : Container) : DecidablePred (Legal T)
  | .increment | .decrement | .saturate | .reset => .isTrue trivial
  | .shiftRight _ | .shiftLeft _ => inferInstanceAs (Decidable (_ ∧ _))
  | .add _ | .subtract _ => inferInstanceAs (Decidable (_ ≠ _))

variable {T : Container}

/-- A shift to the left moves no bit out of the container, or else moves one to where it is in the
container and past the bits of the counter. -/
def Clear (bits : Nat) (sat : GenericSatCounter T) : SatOp → Prop
  | .shiftLeft shift => (∀ i, sat.counter.getLsbD i = true → i + shift.toNat < T.width) ∨
      ∃ i, sat.counter.getLsbD i = true ∧ bits ≤ i + shift.toNat ∧ i + shift.toNat < T.width
  | _ => True

structure Sound (bits : Nat) (sat : GenericSatCounter T) : Prop where
  fits : bits ≤ T.width
  maximum : sat.maxVal.toNat = 2 ^ bits - 1
  initial : sat.initialVal.toNat < 2 ^ bits
  bound : sat.counter.toNat < 2 ^ bits

section Shifts

variable {bits width counter shift : Nat}

theorem bits_stay_iff : (∀ i, counter.testBit i = true → i + shift < width) ↔ counter * 2 ^ shift < 2 ^ width := by
  constructor
  · intro stays
    apply Nat.lt_pow_two_of_testBit
    intro j late
    by_contra set
    rw [Bool.not_eq_false, Nat.testBit_mul_two_pow, Bool.and_eq_true, decide_eq_true_eq] at set
    have inside := stays _ set.2
    omega
  · intro small i set
    by_contra late
    have moved : (counter * 2 ^ shift).testBit (i + shift) = true := by
      rw [Nat.testBit_mul_two_pow, Bool.and_eq_true, decide_eq_true_eq, Nat.add_sub_cancel]
      exact ⟨Nat.le_add_left _ _, set⟩
    rw [Nat.testBit_lt_two_pow (small.trans_le (Nat.pow_le_pow_right (by decide) (not_lt.mp late)))] at moved
    cases moved

theorem bit_left_iff : (∃ i, counter.testBit i = true ∧ bits ≤ i + shift ∧ i + shift < width) ↔
    2 ^ bits ≤ counter * 2 ^ shift % 2 ^ width := by
  constructor
  · rintro ⟨i, set, past, inside⟩
    refine (Nat.pow_le_pow_right (by decide) past).trans (Nat.ge_two_pow_of_testBit ?_)
    rw [Nat.testBit_mod_two_pow, Nat.testBit_mul_two_pow, Nat.add_sub_cancel, set]
    simp [inside]
  · intro large
    obtain ⟨j, past, set⟩ := Nat.exists_ge_and_testBit_of_ge_two_pow large
    rw [Nat.testBit_mod_two_pow, Nat.testBit_mul_two_pow, Bool.and_eq_true, Bool.and_eq_true, decide_eq_true_eq, decide_eq_true_eq] at set
    obtain ⟨inside, above, set⟩ := set
    refine ⟨j - shift, set, ?_, ?_⟩
    · rwa [Nat.sub_add_cancel above]
    · rwa [Nat.sub_add_cancel above]

theorem lost_ne_most (lost : 2 ^ width ≤ counter * 2 ^ shift) (bound : counter < 2 ^ bits) (fits : bits ≤ width) :
    counter * 2 ^ shift % 2 ^ width ≠ 2 ^ bits - 1 := by
  have wide := Nat.pow_le_pow_right (n := 2) (by decide) fits
  have shifted : shift ≠ 0 := by
    rintro rfl
    rw [pow_zero, mul_one] at lost
    exact absurd (lost.trans_lt bound) (not_lt.mpr wide)
  have some : bits ≠ 0 := by
    rintro rfl
    rw [Nat.lt_one_iff.mp bound, zero_mul] at lost
    exact absurd lost (not_le.mpr (Nat.two_pow_pos width))
  have narrow : width ≠ 0 := by omega
  obtain ⟨s, rfl⟩ := Nat.exists_eq_succ_of_ne_zero shifted
  obtain ⟨b, rfl⟩ := Nat.exists_eq_succ_of_ne_zero some
  obtain ⟨w, rfl⟩ := Nat.exists_eq_succ_of_ne_zero narrow
  rw [pow_succ, pow_succ 2 w, pow_succ 2 b, ← mul_assoc, Nat.mul_mod_mul_right]
  omega

end Shifts

section Steps

variable {bits : Nat} {sat : GenericSatCounter T} {value : Int}

section

variable (sound : Sound bits sat)
include sound

theorem Sound.most : most bits = sat.maxVal.toNat := by
  have positive := Nat.two_pow_pos bits
  have cast : ((2 ^ bits : Nat) : Int) = 2 ^ bits := Int.natCast_pow 2 bits
  rw [SatCounter.most, sound.maximum]
  omega

theorem Sound.counter_le : sat.counter.toNat ≤ sat.maxVal.toNat := by
  rw [sound.maximum]
  exact Nat.le_sub_one_of_lt sound.bound

theorem Sound.initial_le : sat.initialVal.toNat ≤ sat.maxVal.toNat := by
  rw [sound.maximum]
  exact Nat.le_sub_one_of_lt sound.initial

theorem Sound.clamp (value : Int) : clamp bits value = max 0 (min value sat.maxVal.toNat) := by
  rw [SatCounter.clamp, sound.most]

theorem Sound.put {counter : BitVec T.width} (below : counter.toNat ≤ sat.maxVal.toNat) : Sound bits { sat with counter } := by
  refine ⟨sound.fits, sound.maximum, sound.initial, ?_⟩
  have positive := Nat.two_pow_pos bits
  rw [sound.maximum] at below
  change counter.toNat < 2 ^ bits
  omega

end

theorem width_pos (T : Container) : 1 < T.width := by cases T <;> decide

theorem one_toNat (T : Container) : (1#T.width).toNat = 1 := by
  rw [BitVec.toNat_one (Nat.zero_lt_of_lt (width_pos T))]

theorem increment_spec (sound : Sound bits sat) :
    Sound bits sat.increment ∧ (sat.increment.counter.toNat : Int) = clamp bits (sat.counter.toNat + 1) := by
  have below := sound.counter_le
  rw [sound.clamp, increment]
  split
  next less =>
    rw [ult_iff_toNat_lt] at less
    have next : (sat.counter + 1#T.width).toNat = sat.counter.toNat + 1 := by
      rw [BitVec.toNat_add, one_toNat, Nat.mod_eq_of_lt (by omega)]
    refine ⟨sound.put (next.trans_le less), ?_⟩
    rw [next]
    omega
  next full =>
    rw [ult_iff_toNat_lt] at full
    refine ⟨sound, ?_⟩
    omega

theorem decrement_spec (sound : Sound bits sat) :
    Sound bits sat.decrement ∧ (sat.decrement.counter.toNat : Int) = clamp bits (sat.counter.toNat - 1) := by
  have below := sound.counter_le
  rw [sound.clamp, decrement]
  split
  next some =>
    rw [ult_iff_toNat_lt, toNat_zero] at some
    have next : (sat.counter - 1#T.width).toNat = sat.counter.toNat - 1 := by
      rw [toNat_sub_of_le, one_toNat]
      rw [le_def, one_toNat]
      exact some
    refine ⟨sound.put (by omega), ?_⟩
    rw [next]
    omega
  next none =>
    rw [ult_iff_toNat_lt, toNat_zero] at none
    refine ⟨sound, ?_⟩
    omega

theorem compared_eq {operand : BitVec 64} (positive : 0 ≤ operand.toInt) : compared T operand = operand.toInt := by
  rw [compared]
  split
  · rw [BitVec.toInt_eq_toNat_cond] at positive ⊢
    split at positive
    · rw [if_pos ‹_›]
    · omega
  · rfl

theorem difference_eq {x y : BitVec T.width} (below : y.toNat ≤ x.toNat) : difference x y = x.toNat - y.toNat := by
  rw [difference]
  split
  · rfl
  · rw [toNat_sub_of_le (BitVec.le_def.mpr below)]
    omega

theorem operand_toNat {operand : BitVec 64} (positive : 0 ≤ operand.toInt) (small : operand.toInt < 2 ^ T.width) :
    ((operand.setWidth T.width).toNat : Int) = operand.toInt := by
  have same := BitVec.toInt_eq_toNat_of_msb (BitVec.msb_eq_false_iff_two_mul_lt.mpr (by
    rw [BitVec.toInt_eq_toNat_cond] at positive
    split at positive
    · assumption
    · omega))
  rw [BitVec.toNat_setWidth, Nat.mod_eq_of_lt]
  · exact same.symm
  · rw [same] at small
    exact_mod_cast small

theorem addPositive_spec (sound : Sound bits sat) {operand : BitVec 64} (positive : 0 ≤ operand.toInt) :
    Sound bits (sat.addPositive operand) ∧
      ((sat.addPositive operand).counter.toNat : Int) = clamp bits (sat.counter.toNat + operand.toInt) := by
  have below := sound.counter_le
  rw [sound.clamp, addPositive, compared_eq positive, difference_eq below]
  split
  next room =>
    have cast : ((2 ^ T.width : Nat) : Int) = 2 ^ T.width := Int.natCast_pow 2 T.width
    have taken : ((operand.setWidth T.width).toNat : Int) = operand.toInt := operand_toNat positive (by omega)
    have next : (sat.counter + operand.setWidth T.width).toNat = sat.counter.toNat + (operand.setWidth T.width).toNat := by
      rw [BitVec.toNat_add, Nat.mod_eq_of_lt (by omega)]
    refine ⟨sound.put (by omega), ?_⟩
    rw [next]
    omega
  next full =>
    refine ⟨sound.put le_rfl, ?_⟩
    dsimp only
    omega

theorem subtractPositive_spec (sound : Sound bits sat) {operand : BitVec 64} (positive : 0 ≤ operand.toInt) :
    Sound bits (sat.subtractPositive operand) ∧
      ((sat.subtractPositive operand).counter.toNat : Int) = clamp bits (sat.counter.toNat - operand.toInt) := by
  have below := sound.counter_le
  rw [sound.clamp, subtractPositive, compared_eq positive]
  split
  next room =>
    have cast : ((2 ^ T.width : Nat) : Int) = 2 ^ T.width := Int.natCast_pow 2 T.width
    have taken : ((operand.setWidth T.width).toNat : Int) = operand.toInt := operand_toNat positive (by omega)
    have next : (sat.counter - operand.setWidth T.width).toNat = sat.counter.toNat - (operand.setWidth T.width).toNat := by
      rw [toNat_sub_of_le]
      rw [le_def]
      omega
    refine ⟨sound.put (by omega), ?_⟩
    rw [next]
    omega
  next empty =>
    refine ⟨sound.put (by simp), ?_⟩
    rw [toNat_zero]
    omega

theorem neg_operand {operand : BitVec 64} (legal : operand ≠ intMin 64) : (-operand).toInt = -operand.toInt :=
  BitVec.toInt_neg_of_ne_intMin legal

theorem add_spec (sound : Sound bits sat) {operand : BitVec 64} (legal : operand ≠ intMin 64) :
    Sound bits (sat.add operand) ∧ ((sat.add operand).counter.toNat : Int) = clamp bits (sat.counter.toNat + operand.toInt) := by
  rw [add]
  split
  next positive => exact addPositive_spec sound positive
  next negative =>
    have spec := @subtractPositive_spec T bits sat sound (-operand) (by rw [neg_operand legal]; omega)
    rwa [neg_operand legal, sub_neg_eq_add] at spec

theorem subtract_spec (sound : Sound bits sat) {operand : BitVec 64} (legal : operand ≠ intMin 64) :
    Sound bits (sat.subtract operand) ∧ ((sat.subtract operand).counter.toNat : Int) = clamp bits (sat.counter.toNat - operand.toInt) := by
  rw [subtract]
  split
  next positive => exact subtractPositive_spec sound positive
  next negative =>
    have spec := @addPositive_spec T bits sat sound (-operand) (by rw [neg_operand legal]; omega)
    rwa [neg_operand legal, ← sub_eq_add_neg] at spec

variable {shift : BitVec 32}

theorem require_shift (positive : 0 ≤ shift.toInt) : (!shift.slt 0) = true := by
  rw [Bool.not_eq_true', BitVec.slt, decide_eq_false_iff_not]
  exact not_lt.mpr positive

theorem shiftRight_spec (sound : Sound bits sat) (positive : 0 ≤ shift.toInt) :
    ∃ next, sat.shiftRight shift = .ok next ∧ Sound bits next ∧ next.initialVal = sat.initialVal ∧
      (next.counter.toNat : Int) = clamp bits (sat.counter.toNat / 2 ^ shift.toNat) := by
  have below := sound.counter_le
  have shifted : (sat.counter >>> shift.toNat).toNat = sat.counter.toNat / 2 ^ shift.toNat := by
    rw [BitVec.toNat_ushiftRight, Nat.shiftRight_eq_div_pow]
  have less : sat.counter.toNat / 2 ^ shift.toNat ≤ sat.counter.toNat := Nat.div_le_self _ _
  have ran : sat.shiftRight shift = .ok { sat with counter := sat.counter >>> shift.toNat } := by
    rw [GenericSatCounter.shiftRight, require_shift positive]
    rfl
  refine ⟨_, ran, sound.put (by omega), rfl, ?_⟩
  have cast : ((sat.counter.toNat / 2 ^ shift.toNat : Nat) : Int) = sat.counter.toNat / 2 ^ shift.toNat := by push_cast; rfl
  rw [sound.clamp, shifted, ← cast]
  omega

theorem shiftLeft_spec (sound : Sound bits sat) (positive : 0 ≤ shift.toInt) :
    ∃ next, sat.shiftLeft shift = .ok next ∧ Sound bits next ∧ next.initialVal = sat.initialVal ∧
      ((next.counter.toNat : Int) = clamp bits (sat.counter.toNat * 2 ^ shift.toNat) ↔ Clear bits sat (.shiftLeft shift)) := by
  have shifted : (sat.counter <<< shift.toNat).toNat = sat.counter.toNat * 2 ^ shift.toNat % 2 ^ T.width := by
    rw [BitVec.toNat_shiftLeft, Nat.shiftLeft_eq]
  have ran : sat.shiftLeft shift = .ok { sat with
      counter := if sat.maxVal.ult (sat.counter <<< shift.toNat) then sat.maxVal else sat.counter <<< shift.toNat } := by
    rw [GenericSatCounter.shiftLeft, require_shift positive]
    rfl
  refine ⟨_, ran, ?_, rfl, ?_⟩
  · apply sound.put
    split
    · exact le_rfl
    next fits => rwa [ult_iff_toNat_lt, not_lt] at fits
  have cast : ((sat.counter.toNat * 2 ^ shift.toNat : Nat) : Int) = sat.counter.toNat * 2 ^ shift.toNat := by push_cast; rfl
  have maximum := sound.maximum
  simp only [Clear, ← BitVec.testBit_toNat]
  rw [bits_stay_iff, bit_left_iff, sound.clamp, ← cast]
  by_cases stays : sat.counter.toNat * 2 ^ shift.toNat < 2 ^ T.width
  · refine iff_of_true ?_ (.inl stays)
    rw [Nat.mod_eq_of_lt stays] at shifted
    split
    next above =>
      rw [ult_iff_toNat_lt] at above
      omega
    next fits =>
      rw [ult_iff_toNat_lt] at fits
      omega
  · have lost := lost_ne_most (not_lt.mp stays) sound.bound sound.fits
    rw [or_iff_right stays, ← shifted]
    split
    next above =>
      rw [ult_iff_toNat_lt] at above
      omega
    next fits =>
      rw [ult_iff_toNat_lt] at fits
      omega

theorem apply_spec (sound : Sound bits sat) {op : SatOp} (legal : Legal T op) :
    ∃ next, sat.apply op = .ok next ∧ Sound bits next ∧ next.initialVal = sat.initialVal ∧
      ((next.counter.toNat : Int) = clamped bits sat.initialVal.toNat sat.counter.toNat op ↔ Clear bits sat op) := by
  cases op with
  | increment =>
    obtain ⟨kept, same⟩ := increment_spec sound
    refine ⟨_, rfl, kept, ?_, iff_of_true same trivial⟩
    rw [increment]
    split <;> rfl
  | decrement =>
    obtain ⟨kept, same⟩ := decrement_spec sound
    refine ⟨_, rfl, kept, ?_, iff_of_true same trivial⟩
    rw [decrement]
    split <;> rfl
  | shiftRight =>
    obtain ⟨next, ran, kept, initial, same⟩ := shiftRight_spec sound legal.1
    exact ⟨next, ran, kept, initial, iff_of_true same trivial⟩
  | shiftLeft => exact shiftLeft_spec sound legal.1
  | add =>
    obtain ⟨kept, same⟩ := add_spec sound legal
    refine ⟨_, rfl, kept, ?_, iff_of_true same trivial⟩
    simp only [add, addPositive, subtractPositive]
    split <;> split <;> rfl
  | subtract =>
    obtain ⟨kept, same⟩ := subtract_spec sound legal
    refine ⟨_, rfl, kept, ?_, iff_of_true same trivial⟩
    simp only [subtract, addPositive, subtractPositive]
    split <;> split <;> rfl
  | saturate => exact ⟨_, rfl, sound.put le_rfl, rfl, iff_of_true sound.most.symm trivial⟩
  | reset =>
    have below := sound.initial_le
    refine ⟨_, rfl, sound.put below, rfl, iff_of_true ?_ trivial⟩
    rw [clamped, sound.clamp]
    dsimp only [GenericSatCounter.reset]
    omega

end Steps

section Runs

variable {bits : BitVec 32} {initialVal : BitVec T.width} {sat : GenericSatCounter T}

theorem make_spec (small : bits.toNat < 64) (made : make T bits initialVal = .ok sat) :
    Sound bits.toNat sat ∧ sat.counter = initialVal ∧ sat.initialVal = initialVal := by
  obtain ⟨fits, made⟩ := of_panicIf made
  obtain ⟨bound, made⟩ := of_panicIf made
  cases made
  have fits : bits.toNat ≤ T.width := not_lt.mp (of_decide_eq_false fits)
  have positive := Nat.two_pow_pos bits.toNat
  have wide := Nat.pow_le_pow_right (n := 2) (by decide) fits
  have maximum : (((1#64 <<< (bits.toNat % 64)) - 1).setWidth T.width).toNat = 2 ^ bits.toNat - 1 := by
    have word := Nat.pow_lt_pow_right (a := 2) (by decide) small
    have power : (1#64 <<< (bits.toNat % 64)).toNat = 2 ^ bits.toNat := by
      rw [BitVec.toNat_shiftLeft, Nat.mod_eq_of_lt small, Nat.shiftLeft_eq, BitVec.toNat_one (by decide), one_mul, Nat.mod_eq_of_lt word]
    rw [BitVec.toNat_setWidth, toNat_sub_of_le, power]
    · exact Nat.mod_eq_of_lt (by change 2 ^ bits.toNat - 1 < _; omega)
    · rw [le_def, power]
      exact positive
  rw [BitVec.ult, maximum, decide_eq_false_iff_not, not_lt] at bound
  have bound := Nat.lt_of_le_sub_one positive bound
  exact ⟨⟨fits, maximum, bound, bound⟩, rfl, rfl⟩

/-- By induction on the operations: they are compared from where the counter is. -/
theorem run_iff {width : Nat} (sound : Sound width sat) {ops : List SatOp} (legal : ∀ op ∈ ops, Legal T op) :
    ∃ final labels, run step sat ops = .ok (final, labels) ∧
      (labels.map (fun value => (value.toNat : Int)) = reference width sat.initialVal.toNat sat.counter.toNat ops ↔
        Each step (Clear width) sat ops) := by
  induction ops generalizing sat with
  | nil => exact ⟨sat, [], rfl, iff_of_true rfl trivial⟩
  | cons op _ ih =>
    obtain ⟨here, others⟩ := List.forall_mem_cons.mp legal
    obtain ⟨next, ran, kept, initial, exact_⟩ := apply_spec sound here
    have taken : step sat op = .ok (next, [next.counter]) := by
      rw [step, ran]
      rfl
    obtain ⟨final, labels, rest, same⟩ := ih kept others
    refine ⟨final, next.counter :: labels, run_cons.mpr ⟨next, [next.counter], labels, taken, rest, rfl⟩, ?_⟩
    rw [initial] at same
    simp only [Each, taken, List.map_cons, reference, List.cons.injEq, ← exact_]
    refine and_congr_right fun equal => ?_
    rw [← equal]
    exact same

/-- The values of a counter are those of clamped integers exactly if every shift to the left is clear. -/
theorem values_clamped_iff (small : bits.toNat < 64) (made : make T bits initialVal = .ok sat) {ops : List SatOp}
    (legal : ∀ op ∈ ops, Legal T op) : ∃ final labels, run step sat ops = .ok (final, labels) ∧
      (labels.map (fun value => (value.toNat : Int)) = reference bits.toNat initialVal.toNat initialVal.toNat ops ↔
        Each step (Clear bits.toNat) sat ops) := by
  obtain ⟨sound, start, initial⟩ := make_spec small made
  have exact_ := run_iff sound legal
  rwa [start, initial] at exact_

def nibble : GenericSatCounter .uint8 := ⟨3, 15, 3⟩

def corners : List SatOp := [.shiftLeft 5, .saturate, .shiftRight 2, .add (-9), .increment, .subtract 40, .reset]

theorem values_clamped_iff_corners : ∃ final labels, run step nibble corners = .ok (final, labels) ∧
    (labels.map (fun value => (value.toNat : Int)) = reference 4 3 3 corners ↔ Each step (Clear 4) nibble corners) :=
  @values_clamped_iff .uint8 4 3 nibble (by decide) rfl corners (by decide)

/-- The only bit of the counter is shifted out of it, and the counter is zero where it should be full. -/
theorem values_not_clamped : make .uint8 8 128 = .ok ⟨128, 255, 128⟩ ∧ (∀ op ∈ [SatOp.shiftLeft 1], Legal .uint8 op) ∧
    run step (⟨128, 255, 128⟩ : GenericSatCounter .uint8) [.shiftLeft 1] = .ok (⟨128, 255, 0⟩, [0]) ∧
    reference 8 128 128 [.shiftLeft 1] = [255] :=
  ⟨rfl, by decide, rfl, by decide⟩

end Runs

end ImcGem5.Base.Proofs.SatCounter

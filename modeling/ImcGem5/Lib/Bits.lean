import Mathlib.Algebra.GroupWithZero.Nat
import Mathlib.Tactic.Common

/-! Bit fields of machine words: a field is written through a mask and read back by
extraction, and a mask test compares fields. -/

namespace ImcGem5.Lib
open BitVec

variable {width : Nat} {length : Nat}

def fieldMask (width start length : Nat) : BitVec width := (BitVec.allOnes length).setWidth width <<< start

@[simp] theorem getLsbD_fieldMask (width start length index : Nat) :
    (fieldMask width start length).getLsbD index =
      (decide (index < width) && decide (start ≤ index) && decide (index < start + length)) := by
  simp only [fieldMask, getLsbD_shiftLeft, getLsbD_setWidth, getLsbD_allOnes]
  rw [Bool.eq_iff_iff]
  simp only [Bool.and_eq_true, Bool.not_eq_true', decide_eq_true_eq, decide_eq_false_iff_not]
  omega

def insertField (word : BitVec width) (start : Nat) {length : Nat} (value : BitVec length) : BitVec width :=
  (word &&& ~~~fieldMask width start length) ||| (value.setWidth width <<< start)

section

variable (word : BitVec width)
include word

theorem getLsbD_insertField (start : Nat) (value : BitVec length) (index : Nat)
    (bound : index < width) : (insertField word start value).getLsbD index =
      if start ≤ index ∧ index < start + length then value.getLsbD (index - start) else word.getLsbD index := by
  simp only [insertField, getLsbD_or, getLsbD_and, getLsbD_not, getLsbD_fieldMask,
    getLsbD_shiftLeft, getLsbD_setWidth, bound, decide_true, Bool.true_and]
  by_cases above : start ≤ index
  · have shifted : index - start < width := by omega
    by_cases below : index < start + length
    · simp [above, below, shifted]
    · have past : value.getLsbD (index - start) = false := getLsbD_of_ge _ _ (by omega)
      simp [above, below, past]
  · have low : index < start := by omega
    simp [above, low]

theorem extract_insertField_same (start : Nat) (value : BitVec length)
    (fits : start + length ≤ width) : (insertField word start value).extractLsb' start length = value := by
  apply eq_of_getLsbD_eq
  intro index inside
  rw [getLsbD_extractLsb', getLsbD_insertField _ _ _ _ (by omega), if_pos (by omega), Nat.add_sub_cancel_left]
  simp [inside]

theorem extract_insertField_other (start : Nat) (value : BitVec length)
    {other size : Nat} (fits : other + size ≤ width) (apart : other + size ≤ start ∨ start + length ≤ other) :
    (insertField word start value).extractLsb' other size = word.extractLsb' other size := by
  apply eq_of_getLsbD_eq
  intro index inside
  rw [getLsbD_extractLsb', getLsbD_insertField _ _ _ _ (by omega), if_neg (by omega), getLsbD_extractLsb']

theorem insertField_insertField (start : Nat) (first second : BitVec length) :
    insertField (insertField word start first) start second = insertField word start second := by
  apply eq_of_getLsbD_eq
  intro index inside
  rw [getLsbD_insertField _ _ _ _ inside, getLsbD_insertField _ _ _ _ inside, getLsbD_insertField _ _ _ _ inside]
  split
  · rfl
  · rfl

end

theorem masked_eq_zero_iff (first second : BitVec width) {start : Nat} (fits : start + length ≤ width) :
    (first ^^^ second) &&& fieldMask width start length = 0 ↔
      first.extractLsb' start length = second.extractLsb' start length := by
  constructor
  · intro same
    apply eq_of_getLsbD_eq
    intro index inside
    have bit := congrArg (fun word => word.getLsbD (start + index)) same
    have bound : start + index < width := by omega
    simp only [getLsbD_and, getLsbD_xor, getLsbD_fieldMask] at bit
    simp only [getLsbD_extractLsb', inside, decide_true, Bool.true_and]
    simpa [bound, inside] using bit
  · intro same
    apply eq_of_getLsbD_eq
    intro index inside
    by_cases inField : start ≤ index ∧ index < start + length
    · have bit := congrArg (fun field => field.getLsbD (index - start)) same
      have position : start + (index - start) = index := by omega
      have before : index - start < length := by omega
      simp only [getLsbD_extractLsb', before, decide_true, Bool.true_and, position] at bit
      simp [bit]
    · have outside : ¬ start ≤ index ∨ ¬ index < start + length := by omega
      rcases outside with low | high
      · simp [low]
      · simp [high]

theorem getLsbD_setBit (word : BitVec width) (bit : Nat) {position : Nat} (inside : position < width) :
    (word ||| BitVec.ofNat width 1 <<< bit).getLsbD position = (word.getLsbD position || decide (bit = position)) := by
  rw [getLsbD_or, ← twoPow_eq, getLsbD_twoPow]
  by_cases same : bit = position
  · simp [same, inside]
  · simp [same]

theorem getLsbD_clearBit (word : BitVec width) (bit : Nat) {position : Nat} (inside : position < width) :
    (word &&& ~~~(BitVec.ofNat width 1 <<< bit)).getLsbD position = (word.getLsbD position && !decide (bit = position)) := by
  rw [getLsbD_and, getLsbD_not, ← twoPow_eq, getLsbD_twoPow]
  by_cases same : bit = position
  · simp [same, inside]
  · simp [same, inside]

end ImcGem5.Lib

import Mathlib.Algebra.GroupWithZero.Nat
import Mathlib.Logic.Function.Iterate
import Mathlib.Tactic.Common

/-! Shift registers whose highest bit is fed back. Each step moves all bits down by one and
adds the lowest bit to the highest one. In as many steps as there are bits every bit of the
start comes by once, so that two successive states far enough on give the start back. -/

namespace ImcGem5.Lib
open BitVec Function

variable {width count : Nat} {next prev : BitVec width → BitVec width} {state other : BitVec width}

def Narrow (count : Nat) (state : BitVec width) : Prop := ∀ index, count ≤ index → state.getLsbD index = false

theorem Narrow.xor (narrow : Narrow count state) (narrow' : Narrow count other) : Narrow count (state ^^^ other) := by
  intro index outside
  rw [getLsbD_xor, narrow index outside, narrow' index outside]
  rfl

theorem Narrow.ext (narrow : Narrow count state) (narrow' : Narrow count other)
    (same : ∀ index < count, state.getLsbD index = other.getLsbD index) : state = other := by
  apply eq_of_getLsbD_eq
  intro index _
  by_cases inside : index < count
  · exact same index inside
  · rw [narrow index (Nat.le_of_not_lt inside), narrow' index (Nat.le_of_not_lt inside)]

structure Feeds (count : Nat) (next : BitVec width → BitVec width) : Prop where
  several : 1 < count
  narrow : ∀ {state}, Narrow count state → Narrow count (next state)
  shifts : ∀ state, ∀ index, index + 1 < count → (next state).getLsbD index = state.getLsbD (index + 1)
  feeds : ∀ state, (next state).getLsbD (count - 1) = (state.getLsbD (count - 1) ^^ state.getLsbD 0)

namespace Feeds

section

variable (feeds : Feeds count next)
include feeds

theorem iterate_narrow (narrow : Narrow count state) (steps : Nat) : Narrow count (next^[steps] state) := by
  induction steps with
  | zero => exact narrow
  | succ _ ih =>
    rw [iterate_succ_apply']
    exact feeds.narrow ih

theorem iterate_shifts (state : BitVec width) {steps index : Nat} (inside : index + steps < count) :
    (next^[steps] state).getLsbD index = state.getLsbD (index + steps) := by
  induction steps generalizing index with
  | zero => rfl
  | succ _ ih =>
    rw [iterate_succ_apply', feeds.shifts _ _ (by omega), ih (by omega)]
    congr 1
    omega

theorem linear (narrow : Narrow count state) (narrow' : Narrow count other) : next (state ^^^ other) = next state ^^^ next other := by
  apply (feeds.narrow (narrow.xor narrow')).ext ((feeds.narrow narrow).xor (feeds.narrow narrow'))
  intro index inside
  rw [getLsbD_xor]
  by_cases top : index + 1 < count
  · rw [feeds.shifts _ _ top, feeds.shifts _ _ top, feeds.shifts _ _ top, getLsbD_xor]
  · obtain rfl : index = count - 1 := by omega
    rw [feeds.feeds, feeds.feeds, feeds.feeds, getLsbD_xor, getLsbD_xor]
    simp only [Bool.xor_assoc, Bool.xor_left_comm]

theorem iterate_linear (narrow : Narrow count state) (narrow' : Narrow count other) (steps : Nat) :
    next^[steps] (state ^^^ other) = next^[steps] state ^^^ next^[steps] other := by
  induction steps with
  | zero => rfl
  | succ steps ih =>
    rw [iterate_succ_apply', ih, feeds.linear (feeds.iterate_narrow narrow steps) (feeds.iterate_narrow narrow' steps),
      iterate_succ_apply', iterate_succ_apply']

theorem round (narrow : Narrow count state) : next^[count] state ^^^ next^[count - 1] state = state := by
  apply ((feeds.iterate_narrow narrow _).xor (feeds.iterate_narrow narrow _)).ext narrow
  intro index inside
  have late : next^[count] state = next^[count - 1 - index] (next^[index + 1] state) := by
    rw [← iterate_add_apply]
    congr 2
    omega
  have early : next^[count - 1] state = next^[count - 1 - index] (next^[index] state) := by
    rw [← iterate_add_apply]
    congr 2
    omega
  have top : index + (count - 1 - index) = count - 1 := by omega
  have low : (next^[index] state).getLsbD 0 = state.getLsbD index := by
    rw [feeds.iterate_shifts state (by omega), Nat.zero_add]
  rw [getLsbD_xor, late, early, feeds.iterate_shifts (next^[index + 1] state) (Nat.lt_of_le_of_lt (Nat.le_of_eq top) (by omega)),
    feeds.iterate_shifts (next^[index] state) (Nat.lt_of_le_of_lt (Nat.le_of_eq top) (by omega)), top,
    iterate_succ_apply', feeds.feeds, low, Bool.xor_comm, ← Bool.xor_assoc, Bool.xor_self, Bool.false_xor]

theorem recovers (narrow : Narrow count state) : next^[count - 1] (next state ^^^ state) = state := by
  rw [feeds.iterate_linear (feeds.narrow narrow) narrow, ← iterate_succ_apply,
    Nat.succ_eq_add_one, Nat.sub_add_cancel (Nat.le_of_lt feeds.several)]
  exact feeds.round narrow

theorem recovers_back (narrow : Narrow count (prev state))
    (inverse : next (prev state) = state) : next^[count] (prev state ^^^ state) = state := by
  have same : prev state ^^^ state = next (prev state) ^^^ prev state := by rw [inverse, BitVec.xor_comm]
  have all : count - 1 + 1 = count := Nat.sub_add_cancel (Nat.le_of_lt feeds.several)
  rw [same, ← all, iterate_succ_apply', feeds.recovers narrow, inverse]

end

end Feeds

theorem iterate_inverse {α : Type} {next prev : α → α} (holds : α → Prop) (keeps : ∀ state, holds state → holds (next state))
    (inverse : ∀ state, holds state → prev (next state) = state) {state : α} (start : holds state) (steps : Nat) :
    prev^[steps] (next^[steps] state) = state := by
  induction steps generalizing state with
  | zero => rfl
  | succ steps ih =>
    have kept : holds (next^[steps] state) := by
      clear ih
      induction steps with
      | zero => exact start
      | succ _ ih =>
        rw [iterate_succ_apply']
        exact keeps _ ih
    rw [iterate_succ_apply, iterate_succ_apply', inverse _ kept, ih start]

end ImcGem5.Lib

import Mathlib.Algebra.GroupWithZero.Nat
import Mathlib.Logic.Function.Basic
import Mathlib.Tactic.Common

/-! Tables whose entries come from a numbered supply that is handed out in order. What has
been handed out is owned by at most one key, as long as keys only take what is new, give up
what they have, or pass it on. -/

namespace ImcGem5.Lib
open Function

universe u v

variable {κ : Type u} {φ : Type v} {item : Nat → φ} {limit used : Nat} {table : κ → Option φ} {key other : κ}

def Exclusive (table : κ → Option φ) : Prop := ∀ k l x, table k = some x → table l = some x → k = l

/-- The entries are distinct and from the first `used` items. -/
structure Handed (item : Nat → φ) (used : Nat) (table : κ → Option φ) : Prop where
  exclusive : Exclusive table
  below : ∀ k x, table k = some x → ∃ i < used, x = item i

theorem Handed.empty : Handed item used (fun _ : κ => none) where
  exclusive _ _ _ none := by cases none
  below _ _ none := by cases none

theorem Handed.mono {more : Nat} (handed : Handed item used table) (le : used ≤ more) : Handed item more table where
  exclusive := handed.exclusive
  below k x found := by
    obtain ⟨i, _, same⟩ := handed.below k x found
    exact ⟨i, by omega, same⟩

variable [DecidableEq κ]

section

variable (handed : Handed item used table)
include handed

theorem Handed.take (distinct : ∀ i < used, item i ≠ item used) (key : κ) :
    Handed item (used + 1) (update table key (some (item used))) where
  exclusive k l x first second := by
    have new : ∀ m, m ≠ key → table m ≠ some (item used) := by
      intro m _ found
      obtain ⟨i, less, same⟩ := handed.below m _ found
      exact distinct i less same.symm
    by_cases one : k = key
    · by_cases two : l = key
      · rw [one, two]
      · rw [one, update_self] at first
        rw [update_of_ne two] at second
        cases first
        exact absurd second (new l two)
    · rw [update_of_ne one] at first
      by_cases two : l = key
      · rw [two, update_self] at second
        cases second
        exact absurd first (new k one)
      · rw [update_of_ne two] at second
        exact handed.exclusive k l x first second
  below k x found := by
    by_cases one : k = key
    · rw [one, update_self] at found
      cases found
      exact ⟨used, by omega, rfl⟩
    · rw [update_of_ne one] at found
      obtain ⟨i, less, same⟩ := handed.below k x found
      exact ⟨i, by omega, same⟩

theorem Handed.drop (key : κ) : Handed item used (update table key none) := by
  have kept : ∀ k x, update table key none k = some x → table k = some x := by
    intro k x found
    by_cases same : k = key
    · rw [same, update_self] at found
      cases found
    · rwa [update_of_ne same] at found
  constructor
  · intro k l x first second
    exact handed.exclusive k l x (kept k x first) (kept l x second)
  · intro k x found
    exact handed.below k x (kept k x found)

theorem Handed.move (other key : κ) : Handed item used (update (update table other (table key)) key none) := by
  have from_old : ∀ k x, update (update table other (table key)) key none k = some x →
      (k = other ∧ table key = some x) ∨ (k ≠ other ∧ k ≠ key ∧ table k = some x) := by
    intro k x found
    by_cases gone : k = key
    · rw [gone, update_self] at found
      cases found
    · rw [update_of_ne gone] at found
      by_cases here : k = other
      · rw [here, update_self] at found
        exact .inl ⟨here, found⟩
      · rw [update_of_ne here] at found
        exact .inr ⟨here, gone, found⟩
  constructor
  · intro k l x first second
    rcases from_old k x first with ⟨one, moved⟩ | ⟨_, stays, kept⟩
    · rcases from_old l x second with ⟨two, _⟩ | ⟨_, apart, had⟩
      · rw [one, two]
      · exact absurd (handed.exclusive l key x had moved) apart
    · rcases from_old l x second with ⟨_, moved⟩ | ⟨_, _, had⟩
      · exact absurd (handed.exclusive k key x kept moved) stays
      · exact handed.exclusive k l x kept had
  · intro k x found
    rcases from_old k x found with ⟨_, moved⟩ | ⟨_, _, kept⟩
    · exact handed.below key x moved
    · exact handed.below k x kept

end

end ImcGem5.Lib

import Mathlib.Algebra.GroupWithZero.Nat
import Mathlib.Order.Basic

/-! Summaries of lists that are kept as the items come. What an item adds is never taken
back, and so a summary that is not brought up to date is right exactly if it has nothing
to gain from any of the items that it missed. -/

namespace ImcGem5.Lib

universe u v

variable {σ : Type u} {α : Type v} [PartialOrder σ] {note : σ → α → σ}

section

variable (grows : ∀ summary item, summary ≤ note summary item)
include grows

theorem le_foldl (items : List α) (summary : σ) : summary ≤ items.foldl note summary := by
  induction items generalizing summary with
  | nil => exact le_refl summary
  | cons item items ih => exact (grows summary item).trans (ih (note summary item))

theorem foldl_eq_iff (items : List α) (summary : σ) :
    items.foldl note summary = summary ↔ ∀ item ∈ items, note summary item = summary := by
  induction items with
  | nil => exact iff_of_true rfl nofun
  | cons item items ih =>
    rw [List.forall_mem_cons, List.foldl_cons]
    constructor
    · intro same
      have first : note summary item = summary := le_antisymm ((le_foldl grows items _).trans_eq same) (grows summary item)
      rw [first] at same
      exact ⟨first, ih.mp same⟩
    · rintro ⟨first, others⟩
      rw [first]
      exact ih.mpr others

end

end ImcGem5.Lib

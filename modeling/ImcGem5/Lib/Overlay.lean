import Mathlib.Algebra.GroupWithZero.Nat
import Mathlib.Data.List.Induction
import Mathlib.Tactic.Common

/-! Pieces laid over one another, each over the addresses it holds. The newest piece that
holds an address is the one that shows there. -/

namespace ImcGem5.Lib.Overlay
open List

variable {α β : Type} {holds : β → α → Bool} {pieces : List β} {piece : β} {address : α}

/-- The last piece that holds an address. -/
def newest (holds : β → α → Bool) (pieces : List β) (address : α) : Option β :=
  pieces.reverse.find? (holds · address)

def shown {γ : Type} (holds : β → α → Bool) (value : β → α → γ) (ground : α → γ) (pieces : List β) (address : α) : γ :=
  ((newest holds pieces address).map (value · address)).getD (ground address)

def covered (holds : β → α → Bool) (pieces : List β) (address : α) : Bool := pieces.any (holds · address)

theorem newest_append (pieces later : List β) (address : α) :
    newest holds (pieces ++ later) address = (newest holds later address).or (newest holds pieces address) := by
  rw [newest, reverse_append, find?_append]
  rfl

theorem newest_snoc (pieces : List β) (piece : β) (address : α) :
    newest holds (pieces ++ [piece]) address = if holds piece address then some piece else newest holds pieces address := by
  rw [newest_append, newest, reverse_singleton, find?_singleton]
  split <;> rfl

@[simp] theorem covered_append (pieces later : List β) (address : α) :
    covered holds (pieces ++ later) address = (covered holds pieces address || covered holds later address) :=
  any_append

@[simp] theorem covered_singleton (piece : β) (address : α) : covered holds [piece] address = holds piece address :=
  Bool.or_false _

theorem newest_mem (found : newest holds pieces address = some piece) : piece ∈ pieces ∧ holds piece address = true := by
  rw [newest, find?_eq_some_iff_append] at found
  obtain ⟨held, _, _, same, _⟩ := found
  refine ⟨List.mem_reverse.mp ?_, held⟩
  rw [same]
  exact mem_append_cons_self

theorem newest_of_sub {sub : β → α → Bool} (below : ∀ piece, sub piece address = true → holds piece address = true)
    (found : newest holds pieces address = some piece) (held : sub piece address = true) :
    newest sub pieces address = some piece := by
  induction pieces using reverseRecOn with
  | nil => cases found
  | append_singleton pieces last ih =>
    rw [newest_snoc] at found ⊢
    cases here : holds last address with
    | true =>
      rw [here, if_pos rfl, Option.some.injEq] at found
      rw [found, held, if_pos rfl]
    | false =>
      have less : sub last address = false := by
        cases claimed : sub last address with
        | false => rfl
        | true => rw [below last claimed] at here; cases here
      rw [here, if_neg Bool.false_ne_true] at found
      rw [less, if_neg Bool.false_ne_true]
      exact ih found

theorem shown_snoc {γ : Type} (value : β → α → γ) (ground : α → γ) (pieces : List β) (piece : β) (address : α) :
    shown holds value ground (pieces ++ [piece]) address =
      if holds piece address then value piece address else shown holds value ground pieces address := by
  rw [shown, newest_snoc]
  split <;> rfl

end ImcGem5.Lib.Overlay

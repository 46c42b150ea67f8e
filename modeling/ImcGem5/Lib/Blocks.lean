import Mathlib.Data.List.Range
import Mathlib.Tactic.Common
import Mathlib.Tactic.Ring

/-! Sets of numbers counted in blocks of a power of two. Block `j` of level `k` has
the numbers whose quotient by `2 ^ k` is `j`, so it is made of the blocks `2 * j` and
`2 * j + 1` of the level below. -/

namespace ImcGem5.Lib
open List

def block (live : Nat → Bool) (k j : Nat) : Nat := (range' (j * 2 ^ k) (2 ^ k)).countP live

def between (live : Nat → Bool) (r stop : Nat) : Nat := (range' (r + 1) (stop - (r + 1))).countP live

theorem mem_block {k j i : Nat} : i ∈ range' (j * 2 ^ k) (2 ^ k) ↔ i / 2 ^ k = j := by
  have positive : 0 < 2 ^ k := Nat.two_pow_pos k
  rw [mem_range'_1, Nat.div_eq_iff positive, Nat.mul_comm]
  constructor
  · intro ⟨lower, upper⟩
    exact ⟨lower, by omega⟩
  · intro ⟨lower, upper⟩
    exact ⟨lower, by omega⟩

theorem div_two_pow_succ (i k : Nat) : i / 2 ^ (k + 1) = i / 2 ^ k / 2 := by
  rw [Nat.pow_succ, Nat.div_div_eq_div_mul]

section
variable {live other : Nat → Bool} {k j : Nat}

theorem block_zero : block live 0 j = if live j then 1 else 0 := by
  simp [block]

theorem block_succ : block live (k + 1) j = block live k (2 * j) + block live k (2 * j + 1) := by
  unfold block
  rw [← countP_append]
  have split : 2 ^ (k + 1) = 2 ^ k + 2 ^ k := by omega
  have start : j * 2 ^ (k + 1) = 2 * j * 2 ^ k := by ring
  have middle : (2 * j + 1) * 2 ^ k = 2 * j * 2 ^ k + 1 * 2 ^ k := by ring
  rw [start, middle, split, Nat.one_mul, range'_append_1]

theorem block_congr (same : ∀ i, i / 2 ^ k = j → live i = other i) : block live k j = block other k j := by
  unfold block
  apply countP_congr
  intro i member
  rw [same i (mem_block.mp member)]

theorem block_le : block live k j ≤ 2 ^ k := by
  have bound := countP_le_length (p := live) (l := range' (j * 2 ^ k) (2 ^ k))
  rw [length_range'] at bound
  exact bound

theorem block_eq_zero : block live k j = 0 ↔ ∀ i, i / 2 ^ k = j → live i = false := by
  unfold block
  rw [countP_eq_zero]
  constructor
  · intro none i member
    exact Bool.not_eq_true _ ▸ none i (mem_block.mpr member)
  · intro none i member
    rw [none i (mem_block.mp member)]
    exact Bool.false_ne_true

theorem block_pos {i : Nat} (held : live i = true) : 0 < block live k (i / 2 ^ k) := by
  rw [Nat.pos_iff_ne_zero]
  intro empty
  have gone := block_eq_zero.mp empty i rfl
  rw [held] at gone
  cases gone

end

section
variable (live : Nat → Bool) (r k : Nat)

theorem between_self : between live r ((r / 2 ^ 0 + 1) * 2 ^ 0) = 0 := by
  simp [between]

theorem between_left (left : r / 2 ^ k % 2 = 0) : between live r ((r / 2 ^ (k + 1) + 1) * 2 ^ (k + 1)) =
    between live r ((r / 2 ^ k + 1) * 2 ^ k) + block live k (2 * (r / 2 ^ (k + 1)) + 1) := by
  have upper : r < (r / 2 ^ k + 1) * 2 ^ k := by
    rw [Nat.mul_comm]
    exact Nat.lt_mul_div_succ r (Nat.two_pow_pos k)
  have even : 2 * (r / 2 ^ (k + 1)) = r / 2 ^ k := by
    rw [div_two_pow_succ]
    omega
  have stop : (r / 2 ^ (k + 1) + 1) * 2 ^ (k + 1) = (r / 2 ^ k + 1) * 2 ^ k + 2 ^ k := by
    rw [← even]
    ring
  unfold between block
  rw [even, stop, ← countP_append]
  generalize (r / 2 ^ k + 1) * 2 ^ k = limit at *
  have start : r + 1 + (limit - (r + 1)) = limit := Nat.add_sub_cancel' upper
  rw [Nat.sub_add_comm upper, ← range'_append_1, start]

theorem between_right (right : r / 2 ^ k % 2 = 1) : between live r ((r / 2 ^ (k + 1) + 1) * 2 ^ (k + 1)) =
    between live r ((r / 2 ^ k + 1) * 2 ^ k) := by
  have odd : r / 2 ^ k = 2 * (r / 2 ^ (k + 1)) + 1 := by
    rw [div_two_pow_succ]
    omega
  have stop : (r / 2 ^ (k + 1) + 1) * 2 ^ (k + 1) = (r / 2 ^ k + 1) * 2 ^ k := by
    rw [odd]
    ring
  rw [stop]

end

end ImcGem5.Lib

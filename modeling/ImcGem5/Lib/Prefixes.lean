import Mathlib.Algebra.GroupWithZero.Nat
import Mathlib.Tactic.Common
import Mathlib.Data.Nat.Count

/-! Prefixes of bit vectors, counted from the most significant bit, and the masks
that select them. -/

namespace ImcGem5.Lib
open BitVec

variable {w : Nat} {n m : Nat} {a b : BitVec w}

/-- The mask of the first `n` bits. -/
def prefixMask (w n : Nat) : BitVec w := BitVec.allOnes w <<< (w - n)

theorem getMsbD_prefixMask (short : n ≤ w) (i : Nat) : (prefixMask w n).getMsbD i = decide (i < n) := by
  simp only [prefixMask, getMsbD_shiftLeft, getMsbD_allOnes]
  by_cases inside : i < n
  · simp only [inside, decide_true, decide_eq_true_eq]
    omega
  · simp only [inside, decide_false, decide_eq_false_iff_not]
    omega

def Agree (n : Nat) (a b : BitVec w) : Prop := ∀ i < n, a.getMsbD i = b.getMsbD i

theorem Agree.refl (n : Nat) (a : BitVec w) : Agree n a a := fun _ _ => rfl

theorem Agree.symm (agree : Agree n a b) : Agree n b a := fun i small => (agree i small).symm

theorem Agree.trans {c : BitVec w} (first : Agree n a b) (second : Agree n b c) : Agree n a c :=
  fun i small => (first i small).trans (second i small)

theorem Agree.mono (agree : Agree m a b) (shorter : n ≤ m) : Agree n a b :=
  fun i small => agree i (Nat.lt_of_lt_of_le small shorter)

theorem agree_succ : Agree (n + 1) a b ↔ Agree n a b ∧ a.getMsbD n = b.getMsbD n := by
  constructor
  · intro agree
    exact ⟨agree.mono (Nat.le_succ n), agree n (Nat.lt_succ_self n)⟩
  · intro ⟨agree, last⟩ i small
    obtain below | rfl := Nat.lt_succ_iff_lt_or_eq.mp small
    · exact agree i below
    · exact last

theorem agree_mask (short : n ≤ w) (a : BitVec w) : Agree n (a &&& prefixMask w n) a := by
  intro i small
  rw [getMsbD_and, getMsbD_prefixMask short, decide_eq_true small, Bool.and_true]

theorem mask_eq_iff (short : n ≤ w) : a &&& prefixMask w n = b &&& prefixMask w n ↔ Agree n a b := by
  constructor
  · intro same
    have agree := (agree_mask short a).symm
    rw [same] at agree
    exact agree.trans (agree_mask short b)
  · intro agree
    refine eq_of_getMsbD_eq fun i _ => ?_
    rw [getMsbD_and, getMsbD_and, getMsbD_prefixMask short]
    by_cases inside : i < n
    · rw [agree i inside]
    · rw [decide_eq_false inside, Bool.and_false, Bool.and_false]

theorem mask_and_mask (ordered : n ≤ m) (short : m ≤ w) : prefixMask w n &&& prefixMask w m = prefixMask w n := by
  refine eq_of_getMsbD_eq fun i _ => ?_
  rw [getMsbD_and, getMsbD_prefixMask short, getMsbD_prefixMask (Nat.le_trans ordered short), ← Bool.decide_and]
  exact decide_eq_decide.mpr (by omega)

def maskWidth (mask : BitVec w) : Nat := Nat.count (fun i => mask.getMsbD i = true) w

theorem count_lt (n m : Nat) : Nat.count (fun i => i < n) m = min n m := by
  induction m with
  | zero => simp
  | succ m ih =>
    rw [Nat.count_succ, ih]
    split <;> omega

@[simp] theorem maskWidth_prefixMask (short : n ≤ w) : maskWidth (prefixMask w n) = n := by
  simp only [maskWidth, getMsbD_prefixMask short, decide_eq_true_eq]
  rw [count_lt]
  omega

theorem prefixMask_inj (short : n ≤ w) (short' : m ≤ w) (same : prefixMask w n = prefixMask w m) : n = m := by
  rw [← maskWidth_prefixMask short, same, maskWidth_prefixMask short']

theorem mask_and_mask_iff (short : n ≤ w) (short' : m ≤ w) : prefixMask w n &&& prefixMask w m = prefixMask w n ↔ n ≤ m := by
  constructor
  · intro same
    by_contra longer
    rw [BitVec.and_comm, mask_and_mask (by omega) short] at same
    exact longer (Nat.le_of_eq (prefixMask_inj short' short same).symm)
  · exact fun ordered => mask_and_mask ordered short'

theorem getMsbD_msb (nonzero : 0 < w) (i : Nat) : (1#w <<< (w - 1)).getMsbD i = decide (i = 0) := by
  simp only [getMsbD_shiftLeft, getMsbD_one, ← Bool.decide_and]
  exact decide_eq_decide.mpr (by omega)

theorem extend_prefixMask (short : n < w) : prefixMask w n ||| prefixMask w n >>> 1 ||| 1#w <<< (w - 1) = prefixMask w (n + 1) := by
  refine eq_of_getMsbD_eq fun i _ => ?_
  rw [getMsbD_or, getMsbD_or, getMsbD_ushiftRight, getMsbD_prefixMask (Nat.le_of_lt short),
    getMsbD_prefixMask (Nat.le_of_lt short), getMsbD_prefixMask short, getMsbD_msb (by omega)]
  rw [Bool.eq_iff_iff]
  simp only [Bool.or_eq_true, Bool.and_eq_true, Bool.not_eq_true', decide_eq_true_eq, decide_eq_false_iff_not]
  omega

end ImcGem5.Lib

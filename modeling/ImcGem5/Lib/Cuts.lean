import Mathlib.Algebra.GroupWithZero.Nat
import Mathlib.Order.Interval.Set.Basic
import Mathlib.Data.List.Perm.Basic

/-! Intervals cut out of an interval. The pieces that are left come in increasing order and
do not meet; a sweep from the left builds them one cut at a time. -/

namespace ImcGem5.Lib.Cuts
open List

variable {α : Type} [LinearOrder α] {next stop : α} {cut : α × α} {cuts others pieces : List (α × α)}

structure Cut (next stop : α) (cuts pieces : List (α × α)) : Prop where
  inside : ∀ piece ∈ pieces, next ≤ piece.1 ∧ piece.1 < piece.2 ∧ piece.2 ≤ stop
  ordered : pieces.Pairwise fun one other => one.2 ≤ other.1
  members : ∀ a, (∃ piece ∈ pieces, a ∈ Set.Ico piece.1 piece.2) ↔
    a ∈ Set.Ico next stop ∧ ∀ cut ∈ cuts, a ∉ Set.Ico cut.1 cut.2

theorem Cut.perm (left : Cut next stop cuts pieces) (same : cuts.Perm others) : Cut next stop others pieces where
  inside := left.inside
  ordered := left.ordered
  members a := by
    rw [left.members a]
    exact and_congr_right fun _ => ⟨fun apart cut member => apart cut (same.mem_iff.mpr member),
      fun apart cut member => apart cut (same.mem_iff.mp member)⟩

theorem cut_empty (passed : stop ≤ next) (cuts : List (α × α)) : Cut next stop cuts [] where
  inside _ member := absurd member not_mem_nil
  ordered := List.Pairwise.nil
  members a := by
    constructor
    · rintro ⟨_, member, _⟩
      exact absurd member not_mem_nil
    · rintro ⟨⟨low, high⟩, _⟩
      exact absurd (lt_of_le_of_lt low high) (not_lt_of_ge passed)

theorem cut_whole (room : next < stop) : Cut next stop [] [(next, stop)] where
  inside piece member := by
    rw [List.mem_singleton.mp member]
    exact ⟨le_rfl, room, le_rfl⟩
  ordered := pairwise_singleton _ _
  members a := by simp

theorem Cut.skip (left : Cut next stop cuts pieces) (misses : cut.2 ≤ next ∨ stop ≤ cut.1) :
    Cut next stop (cut :: cuts) pieces where
  inside := left.inside
  ordered := left.ordered
  members a := by
    rw [left.members a, forall_mem_cons]
    refine and_congr_right fun within => ⟨fun apart => ⟨fun inCut => ?_, apart⟩, fun both => both.2⟩
    obtain low | high := misses
    · exact absurd (lt_of_lt_of_le inCut.2 low) (not_lt_of_ge within.1)
    · exact absurd (lt_of_lt_of_le within.2 high) (not_lt_of_ge inCut.1)

theorem Cut.advance (left : Cut cut.2 stop cuts pieces) (reached : cut.1 ≤ next) (beyond : next ≤ cut.2) :
    Cut next stop (cut :: cuts) pieces where
  inside piece member := ⟨le_trans beyond (left.inside piece member).1, (left.inside piece member).2⟩
  ordered := left.ordered
  members a := by
    rw [left.members a, forall_mem_cons]
    constructor
    · rintro ⟨⟨low, high⟩, apart⟩
      exact ⟨⟨le_trans beyond low, high⟩, fun inCut => absurd inCut.2 (not_lt_of_ge low), apart⟩
    · rintro ⟨⟨low, high⟩, missed, apart⟩
      exact ⟨⟨le_of_not_gt fun short => missed ⟨le_trans reached low, short⟩, high⟩, apart⟩

theorem Cut.split (left : Cut cut.2 stop cuts pieces) (room : next < cut.1) (forward : cut.1 ≤ cut.2) (within : cut.1 ≤ stop)
    (sorted : ∀ later ∈ cuts, cut.1 ≤ later.1) : Cut next stop (cut :: cuts) ((next, cut.1) :: pieces) where
  inside := by
    rw [forall_mem_cons]
    refine ⟨⟨le_rfl, room, within⟩, fun piece member => ?_⟩
    obtain ⟨low, rest⟩ := left.inside piece member
    exact ⟨le_trans (le_trans (le_of_lt room) forward) low, rest⟩
  ordered := List.pairwise_cons.mpr ⟨fun piece member => le_trans forward (left.inside piece member).1, left.ordered⟩
  members a := by
    rw [exists_mem_cons_iff, forall_mem_cons, left.members a]
    constructor
    · rintro (⟨low, high⟩ | ⟨⟨low, high⟩, apart⟩)
      · refine ⟨⟨low, lt_of_lt_of_le high within⟩, fun inCut => absurd high (not_lt_of_ge inCut.1), fun later member inLater => ?_⟩
        exact absurd (lt_of_lt_of_le high (sorted later member)) (not_lt_of_ge inLater.1)
      · refine ⟨⟨le_trans (le_trans (le_of_lt room) forward) low, high⟩, fun inCut => ?_, apart⟩
        exact absurd inCut.2 (not_lt_of_ge low)
    · rintro ⟨⟨low, high⟩, missed, apart⟩
      by_cases early : a < cut.1
      · exact Or.inl ⟨low, early⟩
      · exact Or.inr ⟨⟨le_of_not_gt fun short => missed ⟨le_of_not_gt early, short⟩, high⟩, apart⟩

end ImcGem5.Lib.Cuts

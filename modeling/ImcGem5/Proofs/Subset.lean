import ImcGem5.Proofs.Interleave
import ImcGem5.Proofs.Exclude

/-! The subset test looks at the two ends of a range and at its size. Between two ends not
further apart than a granule there are only the granules of the ends, so it never says yes
wrongly. It can say no wrongly: an int gathers the masks, and where it drops them all a
granule counts as one byte. -/

namespace ImcGem5.Base.Interleaving.Proofs.Subset
open Exclude Mem List AddrRange
open BitVec hiding and_assoc

variable {a b : Addr} {masks : List Addr} {range q : AddrRange}

private theorem getLsbD_none {width : Nat} (index : Nat) : (0 : BitVec width).getLsbD index = false := getLsbD_zero

structure LowestBit (masks : List Addr) (bit : Nat) : Prop where
  set : ∃ mask ∈ masks, mask.getLsbD bit = true
  lowest : ∀ mask ∈ masks, ∀ index < bit, mask.getLsbD index = false

def OneGranule (q range : AddrRange) : Prop :=
  ∀ bit, LowestBit range.masks bit → ∀ a b, q.inRange a = true → q.inRange b = true → a >>> bit = b >>> bit

theorem getLsbD_combinedMask (masks : List Addr) {index : Nat} (bound : index < 32) :
    (combinedMask masks).getLsbD index = masks.any fun mask => mask.getLsbD index := by
  have general : ∀ combined : BitVec 32,
      (masks.foldl (fun combined mask => (combined.signExtend 64 ||| mask).setWidth 32) combined).getLsbD index =
        (combined.getLsbD index || masks.any fun mask => mask.getLsbD index) := by
    induction masks with
    | nil =>
      intro combined
      rw [foldl_nil, any_nil, Bool.or_false]
    | cons _ _ ih =>
      intro combined
      rw [foldl_cons, ih, any_cons, ← Bool.or_assoc]
      congr 1
      rw [getLsbD_setWidth, getLsbD_or, getLsbD_signExtend, if_pos bound, decide_eq_true bound,
        decide_eq_true (by omega), Bool.true_and, Bool.true_and]
  rw [combinedMask, general, getLsbD_none, Bool.false_or]

def granuleBit (masks : List Addr) : Nat := ctz64 ((AddrRange.combinedMask masks).signExtend 64) % 64

theorem granularity_toNat (interleaved : range.interleaved = true) : range.granularity.toNat = 2 ^ granuleBit range.masks := by
  have bound : granuleBit range.masks < 64 := Nat.mod_lt _ (by decide)
  rw [granularity, if_pos interleaved, toNat_shiftLeft, Nat.shiftLeft_eq, Nat.mod_eq_of_lt]
  · exact Nat.one_mul _
  · rw [toNat_one (by decide), Nat.one_mul]
    exact Nat.pow_lt_pow_right (by decide) bound

def Dropped (masks : List Addr) : Prop := ∀ mask ∈ masks, mask.setWidth 32 = 0

theorem dropped_iff : Dropped masks ↔ combinedMask masks = 0 := by
  constructor
  · intro dropped
    apply eq_of_getLsbD_eq
    intro index bound
    rw [getLsbD_combinedMask masks bound, getLsbD_none, any_eq_false]
    intro mask member
    have zero := congrArg (·.getLsbD index) (dropped mask member)
    simpa [bound] using zero
  · intro zero mask member
    apply eq_of_getLsbD_eq
    intro index bound
    have none := getLsbD_combinedMask masks bound
    rw [zero, getLsbD_none, eq_comm, any_eq_false] at none
    simpa [bound] using none mask member

theorem granuleBit_dropped (dropped : Dropped masks) : granuleBit masks = 0 := by
  have clear : (0 : BitVec 32).signExtend 64 = 0#64 := by decide
  have whole : (0#64).ctz = 64#64 := by
    rw [ctz_eq_reverse_clz, reverse_eq_zero_iff.mpr rfl]
    exact clz_eq_iff_eq_zero.mpr rfl
  rw [granuleBit, dropped_iff.mp dropped, ctz64, clear, whole]
  rfl

theorem granuleBit_lowest (kept : ¬Dropped masks) : LowestBit masks (granuleBit masks) := by
  have nonzero : combinedMask masks ≠ 0 := fun zero => kept (dropped_iff.mpr zero)
  have low : ∀ index < 32, ((combinedMask masks).signExtend 64).getLsbD index = masks.any fun mask => mask.getLsbD index := by
    intro index bound
    rw [getLsbD_signExtend, if_pos bound, decide_eq_true (by omega), Bool.true_and, getLsbD_combinedMask masks bound]
  obtain ⟨some, bound, set⟩ : ∃ index < 32, (combinedMask masks).getLsbD index = true := by
    by_contra none
    push Not at none
    apply nonzero
    apply eq_of_getLsbD_eq
    intro index bound
    rw [getLsbD_none]
    simpa using none index bound
  rw [getLsbD_combinedMask masks bound, ← low some bound] at set
  have small : ctz64 ((combinedMask masks).signExtend 64) < 32 := Nat.lt_of_le_of_lt (ctz64_le set) bound
  have extended : (combinedMask masks).signExtend 64 ≠ 0 := by
    intro zero
    rw [zero, getLsbD_none] at set
    cases set
  have same : granuleBit masks = ctz64 ((combinedMask masks).signExtend 64) := Nat.mod_eq_of_lt (by omega)
  rw [same]
  constructor
  · have first := getLsbD_true_ctz_of_ne_zero extended
    rw [← ctz64, low _ small, any_eq_true] at first
    exact first
  · intro mask member index below
    have clear := getLsbD_false_of_lt_ctz below
    rw [low _ (Nat.lt_trans below small), any_eq_false] at clear
    simpa using clear mask member

theorem lowestBit_unique {one other : Nat} (first : LowestBit masks one) (second : LowestBit masks other) : one = other := by
  obtain ⟨mask, member, set⟩ := first.set
  obtain ⟨mask', member', set'⟩ := second.set
  have upper : ¬one < other := fun below => by
    rw [second.lowest mask member one below] at set
    cases set
  have lower : ¬other < one := fun below => by
    rw [first.lowest mask' member' other below] at set'
    cases set'
  omega

theorem granuleBit_le (masks : List Addr) : ∀ mask ∈ masks, ∀ index < granuleBit masks, mask.getLsbD index = false := by
  by_cases dropped : Dropped masks
  · rw [granuleBit_dropped dropped]
    exact fun _ _ _ below => absurd below (Nat.not_lt_zero _)
  · exact (granuleBit_lowest dropped).lowest

theorem sel_granule (range : AddrRange) (same : a >>> granuleBit range.masks = b >>> granuleBit range.masks) :
    range.sel a = range.sel b := by
  have masked : ∀ mask ∈ range.masks, a &&& mask = b &&& mask := by
    intro mask member
    apply eq_of_getLsbD_eq
    intro index bound
    rw [getLsbD_and, getLsbD_and]
    by_cases below : index < granuleBit range.masks
    · rw [granuleBit_le _ mask member index below, Bool.and_false, Bool.and_false]
    · have bit := congrArg (·.getLsbD (index - granuleBit range.masks)) same
      have back : granuleBit range.masks + (index - granuleBit range.masks) = index := by omega
      simp only [getLsbD_ushiftRight, back] at bit
      rw [bit]
  have loop : ∀ (masks : List Addr), (∀ mask ∈ masks, a &&& mask = b &&& mask) → ∀ i sel,
      selLoop a i masks sel = selLoop b i masks sel := by
    intro masks agree
    induction masks with
    | nil => exact fun _ _ => rfl
    | cons _ _ ih =>
      obtain ⟨here, agree⟩ := forall_mem_cons.mp agree
      intro i sel
      rw [selLoop, selLoop, here, ih agree]
  exact loop range.masks masked 0 0

theorem granule_between {first last : Addr} {bit : Nat} (low : first.toNat ≤ a.toNat) (high : a.toNat ≤ last.toNat)
    (near : last.toNat < first.toNat + 2 ^ bit) : a >>> bit = first >>> bit ∨ a >>> bit = last >>> bit := by
  have positive : 0 < 2 ^ bit := Nat.two_pow_pos bit
  have lower : first.toNat / 2 ^ bit ≤ a.toNat / 2 ^ bit := Nat.div_le_div_right low
  have upper : a.toNat / 2 ^ bit ≤ last.toNat / 2 ^ bit := Nat.div_le_div_right high
  have next : last.toNat / 2 ^ bit ≤ first.toNat / 2 ^ bit + 1 := by
    rw [← Nat.add_div_right _ positive]
    exact Nat.div_le_div_right (Nat.le_of_lt near)
  simp only [← toNat_inj, toNat_ushiftRight, Nat.shiftRight_eq_div_pow]
  omega

/-- What a subset test promises: a yes is right, and within one granule the ends decide. -/
structure Tests (q range : AddrRange) : Prop where
  sound : q.isSubset range = some true → ∀ a, q.inRange a = true → range.contains a = true
  complete : OneGranule q range → range.contains q.start = true → range.contains (q.stop - 1) = true →
    q.isSubset range = some true

/-- The masks are all above bit 31, and a range of two or more bytes lies in one granule that
the range has. -/
structure Lost (q range : AddrRange) : Prop where
  interleaved : range.interleaved = true
  dropped : Dropped range.masks
  several : q.start.toNat + 1 < q.stop.toNat
  one : OneGranule q range
  first : range.contains q.start = true
  last : range.contains (q.stop - 1) = true

/-- A match value without masks: the range between its ends contains nothing. -/
structure Unmatched (q range : AddrRange) : Prop where
  single : range.interleaved = false
  value : range.intlvMatch ≠ 0
  low : range.start.toNat ≤ q.start.toNat
  high : q.stop.toNat ≤ range.stop.toNat

theorem inRange_toNat (q : AddrRange) (a : Addr) : q.inRange a = true ↔ q.start.toNat ≤ a.toNat ∧ a.toNat < q.stop.toNat := by
  rw [inRange_iff]
  rfl

theorem contains_iff (range : AddrRange) (a : Addr) : range.contains a = true ↔
    (range.start.toNat ≤ a.toNat ∧ a.toNat < range.stop.toNat) ∧ range.sel a = range.intlvMatch.setWidth 32 := by
  rw [← inRange_toNat, AddrRange.contains]
  cases range.inRange a <;> simp

theorem last_toNat (room : q.start.toNat < q.stop.toNat) : (q.stop - 1).toNat = q.stop.toNat - 1 := by
  have one : (1 : Addr).toNat = 1 := rfl
  rw [toNat_sub_of_le, one]
  rw [le_def, one]
  omega

section

variable (single : q.interleaved = false)
include single

theorem size_toNat (room : q.start.toNat < q.stop.toNat) : q.size.toNat = q.stop.toNat - q.start.toNat := by
  have none : q.masks = [] := by simpa [AddrRange.interleaved] using single
  rw [AddrRange.size, none, length_nil, ushiftRight_zero, toNat_sub_of_le]
  rw [le_def]
  omega

theorem isSubset_interleaved (room : q.start.toNat < q.stop.toNat)
    (interleaved : range.interleaved = true) : q.isSubset range = some true ↔
    range.contains q.start = true ∧ range.contains (q.stop - 1) = true ∧
      q.stop.toNat - q.start.toNat ≤ 2 ^ granuleBit range.masks := by
  rw [AddrRange.isSubset, single, interleaved, if_neg Bool.false_ne_true, if_pos rfl, Option.some.injEq, Bool.and_eq_true,
    Bool.and_eq_true, and_assoc, BitVec.ule, decide_eq_true_iff, size_toNat single room, granularity_toNat interleaved]

theorem isSubset_single (alone : range.interleaved = false) :
    q.isSubset range = some true ↔ range.start.toNat ≤ q.start.toNat ∧ q.stop.toNat ≤ range.stop.toNat := by
  rw [AddrRange.isSubset, single, alone, if_neg Bool.false_ne_true, if_neg Bool.false_ne_true, Option.some.injEq,
    Bool.and_eq_true, BitVec.ule, BitVec.ule, decide_eq_true_iff, decide_eq_true_iff]

end

theorem sound_interleaved (room : q.start.toNat < q.stop.toNat) (first : range.contains q.start = true)
    (last : range.contains (q.stop - 1) = true) (small : q.stop.toNat - q.start.toNat ≤ 2 ^ granuleBit range.masks)
    (inside : q.inRange a = true) : range.contains a = true := by
  obtain ⟨low, _⟩ := (inRange_toNat q a).mp inside
  obtain ⟨⟨_, _⟩, selected⟩ := (contains_iff range _).mp first
  obtain ⟨⟨_, _⟩, selected'⟩ := (contains_iff range _).mp last
  have end_eq := last_toNat room
  rw [contains_iff]
  refine ⟨⟨by omega, by omega⟩, ?_⟩
  have near : (q.stop - 1).toNat < q.start.toNat + 2 ^ granuleBit range.masks := by omega
  obtain same | same := granule_between low (by omega) near
  · rw [sel_granule range same, selected]
  · rw [sel_granule range same, selected']

theorem short_of_one {bit : Nat} (room : q.start.toNat < q.stop.toNat) (same : q.start >>> bit = (q.stop - 1) >>> bit) :
    q.stop.toNat - q.start.toNat ≤ 2 ^ bit := by
  have quotient := congrArg BitVec.toNat same
  rw [toNat_ushiftRight, toNat_ushiftRight, Nat.shiftRight_eq_div_pow, Nat.shiftRight_eq_div_pow, last_toNat room] at quotient
  have low := Nat.div_add_mod q.start.toNat (2 ^ bit)
  have high := Nat.div_add_mod (q.stop.toNat - 1) (2 ^ bit)
  rw [quotient] at low
  omega

theorem tests_interleaved (single : q.interleaved = false) (room : q.start.toNat < q.stop.toNat)
    (interleaved : range.interleaved = true) : Tests q range ↔ ¬Lost q range := by
  have yes := isSubset_interleaved single room interleaved
  constructor
  · intro tests lost
    obtain ⟨_, _, small⟩ := yes.mp (tests.complete lost.one lost.first lost.last)
    rw [granuleBit_dropped lost.dropped] at small
    have several := lost.several
    omega
  · intro kept
    refine ⟨fun subset a inside => ?_, fun one first last => yes.mpr ⟨first, last, ?_⟩⟩
    · obtain ⟨first, last, small⟩ := yes.mp subset
      exact sound_interleaved room first last small inside
    · by_cases dropped : Dropped range.masks
      · have positive : 0 < 2 ^ granuleBit range.masks := Nat.two_pow_pos _
        by_contra long
        exact kept ⟨interleaved, dropped, by omega, one, first, last⟩
      · apply short_of_one room
        apply one _ (granuleBit_lowest dropped)
        · rw [inRange_toNat]
          omega
        · rw [inRange_toNat, last_toNat room]
          omega

theorem tests_single (single : q.interleaved = false) (room : q.start.toNat < q.stop.toNat)
    (alone : range.interleaved = false) : Tests q range ↔ ¬Unmatched q range := by
  have yes := isSubset_single single alone
  have none : range.masks = [] := by simpa [AddrRange.interleaved] using alone
  constructor
  · intro tests unmatched
    have holds := tests.sound (yes.mpr ⟨unmatched.low, unmatched.high⟩) q.start ((inRange_toNat q _).mpr (by omega))
    have selected := ((contains_iff range _).mp holds).2
    apply unmatched.value
    rw [sel, none, selLoop] at selected
    apply eq_of_toNat_eq
    have value := congrArg BitVec.toNat selected
    exact value.symm
  · intro matched
    refine ⟨fun subset a inside => ?_, fun _ first last => yes.mpr ?_⟩
    · obtain ⟨low, high⟩ := yes.mp subset
      have unmatched : range.intlvMatch = 0 := by
        by_contra value
        exact matched ⟨alone, value, low, high⟩
      rw [contains_plain alone unmatched, inRange_toNat]
      have between := (inRange_toNat q a).mp inside
      omega
    · have low := ((contains_iff range _).mp first).1
      have high := ((contains_iff range _).mp last).1
      rw [last_toNat room] at high
      omega

/-- The subset test keeps its promise exactly where no granule is lost and no match value
stands without masks. -/
theorem isSubset_tests (q range : AddrRange) (single : q.interleaved = false) (nonempty : q.start.toNat < q.stop.toNat) :
    Tests q range ↔ ¬Lost q range ∧ ¬Unmatched q range := by
  cases interleaved : range.interleaved with
  | true =>
    have other : ¬Unmatched q range := fun unmatched => by
      rw [unmatched.single] at interleaved
      cases interleaved
    rw [tests_interleaved single nonempty interleaved]
    exact (and_iff_left other).symm
  | false =>
    have other : ¬Lost q range := fun lost => by
      rw [lost.interleaved] at interleaved
      cases interleaved
    rw [tests_single single nonempty interleaved]
    exact (and_iff_right other).symm

def lowHalf : AddrRange := ⟨0, 0x400000000, [0x100000000], 0, fun _ => by decide⟩

theorem lowHalf_lowest {bit : Nat} (lowest : LowestBit lowHalf.masks bit) : bit = 32 := by
  apply lowestBit_unique lowest
  refine ⟨⟨0x100000000, mem_singleton_self _, by decide⟩, fun mask member _ below => ?_⟩
  have only : mask = 1#64 <<< 32 := mem_singleton.mp member
  rw [only, getLsbD_shiftLeft, decide_eq_true below, Bool.not_true, Bool.and_false, Bool.false_and]

/-- The first page of the memory is in the first granule, and the test denies it. -/
theorem isSubset_page_denied :
    let page := AddrRange.plain 0 0x1000
    OneGranule page lowHalf ∧ lowHalf.contains page.start = true ∧ lowHalf.contains (page.stop - 1) = true ∧
      page.isSubset lowHalf ≠ some true := by
  refine ⟨fun _ lowest a b inA inB => ?_, by decide, by decide, fun yes => ?_⟩
  · have highA := ((inRange_toNat _ a).mp inA).2
    have highB := ((inRange_toNat _ b).mp inB).2
    have stop : (AddrRange.plain 0 0x1000).stop.toNat = 0x1000 := rfl
    rw [lowHalf_lowest lowest, ← toNat_inj, toNat_ushiftRight, toNat_ushiftRight,
      Nat.shiftRight_eq_div_pow, Nat.shiftRight_eq_div_pow, Nat.div_eq_of_lt (by omega), Nat.div_eq_of_lt (by omega)]
  · have dropped : Dropped lowHalf.masks := fun _ member => by
      rw [mem_singleton.mp member]
      decide
    obtain ⟨_, _, small⟩ := (isSubset_interleaved rfl (by decide) rfl).mp yes
    rw [granuleBit_dropped dropped] at small
    exact absurd small (by decide)

theorem isSubset_tests_pages : Tests (AddrRange.plain 0 0x1000) ⟨0, 0x100000, [0x1000], 0, fun _ => by decide⟩ :=
  (isSubset_tests (AddrRange.plain 0 0x1000) ⟨0, 0x100000, [0x1000], 0, fun _ => by decide⟩ rfl (by decide)).mpr
    ⟨fun lost => absurd (lost.dropped 0x1000 (mem_singleton_self _)) (by decide),
      fun unmatched => absurd unmatched.single (by decide)⟩

end ImcGem5.Base.Interleaving.Proofs.Subset

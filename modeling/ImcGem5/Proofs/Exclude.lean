import ImcGem5.Base.AddrRange
import ImcGem5.Lib.Cuts

/-! Excluding ranges from a range is set difference. The loop over the sorted ranges is a
sweep: what it has returned and what it returns from `nextStart` on are what is left. -/

namespace ImcGem5.Base.Interleaving.Proofs.Exclude
open Lib.Cuts Mem List AddrRange
open BitVec (ule ult)

def bounds (range : AddrRange) : Nat × Nat := (range.start.toNat, range.stop.toNat)

theorem inRange_iff (range : AddrRange) (a : Addr) : range.inRange a = true ↔ a.toNat ∈ Set.Ico (bounds range).1 (bounds range).2 := by
  simp [AddrRange.inRange, bounds, ule, ult]

theorem contains_plain {range : AddrRange} (single : range.interleaved = false) (unmatched : range.intlvMatch = 0) (a : Addr) :
    range.contains a = range.inRange a := by
  have none : range.masks = [] := by simpa [AddrRange.interleaved] using single
  rw [AddrRange.contains, sel, none, unmatched]
  cases range.inRange a <;> rfl

/-- Where a range stands in the order: by its start, then by its match value, and ranges that
are not interleaved behind those that are. -/
def place (range : AddrRange) : Nat :=
  range.start.toNat * 257 + if range.interleaved then range.intlvMatch.toNat else 256

theorem before_iff (range other : AddrRange) : range.before other = true ↔ place range < place other := by
  rw [AddrRange.before, place, place]
  split
  next differs =>
    have apart : range.start.toNat ≠ other.start.toNat := by
      simpa [BitVec.toNat_inj] using differs
    rw [ult, decide_eq_true_iff]
    split <;> split <;> omega
  next equal =>
    have same : range.start = other.start := by simpa using equal
    rw [same]
    cases range.interleaved <;> cases other.interleaved <;> simp [ult]
    all_goals omega

theorem not_before_iff (one other : AddrRange) : other.before one = false ↔ place one ≤ place other := by
  rw [← Bool.not_eq_true, before_iff, not_lt]

theorem sort_sorted (ranges : List AddrRange) : (sort ranges).Pairwise fun one other => one.start.toNat ≤ other.start.toNat := by
  have total : Std.Total fun one other : AddrRange => other.before one = false := by
    refine ⟨fun one other => ?_⟩
    rw [not_before_iff, not_before_iff]
    exact le_total _ _
  have transitive : IsTrans AddrRange fun one other => other.before one = false := by
    refine ⟨fun one other _ => ?_⟩
    rw [not_before_iff, not_before_iff, not_before_iff]
    exact le_trans
  apply (pairwise_insertionSort _ ranges).imp
  intro one other sorted
  have order := (not_before_iff one other).mp sorted
  rw [place, place] at order
  split at order <;> split at order <;> omega

theorem sort_perm (ranges : List AddrRange) : (sort ranges).Perm ranges :=
  perm_insertionSort _ ranges

structure Left (range : AddrRange) (nextStart : Addr) (excluded pieces : List AddrRange) : Prop where
  cut : Cut nextStart.toNat range.stop.toNat (excluded.map bounds) (pieces.map bounds)
  plain : ∀ piece ∈ pieces, piece = AddrRange.plain piece.start piece.stop

variable {range e : AddrRange} {nextStart : Addr} {rest pieces : List AddrRange}

theorem Left.cons (left : Left range e.stop rest pieces) (cut : Cut nextStart.toNat range.stop.toNat ((e :: rest).map bounds)
    ((AddrRange.plain nextStart e.start :: pieces).map bounds)) :
    Left range nextStart (e :: rest) (AddrRange.plain nextStart e.start :: pieces) where
  cut := cut
  plain := forall_mem_cons.mpr ⟨rfl, left.plain⟩

theorem left_nothing (passed : range.stop.toNat ≤ nextStart.toNat) (rest : List AddrRange) : Left range nextStart rest [] where
  cut := cut_empty passed _
  plain _ member := absurd member not_mem_nil

theorem intersects_plain (single : range.interleaved = false) (plain : e.interleaved = false) :
    range.intersects e = some (decide (range.start.toNat < e.stop.toNat ∧ e.start.toNat < range.stop.toNat)) := by
  rw [AddrRange.intersects, single, plain]
  simp only [ule, Bool.or_eq_true, decide_eq_true_iff, Bool.not_false, Bool.and_self, if_true]
  split
  next apart => rw [decide_eq_false (by omega)]
  next meets => rw [decide_eq_true (by omega)]

theorem excludeLoop_left (single : range.interleaved = false) (excluded : List AddrRange) (nextStart : Addr) (ranges : List AddrRange)
    (begun : range.start.toNat ≤ nextStart.toNat) (valid : ∀ e ∈ excluded, e.valid = true)
    (singles : ∀ e ∈ excluded, e.interleaved = false)
    (sorted : excluded.Pairwise fun one other => one.start.toNat ≤ other.start.toNat) :
    ∃ pieces, range.excludeLoop nextStart excluded ranges = some (ranges ++ pieces) ∧ Left range nextStart excluded pieces := by
  induction excluded generalizing nextStart ranges with
  | nil =>
    rw [excludeLoop]
    by_cases room : nextStart.toNat < range.stop.toNat
    · refine ⟨[AddrRange.plain nextStart range.stop], by simp [ult, room], cut_whole room, ?_⟩
      simp [AddrRange.plain]
    · exact ⟨[], by simp [ult, room], left_nothing (Nat.le_of_not_lt room) []⟩
  | cons e rest ih =>
    obtain ⟨first, sorted⟩ := pairwise_cons.mp sorted
    obtain ⟨forward, valid⟩ := forall_mem_cons.mp valid
    obtain ⟨plain, singles⟩ := forall_mem_cons.mp singles
    have forward : e.start.toNat ≤ e.stop.toNat := by simpa [AddrRange.valid, ule] using forward
    have later : ∀ cut ∈ rest.map bounds, e.start.toNat ≤ cut.1 := by
      intro cut member
      obtain ⟨other, inside, rfl⟩ := mem_map.mp member
      exact first other inside
    rw [excludeLoop, plain, if_neg Bool.false_ne_true, intersects_plain single plain]
    by_cases overlap : range.start.toNat < e.stop.toNat ∧ e.start.toNat < range.stop.toNat
    · rw [decide_eq_true overlap]
      simp only [ule, ult, decide_eq_true_iff]
      have short : e.start.toNat ≤ range.stop.toNat := Nat.le_of_lt overlap.2
      split
      next reached =>
        split
        next goes =>
          split
          next beyond =>
            obtain ⟨pieces, result, left⟩ := ih e.stop ranges (Nat.le_of_lt overlap.1) valid singles sorted
            exact ⟨pieces, result, left.cut.advance reached (Nat.le_of_lt beyond), left.plain⟩
          next passed =>
            obtain ⟨pieces, result, left⟩ := ih nextStart ranges begun valid singles sorted
            exact ⟨pieces, result, left.cut.skip (Or.inl (Nat.le_of_not_lt passed)), left.plain⟩
        next ends =>
          have passed : range.stop.toNat ≤ e.stop.toNat := Nat.le_of_not_lt ends
          have nothing : Left range nextStart (e :: rest) [] := by
            by_cases beyond : nextStart.toNat ≤ e.stop.toNat
            · exact ⟨(left_nothing passed rest).cut.advance reached beyond, (left_nothing passed rest).plain⟩
            · exact left_nothing (by omega) _
          exact ⟨[], by rw [append_nil], nothing⟩
      next ahead =>
        have room : nextStart.toNat < e.start.toNat := Nat.lt_of_not_le ahead
        split
        next goes =>
          obtain ⟨pieces, result, left⟩ := ih e.stop (ranges ++ [AddrRange.plain nextStart e.start]) (Nat.le_of_lt overlap.1)
            valid singles sorted
          refine ⟨AddrRange.plain nextStart e.start :: pieces, ?_, left.cons (left.cut.split room forward short later)⟩
          rw [result, append_assoc, singleton_append]
        next ends =>
          have left := left_nothing (Nat.le_of_not_lt ends) rest
          exact ⟨[AddrRange.plain nextStart e.start], rfl, left.cons (left.cut.split room forward short later)⟩
    · rw [decide_eq_false overlap]
      obtain ⟨pieces, result, left⟩ := ih nextStart ranges begun valid singles sorted
      refine ⟨pieces, result, left.cut.skip ?_, left.plain⟩
      have apart : e.stop.toNat ≤ nextStart.toNat ∨ range.stop.toNat ≤ e.start.toNat := by omega
      exact apart

section

variable (left : Left range nextStart rest pieces)
include left

theorem Left.contains {piece : AddrRange} (member : piece ∈ pieces) (a : Addr) :
    piece.contains a = true ↔ a.toNat ∈ Set.Ico (bounds piece).1 (bounds piece).2 := by
  have shape := left.plain piece member
  have single : piece.interleaved = false := by rw [shape]; rfl
  have unmatched : piece.intlvMatch = 0 := by rw [shape]; rfl
  rw [contains_plain single unmatched, inRange_iff]

theorem Left.inside {piece : AddrRange} (member : piece ∈ pieces) :
    nextStart.toNat ≤ piece.start.toNat ∧ piece.start.toNat < piece.stop.toNat ∧ piece.stop.toNat ≤ range.stop.toNat :=
  left.cut.inside (bounds piece) (mem_map_of_mem member)

theorem Left.ordered : pieces.Pairwise fun one other => one.stop.toNat ≤ other.start.toNat :=
  pairwise_map.mp left.cut.ordered

end

theorem Left.members (left : Left range range.start rest pieces) (a : Addr) :
    (∃ piece ∈ pieces, piece.contains a = true) ↔ range.inRange a = true ∧ ∀ e ∈ rest, e.inRange a = false := by
  have cut := left.cut.members a.toNat
  constructor
  · rintro ⟨piece, member, holds⟩
    obtain ⟨inside, apart⟩ := cut.mp ⟨bounds piece, mem_map_of_mem member, (left.contains member a).mp holds⟩
    refine ⟨(inRange_iff range a).mpr inside, fun e excluded => ?_⟩
    rw [← Bool.not_eq_true, inRange_iff]
    exact apart (bounds e) (mem_map_of_mem excluded)
  · rintro ⟨inside, apart⟩
    obtain ⟨_, member, holds⟩ := cut.mpr ⟨(inRange_iff range a).mp inside, fun _ member => by
      obtain ⟨e, excluded, rfl⟩ := mem_map.mp member
      rw [← inRange_iff, apart e excluded]
      exact Bool.false_ne_true⟩
    obtain ⟨piece, present, rfl⟩ := mem_map.mp member
    exact ⟨piece, present, (left.contains present a).mpr holds⟩

theorem exclude_left (single : range.interleaved = false) {excluded : List AddrRange}
    (allValid : ∀ e ∈ excluded, e.valid = true) (singles : ∀ e ∈ excluded, e.interleaved = false) :
    ∃ pieces, range.exclude excluded = some pieces ∧ Left range range.start excluded pieces := by
  have same := sort_perm excluded
  obtain ⟨pieces, result, left⟩ := excludeLoop_left single (sort excluded) range.start [] (Nat.le_refl _)
    (fun e member => allValid e (same.mem_iff.mp member)) (fun e member => singles e (same.mem_iff.mp member)) (sort_sorted excluded)
  refine ⟨pieces, ?_, left.cut.perm (same.map bounds), left.plain⟩
  rw [exclude, single, if_neg Bool.false_ne_true, result, nil_append]

/-- Exclusion is set difference: what is returned comes in increasing order, does not meet,
lies in the range, and has the addresses of the range that no excluded range has. Where no
match values were given without masks, the same holds of what the ranges contain. -/
theorem exclude_difference (range : AddrRange) (excluded : List AddrRange) (single : range.interleaved = false)
    (allValid : ∀ e ∈ excluded, e.valid = true) (singles : ∀ e ∈ excluded, e.interleaved = false) :
    ∃ ranges, range.exclude excluded = some ranges ∧
      (ranges.Pairwise fun one other => one.start.toNat < other.start.toNat ∧ one.stop.toNat ≤ other.start.toNat) ∧
      (ranges.Pairwise fun one other => ∀ a, ¬(one.contains a = true ∧ other.contains a = true)) ∧
      (∀ piece ∈ ranges, piece.valid = true ∧ piece.isSubset range = some true ∧
        ∀ a, piece.contains a = true → range.inRange a = true) ∧
      (∀ a, (∃ piece ∈ ranges, piece.contains a = true) ↔
        range.inRange a = true ∧ ∀ e ∈ excluded, e.inRange a = false) ∧
      (range.intlvMatch = 0 → (∀ e ∈ excluded, e.intlvMatch = 0) →
        ∀ a, (∃ piece ∈ ranges, piece.contains a = true) ↔
          range.contains a = true ∧ ∀ e ∈ excluded, e.contains a = false) := by
  obtain ⟨pieces, result, left⟩ := exclude_left single allValid singles
  refine ⟨pieces, result, ?_, ?_, fun piece member => ⟨?_, ?_, fun a holds => ?_⟩, left.members, fun unmatched none a => ?_⟩
  · apply left.ordered.imp_of_mem
    intro one other member _ order
    exact ⟨Nat.lt_of_lt_of_le (left.inside member).2.1 order, order⟩
  · apply left.ordered.imp_of_mem
    rintro one other first second order a ⟨inOne, inOther⟩
    have high := ((left.contains first a).mp inOne).2
    have low := ((left.contains second a).mp inOther).1
    exact absurd (Nat.lt_of_lt_of_le high order) (Nat.not_lt.mpr low)
  · have room := (left.inside member).2.1
    simpa [AddrRange.valid, ule] using Nat.le_of_lt room
  · obtain ⟨low, _, high⟩ := left.inside member
    have alone : piece.interleaved = false := by rw [left.plain piece member]; rfl
    rw [AddrRange.isSubset, alone, single, if_neg Bool.false_ne_true, if_neg Bool.false_ne_true]
    simp [ule, low, high]
  · exact ((left.members a).mp ⟨piece, member, holds⟩).1
  · rw [left.members a, contains_plain single unmatched]
    refine and_congr_right fun _ => forall₂_congr fun e member => ?_
    rw [contains_plain (singles e member) (none e member)]

/-- Overlapping, nested, touching and empty ranges, in no order. -/
theorem exclude_difference_mixed :
    ∃ ranges, (AddrRange.plain 0x10 0x100).exclude [.plain 0x80 0x90, .plain 0x40 0x60, .plain 0x50 0x58, .plain 0x60 0x70,
        .plain 0xc0 0xc0, .plain 0 0x20] = some ranges ∧
      (ranges.Pairwise fun one other => one.start.toNat < other.start.toNat ∧ one.stop.toNat ≤ other.start.toNat) := by
  obtain ⟨ranges, result, order, _⟩ := exclude_difference (AddrRange.plain 0x10 0x100) [.plain 0x80 0x90, .plain 0x40 0x60,
    .plain 0x50 0x58, .plain 0x60 0x70, .plain 0xc0 0xc0, .plain 0 0x20] (by decide) (by decide) (by decide)
  exact ⟨ranges, result, order⟩

example : ((AddrRange.plain 0x10 0x100).exclude [.plain 0x80 0x90, .plain 0x40 0x60, .plain 0xc0 0xc0, .plain 0 0x20]).map
    (·.map bounds) = some [(0x20, 0x40), (0x60, 0x80), (0x90, 0xc0), (0xc0, 0x100)] := by decide

end ImcGem5.Base.Interleaving.Proofs.Exclude

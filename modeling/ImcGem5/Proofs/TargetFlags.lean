import Mathlib.Order.BooleanAlgebra.Basic
import ImcGem5.Lib.Summary
import ImcGem5.Proofs.Mshr

/-! The flags of a list of targets against its targets. The flags are a summary that targets only
add to. It is computed anew where targets leave, though not quite as it is when they come, and
not at all where they are promoted. -/

namespace ImcGem5.Mem.Proofs.TargetFlags
open Lib Proofs.Mshr List MSHR TargetList
open Bool hiding and_assoc and_true not_not true_and

def append (targets : TargetList) (target : Target) : TargetList :=
  { targets.updateFlags targets.list.isEmpty target.pkt target.source target.allocOnFill with list := targets.list ++ [target] }

/-- The flags are reset and the targets added one by one, in order, to an empty list. -/
def rebuilt (targets : TargetList) : TargetList := targets.list.foldl append { targets.resetFlags with list := [] }

def Described (targets : TargetList) : Prop := rebuilt targets = targets

def noted (targets : TargetList) (target : Target) : TargetList :=
  targets.updateFlags false target.pkt target.source target.allocOnFill

section Lists

variable (targets : TargetList) (list : List Target) (first : Bool) (pkt : Packet) (source : Source) (allocOnFill : Bool)

theorem updateFlags_withList :
    ({ targets with list }).updateFlags first pkt source allocOnFill = { targets.updateFlags first pkt source allocOnFill with list } := by
  simp only [updateFlags, updateWriteFlags, isWholeLineWrite]
  split_ifs <;> rfl

theorem updateWriteFlags_shape : (targets.updateWriteFlags first pkt).blkSize = targets.blkSize ∧
    (targets.updateWriteFlags first pkt).writesBitmap.length = targets.writesBitmap.length := by
  simp only [updateWriteFlags]
  split_ifs <;> simp

theorem updateFlags_shape : (targets.updateFlags first pkt source allocOnFill).blkSize = targets.blkSize ∧
    (targets.updateFlags first pkt source allocOnFill).writesBitmap.length = targets.writesBitmap.length := by
  simp only [updateFlags]
  split_ifs
  · exact ⟨rfl, rfl⟩
  · exact ⟨rfl, rfl⟩
  · exact updateWriteFlags_shape _ first pkt

end Lists

theorem resetFlags_eq (first second : TargetList) (block : first.blkSize = second.blkSize)
    (length : first.writesBitmap.length = second.writesBitmap.length) (list : List Target) :
    { first.resetFlags with list } = { second.resetFlags with list } := by
  simp only [resetFlags, map_const', block, length]

theorem foldl_noted_withList (targets : TargetList) (list items : List Target) :
    items.foldl noted { targets with list } = { items.foldl noted targets with list } := by
  induction items generalizing targets with
  | nil => rfl
  | cons _ _ ih => rw [foldl_cons, noted, updateFlags_withList, ih, foldl_cons, noted]

theorem foldl_noted_list (targets : TargetList) (items : List Target) : (items.foldl noted targets).list = targets.list := by
  induction items generalizing targets with
  | nil => rfl
  | cons _ _ ih => rw [foldl_cons, ih, noted, updateFlags_list]

theorem isEmpty_concat (list : List Target) (target : Target) : (list ++ [target]).isEmpty = false := by
  rw [isEmpty_eq_false_iff]
  exact append_ne_nil_of_right_ne_nil _ (cons_ne_nil _ _)

theorem foldl_append_cons (targets : TargetList) (item : Target) (items : List Target) :
    (item :: items).foldl append targets =
      { items.foldl noted (targets.updateFlags targets.list.isEmpty item.pkt item.source item.allocOnFill) with
        list := targets.list ++ item :: items } := by
  induction items generalizing targets item with
  | nil => rfl
  | cons _ _ ih =>
    have some : (append targets item).list.isEmpty = false := isEmpty_concat _ item
    rw [foldl_cons, ih, some]
    simp only [append]
    rw [updateFlags_withList, foldl_noted_withList, append_assoc, singleton_append, foldl_cons, noted]

section Adding

variable {targets : TargetList}

theorem described_empty (empty : targets.list = []) : Described targets.resetFlags := by
  have none : targets.resetFlags.list = [] := empty
  rw [Described, rebuilt, none]
  simp only [foldl_nil, resetFlags, map_map, Function.comp_def, empty]

theorem append_base (targets : TargetList) (target : Target) :
    { (append targets target).resetFlags with list := ([] : List Target) } = { targets.resetFlags with list := [] } := by
  obtain ⟨block, length⟩ := updateFlags_shape targets targets.list.isEmpty target.pkt target.source target.allocOnFill
  exact resetFlags_eq (append targets target) targets block length []

theorem described_append (described : Described targets) (target : Target) : Described (append targets target) := by
  have list : (append targets target).list = targets.list ++ [target] := rfl
  rw [Described, rebuilt, append_base, list, foldl_append, ← rebuilt, show rebuilt targets = targets from described]
  rfl

variable {target : Target}

theorem add_append {next : TargetList} {above above' : PendingAbove}
    (ran : targets.add above target = .ok (next, above')) : ∃ markedPending, next = append targets { target with markedPending } := by
  obtain ⟨⟨_, markedPending⟩, _, ran⟩ := of_bind ran
  cases ran
  exact ⟨markedPending, rfl⟩

theorem foldl_append_map (change : Target → Target)
    (alike : ∀ target, (change target).pkt = target.pkt ∧ (change target).source = target.source ∧
      (change target).allocOnFill = target.allocOnFill) (targets : TargetList) (items : List Target) :
    (items.map change).foldl append { targets with list := targets.list.map change } =
      { items.foldl append targets with list := (targets.list ++ items).map change } := by
  induction items generalizing targets with
  | nil => rw [append_nil, map_nil, foldl_nil, foldl_nil]
  | cons item _ ih =>
    obtain ⟨pkt, source, allocOnFill⟩ := alike item
    have first : append { targets with list := targets.list.map change } (change item) =
        { append targets item with list := (append targets item).list.map change } := by
      simp only [append, pkt, source, allocOnFill, isEmpty_map, updateFlags_withList, map_append, map_cons, map_nil]
    rw [map_cons, foldl_cons, first, ih, foldl_cons]
    simp only [append, append_assoc, singleton_append]

def unmark (target : Target) : Target := { target with markedPending := false }

theorem clearEach_unmark {above above' : PendingAbove} {list next : List Target}
    (ran : clearEach above list = .ok (next, above')) : next = list.map unmark := by
  induction list generalizing above next with
  | nil =>
    cases ran
    rfl
  | cons _ _ ih =>
    obtain ⟨_, _, ran⟩ := of_bind ran
    obtain ⟨⟨_, _⟩, rested, ran⟩ := of_bind ran
    cases ran
    rw [ih rested, map_cons, unmark]

theorem described_unmark (described : Described targets) : Described { targets with list := targets.list.map unmark } := by
  have mapped := foldl_append_map unmark (fun _ => ⟨rfl, rfl, rfl⟩) { targets.resetFlags with list := [] } targets.list
  have same : targets.list.foldl append { targets.resetFlags with list := [] } = targets := described
  rw [same] at mapped
  exact mapped

end Adding

def covers (targets : TargetList) (pkt : Packet) (i : Nat) : Bool :=
  decide (pkt.getOffset targets.blkSize ≤ i) && decide (i < pkt.getOffset targets.blkSize + pkt.size)

/-- A write of a processor that may only be merged as the first of its list, and writes bytes of
the block. -/
def special (targets : TargetList) (target : Target) : Bool :=
  decide (target.source = .fromCPU) && target.pkt.isWrite && !target.pkt.isMaskedWrite &&
    target.pkt.req.flags.isSet TargetList.noMergeFlags && (range targets.writesBitmap.length).any (covers targets target.pkt)

section Populating

variable {targets : TargetList} {target : Target}

theorem populateFlags_eq (targets : TargetList) : targets.populateFlags = targets.list.foldl noted targets.resetFlags := by
  rw [populateFlags]
  cases targets.list with
  | nil => rfl
  | cons => rfl

theorem foldl_noted_shape (targets : TargetList) (items : List Target) :
    (items.foldl noted targets).blkSize = targets.blkSize ∧
      (items.foldl noted targets).writesBitmap.length = targets.writesBitmap.length := by
  induction items generalizing targets with
  | nil => exact ⟨rfl, rfl⟩
  | cons item _ ih =>
    obtain ⟨block, length⟩ := updateFlags_shape targets false item.pkt item.source item.allocOnFill
    rw [foldl_cons, (ih _).1, (ih _).2]
    exact ⟨block, length⟩

theorem rebuilt_populateFlags (targets : TargetList) : rebuilt targets.populateFlags = rebuilt targets := by
  have base : { targets.populateFlags.resetFlags with list := ([] : List Target) } = { targets.resetFlags with list := [] } := by
    obtain ⟨block, length⟩ := foldl_noted_shape targets.resetFlags targets.list
    have reset : targets.resetFlags.writesBitmap.length = targets.writesBitmap.length := length_map _
    have same : (targets.list.foldl noted targets.resetFlags).blkSize = targets.blkSize := block
    rw [populateFlags_eq]
    exact resetFlags_eq _ targets same (length.trans reset) []
  rw [rebuilt, rebuilt, base, populateFlags_list]

theorem noted_closed (target : Target) (closed : targets.canMergeWrites = false) :
    (noted targets target).canMergeWrites = false ∧ (noted targets target).writesBitmap = targets.writesBitmap := by
  simp only [noted, updateFlags, updateWriteFlags, isWholeLineWrite, closed]
  split_ifs <;> simp_all

theorem foldl_noted_closed (closed : targets.canMergeWrites = false) (items : List Target) :
    (items.foldl noted targets).writesBitmap = targets.writesBitmap := by
  induction items generalizing targets with
  | nil => rfl
  | cons item _ ih =>
    obtain ⟨still, same⟩ := noted_closed item closed
    rw [foldl_cons, ih still, same]

def written (targets : TargetList) (pkt : Packet) : Bool :=
  (range targets.writesBitmap.length).all fun i => !covers targets pkt i || targets.writesBitmap.getD i false

theorem marked_eq_iff (targets : TargetList) (pkt : Packet) :
    (targets.writesBitmap.mapIdx fun i old => old || covers targets pkt i) = targets.writesBitmap ↔ written targets pkt = true := by
  rw [written, all_eq_true, ext_getElem_iff]
  simp only [length_mapIdx, true_and, getElem_mapIdx, mem_range]
  refine forall_congr' fun i => ?_
  constructor
  · intro same inside
    rw [getD_eq_getElem _ _ inside, ← same inside inside]
    cases targets.writesBitmap[i] <;> cases covers targets pkt i <;> rfl
  · intro all inside _
    have here := all inside
    rw [getD_eq_getElem _ _ inside] at here
    revert here
    cases targets.writesBitmap[i] <;> cases covers targets pkt i <;> simp

theorem written_resetFlags (targets : TargetList) (pkt : Packet) :
    written targets.resetFlags pkt = !(range targets.writesBitmap.length).any (covers targets pkt) := by
  have length : targets.resetFlags.writesBitmap.length = targets.writesBitmap.length := length_map _
  have clean (i : Nat) : targets.resetFlags.writesBitmap.getD i false = false := by
    rw [resetFlags, getD_eq_getElem?_getD, getElem?_map]
    cases targets.writesBitmap[i]? <;> rfl
  rw [written, length, not_any_eq_all_not]
  simp only [clean, Bool.or_false]
  rfl

theorem written_of_whole (whole : targets.isWholeLineWrite = true) (pkt : Packet) : written targets pkt = true := by
  rw [written, all_eq_true]
  intro i member
  have inside := mem_range.mp member
  have bit : targets.writesBitmap[i] = true := all_eq_true.mp whole _ (getElem_mem inside)
  rw [getD_eq_getElem _ _ inside, bit, Bool.or_true]

/-- A write that may only be merged as the first one, and has something to write. -/
def opens (targets : TargetList) (pkt : Packet) : Bool :=
  pkt.isWrite && !pkt.isMaskedWrite && pkt.req.flags.isSet TargetList.noMergeFlags && !written targets pkt

theorem updateWriteFlags_ordinary {pkt : Packet} (ordinary : opens targets pkt = false) :
    targets.updateWriteFlags true pkt = targets.updateWriteFlags false pkt := by
  unfold updateWriteFlags
  split
  · rfl
  split
  · rfl
  split
  · rfl
  next write =>
    cases masked : pkt.isMaskedWrite with
    | true => rfl
    | false =>
      cases flagged : pkt.req.flags.isSet noMergeFlags with
      | false => rfl
      | true =>
        simp only [opens, masked, flagged, Bool.not_false, Bool.and_true, and_eq_false_iff, not_eq_false'] at ordinary write ⊢
        have untouched := (marked_eq_iff targets pkt).mpr (ordinary.resolve_left (by simpa using write))
        simp only [covers] at untouched
        simp [untouched]

theorem updateWriteFlags_opens {pkt : Packet} (merging : targets.canMergeWrites = true) (is : opens targets pkt = true) :
    (targets.updateWriteFlags false pkt).canMergeWrites = false ∧ (targets.updateWriteFlags true pkt).canMergeWrites = false ∧
      (targets.updateWriteFlags true pkt).writesBitmap ≠ (targets.updateWriteFlags false pkt).writesBitmap := by
  simp only [opens, and_eq_true, not_eq_true'] at is
  obtain ⟨⟨⟨write, unmasked⟩, flagged⟩, fresh⟩ := is
  have unfinished : targets.isWholeLineWrite = false := by
    by_contra whole
    rw [written_of_whole (eq_true_of_not_eq_false whole)] at fresh
    cases fresh
  have different : (targets.writesBitmap.mapIdx fun i old => old || covers targets pkt i) ≠ targets.writesBitmap := by
    rw [Ne, marked_eq_iff, fresh]
    exact Bool.false_ne_true
  simp only [updateWriteFlags, unfinished, merging, write, unmasked, flagged, Bool.not_true, Bool.not_false, false_eq_true,
    if_false, Bool.true_or, Bool.false_or, Bool.and_true, Bool.and_false, if_true]
  exact ⟨trivial, trivial, different⟩

theorem updateFlags_ordinary (ordinary : special targets target = false) :
    targets.resetFlags.updateFlags true target.pkt target.source target.allocOnFill =
      targets.resetFlags.updateFlags false target.pkt target.source target.allocOnFill := by
  cases source : target.source with
  | fromSnoop => rfl
  | fromPrefetcher => rfl
  | fromCPU =>
    refine updateWriteFlags_ordinary (?_ : opens _ target.pkt = false)
    have unopened : opens targets.resetFlags target.pkt = false := by
      rw [opens, written_resetFlags, Bool.not_not]
      simpa only [special, source, decide_true, Bool.true_and] using ordinary
    exact unopened

theorem updateFlags_special (is : special targets target = true) :
    (targets.resetFlags.updateFlags false target.pkt target.source target.allocOnFill).canMergeWrites = false ∧
    (targets.resetFlags.updateFlags true target.pkt target.source target.allocOnFill).canMergeWrites = false ∧
    (targets.resetFlags.updateFlags true target.pkt target.source target.allocOnFill).writesBitmap ≠
      (targets.resetFlags.updateFlags false target.pkt target.source target.allocOnFill).writesBitmap := by
  have opened : opens targets.resetFlags target.pkt = true := by
    rw [opens, written_resetFlags, Bool.not_not]
    simp only [special, and_eq_true] at is ⊢
    exact ⟨⟨⟨is.1.1.1.2, is.1.1.2⟩, is.1.2⟩, is.2⟩
  have source : target.source = .fromCPU := by
    simp only [special, and_eq_true, decide_eq_true_eq] at is
    exact is.1.1.1.1
  rw [source]
  exact updateWriteFlags_opens rfl (opened : opens _ target.pkt = true)

theorem rebuilt_cons {rest : List Target} (list : targets.list = target :: rest) : rebuilt targets =
      { rest.foldl noted (targets.resetFlags.updateFlags true target.pkt target.source target.allocOnFill) with
        list := target :: rest } := by
  rw [rebuilt, list, foldl_append_cons, updateFlags_withList, foldl_noted_withList]
  rfl

theorem populateFlags_cons {rest : List Target} (list : targets.list = target :: rest) :
    targets.populateFlags = rest.foldl noted (targets.resetFlags.updateFlags false target.pkt target.source target.allocOnFill) := by
  rw [populateFlags_eq, list, foldl_cons, noted]

theorem described_populateFlags_iff (targets : TargetList) :
    Described targets.populateFlags ↔ ∀ target, targets.list.head? = some target → special targets target = false := by
  rw [Described, rebuilt_populateFlags]
  cases list : targets.list with
  | nil =>
    have reset : targets.populateFlags = targets.resetFlags := by rw [populateFlags_eq, list, foldl_nil]
    refine iff_of_true ?_ fun _ none => nomatch none
    rw [← rebuilt_populateFlags, reset]
    exact described_empty list
  | cons target rest =>
    have kept : targets.populateFlags.list = target :: rest := (populateFlags_list targets).trans list
    rw [populateFlags_cons list] at kept ⊢
    rw [rebuilt_cons list]
    constructor
    · intro same other is
      cases is
      by_contra isSpecial
      obtain ⟨closed, closedFirst, differ⟩ := updateFlags_special (eq_true_of_not_eq_false isSpecial)
      apply differ
      rw [← foldl_noted_closed closed rest, ← foldl_noted_closed closedFirst rest]
      have written := congrArg TargetList.writesBitmap same
      exact written
    · intro ordinary
      rw [updateFlags_ordinary (ordinary target rfl), ← kept]

end Populating

section Growing

structure AtMost (less more : TargetList) : Prop where
  list : less.list = more.list
  blkSize : less.blkSize = more.blkSize
  needsWritable : less.needsWritable ≤ more.needsWritable
  hasUpgrade : less.hasUpgrade ≤ more.hasUpgrade
  allocOnFill : less.allocOnFill ≤ more.allocOnFill
  hasFromCache : less.hasFromCache ≤ more.hasFromCache
  canMergeWrites : more.canMergeWrites ≤ less.canMergeWrites
  bytes : less.writesBitmap.length = more.writesBitmap.length
  writes : ∀ i, less.writesBitmap.getD i false ≤ more.writesBitmap.getD i false

instance : PartialOrder TargetList where
  le := AtMost
  le_refl _ := ⟨rfl, rfl, le_refl _, le_refl _, le_refl _, le_refl _, le_refl _, rfl, fun _ => le_refl _⟩
  le_trans _ _ _ first second :=
    ⟨first.list.trans second.list, first.blkSize.trans second.blkSize, first.needsWritable.trans second.needsWritable,
      first.hasUpgrade.trans second.hasUpgrade, first.allocOnFill.trans second.allocOnFill,
      first.hasFromCache.trans second.hasFromCache, second.canMergeWrites.trans first.canMergeWrites,
      first.bytes.trans second.bytes, fun i => (first.writes i).trans (second.writes i)⟩
  le_antisymm first second there back := by
    obtain ⟨list, blkSize, needsWritable, hasUpgrade, allocOnFill, hasFromCache, canMergeWrites, writesBitmap⟩ := first
    congr
    · exact there.list
    · exact there.blkSize
    · exact le_antisymm there.needsWritable back.needsWritable
    · exact le_antisymm there.hasUpgrade back.hasUpgrade
    · exact le_antisymm there.allocOnFill back.allocOnFill
    · exact le_antisymm there.hasFromCache back.hasFromCache
    · exact le_antisymm back.canMergeWrites there.canMergeWrites
    · refine ext_getElem there.bytes fun i inside within => ?_
      have same := le_antisymm (there.writes i) (back.writes i)
      rwa [getD_eq_getElem _ _ inside, getD_eq_getElem _ _ within] at same

theorem updateWriteFlags_grows (targets : TargetList) (first : Bool) (pkt : Packet) : targets ≤ targets.updateWriteFlags first pkt := by
  unfold updateWriteFlags
  split
  · exact le_refl _
  split
  · exact le_refl _
  next merging =>
    rw [not_eq_true', not_eq_false] at merging
    split
    · exact ⟨rfl, rfl, le_refl _, le_refl _, le_refl _, le_refl _, Bool.false_le _, rfl, fun _ => le_refl _⟩
    · refine ⟨rfl, rfl, le_refl _, le_refl _, le_refl _, le_refl _, ?_, ?_, ?_⟩
      · rw [merging]
        exact Bool.le_true _
      · dsimp only
        split
        · exact (length_mapIdx).symm
        · rfl
      · intro i
        dsimp only
        split
        · rw [getD_eq_getElem?_getD, getD_eq_getElem?_getD, getElem?_mapIdx]
          cases targets.writesBitmap[i]? with
          | none => exact le_refl _
          | some => exact left_le_or _ _
        · exact le_refl _

theorem updateFlags_grows (targets : TargetList) (first : Bool) (pkt : Packet) (source : Source) (allocOnFill : Bool) :
    targets ≤ targets.updateFlags first pkt source allocOnFill := by
  unfold updateFlags
  split
  · exact le_refl _
  have asked : targets ≤ { targets with
        needsWritable := targets.needsWritable || pkt.needsWritable
        hasUpgrade := targets.hasUpgrade || pkt.isUpgrade || pkt.cmd == .storeCondReq
        allocOnFill := targets.allocOnFill || allocOnFill } :=
    ⟨rfl, rfl, left_le_or _ _, (left_le_or _ _).trans (left_le_or _ _), left_le_or _ _, le_refl _, le_refl _, rfl,
      fun _ => le_refl _⟩
  split
  · exact asked
  · refine le_trans ?_ (updateWriteFlags_grows _ first pkt)
    exact asked.trans ⟨rfl, rfl, le_refl _, le_refl _, le_refl _, left_le_or _ _, le_refl _, rfl, fun _ => le_refl _⟩

def absorbedWrite (targets : TargetList) (pkt : Packet) : Bool :=
  targets.isWholeLineWrite || !targets.canMergeWrites ||
    pkt.isWrite && !pkt.req.flags.isSet TargetList.noMergeFlags && (pkt.isMaskedWrite || written targets pkt)

def absorbed (targets : TargetList) (target : Target) : Bool :=
  decide (target.source = .fromSnoop) ||
    (!target.pkt.needsWritable || targets.needsWritable) &&
    (!(target.pkt.isUpgrade || target.pkt.cmd == .storeCondReq) || targets.hasUpgrade) &&
    (!target.allocOnFill || targets.allocOnFill) &&
    (decide (target.source = .fromPrefetcher) || (!target.pkt.fromCache || targets.hasFromCache) && absorbedWrite targets target.pkt)

theorem updateWriteFlags_eq_iff (targets : TargetList) (first : Bool) (pkt : Packet) :
    targets.updateWriteFlags first pkt = targets ↔ absorbedWrite targets pkt = true := by
  unfold absorbedWrite updateWriteFlags
  cases whole : targets.isWholeLineWrite with
  | true => simp
  | false =>
    cases merging : targets.canMergeWrites with
    | false => simp
    | true =>
      cases write : pkt.isWrite with
      | false =>
        refine iff_of_false (fun same => ?_) (by simp)
        have closed := congrArg TargetList.canMergeWrites same
        rw [merging] at closed
        cases closed
      | true =>
        cases flagged : pkt.req.flags.isSet noMergeFlags with
        | true =>
          refine iff_of_false (fun same => ?_) (by simp)
          have closed := congrArg TargetList.canMergeWrites same
          rw [merging] at closed
          cases closed
        | false =>
          cases masked : pkt.isMaskedWrite with
          | true => simp [← merging]
          | false =>
            have marked := marked_eq_iff targets pkt
            simp only [covers] at marked
            simp only [Bool.not_true, Bool.not_false, false_eq_true, if_false, Bool.or_true, Bool.and_true, if_true, Bool.true_and,
              Bool.false_or, ← marked]
            constructor
            · exact fun same => congrArg TargetList.writesBitmap same
            · intro same
              rw [same, ← merging]

def asked (targets : TargetList) (target : Target) : TargetList :=
  { targets with
    needsWritable := targets.needsWritable || target.pkt.needsWritable
    hasUpgrade := targets.hasUpgrade || target.pkt.isUpgrade || target.pkt.cmd == .storeCondReq
    allocOnFill := targets.allocOnFill || target.allocOnFill
    hasFromCache := targets.hasFromCache || target.pkt.fromCache }

theorem or_eq_left_iff (old new : Bool) : (old || new) = old ↔ (!new || old) = true := by
  cases old <;> cases new <;> decide

section

variable (targets : TargetList)
include targets

theorem asked_grows (target : Target) : targets ≤ asked targets target :=
  ⟨rfl, rfl, left_le_or _ _, (left_le_or _ _).trans (left_le_or _ _), left_le_or _ _, left_le_or _ _,
    le_refl _, rfl, fun _ => le_refl _⟩

theorem asked_eq_iff (target : Target) : asked targets target = targets ↔
    (!target.pkt.needsWritable || targets.needsWritable) = true ∧
      (!(target.pkt.isUpgrade || target.pkt.cmd == .storeCondReq) || targets.hasUpgrade) = true ∧
      (!target.allocOnFill || targets.allocOnFill) = true ∧ (!target.pkt.fromCache || targets.hasFromCache) = true := by
  obtain ⟨_, _, needsWritable, hasUpgrade, allocOnFill, hasFromCache, _⟩ := targets
  simp only [asked, TargetList.mk.injEq, true_and, and_true, Bool.or_assoc, or_eq_left_iff]

theorem updateFlags_eq_iff (first : Bool) (target : Target) :
    targets.updateFlags first target.pkt target.source target.allocOnFill = targets ↔ absorbed targets target = true := by
  cases source : target.source with
  | fromSnoop => simp [updateFlags, absorbed, source]
  | fromPrefetcher =>
    obtain ⟨_, _, _, _, allocOnFill, _⟩ := targets
    simp [updateFlags, absorbed, source, Bool.or_assoc, -or_eq_left_iff_imp, or_eq_left_iff, and_assoc]
  | fromCPU =>
    have both : targets.updateFlags first target.pkt .fromCPU target.allocOnFill =
        (asked targets target).updateWriteFlags first target.pkt := rfl
    have said : absorbed targets target = true ↔ asked targets target = targets ∧ absorbedWrite targets target.pkt = true := by
      rw [asked_eq_iff]
      simp [absorbed, source, and_assoc]
    rw [both, said]
    constructor
    · intro same
      have grown := updateWriteFlags_grows (asked targets target) first target.pkt
      rw [same] at grown
      have unasked := le_antisymm grown (asked_grows targets target)
      rw [unasked] at same
      exact ⟨unasked, (updateWriteFlags_eq_iff targets first target.pkt).mp same⟩
    · rintro ⟨same, writes⟩
      rw [same]
      exact (updateWriteFlags_eq_iff targets first target.pkt).mpr writes

theorem noted_grows (item : Target) : targets ≤ noted targets item := updateFlags_grows _ _ _ _ _

end

theorem withList_inj {first second : TargetList} (list : first.list = second.list) (other : List Target) :
    ({ first with list := other } : TargetList) = { second with list := other } ↔ first = second := by
  cases first
  cases second
  cases list
  simp only [TargetList.mk.injEq, true_and]

theorem foldl_append_eq_iff (targets : TargetList) (items : List Target) :
    items.foldl append targets = { targets with list := targets.list ++ items } ↔ ∀ item ∈ items, absorbed targets item = true := by
  cases items with
  | nil =>
    refine iff_of_true ?_ (forall_mem_nil _)
    rw [append_nil, foldl_nil]
  | cons item items =>
    have first := updateFlags_grows targets targets.list.isEmpty item.pkt item.source item.allocOnFill
    have kept := foldl_noted_list (targets.updateFlags targets.list.isEmpty item.pkt item.source item.allocOnFill) items
    rw [updateFlags_list] at kept
    rw [foldl_append_cons, withList_inj kept, forall_mem_cons, ← updateFlags_eq_iff targets targets.list.isEmpty item]
    have others : (∀ other ∈ items, absorbed targets other = true) ↔ items.foldl noted targets = targets := by
      rw [foldl_eq_iff noted_grows]
      exact forall₂_congr fun other _ => (updateFlags_eq_iff targets false other).symm
    rw [others]
    constructor
    · intro same
      have there := (le_foldl noted_grows items _).trans_eq same
      have fixed := le_antisymm there first
      rw [fixed] at same
      exact ⟨fixed, same⟩
    · rintro ⟨fixed, same⟩
      rw [fixed]
      exact same

variable {targets : TargetList}

theorem rebuilt_missed (described : Described targets) (items : List Target) :
    rebuilt { targets with list := targets.list ++ items } = items.foldl append targets := by
  rw [rebuilt, foldl_append]
  exact congrArg (items.foldl append) described

theorem described_missed_iff (described : Described targets) (items : List Target) :
    Described { targets with list := targets.list ++ items } ↔ ∀ item ∈ items, absorbed targets item = true := by
  rw [Described, rebuilt_missed described, foldl_append_eq_iff]

theorem foldl_append_needsWritable (targets : TargetList) (items : List Target) :
    (items.foldl append targets).needsWritable =
      (targets.needsWritable || items.any fun item => decide (item.source ≠ .fromSnoop) && item.pkt.needsWritable) := by
  induction items generalizing targets with
  | nil => exact (Bool.or_false _).symm
  | cons item _ ih =>
    have first : (append targets item).needsWritable =
        (targets.needsWritable || decide (item.source ≠ .fromSnoop) && item.pkt.needsWritable) := by
      simp only [append, updateFlags, updateWriteFlags]
      split_ifs <;> simp_all
    rw [foldl_cons, ih, first, any_cons, Bool.or_assoc]

theorem foldl_append_writable (targets : TargetList) (items : List Target) :
    items.foldl append { targets with needsWritable := true } = { items.foldl append targets with needsWritable := true } := by
  induction items generalizing targets with
  | nil => rfl
  | cons item _ ih =>
    have first : append { targets with needsWritable := true } item = { append targets item with needsWritable := true } := by
      simp only [append, updateFlags, updateWriteFlags, isWholeLineWrite, Bool.true_or]
      split_ifs <;> rfl
    rw [foldl_cons, first, ih, foldl_cons]

theorem described_marked_iff (described : Described targets) (unmarked : targets.needsWritable = false)
    {items : List Target} (own : ∀ item ∈ items, item.source = .fromCPU) :
    Described { targets with needsWritable := true, list := targets.list ++ items } ↔
      (∃ item ∈ items, item.pkt.needsWritable = true) ∧ ∀ item ∈ items, absorbed { targets with needsWritable := true } item = true := by
  have rebuild : rebuilt { targets with needsWritable := true, list := targets.list ++ items } = items.foldl append targets :=
    rebuilt_missed described items
  have needs : (items.foldl append targets).needsWritable = true ↔ ∃ item ∈ items, item.pkt.needsWritable = true := by
    rw [foldl_append_needsWritable, unmarked, Bool.false_or, any_eq_true]
    refine exists_congr fun item => and_congr_right fun member => ?_
    simp [own item member]
  rw [Described, rebuild, ← needs, ← foldl_append_eq_iff, foldl_append_writable]
  constructor
  · intro same
    rw [same]
    exact ⟨rfl, rfl⟩
  · rintro ⟨set, same⟩
    rw [← same, ← set]

end Growing

section Replacing

theorem replacedCmd_same (cmd : MemCmd) : (replacedCmd cmd).needsWritable = cmd.needsWritable ∧ (replacedCmd cmd).isWrite = cmd.isWrite ∧
    (replacedCmd cmd).fromCache = cmd.fromCache ∧ (replacedCmd cmd == .writeReq) = (cmd == .writeReq) ∧
    (replacedCmd cmd).isRequest = cmd.isRequest := by
  cases cmd <;> exact ⟨rfl, rfl, rfl, rfl, rfl⟩

theorem replacedCmd_upgrade {cmd : MemCmd} (request : cmd.isRequest = true) :
    ((replacedCmd cmd).isUpgrade || replacedCmd cmd == .storeCondReq) = false := by
  cases cmd <;> first | rfl | exact absurd request (by decide)

structure Replaced (old new : Packet) : Prop where
  cmd : new.cmd = replacedCmd old.cmd
  req : new.req = old.req
  addr : new.addr = old.addr
  size : new.size = old.size

theorem replaceUpgrade_replaced {pkt next : Packet} (ran : replaceUpgrade pkt = .ok next) : Replaced pkt next := by
  unfold replaceUpgrade at ran
  dsimp only at ran
  split at ran
  · cases ran
    exact ⟨rfl, rfl, rfl, rfl⟩
  · obtain ⟨_, ran⟩ := of_require ran
    cases ran
    split
    · exact ⟨rfl, rfl, rfl, rfl⟩
    · exact ⟨rfl, rfl, rfl, rfl⟩

def ReplacedTarget (old new : Target) : Prop := ∃ pkt, Replaced old.pkt pkt ∧ new = { old with pkt }

theorem replaceEach_replaced {list next : List Target} (ran : replaceEach list = .ok next) : List.Forall₂ ReplacedTarget list next := by
  induction list generalizing next with
  | nil =>
    cases ran
    exact .nil
  | cons _ _ ih =>
    obtain ⟨pkt, replaced, ran⟩ := of_bind ran
    obtain ⟨_, rested, ran⟩ := of_bind ran
    cases ran
    exact .cons ⟨pkt, replaceUpgrade_replaced replaced, rfl⟩ (ih rested)

theorem updateFlags_replaced (targets : TargetList) (list : List Target) (first : Bool) {old new : Packet} (replaced : Replaced old new)
    {source : Source} (request : source ≠ .fromSnoop → old.isRequest = true) (allocOnFill : Bool) :
    ({ targets with list, hasUpgrade := false }).updateFlags first new source allocOnFill =
      { targets.updateFlags first old source allocOnFill with list, hasUpgrade := false } := by
  obtain ⟨needsWritable, isWrite, fromCache, masked, _⟩ := replacedCmd_same old.cmd
  have writable : new.needsWritable = old.needsWritable := by rw [Packet.needsWritable, replaced.cmd, needsWritable, Packet.needsWritable]
  have write : new.isWrite = old.isWrite := by rw [Packet.isWrite, replaced.cmd, isWrite, Packet.isWrite]
  have cache : new.fromCache = old.fromCache := by rw [Packet.fromCache, replaced.cmd, fromCache, Packet.fromCache]
  have mask : new.isMaskedWrite = old.isMaskedWrite := by
    rw [Packet.isMaskedWrite, replaced.cmd, masked, replaced.req, Packet.isMaskedWrite]
  have offset (blkSize : Nat) : new.getOffset blkSize = old.getOffset blkSize := by rw [Packet.getOffset, replaced.addr, Packet.getOffset]
  by_cases snoop : source = .fromSnoop
  · rw [updateFlags, if_pos snoop, updateFlags, if_pos snoop]
  · have upgrade : (new.isUpgrade || new.cmd == .storeCondReq) = false := by
      rw [Packet.isUpgrade, replaced.cmd]
      exact replacedCmd_upgrade (request snoop)
    simp only [updateFlags, if_neg snoop, updateWriteFlags, isWholeLineWrite, Bool.false_or, upgrade,
      writable, write, cache, mask, offset, replaced.req, replaced.size]
    split_ifs <;> rfl

theorem foldl_append_replaced {olds news : List Target} (replaced : List.Forall₂ ReplacedTarget olds news)
    (requests : ∀ target ∈ olds, target.source ≠ .fromSnoop → target.pkt.isRequest = true) (targets : TargetList) (list : List Target)
    (empty : list.isEmpty = targets.list.isEmpty) :
    news.foldl append { targets with list, hasUpgrade := false } =
      { olds.foldl append targets with list := list ++ news, hasUpgrade := false } := by
  induction replaced generalizing targets list with
  | nil => rw [append_nil, foldl_nil, foldl_nil]
  | @cons old new olds news one _ ih =>
    obtain ⟨pkt, same, rfl⟩ := one
    rw [foldl_cons, foldl_cons]
    have first : append { targets with list, hasUpgrade := false } { old with pkt } =
        { append targets old with list := list ++ [{ old with pkt }], hasUpgrade := false } := by
      rw [append, append]
      rw [updateFlags_replaced targets list list.isEmpty same (requests old mem_cons_self) old.allocOnFill, empty]
    rw [first, ih (fun other member => requests other (mem_cons_of_mem _ member))]
    · rw [append_assoc, singleton_append]
    · have kept : (append targets old).list = targets.list ++ [old] := rfl
      rw [kept, isEmpty_concat, isEmpty_concat]

def Requests (targets : TargetList) : Prop := ∀ target ∈ targets.list, target.source ≠ .fromSnoop → target.pkt.isRequest = true

theorem requests_replaced {olds news : List Target} (replaced : List.Forall₂ ReplacedTarget olds news)
    (requests : ∀ target ∈ olds, target.source ≠ .fromSnoop → target.pkt.isRequest = true) :
    ∀ target ∈ news, target.source ≠ .fromSnoop → target.pkt.isRequest = true := by
  induction replaced with
  | nil => exact forall_mem_nil _
  | @cons old new olds news one _ ih =>
    obtain ⟨pkt, same, rfl⟩ := one
    rw [forall_mem_cons] at requests ⊢
    refine ⟨fun own => ?_, ih requests.2⟩
    have request := requests.1 own
    obtain ⟨_, _, _, _, still⟩ := replacedCmd_same old.pkt.cmd
    rwa [Packet.isRequest, same.cmd, still]

theorem replaceUpgrades_described {targets next : TargetList} (described : Described targets) (requests : Requests targets)
    (ran : targets.replaceUpgrades = .ok next) : Described next ∧ Requests next := by
  unfold replaceUpgrades at ran
  split at ran
  · cases ran
    exact ⟨described, requests⟩
  · obtain ⟨list, each, ran⟩ := of_bind ran
    cases ran
    have replaced := replaceEach_replaced each
    refine ⟨?_, requests_replaced replaced requests⟩
    have folded := foldl_append_replaced replaced requests { targets.resetFlags with list := [] } [] rfl
    have same : targets.list.foldl append { targets.resetFlags with list := [] } = targets := described
    rw [same] at folded
    exact folded

end Replacing

def BothDescribed (mshr : MSHR) : Prop := Described mshr.targets ∧ Described mshr.deferredTargets

def BothRequests (mshr : MSHR) : Prop := Requests mshr.targets ∧ Requests mshr.deferredTargets

section Keeping

variable {mshr next : MSHR} {labels : List MshrLabel} {pkt : Packet} {above : Option Nat} {order : Nat}

theorem add_described {targets next : TargetList} {above above' : PendingAbove} (described : Described targets)
    (requests : Requests targets) (request : target.source ≠ .fromSnoop → target.pkt.isRequest = true)
    (ran : targets.add above target = .ok (next, above')) : Described next ∧ Requests next := by
  obtain ⟨_, rfl⟩ := add_append ran
  exact ⟨described_append described _, forall_mem_append.mpr ⟨requests, forall_mem_singleton.mpr request⟩⟩

theorem requests_unmark {list : List Target} (requests : ∀ target ∈ list, target.source ≠ .fromSnoop → target.pkt.isRequest = true) :
    ∀ target ∈ list.map unmark, target.source ≠ .fromSnoop → target.pkt.isRequest = true :=
  forall_mem_map.mpr requests

theorem clearTargets_described (described : BothDescribed mshr) (requests : BothRequests mshr) (ran : mshr.clearTargets = .ok next) :
    BothDescribed next ∧ BothRequests next := by
  obtain ⟨⟨_, _⟩, cleared, ran⟩ := of_bind ran
  cases ran
  obtain rfl := clearEach_unmark cleared
  exact ⟨⟨described_unmark described.1, described.2⟩, requests_unmark requests.1, requests.2⟩

theorem allocate_described {blkSize : Nat} {whenReady : Tick} {allocOnFill : Bool}
    (free : mshr.targets.list = [] ∧ mshr.deferredTargets.list = []) (request : pkt.isRequest = true)
    (ran : mshr.allocate blkSize pkt above whenReady order allocOnFill = .ok (next, labels)) : BothDescribed next ∧ BothRequests next := by
  obtain ⟨⟨targets, _⟩, added, ran⟩ := of_bind ran
  cases ran
  have empty {targets : TargetList} (none : targets.list = []) : Described (targets.init blkSize) ∧ Requests (targets.init blkSize) := by
    have kept : (targets.init blkSize).list = [] := none
    refine ⟨described_empty none, ?_⟩
    rw [Requests, kept]
    exact forall_mem_nil _
  obtain ⟨first, ordinary⟩ := empty free.1
  obtain ⟨described, requests⟩ := add_described first ordinary (fun _ => request) added
  exact ⟨⟨described, (empty free.2).1⟩, requests, (empty free.2).2⟩

theorem replaceUpgrade_request {replaced : Packet} (request : pkt.isRequest = true) (ran : replaceUpgrade pkt = .ok replaced) :
    replaced.isRequest = true := by
  obtain ⟨_, _, _, _, still⟩ := replacedCmd_same pkt.cmd
  rwa [Packet.isRequest, (replaceUpgrade_replaced ran).cmd, still]

section

variable (described : BothDescribed mshr)
include described

theorem allocateTarget_described {whenReady : Tick} {allocOnFill : Bool} (requests : BothRequests mshr) (request : pkt.isRequest = true)
    (ran : mshr.allocateTarget pkt above whenReady order allocOnFill = .ok (next, labels)) : BothDescribed next ∧ BothRequests next := by
  obtain ⟨_, ran⟩ := of_require ran
  obtain ⟨_, _, ran⟩ := of_bind ran
  split at ran
  · obtain ⟨replaced, replaces, ran⟩ := of_bind ran
    obtain ⟨⟨_, _⟩, added, ran⟩ := of_bind ran
    cases ran
    have still : replaced.isRequest = true := by
      split at replaces
      · exact replaceUpgrade_request request replaces
      · cases replaces
        exact request
    obtain ⟨afterwards, others⟩ := add_described described.2 requests.2 (fun _ => still) added
    exact ⟨⟨described.1, afterwards⟩, requests.1, others⟩
  · obtain ⟨⟨_, _⟩, added, ran⟩ := of_bind ran
    cases ran
    obtain ⟨afterwards, others⟩ := add_described described.1 requests.1 (fun _ => request) added
    exact ⟨⟨afterwards, described.2⟩, others, requests.2⟩

theorem replaceDeferred_described (requests : BothRequests mshr) (ran : mshr.replaceDeferred = .ok next) :
    BothDescribed next ∧ BothRequests next := by
  obtain ⟨_, replaced, ran⟩ := of_bind ran
  cases ran
  obtain ⟨afterwards, others⟩ := replaceUpgrades_described described.2 requests.2 replaced
  exact ⟨⟨described.1, afterwards⟩, requests.1, others⟩

theorem replaceAll_described (requests : BothRequests mshr) (ran : mshr.replaceAll = .ok next) :
    BothDescribed next ∧ BothRequests next := by
  obtain ⟨targets, replaced, ran⟩ := of_bind ran
  obtain ⟨afterwards, others⟩ := replaceUpgrades_described described.1 requests.1 replaced
  have before : BothDescribed { mshr with targets } := ⟨afterwards, described.2⟩
  exact replaceDeferred_described before ⟨others, requests.2⟩ ran

variable {curTick : Tick}

theorem snoopLater_described (requests : BothRequests mshr) (ran : mshr.snoopLater pkt above order curTick = .ok (next, labels)) :
    BothDescribed next ∧ BothRequests next := by
  obtain ⟨⟨_, _⟩, saved, ran⟩ := of_bind ran
  cases ran
  split at saved
  · obtain ⟨⟨_, _⟩, added, saved⟩ := of_bind saved
    cases saved
    obtain ⟨afterwards, others⟩ := add_described described.1 requests.1 (fun own => absurd rfl own) added
    exact ⟨⟨afterwards, described.2⟩, others, requests.2⟩
  · cases saved
    exact ⟨described, requests⟩

theorem handleSnoop_described (requests : BothRequests mshr) (ran : mshr.handleSnoop pkt above order curTick = .ok (next, labels)) :
    BothDescribed next ∧ BothRequests next := by
  obtain ⟨_, ran⟩ := of_panicIf ran
  split at ran
  · obtain ⟨middle, replaced, ran⟩ := of_bind ran
    cases ran
    split at replaced
    · exact replaceAll_described described requests replaced
    · cases replaced
      exact ⟨described, requests⟩
  · obtain ⟨middle, replaced, ran⟩ := of_bind ran
    obtain ⟨_, _, ran⟩ := of_bind ran
    have before : BothDescribed middle ∧ BothRequests middle := by
      split at replaced
      · exact replaceDeferred_described described requests replaced
      · cases replaced
        exact ⟨described, requests⟩
    split at ran
    · cases ran
      exact before
    · exact snoopLater_described before.1 before.2 ran

theorem markInService_described {pendingModifiedResp : Bool} (requests : BothRequests mshr)
    (ran : mshr.markInService pendingModifiedResp = .ok next) : BothDescribed next ∧ BothRequests next := by
  obtain ⟨_, ran⟩ := of_require ran
  obtain ⟨_, cleared, ran⟩ := of_bind ran
  cases ran
  split at cleared
  · cases cleared
    exact ⟨described, requests⟩
  · have before : BothDescribed { mshr with
        inService := true, pendingModified := mshr.targets.needsWritable || pendingModifiedResp, postInvalidate := false
        postDowngrade := false } := described
    have afterwards := clearTargets_described before requests cleared
    exact afterwards

theorem clearDownstreamPending_described (requests : BothRequests mshr)
    (ran : mshr.clearDownstreamPending = .ok next) : BothDescribed next ∧ BothRequests next := by
  obtain ⟨_, ran⟩ := of_require ran
  have before : BothDescribed { mshr with downstreamPending := false } := described
  exact clearTargets_described before requests ran

end

end Keeping

def ordinaryFirst (targets : TargetList) (list : List Target) : Bool := list.head?.all fun target => !special targets target

def readable (target : Target) : Bool := !target.pkt.req.isCacheInvalidate && !target.pkt.needsWritable
def writable (target : Target) : Bool := !target.pkt.req.isCacheInvalidate

/-- When extracting targets leaves flags that describe what is left. Only an invalidating response
leaves requests behind one that was served. -/
def extractsWell (mshr : MSHR) (cmd : MemCmd) : Bool :=
  cmd != .readRespWithInvalidate ||
    match mshr.targets.list with
    | [] => true
    | first :: rest =>
      first.pkt.cmd == .lockedRMWReadReq || ordinaryFirst mshr.targets (rest.filter fun target => decide (target.source = .fromCPU))

def promotesDeferredWell (mshr : MSHR) : Bool :=
  let (promoted, left) := MSHR.promotable mshr.targets.list mshr.deferredTargets.list
  ordinaryFirst mshr.targets (mshr.targets.list ++ promoted) && ordinaryFirst mshr.deferredTargets left

def promotesReadableWell (mshr : MSHR) : Bool :=
  mshr.deferredTargets.list.isEmpty || mshr.postInvalidate ||
    (mshr.deferredTargets.list.takeWhile readable).all (absorbed mshr.targets) &&
      ordinaryFirst mshr.deferredTargets (mshr.deferredTargets.list.dropWhile readable)

def promotesWritableWell (mshr : MSHR) : Bool :=
  match mshr.deferredTargets.list with
  | [] => true
  | first :: _ =>
    !mshr.deferredTargets.needsWritable || (mshr.postInvalidate || mshr.postDowngrade || first.pkt.req.isCacheInvalidate) ||
      (mshr.deferredTargets.list.takeWhile writable).any (fun target => target.pkt.needsWritable) &&
      (mshr.deferredTargets.list.takeWhile writable).all (absorbed { mshr.targets with needsWritable := true }) &&
      ordinaryFirst mshr.deferredTargets (mshr.deferredTargets.list.dropWhile writable)

section Moving

variable {mshr next : MSHR} {labels : List MshrLabel} {list taken left : List Target} {pred : Target → Bool}

theorem described_populate_iff (targets : TargetList) (list : List Target) :
    Described { targets with list }.populateFlags ↔ ordinaryFirst targets list = true := by
  rw [described_populateFlags_iff, ordinaryFirst]
  cases list.head? with
  | none => exact iff_of_true (fun _ none => nomatch none) rfl
  | some =>
    simp only [Option.some.injEq, forall_eq', Option.all_some, not_eq_true']
    rfl

theorem takeSnoops_left (ran : takeSnoops list = .ok (taken, left)) :
    left = list.filter fun target => decide (target.source = .fromCPU) := by
  induction list generalizing taken left with
  | nil =>
    cases ran
    rfl
  | cons _ _ ih =>
    unfold takeSnoops at ran
    split at ran
    next source =>
      obtain ⟨⟨snoops, others⟩, rested, ran⟩ := of_bind ran
      cases ran
      rw [ih rested, filter_cons_of_pos (by simpa using source)]
    next source =>
      obtain ⟨_, ran⟩ := of_require ran
      obtain ⟨⟨snoops, others⟩, rested, ran⟩ := of_bind ran
      cases ran
      rw [ih rested, filter_cons_of_neg (by simpa using source)]

theorem ordinaryFirst_locked (targets : TargetList) (locks : target.pkt.cmd = .lockedRMWReadReq) (rest : List Target) :
    ordinaryFirst targets (target :: rest) = true := by
  have read : target.pkt.isWrite = false := by
    rw [Packet.isWrite, locks]
    rfl
  simp [ordinaryFirst, special, read]

theorem takeUnlocked_left (targets : TargetList) (list : List Target) : ordinaryFirst targets (takeUnlocked list).2 = true := by
  induction list with
  | nil => rfl
  | cons _ rest ih =>
    unfold takeUnlocked
    split
    next locks => exact ordinaryFirst_locked targets locks rest
    · exact ih

theorem spanCPU_spans (ran : spanCPU pred list = .ok (taken, left)) :
    taken = list.takeWhile pred ∧ left = list.dropWhile pred ∧ ∀ target ∈ taken, target.source = .fromCPU := by
  induction list generalizing taken left with
  | nil =>
    cases ran
    exact ⟨rfl, rfl, forall_mem_nil _⟩
  | cons _ _ ih =>
    obtain ⟨source, ran⟩ := of_require ran
    split at ran
    next goes =>
      obtain ⟨⟨_, _⟩, rested, ran⟩ := of_bind ran
      cases ran
      obtain ⟨rfl, rfl, own⟩ := ih rested
      rw [takeWhile_cons_of_pos goes, dropWhile_cons_of_pos goes]
      exact ⟨rfl, rfl, forall_mem_cons.mpr ⟨of_decide_eq_true source, own⟩⟩
    next stays =>
      cases ran
      rw [takeWhile_cons_of_neg stays, dropWhile_cons_of_neg stays]
      exact ⟨rfl, rfl, forall_mem_nil _⟩

theorem takeUnlocked_subset (list : List Target) : (takeUnlocked list).2 ⊆ list := by
  induction list with
  | nil => exact List.Subset.refl _
  | cons _ _ ih =>
    unfold takeUnlocked
    split
    · exact List.Subset.refl _
    · exact fun _ member => mem_cons_of_mem _ (ih member)

theorem takeFirst_left (ran : takeFirst list = .ok (taken, left)) : ∃ first rest,
    list = first :: rest ∧ (first.pkt.cmd = .lockedRMWReadReq ∧ left = first :: rest ∨
      first.pkt.cmd ≠ .lockedRMWReadReq ∧ left = rest.filter fun target => decide (target.source = .fromCPU)) := by
  cases list with
  | nil => cases ran
  | cons first rest =>
    refine ⟨first, rest, rfl, ?_⟩
    obtain ⟨_, ran⟩ := of_require ran
    split at ran
    next locks =>
      cases ran
      exact .inl ⟨locks, rfl⟩
    next free =>
      obtain ⟨⟨_, _⟩, rested, ran⟩ := of_bind ran
      cases ran
      exact .inr ⟨free, takeSnoops_left rested⟩

theorem requests_populate {targets : TargetList} (requests : ∀ target ∈ list, target.source ≠ .fromSnoop → target.pkt.isRequest = true) :
    Requests { targets with list }.populateFlags := by
  rw [Requests, populateFlags_list]
  exact requests

theorem extractServiceableTargets_described {cmd : MemCmd} (described : BothDescribed mshr) (requests : BothRequests mshr)
    (ran : mshr.extractServiceableTargets cmd = .ok (next, labels)) :
    BothRequests next ∧ (BothDescribed next ↔ extractsWell mshr cmd = true) := by
  obtain ⟨⟨ready, left⟩, taken, ran⟩ := of_bind ran
  cases ran
  have whole (well : ordinaryFirst mshr.targets left = extractsWell mshr cmd) (subset : left ⊆ mshr.targets.list) :
      BothRequests { mshr with targets := { mshr.targets with list := left }.populateFlags } ∧
        (BothDescribed { mshr with targets := { mshr.targets with list := left }.populateFlags } ↔ extractsWell mshr cmd = true) := by
    refine ⟨⟨requests_populate fun target member => requests.1 target (subset member), requests.2⟩, ?_⟩
    rw [BothDescribed, described_populate_iff, well]
    exact and_iff_left described.2
  apply whole
  · split at taken
    next invalidates =>
      obtain ⟨first, rest, list, ⟨locks, rfl⟩ | ⟨free, rfl⟩⟩ := takeFirst_left taken
      · rw [ordinaryFirst_locked mshr.targets locks, extractsWell, list]
        simp [locks]
      · rw [extractsWell, list]
        simp [invalidates, free]
    next other =>
      have unlocked : takeUnlocked mshr.targets.list = (ready, left) := Except.ok.inj taken
      have free := takeUnlocked_left mshr.targets mshr.targets.list
      rw [unlocked] at free
      rw [free, extractsWell]
      simp [other]
  · split at taken
    · obtain ⟨first, rest, list, ⟨_, rfl⟩ | ⟨_, rfl⟩⟩ := takeFirst_left taken
      · rw [list]
        exact List.Subset.refl _
      · rw [list]
        exact fun target member => mem_cons_of_mem _ (mem_filter.mp member).1
    · have subset := takeUnlocked_subset mshr.targets.list
      rw [show takeUnlocked mshr.targets.list = (ready, left) from Except.ok.inj taken] at subset
      exact subset

theorem promoteOrDeallocate_described (described : BothDescribed mshr) (requests : BothRequests mshr)
    (ran : mshr.promoteOrDeallocate curTick = .ok (next, labels)) :
    BothRequests next ∧ (BothDescribed next ↔ promotesDeferredWell mshr = true) := by
  obtain ⟨⟨_, _⟩, promotes, ran⟩ := of_bind ran
  unfold promoteDeferredTargets at promotes
  split at promotes
  next empty =>
    cases promotes
    obtain ⟨_, deallocates, ran⟩ := of_bind ran
    cases ran
    obtain ⟨_, deallocates⟩ := of_require deallocates
    obtain ⟨_, deallocates⟩ := of_require deallocates
    cases deallocates
    rw [and_eq_true, List.isEmpty_iff, List.isEmpty_iff] at empty
    refine ⟨⟨requests.1, requests.2⟩, iff_of_true ⟨described_empty empty.1, described.2⟩ ?_⟩
    rw [promotesDeferredWell, empty.1, empty.2]
    rfl
  next some =>
    unfold promotesDeferredWell
    have split := promotable_append mshr.targets.list mshr.deferredTargets.list
    generalize promotable mshr.targets.list mshr.deferredTargets.list = parts at split promotes ⊢
    obtain ⟨_, _, promotes⟩ := of_bind promotes
    cases promotes
    obtain ⟨_, marks, ran⟩ := of_bind ran
    cases ran
    obtain ⟨_, marks⟩ := of_require marks
    cases marks
    have deferred := requests.2
    rw [Requests, split, forall_mem_append] at deferred
    refine ⟨⟨requests_populate (forall_mem_append.mpr ⟨requests.1, deferred.1⟩), requests_populate deferred.2⟩, ?_⟩
    rw [BothDescribed, described_populate_iff, described_populate_iff, and_eq_true]

theorem promoteIf_eq (ran : mshr.promoteIf pred = .ok next) : next.targets = { mshr.targets with
      list := mshr.targets.list ++ (mshr.deferredTargets.list.takeWhile pred).map unmark } ∧
    next.deferredTargets = { mshr.deferredTargets with list := mshr.deferredTargets.list.dropWhile pred }.populateFlags ∧
    ∀ target ∈ mshr.deferredTargets.list.takeWhile pred, target.source = .fromCPU := by
  obtain ⟨_, ran⟩ := of_require ran
  obtain ⟨⟨_, _⟩, spans, ran⟩ := of_bind ran
  obtain ⟨⟨_, _⟩, cleared, ran⟩ := of_bind ran
  cases ran
  obtain ⟨rfl, rfl, own⟩ := spanCPU_spans spans
  obtain rfl := clearEach_unmark cleared
  exact ⟨rfl, rfl, own⟩

theorem promoteIf_requests (requests : BothRequests mshr) (ran : mshr.promoteIf pred = .ok next) : BothRequests next := by
  obtain ⟨targets, deferred, _⟩ := promoteIf_eq ran
  rw [BothRequests, targets, deferred]
  refine ⟨forall_mem_append.mpr ⟨requests.1, requests_unmark fun target member => ?_⟩, requests_populate fun target member => ?_⟩
  · exact requests.2 target (takeWhile_subset pred member)
  · exact requests.2 target (dropWhile_subset pred member)

theorem promoteReadable_described (described : BothDescribed mshr) (requests : BothRequests mshr) (ran : mshr.promoteReadable = .ok next) :
    BothRequests next ∧ (BothDescribed next ↔ promotesReadableWell mshr = true) := by
  unfold promoteReadable at ran
  split at ran
  next empty =>
    cases ran
    exact ⟨requests, iff_of_true described (by rw [promotesReadableWell, empty]; rfl)⟩
  next some =>
    obtain ⟨_, ran⟩ := of_require ran
    split at ran
    next invalidated =>
      cases ran
      exact ⟨requests, iff_of_true described (by rw [promotesReadableWell, invalidated, Bool.or_true]; rfl)⟩
    next valid =>
      refine ⟨promoteIf_requests requests ran, ?_⟩
      obtain ⟨targets, deferred, _⟩ := promoteIf_eq ran
      rw [BothDescribed, targets, deferred, described_missed_iff described.1, described_populate_iff, forall_mem_map,
        promotesReadableWell, eq_false_of_not_eq_true some, eq_false_of_not_eq_true valid, Bool.or_self, Bool.false_or,
        and_eq_true, all_eq_true]
      rfl

theorem promoteWritable_described (described : BothDescribed mshr) (requests : BothRequests mshr) (ran : mshr.promoteWritable = .ok next) :
    BothRequests next ∧ (BothDescribed next ↔ promotesWritableWell mshr = true) := by
  unfold promoteWritable at ran
  unfold promotesWritableWell
  cases list : mshr.deferredTargets.list with
  | nil =>
    rw [list] at ran
    cases ran
    exact ⟨requests, iff_of_true described rfl⟩
  | cons =>
    rw [list] at ran
    dsimp only at ran ⊢
    split at ran
    next readOnly =>
      cases ran
      exact ⟨requests, iff_of_true described (by rw [readOnly]; rfl)⟩
    next needed =>
      obtain ⟨_, ran⟩ := of_require ran
      split at ran
      next stays =>
        cases ran
        exact ⟨requests, iff_of_true described (by rw [stays, Bool.or_true]; rfl)⟩
      next goes =>
        obtain ⟨unmarked, ran⟩ := of_require ran
        rw [not_eq_true'] at unmarked
        have before : BothRequests { mshr with targets := { mshr.targets with needsWritable := true } } := requests
        refine ⟨promoteIf_requests before ran, ?_⟩
        obtain ⟨targets, deferred, own⟩ := promoteIf_eq ran
        have unmarkedOwn : ∀ target ∈ (mshr.deferredTargets.list.takeWhile writable).map unmark, target.source = .fromCPU :=
          forall_mem_map.mpr own
        have marked := described_marked_iff described.1 unmarked unmarkedOwn
        rw [BothDescribed, targets, deferred, described_populate_iff, ← list, eq_false_of_not_eq_true needed,
          eq_false_of_not_eq_true goes, Bool.or_self, Bool.false_or, and_eq_true, and_eq_true, any_eq_true,
          all_eq_true]
        refine and_congr_left' (marked.trans ?_)
        simp only [mem_map, exists_exists_and_eq_and, forall_exists_index, and_imp, forall_apply_eq_imp_iff₂]
        rfl

end Moving

/-- An MSHR that is allocated was free, and what waits for its block are requests. -/
def Legal (mshr : MSHR) : MshrCall → Prop
  | .allocate _ pkt _ _ _ _ => (mshr.targets.list = [] ∧ mshr.deferredTargets.list = []) ∧ pkt.isRequest = true
  | .op (.allocateTarget pkt _ _ _ _) => pkt.isRequest = true
  | _ => True

def clear (mshr : MSHR) : MshrCall → Bool
  | .op (.extractServiceableTargets cmd) => extractsWell mshr cmd
  | .op (.promoteDeferredTargets _) => promotesDeferredWell mshr
  | .op .promoteReadable => promotesReadableWell mshr
  | .op .promoteWritable => promotesWritableWell mshr
  | _ => true

theorem unlabelled_eq_ok {result : Except Abort MSHR} {next : MSHR} {labels : List MshrLabel}
    (ran : unlabelled result = .ok (next, labels)) : result = .ok next := by
  obtain ⟨_, inner, same⟩ := of_bind ran
  cases same
  exact inner

theorem call_described {mshr next : MSHR} {call : MshrCall} {labels : List MshrLabel} (requests : BothRequests mshr)
    (described : BothDescribed mshr) (legal : Legal mshr call) (ran : mshr.call call = .ok (next, labels)) :
    BothRequests next ∧ (BothDescribed next ↔ clear mshr call = true) := by
  have always (kept : BothDescribed next ∧ BothRequests next) (is : clear mshr call = true) :
      BothRequests next ∧ (BothDescribed next ↔ clear mshr call = true) :=
    ⟨kept.2, iff_of_true kept.1 is⟩
  cases call with
  | allocate => exact always (allocate_described legal.1 legal.2 ran) rfl
  | others =>
    cases ran
    exact always ⟨described, requests⟩ rfl
  | op op =>
    cases op with
    | allocateTarget => exact always (allocateTarget_described described requests legal ran) rfl
    | forward | pendingBelow =>
      cases ran
      exact always ⟨described, requests⟩ rfl
    | markInService => exact always (markInService_described described requests (unlabelled_eq_ok ran)) rfl
    | clearDownstreamPending => exact always (clearDownstreamPending_described described requests (unlabelled_eq_ok ran)) rfl
    | handleSnoop => exact always (handleSnoop_described described requests ran) rfl
    | promoteReadable => exact promoteReadable_described described requests (unlabelled_eq_ok ran)
    | promoteWritable => exact promoteWritable_described described requests (unlabelled_eq_ok ran)
    | extractServiceableTargets => exact extractServiceableTargets_described described requests ran
    | promoteDeferredTargets => exact promoteOrDeallocate_described described requests ran

/-- In every state of a run the flags of both lists describe them, exactly if each call is clear. -/
theorem flags_describe_lists {calls : List MshrCall} {final : MSHR} {labels : List MshrLabel} {above : PendingAbove}
    (legal : Each MSHR.call Legal { above } calls) (ran : run MSHR.call { above } calls = .ok (final, labels)) :
    (∀ before after middle past, calls = before ++ after → run MSHR.call { above } before = .ok (middle, past) →
      rebuilt middle.targets = middle.targets ∧ rebuilt middle.deferredTargets = middle.deferredTargets) ↔
        Each MSHR.call (fun mshr call => clear mshr call = true) { above } calls := by
  refine run_always_iff Legal _ BothRequests BothDescribed ?_ ?_ ⟨forall_mem_nil _, forall_mem_nil _⟩ ⟨rfl, rfl⟩ legal ran
  · intro mshr call next labels requests described legal ran
    exact (call_described requests described legal ran).1
  · intro mshr call next labels requests described legal ran
    exact (call_described requests described legal ran).2

def cpuRequest (flags : Flags) : Request := { id := 0, paddr := 0x1000, size := 64, flags }

def lineRead : Packet := Packet.ofRequest (cpuRequest 0) .readReq []
def lineClean : Packet := Packet.ofRequest (cpuRequest BaseFlag.clean.bits) .cleanSharedReq []

def mergedReads : List MshrCall :=
  [.allocate 64 lineRead none 0 0 true, .op (.allocateTarget lineRead none 1 1 true), .op (.markInService false),
    .op (.extractServiceableTargets .readResp), .op (.promoteDeferredTargets 9)]

theorem flags_describe_lists_merged : (∃ final labels, run MSHR.call {} mergedReads = .ok (final, labels)) ∧
    ∀ before after middle past, mergedReads = before ++ after → run MSHR.call {} before = .ok (middle, past) →
      rebuilt middle.targets = middle.targets ∧ rebuilt middle.deferredTargets = middle.deferredTargets := by
  have legal : Each MSHR.call Legal {} mergedReads :=
    ⟨⟨⟨rfl, rfl⟩, rfl⟩, rfl, trivial, trivial, trivial, trivial⟩
  obtain ⟨final, labels, ran⟩ : ∃ final labels, run MSHR.call {} mergedReads = .ok (final, labels) := ⟨_, _, rfl⟩
  exact ⟨⟨final, labels, ran⟩, (flags_describe_lists legal ran).mpr (by decide)⟩

def promotedRead : List MshrCall :=
  [.allocate 64 lineClean none 0 0 false, .op (.allocateTarget lineRead none 1 1 true), .op (.markInService false),
    .op .promoteReadable]

/-- The list has a target that allocates on a fill, and its flag says that none does. -/
theorem promoted_undescribed : ∃ final labels, Each MSHR.call Legal {} promotedRead ∧ run MSHR.call {} promotedRead = .ok (final, labels) ∧
    final.targets.allocOnFill = false ∧ (rebuilt final.targets).allocOnFill = true := by
  exact ⟨_, _, ⟨⟨⟨rfl, rfl⟩, rfl⟩, rfl, trivial, trivial, trivial⟩, rfl, rfl, rfl⟩

end ImcGem5.Mem.Proofs.TargetFlags

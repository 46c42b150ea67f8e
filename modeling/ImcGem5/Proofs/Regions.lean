import ImcGem5.Sim.MemState
import ImcGem5.Proofs.Blob
import Mathlib.Algebra.BigOperators.Group.List.Basic
import Mathlib.Algebra.Order.Group.Multiset
import Mathlib.Data.BitVec
import Mathlib.Tactic.Abel

/-! The areas of an address space are an exact map. What an area says of an address is the
byte that its file supplies there; slicing an area restricts what it says, and moving it moves
that. So the list of areas says of every address what the operations on whole regions make of
it, and at most once. -/

namespace ImcGem5.Sim.Proofs.Regions
open Lib Mem List Multiset Option Function
open BitVec (toNat_inj toNat_add toNat_sub le_def lt_def ule_iff_le ult_iff_lt toNat_sub_of_le)

variable {page : PageSize} {vma : VMA} {vmaList rest : List VMA} {a x lo hi start length : Addr}

def Aligned (page : PageSize) (a : Addr) : Prop := 2 ^ page.shift ∣ a.toNat

instance (page : PageSize) (a : Addr) : Decidable (Aligned page a) := inferInstanceAs (Decidable (_ ∣ _))

theorem bytes_toNat (page : PageSize) : page.bytes.toNat = 2 ^ page.shift :=
  Mem.Proofs.Blob.toNat_pow (by have := page.fits; omega)

theorem pow_dvd (page : PageSize) : 2 ^ page.shift ∣ 2 ^ 64 := Nat.pow_dvd_pow 2 (by have := page.fits; omega)

theorem aligned_iff (page : PageSize) (a : Addr) : (a % page.bytes == 0) = true ↔ Aligned page a := by
  rw [beq_iff_eq, ← toNat_inj, BitVec.toNat_umod, bytes_toNat, Aligned, Nat.dvd_iff_mod_eq_zero]
  rfl

theorem Aligned.add (aligned : Aligned page a) (other : Aligned page x) : Aligned page (a + x) := by
  unfold Aligned
  rw [toNat_add]
  exact (Nat.dvd_mod_iff (pow_dvd page)).mpr (Nat.dvd_add aligned other)

theorem Aligned.sub (aligned : Aligned page a) (other : Aligned page x) : Aligned page (a - x) := by
  unfold Aligned
  rw [toNat_sub]
  refine (Nat.dvd_mod_iff (pow_dvd page)).mpr (Nat.dvd_add (Nat.dvd_sub ?_ other) aligned)
  exact pow_dvd page

theorem aligned_bytes (page : PageSize) : Aligned page page.bytes := by
  unfold Aligned
  rw [bytes_toNat]

theorem pageOffset_toNat (page : PageSize) (a : Addr) : (page.pageOffset a).toNat = a.toNat % 2 ^ page.shift := by
  have fits := page.fits
  have small : 2 ^ page.shift < 2 ^ 64 := Nat.pow_lt_pow_right (by omega) (by omega)
  rw [PageSize.pageOffset, PageSize.bytes, Mem.Proofs.Blob.mask_eq (by omega), BitVec.toNat_and, BitVec.toNat_ofNat, Nat.mod_eq_of_lt (by omega),
    Nat.and_two_pow_sub_one_eq_mod]

theorem pageAlign_toNat (page : PageSize) (a : Addr) : (page.pageAlign a).toNat = a.toNat / 2 ^ page.shift * 2 ^ page.shift :=
  Mem.Proofs.Blob.cleared (by have := page.fits; omega) a

theorem pageOffset_eq (aligned : Aligned page a) : (page.pageOffset a == 0) = true := by
  rw [beq_iff_eq, ← toNat_inj, pageOffset_toNat]
  exact Nat.mod_eq_zero_of_dvd aligned

theorem pageAlign_eq (aligned : Aligned page a) : page.pageAlign a = a := by
  rw [← toNat_inj, pageAlign_toNat, Nat.div_mul_cancel aligned]

/-! What one area says. -/

def byteAt (vma : VMA) (a : Addr) : Option Byte :=
  vma.origHostBuf.bind fun buffer =>
    if (a - vma.start).toNat < vma.hostBufLen then buffer.file[buffer.offset + vma.hostBuf + (a - vma.start).toNat]? else none

def part (vma : VMA) (a : Addr) : Multiset (Option Byte) := if vma.addrRange.contains a then {byteAt vma a} else 0

def views (vmaList : List VMA) (a : Addr) : Multiset (Option Byte) := (vmaList.map (part · a)).sum

@[simp] theorem views_nil (a : Addr) : views [] a = 0 := rfl

@[simp] theorem views_cons (vma : VMA) (rest : List VMA) (a : Addr) : views (vma :: rest) a = part vma a + views rest a := by
  simp [views]

theorem views_cons_eq_zero {vma : VMA} {rest : List VMA} {a : Addr} : views (vma :: rest) a = 0 ↔ part vma a = 0 ∧ views rest a = 0 := by
  rw [views_cons, ← card_eq_zero, ← card_eq_zero, ← card_eq_zero, card_add]
  exact Nat.add_eq_zero_iff

@[simp] theorem views_append (list rest : List VMA) (a : Addr) : views (list ++ rest) a = views list a + views rest a := by
  simp [views]

/-- Aligned, not empty, its bytes inside its file. -/
structure Valid (page : PageSize) (vma : VMA) : Prop where
  nonempty : vma.start < vma.stop
  aligned : Aligned page vma.start ∧ Aligned page vma.stop
  bounded : ∀ buffer, vma.origHostBuf = some buffer →
    vma.hostBuf + vma.hostBufLen ≤ buffer.length ∧ buffer.offset + buffer.length ≤ buffer.file.length

theorem sanityCheck_ok (valid : Valid page vma) : vma.sanityCheck page = .ok vma := by
  have differ : (vma.start != vma.stop) = true := by
    rw [bne_iff_ne]
    exact BitVec.ne_of_lt valid.nonempty
  have less : vma.start.ult vma.stop = true := BitVec.ult_iff_lt.mpr valid.nonempty
  simp only [VMA.sanityCheck, check, differ, less, (aligned_iff page _).mpr valid.aligned.1, (aligned_iff page _).mpr valid.aligned.2,
    if_true, ok_bind]
  rfl

theorem offset_lt_iff (le : lo ≤ hi) : (a - lo).toNat < (hi - lo).toNat ↔ lo ≤ a ∧ a < hi := by
  rw [le_def] at le
  rw [le_def, lt_def, toNat_sub, toNat_sub]
  omega

theorem contains_iff {range : AddrRange} : range.contains a = true ↔ range.start ≤ a ∧ a < range.stop := by
  simp [AddrRange.contains, ule_iff_le, ult_iff_lt]

theorem part_eq (valid : Valid page vma) (a : Addr) :
    part vma a = if (a - vma.start).toNat < (vma.stop - vma.start).toNat then {byteAt vma a} else 0 := by
  unfold part
  congr 1
  rw [contains_iff, offset_lt_iff (BitVec.le_of_lt valid.nonempty)]
  rfl

theorem part_outside (outside : ¬(vma.start ≤ a ∧ a < vma.stop)) : part vma a = 0 := by
  rw [part, if_neg]
  rw [contains_iff]
  exact outside

theorem cut_ok (cut : VMA) (range : cut.addrRange = ⟨lo, hi⟩) (nonempty : lo < hi)
    (aligned : Aligned page lo ∧ Aligned page hi) (within : vma.start ≤ lo ∧ hi ≤ vma.stop)
    (bounded : ∀ buffer, cut.origHostBuf = some buffer →
      cut.hostBuf + cut.hostBufLen ≤ buffer.length ∧ buffer.offset + buffer.length ≤ buffer.file.length)
    (same : ∀ a, lo ≤ a → a < hi → byteAt cut a = byteAt vma a) (kept : Addr → Prop) [DecidablePred kept]
    (inner : ∀ a, vma.start ≤ a → a < vma.stop → (kept a ↔ lo ≤ a ∧ a < hi)) :
    cut.sanityCheck page = .ok cut ∧ Valid page cut ∧ cut.start = lo ∧ cut.stop = hi ∧
      ∀ a, part cut a = if kept a then part vma a else 0 := by
  have first : cut.start = lo := by rw [VMA.start, range]
  have last : cut.stop = hi := by rw [VMA.stop, range]
  have valid' : Valid page cut := by
    refine ⟨?_, ?_, bounded⟩
    · rw [first, last]
      exact nonempty
    · rw [first, last]
      exact aligned
  refine ⟨sanityCheck_ok valid', valid', first, last, ?_⟩
  intro a
  by_cases whole : vma.start ≤ a ∧ a < vma.stop
  · simp only [inner a whole.1 whole.2]
    by_cases inside : lo ≤ a ∧ a < hi
    · rw [if_pos inside, part, part, same a inside.1 inside.2, if_pos (contains_iff.mpr (range ▸ inside)),
        if_pos (contains_iff.mpr whole)]
    · rw [if_neg inside, part_outside]
      rw [first, last]
      exact inside
  · rw [part_outside whole, ite_self, part_outside]
    rw [first, last]
    exact fun inside => whole ⟨BitVec.le_trans within.1 inside.1, Nat.lt_of_lt_of_le inside.2 within.2⟩

theorem offset_split {first : Addr} (after : first ≤ x) (later : x ≤ a) : (a - first).toNat = (x - first).toNat + (a - x).toNat := by
  rw [toNat_sub_of_le later, toNat_sub_of_le after, toNat_sub_of_le (BitVec.le_trans after later)]
  rw [le_def] at after later
  omega

theorem sliceRegionRight_ok (valid : Valid page vma) (aligned : Aligned page x) (after : vma.start < x) (within : x ≤ vma.stop) :
    ∃ cut, vma.sliceRegionRight page x = .ok cut ∧ Valid page cut ∧ cut.start = vma.start ∧ cut.stop = x ∧
      ∀ a, part cut a = if a < x then part vma a else 0 := by
  have cut := fun cut range bounded same => cut_ok cut range after ⟨valid.aligned.1, aligned⟩ ⟨BitVec.le_refl _, within⟩
    bounded same (· < x) fun a first _ => ⟨fun before => ⟨first, before⟩, And.right⟩
  refine ⟨_, cut _ rfl ?_ ?_⟩
  · intro buffer found
    obtain ⟨_, inside⟩ := valid.bounded buffer found
    refine ⟨?_, inside⟩
    dsimp only
    split <;> omega
  · intro a start inside
    have inner := (offset_lt_iff (BitVec.le_of_lt after)).mpr ⟨start, inside⟩
    unfold VMA.start at inner
    simp only [byteAt, VMA.start]
    cases vma.origHostBuf with
    | none => rfl
    | some =>
      simp only [bind_some, isSome_some, if_true, Nat.lt_min, inner, and_true]
      rfl

theorem sliceRegionLeft_ok (valid : Valid page vma) (aligned : Aligned page x) (after : vma.start ≤ x) (within : x < vma.stop) :
    ∃ cut, vma.sliceRegionLeft page x = .ok cut ∧ Valid page cut ∧ cut.start = x ∧ cut.stop = vma.stop ∧
      ∀ a, part cut a = if x ≤ a then part vma a else 0 := by
  have cut := fun cut range bounded same => cut_ok cut range within ⟨aligned, valid.aligned.2⟩ ⟨after, BitVec.le_refl _⟩
    bounded same (x ≤ ·) fun a _ last => ⟨fun later => ⟨later, last⟩, And.left⟩
  unfold VMA.sliceRegionLeft
  dsimp only
  cases backed : vma.origHostBuf with
  | none =>
    rw [if_neg (by simp)]
    refine ⟨_, cut _ rfl nofun fun a later _ => ?_⟩
    simp [byteAt, backed]
  | some buffer =>
    obtain ⟨_, inside⟩ := valid.bounded buffer backed
    rw [if_pos (by rfl)]
    split
    next gone =>
      refine ⟨_, cut _ rfl nofun fun a later _ => ?_⟩
      simp only [byteAt, backed, bind_none, bind_some]
      rw [if_neg]
      rw [offset_split after later]
      omega
    next left =>
      refine ⟨_, cut _ rfl (fun _ found => ?_) fun a later _ => ?_⟩
      · cases found
        exact ⟨by dsimp only; omega, inside⟩
      · have distance := offset_split after later
        have bounds : (a - x).toNat < vma.hostBufLen - (x - vma.start).toNat ↔
            (x - vma.start).toNat + (a - x).toNat < vma.hostBufLen := by omega
        unfold VMA.start at distance bounds
        simp only [byteAt, backed, bind_some, VMA.start, distance, bounds, Nat.add_assoc]

theorem remap_ok (valid : Valid page vma) {newStart : Addr} (aligned : Aligned page newStart)
    (fits : newStart.toNat + (vma.stop - vma.start).toNat < 2 ^ 64) :
    ∃ moved, vma.remap page newStart = .ok moved ∧ Valid page moved ∧ ∀ a, part moved a = part vma (a - newStart + vma.start) := by
  have sized : newStart + (vma.stop - vma.start) - newStart = vma.stop - vma.start := by rw [BitVec.add_comm, BitVec.add_sub_cancel]
  have positive : 0 < (vma.stop - vma.start).toNat := by
    have nonempty := valid.nonempty
    rw [toNat_sub_of_le (BitVec.le_of_lt nonempty)]
    rw [lt_def] at nonempty
    omega
  have valid' : Valid page { vma with addrRange := ⟨newStart, newStart + (vma.stop - vma.start)⟩ } := by
    refine ⟨?_, ⟨aligned, aligned.add (valid.aligned.2.sub valid.aligned.1)⟩, valid.bounded⟩
    rw [lt_def]
    dsimp only [VMA.start, VMA.stop] at *
    rw [toNat_add, Nat.mod_eq_of_lt fits]
    omega
  refine ⟨_, sanityCheck_ok valid', valid', ?_⟩
  intro a
  rw [part_eq valid', part_eq valid]
  have back : a - newStart + vma.start - vma.start = a - newStart := BitVec.add_sub_cancel ..
  have bytes : byteAt { vma with addrRange := ⟨newStart, newStart + (vma.stop - vma.start)⟩ } a = byteAt vma (a - newStart + vma.start) := by
    simp only [byteAt, back]
    rfl
  have offsets : (a - newStart).toNat < (newStart + (vma.stop - vma.start) - newStart).toNat ↔
      (a - newStart).toNat < (vma.stop - vma.start).toNat := by rw [sized]
  rw [bytes, back]
  exact if_congr offsets rfl rfl

/-! The loops over the areas. -/

theorem isStrictSuperset_iff : vma.isStrictSuperset ⟨lo, hi⟩ = true ↔ vma.start < lo ∧ hi < vma.stop := by
  simp [VMA.isStrictSuperset, ult_iff_lt]

theorem isSubset_iff : vma.addrRange.isSubset ⟨lo, hi⟩ = true ↔ lo ≤ vma.start ∧ vma.stop ≤ hi := by
  simp [AddrRange.isSubset, ule_iff_le, VMA.start, VMA.stop]

theorem intersects_iff {range : AddrRange} : range.intersects ⟨lo, hi⟩ = true ↔ range.start < hi ∧ lo < range.stop := by
  simp only [AddrRange.intersects, Bool.not_eq_true', ← Bool.not_eq_true, Bool.or_eq_true, not_or, ule_iff_le, BitVec.not_le]

theorem part_inside (first : vma.start ≤ a) (last : a < vma.stop) : (part vma a).card = 1 := by
  rw [part, if_pos (contains_iff.mpr ⟨first, last⟩), card_singleton]

theorem views_rest (single : (views (vma :: rest) a).card ≤ 1) : (views rest a).card ≤ 1 := by
  rw [views_cons, card_add] at single
  omega

theorem views_rest_eq (single : (views (vma :: rest) a).card ≤ 1) (first : vma.start ≤ a) (last : a < vma.stop) : views rest a = 0 := by
  rw [views_cons, card_add, part_inside first last] at single
  exact card_eq_zero.mp (by omega)

theorem trim_ok (own : Valid page vma) (aligned : Aligned page lo ∧ Aligned page hi)
    (meets : vma.addrRange.intersects ⟨lo, hi⟩ = true) (subset : ¬vma.addrRange.isSubset ⟨lo, hi⟩ = true)
    (strict : ¬vma.isStrictSuperset ⟨lo, hi⟩ = true) :
    ∃ trimmed, vma.trim page ⟨lo, hi⟩ = .ok trimmed ∧ Valid page trimmed ∧
      ∀ a, part trimmed a = if lo ≤ a ∧ a < hi then 0 else part vma a := by
  obtain ⟨first, last⟩ := intersects_iff.mp meets
  change vma.start < hi at first
  change lo < vma.stop at last
  rw [isStrictSuperset_iff] at strict
  rw [isSubset_iff] at subset
  unfold VMA.trim
  by_cases before : vma.start < lo
  · obtain ⟨cut, ran, valid, _, _, parts⟩ := sliceRegionRight_ok own aligned.1 before (BitVec.le_of_lt last)
    refine ⟨cut, by rw [if_pos (BitVec.ult_iff_lt.mpr before), ran], valid, ?_⟩
    intro a
    rw [parts a]
    by_cases early : a < lo
    · rw [if_pos early, if_neg (by bv_omega)]
    · rw [if_neg early]
      by_cases inside : lo ≤ a ∧ a < hi
      · rw [if_pos inside]
      · rw [if_neg inside, part_outside (by bv_omega)]
  · obtain ⟨cut, ran, valid, _, _, parts⟩ := sliceRegionLeft_ok own aligned.2 (BitVec.le_of_lt first) (by bv_omega)
    refine ⟨cut, by rw [if_neg (by rwa [ult_iff_lt]), ran], valid, ?_⟩
    intro a
    rw [parts a]
    by_cases late : hi ≤ a
    · rw [if_pos late, if_neg (by bv_omega)]
    · rw [if_neg late]
      by_cases inside : lo ≤ a ∧ a < hi
      · rw [if_pos inside]
      · rw [if_neg inside, part_outside (by bv_omega)]

theorem unmapFrom_ok (aligned : Aligned page lo ∧ Aligned page hi) (nonempty : lo < hi) (valid : ∀ vma ∈ vmaList, Valid page vma)
    (single : ∀ a, (views vmaList a).card ≤ 1) :
    ∃ result, unmapFrom page ⟨lo, hi⟩ vmaList = .ok result ∧ (∀ vma ∈ result, Valid page vma) ∧
      ∀ a, views result a = if lo ≤ a ∧ a < hi then 0 else views vmaList a := by
  induction vmaList with
  | nil => exact ⟨[], rfl, valid, fun a => by simp⟩
  | cons vma rest ih =>
    obtain ⟨own, others⟩ := List.forall_mem_cons.mp valid
    obtain ⟨tail, ran, kept, viewed⟩ := ih others fun a => views_rest (single a)
    rw [unmapFrom]
    by_cases strict : vma.isStrictSuperset ⟨lo, hi⟩ = true
    · obtain ⟨before, after⟩ := isStrictSuperset_iff.mp strict
      obtain ⟨left, cutLeft, validLeft, _, _, partLeft⟩ := sliceRegionRight_ok own aligned.1 before (by bv_omega)
      obtain ⟨right, cutRight, validRight, _, _, partRight⟩ := sliceRegionLeft_ok own aligned.2 (by bv_omega) after
      refine ⟨right :: rest ++ [left], ?_, ?_, ?_⟩
      · rw [if_pos strict]
        simp only [cutLeft, cutRight, ok_bind]
        rfl
      · simp only [cons_append, List.forall_mem_cons, forall_mem_append]
        exact ⟨validRight, others, validLeft, by simp⟩
      · intro a
        simp only [cons_append, views_cons, views_append, views_nil, add_zero, partLeft, partRight]
        by_cases inside : lo ≤ a ∧ a < hi
        · rw [if_pos inside, if_neg (by bv_omega), if_neg (by bv_omega), views_rest_eq (single a) (by bv_omega) (by bv_omega)]
          rfl
        · rw [if_neg inside]
          by_cases early : a < lo
          · rw [if_neg (by bv_omega), if_pos early, zero_add, add_comm]
          · rw [if_pos (by bv_omega), if_neg early, add_zero]
    · rw [if_neg strict]
      by_cases subset : vma.addrRange.isSubset ⟨lo, hi⟩ = true
      · rw [if_pos subset]
        obtain ⟨_, _⟩ := isSubset_iff.mp subset
        refine ⟨tail, ran, kept, ?_⟩
        intro a
        rw [viewed a, views_cons]
        by_cases inside : lo ≤ a ∧ a < hi
        · rw [if_pos inside, if_pos inside]
        · rw [if_neg inside, if_neg inside, part_outside (by bv_omega), zero_add]
      · rw [if_neg subset]
        by_cases meets : vma.addrRange.intersects ⟨lo, hi⟩ = true
        · rw [if_pos meets]
          obtain ⟨trimmed, cut, validCut, partCut⟩ := trim_ok own aligned meets subset strict
          refine ⟨trimmed :: tail, ?_, List.forall_mem_cons.mpr ⟨validCut, kept⟩, ?_⟩
          · rw [bind_of_ok cut, bind_of_ok ran]
            rfl
          · intro a
            rw [views_cons, views_cons, partCut a, viewed a]
            split <;> rfl
        · rw [if_neg meets]
          rw [intersects_iff] at meets
          refine ⟨vma :: tail, ?_, List.forall_mem_cons.mpr ⟨own, kept⟩, ?_⟩
          · rw [bind_of_ok ran]
            rfl
          · intro a
            rw [views_cons, views_cons, viewed a]
            by_cases inside : lo ≤ a ∧ a < hi
            · rw [if_pos inside, if_pos inside, part_outside, add_zero]
              dsimp only [VMA.start, VMA.stop]
              bv_omega
            · rw [if_neg inside, if_neg inside]

/-! A region is moved. -/

def carried (lo hi newStart : Addr) (told : Addr → Multiset (Option Byte)) (a : Addr) : Multiset (Option Byte) :=
  if newStart ≤ a ∧ a < newStart + (hi - lo) then told (a - newStart + lo) else if lo ≤ a ∧ a < hi then 0 else told a

/-- A place for a region: it does not wrap, and is apart from where the region was. -/
structure Place (page : PageSize) (lo hi newStart : Addr) : Prop where
  nonempty : lo < hi
  aligned : Aligned page lo ∧ Aligned page hi ∧ Aligned page newStart
  fits : newStart.toNat + (hi - lo).toNat < 2 ^ 64
  apart : hi ≤ newStart ∨ newStart + (hi - lo) ≤ lo

section Moves
variable {newStart : Addr} {told other inner outer : Addr → Multiset (Option Byte)}

theorem Place.inside_iff (place : Place page lo hi newStart) (a : Addr) :
    (newStart ≤ a ∧ a < newStart + (hi - lo)) ↔ (lo ≤ a - newStart + lo ∧ a - newStart + lo < hi) := by
  have sum : newStart ≤ newStart + (hi - lo) := by
    rw [le_def, toNat_add, Nat.mod_eq_of_lt place.fits]
    exact Nat.le_add_right _ _
  rw [← offset_lt_iff sum, ← offset_lt_iff (BitVec.le_of_lt place.nonempty), BitVec.add_sub_cancel, BitVec.add_comm newStart,
    BitVec.add_sub_cancel]

theorem carried_add (a : Addr) : carried lo hi newStart (fun a => told a + other a) a =
    carried lo hi newStart told a + carried lo hi newStart other a := by
  unfold carried
  split
  · rfl
  · split <;> simp

theorem carried_self (told : Addr → Multiset (Option Byte)) (gone : ∀ a, lo ≤ a → a < hi → told a = 0)
    (free : ∀ a, newStart ≤ a → a < newStart + (hi - lo) → told a = 0) (place : Place page lo hi newStart) (a : Addr) :
    carried lo hi newStart told a = told a := by
  unfold carried
  split
  next inside =>
    obtain ⟨first, last⟩ := (place.inside_iff a).mp inside
    rw [gone _ first last, free a inside.1 inside.2]
  next =>
    split
    next old => rw [gone a old.1 old.2]
    next => rfl

theorem carried_cut (place : Place page lo hi newStart) (cutIn : ∀ a, inner a = if lo ≤ a ∧ a < hi then told a else 0)
    (cutOut : ∀ a, outer a = if lo ≤ a ∧ a < hi then 0 else told a) (a : Addr) :
    inner (a - newStart + lo) + carried lo hi newStart outer a = carried lo hi newStart told a := by
  unfold carried
  split
  next inside =>
    have back := (place.inside_iff a).mp inside
    rw [cutIn, cutOut, if_pos back, if_pos back, add_zero]
  next away =>
    have back : ¬(lo ≤ a - newStart + lo ∧ a - newStart + lo < hi) := fun inside => away ((place.inside_iff a).mpr inside)
    rw [cutIn, if_neg back, zero_add, cutOut]
    split
    · rfl
    · rfl

theorem move_ok (place : Place page lo hi newStart) (valid : Valid page vma) (first : lo ≤ vma.start) (last : vma.stop ≤ hi) :
    ∃ moved, vma.remap page (vma.start - lo + newStart) = .ok moved ∧ Valid page moved ∧
      ∀ a, part moved a = part vma (a - newStart + lo) := by
  have proper := valid.nonempty
  have fits := place.fits
  have room : (vma.start - lo + newStart).toNat + (vma.stop - vma.start).toNat < 2 ^ 64 := by
    rw [toNat_sub_of_le (BitVec.le_of_lt place.nonempty)] at fits
    rw [toNat_add, toNat_sub_of_le first, toNat_sub_of_le (BitVec.le_of_lt proper)]
    rw [le_def] at first last
    omega
  obtain ⟨moved, ran, valid', parts⟩ := remap_ok valid ((valid.aligned.1.sub place.aligned.1).add place.aligned.2.2) room
  refine ⟨moved, ran, valid', ?_⟩
  intro a
  rw [parts a]
  congr 1
  abel

def straddles (lo hi : Addr) (vma : VMA) : Bool := vma.addrRange.intersects ⟨lo, hi⟩ && !vma.addrRange.isSubset ⟨lo, hi⟩

theorem part_restrict {piece : VMA} {keep wanted : Addr → Prop} [DecidablePred keep] [DecidablePred wanted]
    (is : ∀ a, part piece a = if keep a then part vma a else 0)
    (same : ∀ a, vma.start ≤ a → a < vma.stop → (keep a ↔ wanted a)) (a : Addr) :
    part piece a = if wanted a then part vma a else 0 := by
  rw [is a]
  by_cases inside : vma.start ≤ a ∧ a < vma.stop
  · exact if_congr (same a inside.1 inside.2) rfl rfl
  · rw [part_outside inside, ite_self, ite_self]

/-- An area is split at one end of the range that moves: the clone stays, and the rest moves. -/
structure Split (page : PageSize) (lo hi newStart : Addr) (vma clone moved : VMA) : Prop where
  validClone : Valid page clone
  validMoved : Valid page moved
  clear : clone.addrRange.intersects ⟨lo, hi⟩ = false
  cutOut : ∀ a, part clone a = if lo ≤ a ∧ a < hi then 0 else part vma a
  parts : ∀ a, part moved a + carried lo hi newStart (part clone) a = carried lo hi newStart (part vma) a

section

variable (place : Place page lo hi newStart)
include place

theorem split_right (own : Valid page vma) (before : vma.start < lo) (meets : lo < vma.stop) (within : vma.stop ≤ hi) :
    ∃ clone inner moved, vma.sliceRegionRight page lo = .ok clone ∧ vma.sliceRegionLeft page lo = .ok inner ∧
      inner.remap page newStart = .ok moved ∧ Split page lo hi newStart vma clone moved := by
  obtain ⟨clone, cutClone, validClone, _, _, partClone⟩ := sliceRegionRight_ok own place.aligned.1 before (BitVec.le_of_lt meets)
  obtain ⟨inner, cutInner, validInner, start, stop, partInner⟩ :=
    sliceRegionLeft_ok own place.aligned.1 (BitVec.le_of_lt before) meets
  obtain ⟨moved, ran, validMoved, partMoved⟩ := move_ok place validInner (by bv_omega) (by bv_omega)
  have same : inner.start - lo + newStart = newStart := by bv_omega
  rw [same] at ran
  have outs : ∀ a, vma.start ≤ a → a < vma.stop → (a < lo ↔ ¬(lo ≤ a ∧ a < hi)) := by
    intro a _ last
    bv_omega
  have ins : ∀ a, vma.start ≤ a → a < vma.stop → (lo ≤ a ↔ lo ≤ a ∧ a < hi) := by
    intro a _ last
    bv_omega
  have cutOut := fun a => (part_restrict partClone outs a).trans (ite_not _ _ _)
  refine ⟨clone, inner, moved, cutClone, cutInner, ran, validClone, validMoved, ?_, cutOut, fun a => ?_⟩
  · rw [← Bool.not_eq_true, intersects_iff]
    change ¬(_ ∧ lo < clone.stop)
    bv_omega
  · rw [partMoved a]
    exact carried_cut place (part_restrict partInner ins) cutOut a

theorem split_left (own : Valid page vma) (within : lo ≤ vma.start) (meets : vma.start < hi) (after : hi < vma.stop) :
    ∃ clone inner moved, vma.sliceRegionLeft page hi = .ok clone ∧ vma.sliceRegionRight page hi = .ok inner ∧
      inner.remap page (newStart + inner.start - lo) = .ok moved ∧ Split page lo hi newStart vma clone moved := by
  obtain ⟨clone, cutClone, validClone, _, _, partClone⟩ := sliceRegionLeft_ok own place.aligned.2.1 (BitVec.le_of_lt meets) after
  obtain ⟨inner, cutInner, validInner, start, stop, partInner⟩ :=
    sliceRegionRight_ok own place.aligned.2.1 meets (BitVec.le_of_lt after)
  obtain ⟨moved, ran, validMoved, partMoved⟩ := move_ok place validInner (by bv_omega) (by bv_omega)
  have same : inner.start - lo + newStart = newStart + inner.start - lo := by bv_omega
  rw [same] at ran
  have outs : ∀ a, vma.start ≤ a → a < vma.stop → (hi ≤ a ↔ ¬(lo ≤ a ∧ a < hi)) := by
    intro a first _
    bv_omega
  have ins : ∀ a, vma.start ≤ a → a < vma.stop → (a < hi ↔ lo ≤ a ∧ a < hi) := by
    intro a first _
    bv_omega
  have cutOut := fun a => (part_restrict partClone outs a).trans (ite_not _ _ _)
  refine ⟨clone, inner, moved, cutClone, cutInner, ran, validClone, validMoved, ?_, cutOut, fun a => ?_⟩
  · rw [← Bool.not_eq_true, intersects_iff]
    change ¬(clone.start < hi ∧ _)
    bv_omega
  · rw [partMoved a]
    exact carried_cut place (part_restrict partInner ins) cutOut a

theorem split_both (own : Valid page vma) (before : vma.start < lo) (after : hi < vma.stop) :
    ∃ left right upper middle moved, vma.sliceRegionRight page lo = .ok left ∧ vma.sliceRegionLeft page hi = .ok right ∧
      vma.sliceRegionLeft page lo = .ok upper ∧ upper.sliceRegionRight page hi = .ok middle ∧ middle.remap page newStart = .ok moved ∧
      Valid page left ∧ Valid page right ∧ Valid page moved ∧
      (∀ a, part left a + part right a = if lo ≤ a ∧ a < hi then 0 else part vma a) ∧
      ∀ a, part moved a + carried lo hi newStart (fun a => part left a + part right a) a = carried lo hi newStart (part vma) a := by
  have proper := place.nonempty
  obtain ⟨left, cutLeft, validLeft, _, _, partLeft⟩ := sliceRegionRight_ok own place.aligned.1 before (by bv_omega)
  obtain ⟨right, cutRight, validRight, _, _, partRight⟩ := sliceRegionLeft_ok own place.aligned.2.1 (by bv_omega) after
  obtain ⟨upper, cutUpper, validUpper, _, _, partUpper⟩ :=
    sliceRegionLeft_ok own place.aligned.1 (BitVec.le_of_lt before) (by bv_omega)
  obtain ⟨middle, cutMiddle, validMiddle, start, stop, partMiddle⟩ :=
    sliceRegionRight_ok validUpper place.aligned.2.1 (by bv_omega) (by bv_omega)
  obtain ⟨moved, ran, validMoved, partMoved⟩ := move_ok place validMiddle (by bv_omega) (by bv_omega)
  have same : middle.start - lo + newStart = newStart := by bv_omega
  rw [same] at ran
  have cutOut : ∀ a, part left a + part right a = if lo ≤ a ∧ a < hi then 0 else part vma a := by
    intro a
    rw [partLeft a, partRight a]
    by_cases early : a < lo
    · rw [if_pos early, if_neg (by bv_omega), if_neg (by bv_omega), add_zero]
    · rw [if_neg early, zero_add]
      by_cases late : hi ≤ a
      · rw [if_pos late, if_neg (by bv_omega)]
      · rw [if_neg late, if_pos (by bv_omega)]
  have cutIn : ∀ a, part middle a = if lo ≤ a ∧ a < hi then part vma a else 0 := by
    intro a
    rw [partMiddle a, partUpper a]
    by_cases early : a < hi
    · rw [if_pos early]
      by_cases late : lo ≤ a
      · rw [if_pos late, if_pos ⟨late, early⟩]
      · rw [if_neg late, if_neg (by bv_omega)]
    · rw [if_neg early, if_neg (by bv_omega)]
  refine ⟨left, right, upper, middle, moved, cutLeft, cutRight, cutUpper, cutMiddle, ran, validLeft, validRight, validMoved, cutOut, ?_⟩
  intro a
  rw [partMoved a]
  exact carried_cut place cutIn cutOut a

/-- What the loop over the areas can go on with. -/
structure Movable (page : PageSize) (lo hi newStart : Addr) (vmaList : List VMA) : Prop where
  valid : ∀ vma ∈ vmaList, Valid page vma
  single : ∀ a, (views vmaList a).card ≤ 1
  free : ∀ a, newStart ≤ a → a < newStart + (hi - lo) → views vmaList a = 0

/-- What it makes of it. -/
structure Remapped (page : PageSize) (lo hi newStart : Addr) (vmaList result : List VMA) : Prop where
  valid : ∀ vma ∈ result, Valid page vma
  views : ∀ a, views result a = carried lo hi newStart (views vmaList) a

omit place in
theorem Movable.tail (movable : Movable page lo hi newStart (vma :: rest)) : Movable page lo hi newStart rest :=
  ⟨(List.forall_mem_cons.mp movable.valid).2, fun a => views_rest (movable.single a),
    fun a first last => (views_cons_eq_zero.mp (movable.free a first last)).2⟩

omit place in
theorem Movable.part_free (movable : Movable page lo hi newStart (vma :: rest)) {a : Addr} (first : newStart ≤ a)
    (last : a < newStart + (hi - lo)) : part vma a = 0 :=
  (views_cons_eq_zero.mp (movable.free a first last)).1

omit place in
theorem carried_cons (vma : VMA) (rest : List VMA) (a : Addr) : carried lo hi newStart (views (vma :: rest)) a =
    carried lo hi newStart (part vma) a + carried lo hi newStart (views rest) a := by
  rw [← carried_add, funext (views_cons vma rest)]

theorem remapped_both (movable : Movable page lo hi newStart (vma :: rest)) {left right moved : VMA} (before : vma.start < lo)
    (after : hi < vma.stop) (validLeft : Valid page left) (validRight : Valid page right) (validMoved : Valid page moved)
    (cutOut : ∀ a, part left a + part right a = if lo ≤ a ∧ a < hi then 0 else part vma a)
    (parts : ∀ a, part moved a + carried lo hi newStart (fun a => part left a + part right a) a = carried lo hi newStart (part vma) a) :
    Remapped page lo hi newStart (vma :: rest) (moved :: rest ++ [left, right]) := by
  refine ⟨?_, fun a => ?_⟩
  · simp only [cons_append, List.forall_mem_cons, forall_mem_append]
    exact ⟨validMoved, movable.tail.valid, validLeft, validRight, by simp⟩
  · have pieces := carried_self (fun a => part left a + part right a) (fun a first last => by rw [cutOut a, if_pos ⟨first, last⟩])
      (fun a first last => by rw [cutOut a, movable.part_free first last, ite_self]) place a
    have rests := carried_self (views rest) (fun a first last => views_rest_eq (movable.single a) (by bv_omega) (by bv_omega))
      movable.tail.free place a
    rw [carried_cons, ← parts a, pieces, rests]
    simp only [cons_append, views_cons, views_append, views_nil, add_zero]
    abel

theorem remapped_inside {tail : List VMA} {moved : VMA} (first : lo ≤ vma.start) (last : vma.stop ≤ hi) (valid : Valid page moved)
    (parts : ∀ a, part moved a = part vma (a - newStart + lo)) (remapped : Remapped page lo hi newStart rest tail) :
    Remapped page lo hi newStart (vma :: rest) (moved :: tail) := by
  refine ⟨List.forall_mem_cons.mpr ⟨valid, remapped.valid⟩, fun a => ?_⟩
  have outside : ∀ {a}, ¬(lo ≤ a ∧ a < hi) → part vma a = 0 := fun away => part_outside (by bv_omega)
  have cutIn : ∀ a, part vma a = if lo ≤ a ∧ a < hi then part vma a else 0 := by
    intro a
    split
    next => rfl
    next away => exact outside away
  have cutOut : ∀ a, (0 : Multiset (Option Byte)) = if lo ≤ a ∧ a < hi then 0 else part vma a := by
    intro a
    split
    next => rfl
    next away => exact (outside away).symm
  have whole := carried_cut place cutIn cutOut a
  have nothing : carried lo hi newStart (fun _ => 0) a = 0 := by simp [carried]
  rw [nothing, add_zero] at whole
  rw [views_cons, parts a, remapped.views a, carried_cons, whole]

theorem remapped_outside (movable : Movable page lo hi newStart (vma :: rest)) {tail : List VMA}
    (apart : ¬(vma.start < hi ∧ lo < vma.stop)) (remapped : Remapped page lo hi newStart rest tail) :
    Remapped page lo hi newStart (vma :: rest) (vma :: tail) := by
  refine ⟨List.forall_mem_cons.mpr ⟨movable.valid vma mem_cons_self, remapped.valid⟩, fun a => ?_⟩
  have still := carried_self (part vma) (fun a first last => part_outside (by bv_omega))
    (fun a first last => movable.part_free first last) place a
  rw [views_cons, remapped.views a, carried_cons, still]

omit place in
/-- The loop goes on with the clone at the end of the list, which it leaves alone. -/
theorem Split.movable {clone moved : VMA} (split : Split page lo hi newStart vma clone moved)
    (movable : Movable page lo hi newStart (vma :: rest)) : Movable page lo hi newStart (rest ++ [clone]) := by
  have said : ∀ a, views (rest ++ [clone]) a = views rest a + part clone a := fun a => by simp
  have smaller : ∀ a, part clone a ≤ part vma a := by
    intro a
    rw [split.cutOut a]
    split
    · exact Multiset.zero_le _
    · exact le_refl _
  refine ⟨forall_mem_append.mpr ⟨movable.tail.valid, forall_mem_singleton.mpr split.validClone⟩, fun a => ?_, fun a first last => ?_⟩
  · have cards := card_le_card (smaller a)
    have all := movable.single a
    rw [views_cons, card_add] at all
    rw [said a, card_add]
    omega
  · rw [said a, split.cutOut a, movable.part_free first last, movable.tail.free a first last, ite_self, add_zero]

omit place in
theorem Split.remapped {clone moved : VMA} {tail : List VMA} (split : Split page lo hi newStart vma clone moved)
    (remapped : Remapped page lo hi newStart (rest ++ [clone]) tail) :
    Remapped page lo hi newStart (vma :: rest) (moved :: tail) := by
  refine ⟨List.forall_mem_cons.mpr ⟨split.validMoved, remapped.valid⟩, fun a => ?_⟩
  have said : ∀ a, views (rest ++ [clone]) a = views rest a + part clone a := fun a => by simp
  rw [views_cons, remapped.views a, funext said, carried_add, carried_cons, ← split.parts a]
  abel

theorem remapFrom_ok {fuel : Nat} (movable : Movable page lo hi newStart vmaList)
    (enough : vmaList.length + vmaList.countP (straddles lo hi) ≤ fuel) :
    ∃ result, remapFrom page ⟨lo, hi⟩ newStart fuel vmaList = .ok result ∧ Remapped page lo hi newStart vmaList result := by
  have none : Remapped page lo hi newStart [] [] := ⟨fun _ member => absurd member not_mem_nil, fun a => by simp [carried]⟩
  induction fuel generalizing vmaList with
  | zero =>
    obtain rfl : vmaList = [] := eq_nil_of_length_eq_zero (by omega)
    exact ⟨[], rfl, none⟩
  | succ fuel ih =>
    cases vmaList with
    | nil => exact ⟨[], rfl, none⟩
    | cons vma rest =>
      have own := movable.valid vma mem_cons_self
      rw [length_cons, List.countP_cons] at enough
      rw [remapFrom]
      by_cases strict : vma.isStrictSuperset ⟨lo, hi⟩ = true
      · obtain ⟨before, after⟩ := isStrictSuperset_iff.mp strict
        obtain ⟨left, right, _, _, moved, cutLeft, cutRight, cutUpper, cutMiddle, ran, validLeft, validRight, validMoved, cutOut,
          parts⟩ := split_both place own before after
        refine ⟨moved :: rest ++ [left, right], ?_, remapped_both place movable before after validLeft validRight validMoved cutOut parts⟩
        rw [if_pos strict]
        simp only [cutLeft, cutRight, cutUpper, cutMiddle, ran, ok_bind]
        rfl
      · rw [if_neg strict]
        rw [isStrictSuperset_iff] at strict
        by_cases subset : vma.addrRange.isSubset ⟨lo, hi⟩ = true
        · rw [if_pos subset]
          obtain ⟨first, last⟩ := isSubset_iff.mp subset
          obtain ⟨tail, ran, remapped⟩ := ih movable.tail (by omega)
          obtain ⟨moved, moves, validMoved, partMoved⟩ := move_ok place own first last
          refine ⟨moved :: tail, ?_, remapped_inside place first last validMoved partMoved remapped⟩
          rw [bind_of_ok moves, bind_of_ok ran]
          rfl
        · rw [if_neg subset]
          by_cases meets : vma.addrRange.intersects ⟨lo, hi⟩ = true
          · rw [if_pos meets]
            have counted : straddles lo hi vma = true := by simp [straddles, meets, subset]
            rw [if_pos counted] at enough
            obtain ⟨first, last⟩ := intersects_iff.mp meets
            change vma.start < hi at first
            change lo < vma.stop at last
            rw [isSubset_iff] at subset
            have goOn : ∀ clone moved, Split page lo hi newStart vma clone moved →
                ∃ tail, remapFrom page ⟨lo, hi⟩ newStart fuel (rest ++ [clone]) = .ok tail ∧
                  Remapped page lo hi newStart (vma :: rest) (moved :: tail) := by
              intro clone moved split
              obtain ⟨tail, ran, remapped⟩ := ih (split.movable movable) (by
                rw [length_append, countP_append]
                simp only [length_singleton, countP_singleton, straddles, split.clear, Bool.false_and, Bool.false_eq_true, if_false]
                omega)
              exact ⟨tail, ran, split.remapped remapped⟩
            by_cases before : vma.start < lo
            · obtain ⟨clone, inner, moved, cutClone, cutInner, moves, split⟩ := split_right place own before last (by bv_omega)
              obtain ⟨tail, ran, remapped⟩ := goOn clone moved split
              refine ⟨moved :: tail, ?_, remapped⟩
              rw [if_pos (BitVec.ult_iff_lt.mpr before), bind_of_ok cutClone, bind_of_ok cutInner, bind_of_ok moves, bind_of_ok ran]
              rfl
            · obtain ⟨clone, inner, moved, cutClone, cutInner, moves, split⟩ := split_left place own (by bv_omega) first (by bv_omega)
              obtain ⟨tail, ran, remapped⟩ := goOn clone moved split
              refine ⟨moved :: tail, ?_, remapped⟩
              rw [if_neg (by rwa [ult_iff_lt]), bind_of_ok cutClone, bind_of_ok cutInner, bind_of_ok moves, bind_of_ok ran]
              rfl
          · rw [if_neg meets]
            obtain ⟨tail, ran, remapped⟩ := ih movable.tail (by omega)
            rw [intersects_iff] at meets
            refine ⟨vma :: tail, ?_, remapped_outside place movable meets remapped⟩
            rw [bind_of_ok ran]
            rfl

end

end Moves

/-! The loops over the pages. -/

section Pages
variable {pTable : EmulationPageTable} {newStart stop : Addr} {fuel count : Nat}

theorem pageOffset_check (aligned : Aligned page a) (text : String) : check (page.pageOffset a == 0) text = .ok () := by
  rw [check, if_pos (pageOffset_eq aligned)]

theorem unmapAny_ok (aligned : Aligned page a) : pTable.unmapAny page a = .ok (update pTable a none) := by
  unfold EmulationPageTable.unmapAny EmulationPageTable.isUnmapped EmulationPageTable.unmap
  simp only [pageOffset_check aligned, ok_bind]
  cases mapped : pTable a with
  | none =>
    rw [← mapped, update_eq_self]
    simp [mapped]
    rfl
  | some => simp [check]

theorem remapAny_ok (aligned : Aligned page a) (alignedNew : Aligned page newStart) (free : pTable newStart = none) :
    ∃ after, pTable.remapAny page a newStart = .ok after ∧ ∀ b, b ≠ a → b ≠ newStart → after b = pTable b := by
  unfold EmulationPageTable.remapAny EmulationPageTable.isUnmapped EmulationPageTable.remap
  simp only [pageOffset_check aligned, pageOffset_check alignedNew, ok_bind]
  cases mapped : pTable a with
  | none => exact ⟨pTable, by simp; rfl, fun _ _ _ => rfl⟩
  | some entry =>
    refine ⟨update (update pTable newStart (some entry)) a none, ?_, ?_⟩
    · simp [free, check]
    · intro b other otherNew
      rw [update_of_ne other, update_of_ne otherNew]

theorem sub_bytes (pages : length.toNat = (count + 1) * 2 ^ page.shift) : (length - page.bytes).toNat = count * 2 ^ page.shift := by
  rw [Nat.succ_mul] at pages
  rw [toNat_sub_of_le, bytes_toNat, pages, Nat.add_sub_cancel]
  rw [le_def, bytes_toNat]
  omega

theorem add_bytes (fits : start.toNat + 2 ^ page.shift < 2 ^ 64) : (start + page.bytes).toNat = start.toNat + 2 ^ page.shift := by
  rw [toNat_add, bytes_toNat, Nat.mod_eq_of_lt fits]

theorem unmapPages_ok (pTable : EmulationPageTable) (aligned : Aligned page start) (pages : length.toNat = (count + 1) * 2 ^ page.shift) (enough : count < fuel) :
    ∃ after, unmapPages page fuel pTable start length = .ok after := by
  induction count generalizing pTable start length fuel with
  | zero =>
    obtain ⟨fuel, rfl⟩ := Nat.exists_eq_succ_of_ne_zero (show fuel ≠ 0 by omega)
    refine ⟨update pTable start none, ?_⟩
    rw [unmapPages, bind_of_ok (unmapAny_ok aligned), sub_bytes pages, if_neg (by omega)]
    rfl
  | succ count ih =>
    obtain ⟨fuel, rfl⟩ := Nat.exists_eq_succ_of_ne_zero (show fuel ≠ 0 by omega)
    obtain ⟨after, ran⟩ := ih (update pTable start none) (aligned.add (aligned_bytes page)) (sub_bytes pages)
      (by omega : count < fuel)
    refine ⟨after, ?_⟩
    have more : 0 < (count + 1) * 2 ^ page.shift := Nat.mul_pos (by omega) (Nat.two_pow_pos _)
    rw [unmapPages, bind_of_ok (unmapAny_ok aligned), sub_bytes pages, if_pos more]
    exact ran

theorem remapPages_ok (aligned : Aligned page start) (alignedNew : Aligned page newStart)
    (pages : length.toNat = (count + 1) * 2 ^ page.shift) (enough : count < fuel)
    (fits : start.toNat + length.toNat < 2 ^ 64) (fitsNew : newStart.toNat + length.toNat < 2 ^ 64)
    (apart : start.toNat + length.toNat ≤ newStart.toNat ∨ newStart.toNat + length.toNat ≤ start.toNat)
    (free : ∀ b : Addr, newStart.toNat ≤ b.toNat → b.toNat < newStart.toNat + length.toNat → pTable b = none) :
    ∃ after, remapPages page fuel pTable start newStart length = .ok after := by
  induction count generalizing pTable start newStart length fuel with
  | zero =>
    obtain ⟨fuel, rfl⟩ := Nat.exists_eq_succ_of_ne_zero (show fuel ≠ 0 by omega)
    have positive := Nat.two_pow_pos page.shift
    obtain ⟨after, ran, _⟩ := remapAny_ok aligned alignedNew (free newStart (Nat.le_refl _) (by omega))
    refine ⟨after, ?_⟩
    rw [remapPages, bind_of_ok ran, sub_bytes pages, if_neg (by omega)]
    rfl
  | succ count ih =>
    obtain ⟨fuel, rfl⟩ := Nat.exists_eq_succ_of_ne_zero (show fuel ≠ 0 by omega)
    have positive := Nat.two_pow_pos page.shift
    have less := sub_bytes pages
    have more : 0 < (count + 1) * 2 ^ page.shift := Nat.mul_pos (by omega) positive
    have size : length.toNat = (length - page.bytes).toNat + 2 ^ page.shift := by rw [less, pages, Nat.succ_mul]
    have next : (start + page.bytes).toNat = start.toNat + 2 ^ page.shift := add_bytes (by omega)
    have nextNew : (newStart + page.bytes).toNat = newStart.toNat + 2 ^ page.shift := add_bytes (by omega)
    obtain ⟨middle, ran, same⟩ := remapAny_ok aligned alignedNew (free newStart (Nat.le_refl _) (by omega))
    have still : ∀ b : Addr, (newStart + page.bytes).toNat ≤ b.toNat →
        b.toNat < (newStart + page.bytes).toNat + (length - page.bytes).toNat → middle b = none := by
      intro b first last
      rw [same b]
      · exact free b (by omega) (by omega)
      · rintro rfl
        omega
      · rintro rfl
        omega
    obtain ⟨after, rest⟩ := ih (aligned.add (aligned_bytes page)) (alignedNew.add (aligned_bytes page)) less
      (by omega : count < fuel) (by omega) (by omega) (by omega) still
    refine ⟨after, ?_⟩
    rw [remapPages, bind_of_ok ran, less, if_pos more]
    exact rest

theorem lookFrom_ok (aligned : Aligned page start) (pages : start.toNat + count * 2 ^ page.shift = stop.toNat) (enough : count < fuel)
    (free : ∀ b : Addr, start.toNat ≤ b.toNat → b.toNat < stop.toNat → pTable b = none) :
    lookFrom page pTable stop fuel start = .ok true := by
  induction count generalizing start fuel with
  | zero =>
    obtain ⟨fuel, rfl⟩ := Nat.exists_eq_succ_of_ne_zero (show fuel ≠ 0 by omega)
    rw [lookFrom, if_neg]
    · rfl
    · rw [ult_iff_lt, lt_def]
      omega
  | succ _ ih =>
    obtain ⟨fuel, rfl⟩ := Nat.exists_eq_succ_of_ne_zero (show fuel ≠ 0 by omega)
    have positive := Nat.two_pow_pos page.shift
    rw [Nat.succ_mul] at pages
    have next : (start + page.bytes).toNat = start.toNat + 2 ^ page.shift := add_bytes (by omega)
    rw [lookFrom, if_pos (BitVec.ult_iff_lt.mpr (BitVec.lt_def.mpr (by omega))), EmulationPageTable.lookup, pageAlign_eq aligned,
      free start (Nat.le_refl _) (by omega)]
    exact ih (aligned.add (aligned_bytes page)) (by omega) (by omega) fun b _ last => free b (by omega) last

end Pages

/-! The reference map. -/

abbrev Mapping := Option (List Byte × Nat)

abbrev Reference := Addr → Option Mapping

def byteOf (mapping : Mapping) : Option Byte := mapping.bind fun (file, position) => file[position]?

/-- What an operation on a region does to the addresses in it. -/
def Reference.apply (reference : Reference) : RegionEvent → Reference
  | .mapRegion startAddr length backing => fun a =>
    if startAddr ≤ a ∧ a < startAddr + length then some (backing.map fun (file, offset) => (file, offset + (a - startAddr).toNat))
    else reference a
  | .unmapRegion startAddr length => fun a => if startAddr ≤ a ∧ a < startAddr + length then none else reference a
  | .remapRegion startAddr newStartAddr length => fun a =>
    if newStartAddr ≤ a ∧ a < newStartAddr + length then reference (a - newStartAddr + startAddr)
    else if startAddr ≤ a ∧ a < startAddr + length then none
    else reference a
  | .paged _ => reference

def referenceOf (events : List RegionEvent) : Reference := events.foldl Reference.apply fun _ => none

structure Region (page : PageSize) (start length : Addr) : Prop where
  aligned : Aligned page start ∧ Aligned page length
  nonempty : 0 < length
  fits : start.toNat + length.toNat < 2 ^ 64

def Unmapped (process : Process) (start length : Addr) : Prop :=
  (∀ vma ∈ process.vmaList, vma.addrRange.intersects ⟨start, start + length⟩ = false) ∧
    ∀ a, start ≤ a → a < start + length → process.pTable a = none

/-- Regions of whole pages that do not wrap are mapped and moved to where nothing is. -/
def Allowed (page : PageSize) (process : Process) : RegionEvent → Prop
  | .mapRegion startAddr length _ => Region page startAddr length ∧ Unmapped process startAddr length
  | .unmapRegion startAddr length => Region page startAddr length
  | .remapRegion startAddr newStartAddr length => Region page startAddr length ∧ Region page newStartAddr length ∧
      Unmapped process newStartAddr length ∧ (startAddr + length ≤ newStartAddr ∨ newStartAddr + length ≤ startAddr)
  | .paged _ => True

def BeyondFile (stop : Stop) : Prop :=
  stop = .abort (.panic "Tried to mmap with offset greater than file size") ∨ stop = .abort (.panic "Tried to mmap 0 bytes")

/-- The areas are those of the reference map, each once, and have its files behind them. -/
structure Exact (page : PageSize) (vmaList : List VMA) (reference : Reference) : Prop where
  disjoint : vmaList.Pairwise fun first second => first.addrRange.intersects second.addrRange = false
  nonempty : ∀ vma ∈ vmaList, vma.start < vma.stop
  aligned : ∀ vma ∈ vmaList, vma.start % page.bytes = 0 ∧ vma.stop % page.bytes = 0
  covers : ∀ a, (∃ vma ∈ vmaList, vma.addrRange.contains a = true) ↔ (reference a).isSome = true
  bounded : ∀ vma ∈ vmaList, ∀ buffer, vma.origHostBuf = some buffer →
    vma.hostBuf + vma.hostBufLen ≤ buffer.length ∧ buffer.offset + buffer.length ≤ buffer.file.length
  supplies : ∀ vma ∈ vmaList, ∀ a, vma.addrRange.contains a = true →
    (vma.fillMemPages page (page.pageAlign a))[(page.pageOffset a).toNat]? = (reference a).bind byteOf

def said (mapping : Option Mapping) : Multiset (Option Byte) :=
  match mapping with
  | none => 0
  | some mapping => {byteOf mapping}

/-- The regions show what the reference says. -/
structure Tracks (page : PageSize) (vmaList : List VMA) (reference : Reference) : Prop where
  valid : ∀ vma ∈ vmaList, Valid page vma
  views : ∀ a, views vmaList a = said (reference a)

section Tracking
variable {reference : Reference} {process : Process} {newStart : Addr}

theorem Tracks.single (tracks : Tracks page vmaList reference) (a : Addr) : (Regions.views vmaList a).card ≤ 1 := by
  rw [tracks.views a]
  cases reference a with
  | none => exact Nat.zero_le _
  | some => exact Nat.le_of_eq (card_singleton _)

theorem views_eq_zero : views vmaList a = 0 ↔ ∀ vma ∈ vmaList, part vma a = 0 := by
  induction vmaList with
  | nil => simp
  | cons _ _ ih => rw [views_cons_eq_zero, ih, List.forall_mem_cons]

theorem views_eq_part (single : (views vmaList a).card ≤ 1) (member : vma ∈ vmaList) (first : vma.start ≤ a) (last : a < vma.stop) :
    views vmaList a = part vma a := by
  induction vmaList with
  | nil => exact absurd member not_mem_nil
  | cons other _ ih =>
    obtain rfl | member := List.mem_cons.mp member
    · rw [views_cons, views_rest_eq single first last, add_zero]
    · have same := ih (views_rest single) member
      rw [views_cons, same, card_add, part_inside first last] at single
      rw [views_cons, same, card_eq_zero.mp (show (part other a).card = 0 by omega), zero_add]

theorem disjoint_of_single (valid : ∀ vma ∈ vmaList, Valid page vma) (single : ∀ a, (views vmaList a).card ≤ 1) :
    vmaList.Pairwise fun first second => first.addrRange.intersects second.addrRange = false := by
  induction vmaList with
  | nil => exact .nil
  | cons vma _ ih =>
    obtain ⟨own, others⟩ := List.forall_mem_cons.mp valid
    refine .cons ?_ (ih others fun a => views_rest (single a))
    intro other member
    by_contra meets
    rw [Bool.not_eq_false] at meets
    obtain ⟨first, last⟩ := intersects_iff.mp meets
    change vma.start < other.stop at first
    change other.start < vma.stop at last
    have proper := own.nonempty
    have properOther := (others other member).nonempty
    -- They would share the later of the two starts.
    obtain ⟨a, own, ownLast, shared, sharedLast⟩ : ∃ a, vma.start ≤ a ∧ a < vma.stop ∧ other.start ≤ a ∧ a < other.stop := by
      by_cases order : vma.start ≤ other.start
      · exact ⟨other.start, order, last, BitVec.le_refl _, properOther⟩
      · exact ⟨vma.start, BitVec.le_refl _, proper, by bv_omega, first⟩
    have none := views_eq_zero.mp (views_rest_eq (single a) own ownLast) other member
    have one := part_inside shared sharedLast
    rw [none] at one
    cases one

theorem fillMemPages_eq (valid : Valid page vma) (first : vma.start ≤ a) :
    (vma.fillMemPages page (page.pageAlign a))[(page.pageOffset a).toNat]? = byteAt vma a := by
  have positive := Nat.two_pow_pos page.shift
  have parts := Nat.div_add_mod' a.toNat (2 ^ page.shift)
  have before : vma.start.toNat ≤ (page.pageAlign a).toNat := by
    rw [pageAlign_toNat]
    obtain ⟨_, start⟩ := valid.aligned.1
    rw [le_def] at first
    rw [start, Nat.mul_comm] at first ⊢
    exact Nat.mul_le_mul_right _ ((Nat.le_div_iff_mul_le positive).mpr first)
  have offset : (a - vma.start).toNat = (page.pageAlign a - vma.start).toNat + (page.pageOffset a).toNat := by
    rw [toNat_sub_of_le first, toNat_sub_of_le (BitVec.le_def.mpr before), pageOffset_toNat]
    rw [pageAlign_toNat] at before ⊢
    omega
  have within : (page.pageOffset a).toNat < page.bytes.toNat := by
    rw [pageOffset_toNat, bytes_toNat]
    exact Nat.mod_lt _ positive
  unfold VMA.fillMemPages byteAt
  cases vma.origHostBuf with
  | none => rfl
  | some =>
    rw [bind_some, offset]
    dsimp only
    by_cases early : (page.pageAlign a - vma.start).toNat < vma.hostBufLen
    · rw [if_pos early]
      by_cases filled : (page.pageAlign a - vma.start).toNat + (page.pageOffset a).toNat < vma.hostBufLen
      · rw [if_pos filled, getElem?_take_of_lt (by omega), getElem?_drop, getElem?_drop, Nat.add_assoc]
      · rw [if_neg filled, getElem?_take_eq_none (by omega)]
    · rw [if_neg early, if_neg (by omega)]
      rfl

theorem Tracks.exact (tracks : Tracks page vmaList reference) : Exact page vmaList reference where
  disjoint := disjoint_of_single tracks.valid tracks.single
  nonempty vma member := (tracks.valid vma member).nonempty
  aligned vma member := by
    obtain ⟨first, last⟩ := (tracks.valid vma member).aligned
    exact ⟨beq_iff_eq.mp ((aligned_iff page _).mpr first), beq_iff_eq.mp ((aligned_iff page _).mpr last)⟩
  covers a := by
    have none : Regions.views vmaList a = 0 ↔ ∀ vma ∈ vmaList, part vma a = 0 := views_eq_zero
    rw [tracks.views a] at none
    have absent : said (reference a) = 0 ↔ reference a = .none := by cases reference a <;> simp [said]
    have parts : ∀ vma : VMA, part vma a = 0 ↔ ¬vma.addrRange.contains a = true := by
      intro vma
      unfold part
      split <;> simp [*]
    rw [← ne_none_iff_isSome, ne_eq, ← absent, none]
    simp only [parts, not_forall, not_not, exists_prop]
  bounded vma member := (tracks.valid vma member).bounded
  supplies vma member a inside := by
    obtain ⟨first, last⟩ := contains_iff.mp inside
    have same := views_eq_part (tracks.single a) member first last
    rw [tracks.views a, part, if_pos inside] at same
    rw [fillMemPages_eq (tracks.valid vma member) first]
    cases mapped : reference a with
    | none => simp [mapped, said] at same
    | some =>
      rw [mapped] at same
      exact (Multiset.singleton_inj.mp same).symm

section

variable (region : Region page start length)
include region

theorem Region.stop_toNat : (start + length).toNat = start.toNat + length.toNat := by
  rw [toNat_add, Nat.mod_eq_of_lt region.fits]

theorem Region.pages : ∃ count, length.toNat = (count + 1) * 2 ^ page.shift ∧ count < turns := by
  obtain ⟨count, size⟩ := region.aligned.2
  have nonempty := region.nonempty
  have positive := Nat.two_pow_pos page.shift
  rw [lt_def, size] at nonempty
  obtain ⟨count, rfl⟩ := Nat.exists_eq_succ_of_ne_zero (show count ≠ 0 by rintro rfl; simp at nonempty)
  refine ⟨count, by rw [size, Nat.mul_comm], ?_⟩
  have least : count.succ ≤ 2 ^ page.shift * count.succ := Nat.le_mul_of_pos_left _ positive
  unfold turns
  omega

theorem Region.less : start < start + length := by
  have nonempty := region.nonempty
  rw [lt_def] at nonempty ⊢
  rw [region.stop_toNat]
  exact Nat.lt_add_of_pos_right nonempty

end

theorem Unmapped.views_eq_zero (unmapped : Unmapped process start length) (first : start ≤ a) (last : a < start + length) :
    views process.vmaList a = 0 := by
  rw [Regions.views_eq_zero]
  intro other member
  apply part_outside
  intro shared
  have meets := unmapped.1 other member
  rw [← Bool.not_eq_true, intersects_iff] at meets
  apply meets
  change other.start < start + length ∧ start < other.stop
  bv_omega

theorem isUnmapped_ok (region : Region page start length) (unmapped : Unmapped process start length) :
    process.isUnmapped page start length = .ok true := by
  obtain ⟨count, size, _⟩ := region.pages
  have clear : process.vmaList.any (fun vma => vma.addrRange.intersects ⟨start, start + length⟩) = false := by
    rw [List.any_eq_false]
    intro vma member
    rw [unmapped.1 vma member]
    exact Bool.false_ne_true
  rw [Process.isUnmapped, clear, if_neg Bool.false_ne_true]
  have pages : start.toNat + (count + 1) * 2 ^ page.shift = (start + length).toNat := by rw [region.stop_toNat, size]
  refine lookFrom_ok region.aligned.1 pages ?_ ?_
  · have positive := Nat.two_pow_pos page.shift
    have : count + 1 ≤ (count + 1) * 2 ^ page.shift := Nat.le_mul_of_pos_right _ positive
    unfold turns
    omega
  · intro b first last
    exact unmapped.2 b (BitVec.le_def.mpr first) (BitVec.lt_def.mpr last)

theorem create_yields (region : Region page start length) (backing : Mapping) :
    Yields BeyondFile (VMA.create page ⟨start, start + length⟩ backing) fun vma => Valid page vma ∧
      ∀ a, part vma a = if start ≤ a ∧ a < start + length then
        {byteOf (backing.map fun (file, offset) => (file, offset + (a - start).toNat))} else 0 := by
  have back : start + length - start = length := by rw [BitVec.add_comm, BitVec.add_sub_cancel]
  -- The area has its range, and supplies the bytes of the file.
  have made : ∀ vma : VMA, vma.addrRange = ⟨start, start + length⟩ →
      (∀ buffer, vma.origHostBuf = some buffer →
        vma.hostBuf + vma.hostBufLen ≤ buffer.length ∧ buffer.offset + buffer.length ≤ buffer.file.length) →
      (∀ a, start ≤ a → a < start + length →
        byteAt vma a = byteOf (backing.map fun (file, offset) => (file, offset + (a - start).toNat))) →
      Yields BeyondFile (vma.sanityCheck page) fun vma => Valid page vma ∧
        ∀ a, part vma a = if start ≤ a ∧ a < start + length then
          {byteOf (backing.map fun (file, offset) => (file, offset + (a - start).toNat))} else 0 := by
    intro vma range bounded same
    have valid : Valid page vma := by
      refine ⟨?_, ?_, bounded⟩
      · rw [VMA.start, VMA.stop, range]
        exact region.less
      · rw [VMA.start, VMA.stop, range]
        exact ⟨region.aligned.1, region.aligned.1.add region.aligned.2⟩
    rw [sanityCheck_ok valid]
    refine ⟨valid, ?_⟩
    intro a
    have within : vma.addrRange.contains a = true ↔ start ≤ a ∧ a < start + length := by rw [contains_iff, range]
    unfold part
    by_cases inside : start ≤ a ∧ a < start + length
    · rw [if_pos inside, if_pos (within.mpr inside), same a inside.1 inside.2]
    · rw [if_neg inside, if_neg fun contains => inside (within.mp contains)]
  unfold VMA.create
  cases backing with
  | none => exact made _ rfl nofun fun a _ _ => rfl
  | some backing =>
    obtain ⟨file, offset⟩ := backing
    dsimp only
    have positive := region.nonempty
    rw [back, MappedFileBuffer.create]
    have sized : (length.toNat == 0) = false := by
      rw [beq_eq_false_iff_ne]
      exact Nat.ne_of_gt positive
    by_cases beyond : offset > file.length
    · simp only [refuse, sized, Bool.false_eq_true, if_false, ok_bind, decide_eq_true beyond, if_true, error_bind]
      exact .inl rfl
    · by_cases empty : min (file.length - offset) length.toNat ≠ 0
      · simp only [refuse, sized, Bool.false_eq_true, if_false, ok_bind, decide_eq_false beyond, if_pos empty]
        refine made _ rfl ?_ ?_
        · intro buffer found
          cases found
          exact ⟨by dsimp only; omega, by dsimp only; omega⟩
        · intro a first last
          have inside := (offset_lt_iff (BitVec.le_of_lt region.less)).mpr ⟨first, last⟩
          rw [back] at inside
          change (if (a - start).toNat < min (file.length - offset) length.toNat then file[offset + 0 + (a - start).toNat]? else none) =
            file[offset + (a - start).toNat]?
          split
          next => rfl
          next outside => rw [getElem?_eq_none (by omega)]
      · simp only [refuse, sized, Bool.false_eq_true, if_false, ok_bind, decide_eq_false beyond, if_neg empty, error_bind]
        exact .inr rfl

section

variable (tracks : Tracks page process.vmaList reference)
include tracks

theorem mapRegion_yields (region : Region page start length) (unmapped : Unmapped process start length) (backing : Mapping) :
    Yields BeyondFile (process.mapRegion page start length backing) fun after =>
      Tracks page after.vmaList (reference.apply (.mapRegion start length backing)) := by
  unfold Process.mapRegion
  rw [bind_of_ok (isUnmapped_ok region unmapped)]
  apply (create_yields region backing).bind
  rintro _ ⟨valid, parts⟩
  refine ⟨forall_mem_append.mpr ⟨tracks.valid, forall_mem_singleton.mpr valid⟩, ?_⟩
  intro a
  dsimp only [Reference.apply]
  rw [views_append, views_cons, views_nil, add_zero, parts a]
  by_cases inside : start ≤ a ∧ a < start + length
  · rw [if_pos inside, if_pos inside, unmapped.views_eq_zero inside.1 inside.2, zero_add]
    rfl
  · rw [if_neg inside, if_neg inside, add_zero, tracks.views a]

theorem unmapRegion_yields (region : Region page start length) :
    Yields BeyondFile (process.unmapRegion page start length) fun after =>
      Tracks page after.vmaList (reference.apply (.unmapRegion start length)) := by
  obtain ⟨_, ran, valid, viewed⟩ := unmapFrom_ok ⟨region.aligned.1, region.aligned.1.add region.aligned.2⟩ region.less tracks.valid
    tracks.single
  obtain ⟨_, size, enough⟩ := region.pages
  obtain ⟨pTable, paged⟩ := unmapPages_ok process.pTable region.aligned.1 size enough
  unfold Process.unmapRegion
  rw [bind_of_ok ran, bind_of_ok paged]
  refine ⟨valid, ?_⟩
  intro a
  dsimp only [Reference.apply]
  rw [viewed a]
  split
  · rfl
  · exact tracks.views a

theorem remapRegion_yields (region : Region page start length)
    (place : Region page newStart length) (unmapped : Unmapped process newStart length)
    (apart : start + length ≤ newStart ∨ newStart + length ≤ start) :
    Yields BeyondFile (process.remapRegion page start newStart length) fun after =>
      Tracks page after.vmaList (reference.apply (.remapRegion start newStart length)) := by
  have back : start + length - start = length := by rw [BitVec.add_comm, BitVec.add_sub_cancel]
  have there : Place page start (start + length) newStart := by
    refine ⟨region.less, ⟨region.aligned.1, region.aligned.1.add region.aligned.2, place.aligned.1⟩, ?_, ?_⟩
    · rw [back]
      exact place.fits
    · rw [back]
      exact apart
  have enough : process.vmaList.length + process.vmaList.countP (straddles start (start + length)) ≤ 2 * process.vmaList.length := by
    have : process.vmaList.countP (straddles start (start + length)) ≤ process.vmaList.length := countP_le_length
    omega
  obtain ⟨_, ran, remapped⟩ := remapFrom_ok there ⟨tracks.valid, tracks.single, by
    intro a first last
    rw [back] at last
    exact unmapped.views_eq_zero first last⟩ enough
  obtain ⟨_, size, within⟩ := region.pages
  have stop := region.stop_toNat
  have newStop := place.stop_toNat
  have unpaged : ∀ b : Addr, newStart.toNat ≤ b.toNat → b.toNat < newStart.toNat + length.toNat → process.pTable b = none := by
    intro b first last
    apply unmapped.2 b (BitVec.le_def.mpr first)
    rw [lt_def]
    omega
  obtain ⟨pTable, paged⟩ := remapPages_ok region.aligned.1 place.aligned.1 size within region.fits place.fits
    (by rw [le_def, le_def] at apart; omega) unpaged
  unfold Process.remapRegion
  rw [bind_of_ok ran, bind_of_ok paged]
  refine ⟨remapped.valid, ?_⟩
  intro a
  dsimp only [Reference.apply]
  rw [remapped.views a, carried, back]
  split
  · exact tracks.views _
  · split
    · rfl
    · exact tracks.views a

theorem region_yields {event : RegionEvent} (allowed : Allowed page process event) :
    Yields BeyondFile (process.region page event) fun after => Tracks page after.vmaList (reference.apply event) := by
  cases event with
  | mapRegion _ _ backing => exact mapRegion_yields tracks allowed.1 allowed.2 backing
  | unmapRegion => exact unmapRegion_yields tracks allowed
  | remapRegion =>
    obtain ⟨region, place, unmapped, apart⟩ := allowed
    exact remapRegion_yields tracks region place unmapped apart
  | paged => exact tracks

end

theorem run_echoes {process : Process} {events : List RegionEvent} {ended : Process × List RegionEvent}
    (ran : run (Process.step page) process events = .ok ended) : ended.2 = events := by
  induction events generalizing process ended with
  | nil =>
    cases ran
    rfl
  | cons _ events ih =>
    obtain ⟨_, _, rest, taken, remaining, same⟩ := run_cons.mp ran
    obtain ⟨_, _, made⟩ := of_bind taken
    cases made
    have later : rest = events := ih remaining
    rw [same, later]
    rfl

/-- Virtual memory areas are an exact map of what was mapped, unmapped and moved, however
often an area was split. Only a file that is mapped from its end on stops a run. -/
theorem areas_exact (page : PageSize) (events : List RegionEvent) (each : Each (Process.step page) (Allowed page) {} events) :
    Yields BeyondFile (run (Process.step page) {} events) fun ended => ended.2 = events ∧
      Exact page ended.1.vmaList (referenceOf events) := by
  have start : Tracks page ({} : Process).vmaList (referenceOf []) := ⟨fun _ member => absurd member not_mem_nil, fun _ => rfl⟩
  have reached := run_yields BeyondFile (Allowed page) (fun process past => Tracks page process.vmaList (referenceOf past))
    (fun process past event tracks allowed => by
      apply (region_yields tracks allowed).bind
      intro after kept
      change Tracks page after.vmaList (referenceOf (past ++ [event]))
      rw [referenceOf, foldl_append]
      exact kept) start each
  cases ran : run (Process.step page) {} events with
  | error =>
    rw [ran] at reached
    exact reached
  | ok ended =>
    rw [ran] at reached
    have same : ended.2 = events := run_echoes ran
    have tracks : Tracks page ended.1.vmaList (referenceOf ended.2) := reached
    rw [same] at tracks
    exact ⟨same, tracks.exact⟩

end Tracking

def smallPage : PageSize := ⟨12, by decide⟩

def splitFile : List RegionEvent := [.mapRegion 0x1000 0x3000 (some ([7, 8, 9], 0)), .unmapRegion 0x2000 0x1000]

theorem splitFile_exact : Each (Process.step smallPage) (Allowed smallPage) {} splitFile ∧
    Yields BeyondFile (run (Process.step smallPage) {} splitFile) fun ended => ended.2 = splitFile ∧
      Exact smallPage ended.1.vmaList (referenceOf splitFile) := by
  have each : Each (Process.step smallPage) (Allowed smallPage) {} splitFile := by
    refine ⟨⟨⟨by decide, by decide, by decide⟩, fun _ member => absurd member not_mem_nil, fun _ _ _ => rfl⟩, ?_⟩
    cases Process.step smallPage {} (.mapRegion 0x1000 0x3000 (some ([7, 8, 9], 0))) with
    | error => trivial
    | ok taken =>
      refine ⟨⟨by decide, by decide, by decide⟩, ?_⟩
      cases Process.step smallPage taken.1 (.unmapRegion 0x2000 0x1000) <;> trivial
  exact ⟨each, areas_exact smallPage splitFile each⟩

end ImcGem5.Sim.Proofs.Regions

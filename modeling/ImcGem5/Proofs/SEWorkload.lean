import ImcGem5.Lib.Ownership
import ImcGem5.Proofs.Regions
import ImcGem5.Sim.SEWorkload

/-! Processes on one memory pool do not share physical pages, as long as no allocation gives
pages back to the pool. The pool hands out its pages in order, and what a page table has is
of one process and one virtual page. -/

namespace ImcGem5.Sim.Proofs.Workload
open Lib Mem Regions BitVec Function EmulationPageTable SEWorkload

variable {page : PageSize}

section Pool

def frame (page : PageSize) (start : BitVec 64) (i : Nat) : Addr := (start + BitVec.ofNat 64 i) <<< page.shift

structure Holds (page : PageSize) (pool : MemPool) (used : Nat) : Prop where
  free : pool.freePageNum = pool.startPageNum + BitVec.ofNat 64 used
  less : used < pool.totalPages.toNat
  small : pool.totalPages.toNat < 2 ^ 63
  fits : pool.totalPages.toNat * 2 ^ page.shift ≤ 2 ^ 64

theorem create_holds {ptr limit : Addr} {pool : MemPool} (made : MemPool.create page ptr limit = .ok pool) : Holds page pool 0 := by
  unfold MemPool.create check at made
  dsimp only at made
  split at made
  next positive =>
    cases made
    have many := of_decide_eq_true positive
    rw [toInt_eq_toNat_cond] at many
    refine ⟨by simp, ?_, ?_, ?_⟩
    · dsimp only
      split at many
      · omega
      · omega
    · dsimp only
      split at many
      · omega
      · omega
    · rw [toNat_ushiftRight, Nat.shiftRight_eq_div_pow]
      exact (Nat.div_mul_le_self _ _).trans (limit - ptr).isLt.le
  next => cases made

theorem signExtend_toNat {npages : BitVec 32} (positive : 0 ≤ npages.toInt) : (npages.signExtend 64).toNat = npages.toNat := by
  have clear : npages.msb = false := by
    rw [msb_eq_toInt]
    simpa using positive
  rw [signExtend_eq_setWidth_of_msb_false clear, toNat_setWidth]
  omega

theorem allocate_holds {pool next : MemPool} {paddr : Addr} {used : Nat} {npages : BitVec 32} (holds : Holds page pool used)
    (positive : 0 ≤ npages.toInt) (ran : allocPhysPages page pool npages = .ok (paddr, next)) :
    paddr = frame page pool.startPageNum used ∧ next.startPageNum = pool.startPageNum ∧ Holds page next (used + npages.toNat) := by
  have wide := signExtend_toNat positive
  unfold allocPhysPages MemPool.allocate refuse at ran
  dsimp only at ran
  split at ran
  next => cases ran
  next enough =>
    cases ran
    have less := holds.less
    have small := holds.small
    have taken : pool.freePageNum + npages.signExtend 64 = pool.startPageNum + BitVec.ofNat 64 (used + npages.toNat) := by
      rw [holds.free, ofNat_add, ← BitVec.add_assoc, ← wide, ofNat_toNat, setWidth_eq]
    refine ⟨by rw [MemPool.freePageAddr, holds.free, frame], rfl, taken, ?_, small, holds.fits⟩
    dsimp only
    have left : (pool.totalPages - BitVec.ofNat 64 (used + npages.toNat)).toInt =
        (pool.totalPages.toNat : Int) - (used + npages.toNat : Nat) := by
      rw [toInt_sub, toInt_eq_toNat_of_lt (by omega), toInt_ofNat', Int.sub_bmod_bmod]
      exact Int.bmod_eq_of_le (by omega) (by omega)
    have positive : ¬(pool.totalPages - BitVec.ofNat 64 (used + npages.toNat)).toInt ≤ 0 := by
      simpa [MemPool.freePages, MemPool.allocatedPages, taken, BitVec.add_comm, BitVec.add_sub_cancel] using enough
    omega

theorem frame_toNat (start : BitVec 64) (i : Nat) : (frame page start i).toNat = (start.toNat + i) * 2 ^ page.shift % 2 ^ 64 := by
  rw [frame, toNat_shiftLeft, toNat_add, toNat_ofNat, Nat.shiftLeft_eq]
  simp [Nat.mod_mul_mod]

theorem frame_aligned (start : BitVec 64) (i : Nat) : Aligned page (frame page start i) := by
  unfold Aligned
  rw [frame_toNat]
  exact (Nat.dvd_mod_iff (pow_dvd page)).mpr (Nat.dvd_mul_left _ _)

theorem frame_ne {start : BitVec 64} {total i j : Nat} (fits : total * 2 ^ page.shift ≤ 2 ^ 64) (less : i < j) (bound : j < total) :
    frame page start i ≠ frame page start j := by
  intro same
  have asNat := congrArg BitVec.toNat same
  rw [frame_toNat, frame_toNat] at asNat
  have whole : 2 ^ 64 = 2 ^ (64 - page.shift) * 2 ^ page.shift := by
    rw [← Nat.pow_add]
    congr 1
    have narrow := page.fits
    omega
  have power := Nat.two_pow_pos page.shift
  rw [whole] at fits
  rw [whole, Nat.mul_mod_mul_right, Nat.mul_mod_mul_right] at asNat
  have pages := Nat.le_of_mul_le_mul_right fits power
  have congruent : i ≡ j [MOD 2 ^ (64 - page.shift)] :=
    Nat.ModEq.add_left_cancel' start.toNat (Nat.eq_of_mul_eq_mul_right power asNat)
  have equal := Nat.ModEq.eq_of_lt_of_lt congruent (by omega) (by omega)
  omega

theorem frame_add_bytes (start : BitVec 64) (i : Nat) : frame page start i + page.bytes = frame page start (i + 1) := by
  apply eq_of_toNat_eq
  rw [toNat_add, frame_toNat, frame_toNat, bytes_toNat, Nat.mod_add_mod, ← Nat.add_assoc, Nat.succ_mul]

end Pool

section Tables

def owned (processes : Nat → Process) : Nat × Addr → Option Addr := fun key => ((processes key.1).pTable key.2).map Entry.paddr

def withTable (processes : Nat → Process) (pid : Nat) (pTable : EmulationPageTable) : Nat → Process :=
  update processes pid { processes pid with pTable }

variable {processes : Nat → Process} {pid : Nat} {pTable final : EmulationPageTable} {vaddr : Addr} {used : Nat}

theorem owned_update (processes : Nat → Process) (pid : Nat) (pTable : EmulationPageTable) (vaddr : Addr) (entry : Option Entry) :
    owned (withTable processes pid (update pTable vaddr entry)) =
      update (owned (withTable processes pid pTable)) (pid, vaddr) (entry.map Entry.paddr) := by
  funext ⟨other, a⟩
  by_cases process : other = pid
  · subst process
    by_cases place : a = vaddr
    · subst place
      simp [owned, withTable]
    · simp [owned, withTable, place]
  · simp [owned, withTable, process]

theorem withTable_self (processes : Nat → Process) (pid : Nat) : withTable processes pid (processes pid).pTable = processes := by
  unfold withTable
  exact update_eq_self pid processes

theorem withTable_pTable (processes : Nat → Process) (pid : Nat) (pTable : EmulationPageTable) :
    (withTable processes pid pTable pid).pTable = pTable := by
  simp [withTable]

def Paged (page : PageSize) (pTable : EmulationPageTable) : Prop := ∀ a, (pTable a).isSome → Aligned page a

theorem Paged.update (paged : Paged page pTable) (aligned : Aligned page vaddr) (entry : Option Entry) :
    Paged page (update pTable vaddr entry) := by
  intro a found
  by_cases same : a = vaddr
  · rwa [same]
  · rw [update_of_ne same] at found
    exact paged a found

theorem mapFrom_handed {start : BitVec 64} {flags : BitVec 64} {count total : Nat} (fits : total * 2 ^ page.shift ≤ 2 ^ 64)
    (enough : used + count ≤ total) (paged : Paged page pTable) (aligned : Aligned page vaddr)
    (handed : Handed (frame page start) used (owned (withTable processes pid pTable)))
    (ran : mapFrom page flags count pTable vaddr (frame page start used) = .ok final) :
    Handed (frame page start) (used + count) (owned (withTable processes pid final)) ∧ Paged page final := by
  induction count generalizing pTable vaddr used with
  | zero =>
    cases ran
    exact ⟨handed, paged⟩
  | succ count ih =>
    obtain ⟨_, _, ran⟩ := of_bind ran
    rw [frame_add_bytes] at ran
    have taken := handed.take (fun i less => frame_ne fits less (by omega)) (pid, vaddr)
    rw [Nat.add_comm count, ← Nat.add_assoc]
    apply ih (by omega) (paged.update aligned _) (aligned.add (aligned_bytes page)) ?_ ran
    rw [owned_update]
    exact taken

theorem check_ok {condition : Bool} {text : String} {result : Unit} (ran : check condition text = .ok result) : condition = true := by
  unfold check at ran
  split at ran
  next holds => exact holds
  next => cases ran

theorem aligned_of_pageOffset (none : (page.pageOffset vaddr == 0) = true) : Aligned page vaddr := by
  rw [beq_iff_eq, ← toNat_inj, pageOffset_toNat] at none
  exact Nat.dvd_of_mod_eq_zero none

theorem pagesIn_le {npages : BitVec 32} (positive : 0 ≤ npages.toInt) :
    pagesIn page (npages.signExtend 64 * page.bytes).toInt ≤ npages.toNat := by
  have power := Nat.two_pow_pos page.shift
  have wide := signExtend_toNat positive
  have size : (npages.signExtend 64 * page.bytes).toInt.toNat ≤ npages.toNat * 2 ^ page.shift := by
    rw [toInt_eq_toNat_cond, toNat_mul, wide, bytes_toNat]
    split
    · omega
    · omega
  unfold pagesIn
  rw [bytes_toNat]
  apply Nat.le_of_lt_succ
  rw [Nat.div_lt_iff_lt_mul power, Nat.succ_mul]
  omega

variable {item : Nat → Addr}

theorem unmapAny_handed (handed : Handed item used (owned (withTable processes pid pTable))) (paged : Paged page pTable)
    (ran : pTable.unmapAny page vaddr = .ok final) :
    Handed item used (owned (withTable processes pid final)) ∧ Paged page final := by
  obtain ⟨unmapped, looked, ran⟩ := of_bind ran
  obtain ⟨_, offset, _⟩ := of_bind looked
  have aligned := aligned_of_pageOffset (check_ok offset)
  cases unmapped with
  | true =>
    cases ran
    exact ⟨handed, paged⟩
  | false =>
    obtain ⟨_, _, ran⟩ := of_bind ran
    obtain ⟨_, _, ran⟩ := of_bind ran
    cases ran
    refine ⟨?_, paged.update aligned _⟩
    rw [owned_update]
    exact handed.drop (pid, vaddr)

theorem remapAny_handed {newStart : Addr} (handed : Handed item used (owned (withTable processes pid pTable)))
    (paged : Paged page pTable) (ran : pTable.remapAny page vaddr newStart = .ok final) :
    Handed item used (owned (withTable processes pid final)) ∧ Paged page final := by
  obtain ⟨unmapped, looked, ran⟩ := of_bind ran
  obtain ⟨_, offset, _⟩ := of_bind looked
  have aligned := aligned_of_pageOffset (check_ok offset)
  cases unmapped with
  | true =>
    cases ran
    exact ⟨handed, paged⟩
  | false =>
    obtain ⟨_, _, ran⟩ := of_bind ran
    obtain ⟨_, newOffset, ran⟩ := of_bind ran
    obtain ⟨_, _, ran⟩ := of_bind ran
    have alignedNew := aligned_of_pageOffset (check_ok newOffset)
    cases ran
    refine ⟨?_, (paged.update alignedNew _).update aligned _⟩
    rw [owned_update, owned_update]
    have moved := handed.move (pid, newStart) (pid, vaddr)
    simpa [owned, withTable] using moved

end Tables

section Steps

/-- Every page that a process has is of this process and this virtual page only, and comes
from the part of the pool that has been handed out. -/
structure Isolated (page : PageSize) (work : SEWorkload) (used : Nat) : Prop where
  pool : Holds page work.memPool used
  handed : Handed (frame page work.memPool.startPageNum) used (owned work.processes)
  paged : ∀ pid, Paged page (work.processes pid).pTable

variable {work next : SEWorkload} {pid used : Nat} {vaddr : Addr} {pTable : EmulationPageTable}

variable {processes : Nat → Process} {left : Nat} {length startAddr : Addr}

section

variable (isolated : Isolated page work used)
include isolated

theorem Isolated.withTable (same : ∀ other, (processes other).pTable = (Workload.withTable work.processes pid pTable other).pTable)
    (handed : Handed (frame page work.memPool.startPageNum) used (owned (Workload.withTable work.processes pid pTable)))
    (paged : Paged page pTable) (memory : Addr → Byte) (contextIds : Nat → List ContextID) :
    Isolated page { memPool := work.memPool, processes, contextIds, memory } used where
  pool := isolated.pool
  handed := by
    have tables : owned processes = owned (Workload.withTable work.processes pid pTable) := by
      funext key
      rw [owned, owned, same]
    rw [tables]
    exact handed
  paged other := by
    rw [same]
    by_cases here : other = pid
    · rw [here, withTable_pTable]
      exact paged
    · rw [Workload.withTable, update_of_ne here]
      exact isolated.paged other

theorem Isolated.sameTables (same : ∀ other, (processes other).pTable = (work.processes other).pTable) (memory : Addr → Byte)
    (contextIds : Nat → List ContextID) : Isolated page { memPool := work.memPool, processes, contextIds, memory } used := by
  have tables : ∀ other, (processes other).pTable =
      (Workload.withTable work.processes 0 (work.processes 0).pTable other).pTable := by
    intro other
    rw [withTable_self, same]
  apply isolated.withTable tables
  · rw [withTable_self]
    exact isolated.handed
  · exact isolated.paged 0

theorem map_isolated {npages : BitVec 32} (positive : 0 ≤ npages.toInt) {paddr : Addr}
    {memPool : MemPool} (allocated : allocPhysPages page work.memPool npages = .ok (paddr, memPool)) {flags : BitVec 64}
    (mapped : (work.processes pid).pTable.map page vaddr paddr (npages.signExtend 64 * page.bytes).toInt flags = .ok pTable) :
    ∃ more, Isolated page ({ work with memPool }.setTable pid pTable) more := by
  obtain ⟨rfl, start, holds⟩ := allocate_holds isolated.pool positive allocated
  obtain ⟨_, offset, mapped⟩ := of_bind mapped
  have less := holds.less
  have count : pagesIn page _ ≤ _ := pagesIn_le positive
  have handed := isolated.handed
  rw [← withTable_self work.processes pid] at handed
  have enough : used + pagesIn page (npages.signExtend 64 * page.bytes).toInt ≤ memPool.totalPages.toNat := by omega
  obtain ⟨taken, paged⟩ := mapFrom_handed holds.fits enough (isolated.paged pid) (aligned_of_pageOffset (check_ok offset)) handed mapped
  refine ⟨_, holds, ?_, ?_⟩
  · rw [setTable]
    rw [start]
    exact taken.mono (by omega)
  · intro other
    by_cases here : other = pid
    · rw [here]
      simpa [setTable] using paged
    · simpa [setTable, here] using isolated.paged other

end

def Countable (page : PageSize) (work : SEWorkload) (pid : Nat) (vaddr : Addr) (size : BitVec 64) (clobber : Bool) : Prop :=
  (clobber = false ∧ ((work.processes pid).pTable.lookup page vaddr).isSome) ∨ 0 ≤ (pageCount page size).toInt

theorem lookup_pageAlign (vaddr : Addr) : pTable.lookup page (page.pageAlign vaddr) = pTable.lookup page vaddr := by
  unfold EmulationPageTable.lookup
  congr 1
  apply pageAlign_eq
  unfold Aligned
  rw [pageAlign_toNat]
  exact Nat.dvd_mul_left _ _

theorem allocateMem_isolated (isolated : Isolated page work used) {size : BitVec 64} {clobber : Bool}
    (countable : Countable page work pid vaddr size clobber) (ran : work.allocateMem page pid vaddr size clobber = .ok next) :
    ∃ more, Isolated page next more := by
  unfold allocateMem at ran
  dsimp only at ran
  rw [lookup_pageAlign] at ran
  split at ran
  next =>
    cases ran
    exact ⟨used, isolated⟩
  next fresh =>
    obtain ⟨⟨_, _⟩, allocated, ran⟩ := of_bind ran
    obtain ⟨_, mapped, ran⟩ := of_bind ran
    cases ran
    rcases countable with ⟨kept, found⟩ | positive
    · exact absurd (by simp [kept, found]) fresh
    · exact map_isolated isolated positive allocated mapped

theorem pageCount_bytes (page : PageSize) : pageCount page page.bytes = 1 := by
  have fits := page.fits
  have power := Nat.two_pow_pos page.shift
  have small : 2 ^ page.shift < 2 ^ 63 := Nat.pow_lt_pow_right (by omega) (by omega)
  have sum : (page.bytes + page.bytes - 1).toNat = 2 ^ page.shift + 2 ^ page.shift - 1 := by
    have double : (page.bytes + page.bytes).toNat = 2 ^ page.shift + 2 ^ page.shift := by
      rw [toNat_add, bytes_toNat, Nat.mod_eq_of_lt (by omega)]
    have one : (1 : BitVec 64) ≤ page.bytes + page.bytes := by
      change (1 : BitVec 64).toNat ≤ _
      rw [double]
      change 1 ≤ _
      omega
    rw [toNat_sub_of_le one, double]
    rfl
  unfold pageCount
  apply eq_of_toNat_eq
  have quotient : (2 ^ page.shift + 2 ^ page.shift - 1) / 2 ^ page.shift = 1 := by
    apply Nat.div_eq_of_lt_le
    · omega
    · omega
  rw [toNat_setWidth, toNat_udiv, sum, bytes_toNat, quotient]
  rfl

section

variable (isolated : Isolated page work used)
include isolated

theorem allocatePage_isolated (ran : work.allocateMem page pid vaddr page.bytes false = .ok next) : ∃ more, Isolated page next more := by
  refine allocateMem_isolated isolated (.inr ?_) ran
  rw [pageCount_bytes]
  decide

theorem writeBlob_isolated {bytes : List Byte} (ran : work.writeBlob page pid vaddr bytes = .ok next) : Isolated page next used := by
  unfold writeBlob at ran
  split at ran
  · cases ran
    exact isolated.sameTables (fun _ => rfl) _ _
  · cases ran

theorem fillEach_isolated {contextIds : List ContextID} {vma : VMA} (ran : work.fillEach page pid vma vaddr contextIds = .ok next) : Isolated page next used := by
  induction contextIds generalizing work with
  | nil =>
    cases ran
    exact isolated
  | cons _ _ ih =>
    obtain ⟨_, written, ran⟩ := of_bind ran
    exact ih (writeBlob_isolated isolated written) ran

theorem growStack_isolated (ran : growStack page pid vaddr left work = .ok next) : ∃ more, Isolated page next more := by
  induction left generalizing work used with
  | zero => cases ran
  | succ _ ih =>
    unfold growStack at ran
    dsimp only at ran
    split at ran
    next =>
      obtain ⟨_, _, ran⟩ := of_bind ran
      obtain ⟨_, allocated, ran⟩ := of_bind ran
      have lowered : Isolated page { work with
          processes := update work.processes pid { work.processes pid with stackMin := (work.processes pid).stackMin - page.bytes } } used := by
        apply isolated.sameTables
        intro other
        by_cases here : other = pid
        · subst here
          simp
        · simp [here]
      obtain ⟨more, kept⟩ := allocatePage_isolated lowered allocated
      exact ih kept ran
    next =>
      cases ran
      exact ⟨used, isolated⟩

theorem fixupFault_isolated {fixed : Bool} (ran : work.fixupFault page pid vaddr = .ok (next, fixed)) : ∃ more, Isolated page next more := by
  unfold fixupFault at ran
  dsimp only at ran
  split at ran
  next =>
    obtain ⟨middle, allocated, ran⟩ := of_bind ran
    obtain ⟨more, kept⟩ := allocatePage_isolated isolated allocated
    split at ran
    next =>
      obtain ⟨_, done, ran⟩ := of_bind ran
      cases ran
      exact ⟨more, fillEach_isolated kept done⟩
    next =>
      cases ran
      exact ⟨more, kept⟩
  next =>
    split at ran
    next =>
      obtain ⟨middle, allocated, ran⟩ := of_bind ran
      cases ran
      exact allocatePage_isolated isolated allocated
    next =>
      split at ran
      next =>
        obtain ⟨middle, grown, ran⟩ := of_bind ran
        cases ran
        exact growStack_isolated isolated grown
      next =>
        cases ran
        exact ⟨used, isolated⟩

end

theorem unmapPages_handed {final : EmulationPageTable}
    (handed : Handed item used (owned (Workload.withTable processes pid pTable))) (paged : Paged page pTable)
    (ran : unmapPages page left pTable vaddr length = .ok final) :
    Handed item used (owned (Workload.withTable processes pid final)) ∧ Paged page final := by
  induction left generalizing pTable vaddr length with
  | zero => cases ran
  | succ _ ih =>
    obtain ⟨_, taken, ran⟩ := of_bind ran
    obtain ⟨kept, still⟩ := unmapAny_handed handed paged taken
    split at ran
    · exact ih kept still ran
    · cases ran
      exact ⟨kept, still⟩

theorem remapPages_handed {final : EmulationPageTable}
    {newStart : Addr} (handed : Handed item used (owned (Workload.withTable processes pid pTable))) (paged : Paged page pTable)
    (ran : remapPages page left pTable vaddr newStart length = .ok final) :
    Handed item used (owned (Workload.withTable processes pid final)) ∧ Paged page final := by
  induction left generalizing pTable vaddr newStart length with
  | zero => cases ran
  | succ _ ih =>
    obtain ⟨_, taken, ran⟩ := of_bind ran
    obtain ⟨kept, still⟩ := remapAny_handed handed paged taken
    split at ran
    · exact ih kept still ran
    · cases ran
      exact ⟨kept, still⟩

theorem withProcess_isolated (isolated : Isolated page work used) {result : Except Stop Process}
    (tables : ∀ process, result = .ok process →
      Handed (frame page work.memPool.startPageNum) used (owned (Workload.withTable work.processes pid process.pTable)) ∧
        Paged page process.pTable)
    (ran : work.withProcess pid result = .ok next) : Isolated page next used := by
  obtain ⟨process, reached, ran⟩ := of_bind ran
  cases ran
  obtain ⟨handed, paged⟩ := tables process reached
  refine isolated.withTable ?_ handed paged _ _
  intro other
  by_cases here : other = pid
  · subst here
    simp [Workload.withTable]
  · simp [Workload.withTable, here]

variable {backing : Option (List Byte × Nat)}

theorem mapRegion_pTable {process final : Process}
    (ran : process.mapRegion page startAddr length backing = .ok final) : final.pTable = process.pTable := by
  obtain ⟨_, _, ran⟩ := of_bind ran
  obtain ⟨_, _, ran⟩ := of_bind ran
  obtain ⟨_, _, ran⟩ := of_bind ran
  cases ran
  rfl

section

variable (isolated : Isolated page work used)
include isolated

theorem ownTable (pid : Nat) :
    Handed (frame page work.memPool.startPageNum) used (owned (Workload.withTable work.processes pid (work.processes pid).pTable)) := by
  rw [withTable_self]
  exact isolated.handed

theorem mapRegion_isolated
    (ran : work.withProcess pid ((work.processes pid).mapRegion page startAddr length backing) = .ok next) : Isolated page next used := by
  apply withProcess_isolated isolated ?_ ran
  intro process reached
  rw [mapRegion_pTable reached]
  exact ⟨ownTable isolated pid, isolated.paged pid⟩

theorem unmapRegion_isolated (ran : work.withProcess pid ((work.processes pid).unmapRegion page startAddr length) = .ok next) : Isolated page next used := by
  apply withProcess_isolated isolated ?_ ran
  intro process reached
  obtain ⟨_, _, reached⟩ := of_bind reached
  obtain ⟨_, unmapped, reached⟩ := of_bind reached
  cases reached
  exact unmapPages_handed (ownTable isolated pid) (isolated.paged pid) unmapped

theorem remapRegion_isolated {newStartAddr : Addr}
    (ran : work.withProcess pid ((work.processes pid).remapRegion page startAddr newStartAddr length) = .ok next) :
    Isolated page next used := by
  apply withProcess_isolated isolated ?_ ran
  intro process reached
  obtain ⟨_, _, reached⟩ := of_bind reached
  obtain ⟨_, remapped, reached⟩ := of_bind reached
  cases reached
  exact remapPages_handed (ownTable isolated pid) (isolated.paged pid) remapped

end

end Steps

section Clone

variable {work next : SEWorkload} {parent child used : Nat} {vaddr : Addr} {paddr offset : Addr}

theorem pageAlign_add (aligned : Aligned page paddr) (inside : offset.toNat < 2 ^ page.shift) :
    page.pageAlign (paddr + offset) = paddr := by
  obtain ⟨k, whole⟩ := aligned
  obtain ⟨pages, total⟩ := pow_dvd page
  have power := Nat.two_pow_pos page.shift
  have bound := paddr.isLt
  have last : k + 1 ≤ pages := by
    rw [whole, total] at bound
    exact Nat.lt_of_mul_lt_mul_left bound
  have room : (k + 1) * 2 ^ page.shift ≤ 2 ^ 64 := by
    rw [total, Nat.mul_comm]
    exact Nat.mul_le_mul_left _ last
  rw [Nat.succ_mul, Nat.mul_comm k, ← whole] at room
  apply eq_of_toNat_eq
  rw [pageAlign_toNat, toNat_add, Nat.mod_eq_of_lt (by omega), whole, Nat.mul_add_div power,
    Nat.div_eq_of_lt inside, Nat.add_zero, Nat.mul_comm]

theorem writePage_same (memory : Addr → Byte) (buf : Addr → Byte) (inside : offset.toNat < 2 ^ page.shift) :
    writePage page memory paddr buf (paddr + offset) = buf offset := by
  have back : paddr + offset - paddr = offset := by rw [BitVec.add_comm, BitVec.add_sub_cancel]
  rw [writePage, back, if_pos inside]

theorem writePage_other (memory : Addr → Byte) {other : Addr} (buf : Addr → Byte) (aligned : Aligned page paddr)
    (alignedOther : Aligned page other) (apart : other ≠ paddr) (inside : offset.toNat < 2 ^ page.shift) :
    writePage page memory paddr buf (other + offset) = memory (other + offset) := by
  rw [writePage, if_neg]
  intro within
  apply apart
  have align := pageAlign_add aligned within
  rwa [BitVec.add_comm, BitVec.sub_add_cancel, pageAlign_add alignedOther inside] at align

theorem translate_aligned (work : SEWorkload) (pid : Nat) (aligned : Aligned page vaddr) :
    work.translate page pid vaddr = ((work.processes pid).pTable vaddr).map Entry.paddr := by
  have offset := beq_iff_eq.mp (pageOffset_eq aligned)
  unfold SEWorkload.translate EmulationPageTable.lookup
  rw [pageAlign_eq aligned, offset]
  cases (work.processes pid).pTable vaddr with
  | none => rfl
  | some => simp

theorem map_one {pTable final : EmulationPageTable} (ran : pTable.map page vaddr paddr page.bytes.toInt clobberFlag = .ok final) :
    Aligned page vaddr ∧ final = update pTable vaddr (some { paddr, flags := clobberFlag }) := by
  obtain ⟨_, offset, ran⟩ := of_bind ran
  have fits := page.fits
  have power := Nat.two_pow_pos page.shift
  have small : 2 ^ page.shift < 2 ^ 63 := Nat.pow_lt_pow_right (by omega) (by omega)
  have one : pagesIn page page.bytes.toInt = 1 := by
    have size : page.bytes.toInt.toNat = 2 ^ page.shift := by
      rw [toInt_eq_toNat_of_lt (by rw [bytes_toNat]; omega), Int.toNat_natCast, bytes_toNat]
    rw [pagesIn, size, bytes_toNat]
    apply Nat.div_eq_of_lt_le
    · omega
    · omega
  rw [one] at ran
  obtain ⟨_, _, ran⟩ := of_bind ran
  cases ran
  exact ⟨aligned_of_pageOffset (check_ok offset), rfl⟩

/-- What replicatePage does: the child has a page of its own, with what the parent's has. -/
structure Replicated (page : PageSize) (work next : SEWorkload) (parent child : Nat) (vaddr : Addr) (source target : Entry) : Prop where
  had : (work.processes parent).pTable vaddr = some source
  tables : next.processes = Workload.withTable work.processes child (update (work.processes child).pTable vaddr (some target))
  memory : next.memory = writePage page work.memory target.paddr (pageAt work.memory source.paddr)

theorem replicatePage_ok (isolated : Isolated page work used)
    (ran : work.replicatePage page parent child vaddr ((work.translate page child vaddr).getD 0)
      (work.translate page child vaddr).isNone = .ok next) :
    ∃ more source target, Isolated page next more ∧ Replicated page work next parent child vaddr source target := by
  obtain ⟨⟨newPaddr, memPool⟩, allocated, ran⟩ := of_bind ran
  dsimp only at ran
  cases found : work.translate page parent vaddr with
  | none => simp [found] at ran
  | some paddr =>
    rw [found] at ran
    obtain ⟨pTable, mapped, ran⟩ := of_bind ran
    obtain ⟨aligned, made⟩ := map_one mapped
    rw [translate_aligned work parent aligned, Option.map_eq_some_iff] at found
    obtain ⟨source, had, rfl⟩ := found
    have written : ({ work with memPool }.setTable child pTable).translate page child vaddr = some newPaddr := by
      rw [translate_aligned _ child aligned, made]
      simp [setTable]
    rw [written] at ran
    cases ran
    have kept : ∃ more, Isolated page ({ work with memPool }.setTable child pTable) more := by
      rw [translate_aligned work child aligned] at allocated
      cases own : (work.processes child).pTable vaddr with
      | none =>
        rw [own] at allocated
        apply map_isolated isolated (by decide) allocated
        have size : BitVec.signExtend 64 (1 : BitVec 32) * page.bytes = page.bytes := BitVec.one_mul _
        rw [size]
        exact mapped
      | some =>
        rw [own] at allocated
        cases allocated
        have same : owned (Workload.withTable work.processes child pTable) = owned work.processes := by
          rw [made, owned_update, withTable_self]
          apply update_eq_self_iff.mpr
          simp [owned, own]
        refine ⟨used, isolated.withTable (fun _ => rfl) ?_ ?_ _ _⟩
        · rw [same]
          exact isolated.handed
        · rw [made]
          exact (isolated.paged child).update aligned _
    obtain ⟨more, reached⟩ := kept
    refine ⟨more, source, { paddr := newPaddr, flags := clobberFlag }, reached.sameTables (fun _ => rfl) _ _, had, ?_, rfl⟩
    rw [← made]
    rfl

def Copied (page : PageSize) (work : SEWorkload) (parent child : Nat) (vaddr : Addr) : Prop :=
  ∃ source target, (work.processes parent).pTable vaddr = some source ∧ (work.processes child).pTable vaddr = some target ∧
    ∀ offset : Addr, offset.toNat < 2 ^ page.shift → work.memory (target.paddr + offset) = work.memory (source.paddr + offset)

theorem Isolated.paddr_aligned (isolated : Isolated page work used) {pid : Nat} {entry : Entry}
    (found : (work.processes pid).pTable vaddr = some entry) : Aligned page entry.paddr := by
  obtain ⟨i, _, same⟩ := isolated.handed.below (pid, vaddr) entry.paddr (by simp [owned, found])
  rw [same]
  exact frame_aligned _ _

theorem Isolated.paddr_ne (isolated : Isolated page work used) {pid other : Nat} {a : Addr} {entry entry' : Entry}
    (found : (work.processes pid).pTable vaddr = some entry) (found' : (work.processes other).pTable a = some entry')
    (apart : (pid, vaddr) ≠ (other, a)) : entry.paddr ≠ entry'.paddr := by
  intro same
  apply apart
  apply isolated.handed.exclusive _ _ entry.paddr
  · simp [owned, found]
  · simp [owned, found', same]

theorem Replicated.copied (replicated : Replicated page work next parent child vaddr source target) (isolated : Isolated page next used)
    (apart : parent ≠ child) : Copied page next parent child vaddr ∧
      (∀ a, Copied page work parent child a → Copied page next parent child a) ∧
      (next.processes parent).pTable = (work.processes parent).pTable := by
  have parents : (next.processes parent).pTable = (work.processes parent).pTable := by
    rw [replicated.tables, Workload.withTable, update_of_ne apart]
  have children : (next.processes child).pTable = update (work.processes child).pTable vaddr (some target) := by
    rw [replicated.tables, withTable_pTable]
  have had := replicated.had
  rw [← parents] at had
  have has : (next.processes child).pTable vaddr = some target := by rw [children, update_self]
  have aligned := isolated.paddr_aligned has
  -- The page that is written is no other page of the two.
  have untouched : ∀ pid a entry, (next.processes pid).pTable a = some entry → (pid, a) ≠ (child, vaddr) →
      ∀ offset : Addr, offset.toNat < 2 ^ page.shift → next.memory (entry.paddr + offset) = work.memory (entry.paddr + offset) := by
    intro pid a entry found differs offset inside
    rw [replicated.memory]
    exact writePage_other _ _ aligned (isolated.paddr_aligned found) (isolated.paddr_ne found has differs) inside
  have sources : ∀ a, (parent, a) ≠ (child, vaddr) := by
    intro a same
    exact apart (congrArg Prod.fst same)
  have here : Copied page next parent child vaddr := by
    refine ⟨source, target, had, has, ?_⟩
    intro offset inside
    rw [untouched parent vaddr source had (sources vaddr) offset inside, replicated.memory, writePage_same _ _ inside]
    rfl
  refine ⟨here, ?_, parents⟩
  rintro a ⟨from', to', first, second, equal⟩
  by_cases same : a = vaddr
  · rw [same]
    exact here
  · rw [← parents] at first
    have kept : (next.processes child).pTable a = some to' := by rw [children, update_of_ne same, second]
    refine ⟨from', to', first, kept, ?_⟩
    intro offset inside
    rw [untouched parent a from' first (sources a) offset inside,
      untouched child a to' kept (fun equal => same (congrArg Prod.snd equal)) offset inside]
    exact equal offset inside

theorem replicateEach_ok {mappings : List Addr} (isolated : Isolated page work used) (apart : parent ≠ child)
    (ran : replicateEach page parent child mappings work = .ok next) :
    (∃ more, Isolated page next more) ∧ (∀ a, a ∈ mappings ∨ Copied page work parent child a → Copied page next parent child a) ∧
      (next.processes parent).pTable = (work.processes parent).pTable := by
  induction mappings generalizing work used with
  | nil =>
    cases ran
    refine ⟨⟨used, isolated⟩, ?_, rfl⟩
    rintro a (impossible | copied)
    · cases impossible
    · exact copied
  | cons _ _ ih =>
    obtain ⟨_, replicates, ran⟩ := of_bind ran
    obtain ⟨more, _, _, kept, replicated⟩ := replicatePage_ok isolated replicates
    obtain ⟨here, before, parents⟩ := replicated.copied kept apart
    obtain ⟨still, after, same⟩ := ih kept ran
    refine ⟨still, ?_, same.trans parents⟩
    rintro a (member | copied)
    · rcases List.mem_cons.mp member with rfl | later
      · exact after a (.inr here)
      · exact after a (.inl later)
    · exact after a (.inr (before a copied))

end Clone

section Runs

variable {work next : SEWorkload} {used : Nat}

theorem clone_ok {parent child : Nat} {mappings : List Addr} (isolated : Isolated page work used) (apart : parent ≠ child)
    (ran : work.clone page parent child mappings = .ok next) :
    (∃ more, Isolated page next more) ∧ (∀ a ∈ mappings, Copied page next parent child a) ∧
      (next.processes parent).pTable = (work.processes parent).pTable := by
  obtain ⟨middle, replicated, ran⟩ := of_bind ran
  cases ran
  obtain ⟨⟨more, kept⟩, copied, parents⟩ := replicateEach_ok isolated apart replicated
  have tables : ∀ pid, (update middle.processes child
      { middle.processes parent with pTable := (middle.processes child).pTable } pid).pTable = (middle.processes pid).pTable := by
    intro pid
    by_cases here : pid = child
    · rw [here, update_self]
    · rw [update_of_ne here]
  refine ⟨⟨more, kept.sameTables tables _ _⟩, ?_, (tables parent).trans parents⟩
  intro a member
  obtain ⟨source, target, first, second, equal⟩ := copied a (.inl member)
  exact ⟨source, target, by rw [tables]; exact first, by rw [tables]; exact second, equal⟩

/-- A clone makes another process, and its loop goes over all pages of the parent. -/
def allowed (page : PageSize) (work : SEWorkload) : WorkloadEvent → Prop
  | .allocateMem pid vaddr size clobber => Countable page work pid vaddr size clobber
  | .clone parent child mappings => parent ≠ child ∧ ∀ a, a ∈ mappings ↔ ((work.processes parent).pTable a).isSome
  | _ => True

theorem step_isolated {event : WorkloadEvent} {labels : List Unit} (isolated : Isolated page work used)
    (permitted : allowed page work event) (ran : work.step page event = .ok (next, labels)) : ∃ more, Isolated page next more := by
  obtain ⟨_, handled, ran⟩ := of_bind ran
  cases ran
  cases event with
  | allocateMem => exact allocateMem_isolated isolated permitted handled
  | fixupFault =>
    obtain ⟨⟨_, _⟩, done, handled⟩ := of_bind handled
    cases handled
    exact fixupFault_isolated isolated done
  | mapRegion => exact ⟨used, mapRegion_isolated isolated handled⟩
  | unmapRegion => exact ⟨used, unmapRegion_isolated isolated handled⟩
  | remapRegion => exact ⟨used, remapRegion_isolated isolated handled⟩
  | clone => exact (clone_ok isolated permitted.1 handled).1
  | stored =>
    cases handled
    exact ⟨used, isolated.sameTables (fun _ => rfl) _ _⟩

theorem page_eq {a b : Addr} (aligned : Aligned page a) (alignedOther : Aligned page b)
    (same : a.toNat / 2 ^ page.shift = b.toNat / 2 ^ page.shift) : a = b := by
  apply eq_of_toNat_eq
  rw [← Nat.div_mul_cancel aligned, ← Nat.div_mul_cancel alignedOther, same]

/-- Processes share no page, unless an allocation of a negative number of pages gave pages
back to the pool; and a clone has what its parent has. -/
theorem pages_not_shared {ptr limit : Addr} {memPool : MemPool} (made : MemPool.create page ptr limit = .ok memPool)
    {processes : Nat → Process} (empty : ∀ pid a, (processes pid).pTable a = none) {contextIds : Nat → List ContextID}
    {memory : Addr → Byte} {events : List WorkloadEvent} {final : SEWorkload} {labels : List Unit}
    (each : Each (SEWorkload.step page) (allowed page) ⟨memPool, processes, contextIds, memory⟩ events)
    (ran : run (SEWorkload.step page) ⟨memPool, processes, contextIds, memory⟩ events = .ok (final, labels)) :
    (∀ pid other a b entry entry', (final.processes pid).pTable a = some entry → (final.processes other).pTable b = some entry' →
      entry.paddr.toNat / 2 ^ page.shift = entry'.paddr.toNat / 2 ^ page.shift → pid = other ∧ a = b) ∧
    ∀ parent child mappings next more, allowed page final (.clone parent child mappings) →
      final.step page (.clone parent child mappings) = .ok (next, more) →
      ∀ a source, (next.processes parent).pTable a = some source → ∃ target, (next.processes child).pTable a = some target ∧
        ∀ offset : Addr, offset.toNat < 2 ^ page.shift → next.memory (target.paddr + offset) = next.memory (source.paddr + offset) := by
  have start : Isolated page ⟨memPool, processes, contextIds, memory⟩ 0 := by
    refine ⟨create_holds made, ?_, ?_⟩
    · have none : owned processes = fun _ => none := by
        funext key
        rw [owned, empty]
        rfl
      rw [none]
      exact Handed.empty
    · intro pid a found
      rw [empty] at found
      cases found
  obtain ⟨used, isolated⟩ := run_keeps (allowed page) (fun work => ∃ used, Isolated page work used)
    (fun _ _ _ _ ⟨_, isolated⟩ permitted taken => step_isolated isolated permitted taken) ⟨0, start⟩ each ran
  refine ⟨?_, ?_⟩
  · intro pid other a b entry entry' first second same
    have equal := page_eq (isolated.paddr_aligned first) (isolated.paddr_aligned second) same
    have keys := isolated.handed.exclusive (pid, a) (other, b) entry.paddr (by simp [owned, first]) (by simp [owned, second, equal])
    exact Prod.mk.inj keys
  · intro parent child mappings next more permitted taken a source found
    obtain ⟨_, handled, taken⟩ := of_bind taken
    cases taken
    obtain ⟨_, copied, parents⟩ := clone_ok isolated permitted.1 handled
    rw [parents] at found
    obtain ⟨_, target, had, has, equal⟩ := copied a ((permitted.2 a).mpr (by rw [found]; rfl))
    rw [parents] at had
    cases found.symm.trans had
    exact ⟨target, has, equal⟩

def fourK : PageSize := Regions.smallPage

def fresh : SEWorkload := ⟨⟨0, 0, 0x100000⟩, fun _ => {}, fun _ => [], fun _ => 0⟩

theorem ok_of_check {α : Type} (result : Except Stop α) (holds : α → Bool)
    (checked : (match result with | .ok value => holds value | .error _ => false) = true) :
    ∃ value, result = .ok value ∧ holds value = true := by
  cases result with
  | ok value => exact ⟨value, rfl, checked⟩
  | error => cases checked

theorem pages_not_shared_two : ∃ final labels, run (SEWorkload.step fourK) fresh
      [.allocateMem 0 0x1000 4096 false, .allocateMem 1 0x1000 8192 false] = .ok (final, labels) ∧
    ∃ entry, (final.processes 0).pTable 0x1000 = some entry ∧ ∀ other b entry', (final.processes other).pTable b = some entry' →
      entry.paddr.toNat / 2 ^ fourK.shift = entry'.paddr.toNat / 2 ^ fourK.shift → 0 = other ∧ 0x1000 = b := by
  obtain ⟨⟨final, labels⟩, ran, found⟩ := ok_of_check (run (SEWorkload.step fourK) fresh
    [.allocateMem 0 0x1000 4096 false, .allocateMem 1 0x1000 8192 false])
    (fun ended => ((ended.1.processes 0).pTable 0x1000).isSome) (by decide +kernel)
  obtain ⟨entry, had⟩ := Option.isSome_iff_exists.mp found
  have each : Each (SEWorkload.step fourK) (allowed fourK) fresh
      [.allocateMem 0 0x1000 4096 false, .allocateMem 1 0x1000 8192 false] := by
    apply each_of_forall
    intro work event member
    simp only [List.mem_cons, List.not_mem_nil, or_false] at member
    rcases member with rfl | rfl
    · exact .inr (by decide +kernel)
    · exact .inr (by decide +kernel)
  have made : MemPool.create fourK 0 0x100000000 = .ok ⟨0, 0, 0x100000⟩ := by rfl
  have isolated := (pages_not_shared made (fun _ _ => rfl) each ran).1
  exact ⟨final, labels, ran, entry, had, fun other b entry' second same => isolated 0 other 0x1000 b entry entry' had second same⟩

/-- An allocation of 2 ^ 32 - 1 pages is one of -1 pages. It gives the page of process 0 back
to the pool, which hands it to process 1. -/
theorem page_shared : MemPool.create fourK 0 0x100000000 = .ok fresh.memPool ∧ ∃ final labels, run (SEWorkload.step fourK) fresh
      [.allocateMem 0 0x1000 4096 false, .allocateMem 0 0x8000 (2 ^ 44 - 4096) false, .allocateMem 1 0x2000 4096 false] =
        .ok (final, labels) ∧
    (final.processes 0).pTable 0x1000 = some ⟨0, 0⟩ ∧ (final.processes 1).pTable 0x2000 = some ⟨0, 0⟩ := by
  obtain ⟨⟨final, labels⟩, ran, found⟩ := ok_of_check (run (SEWorkload.step fourK) fresh
    [.allocateMem 0 0x1000 4096 false, .allocateMem 0 0x8000 (2 ^ 44 - 4096) false, .allocateMem 1 0x2000 4096 false])
    (fun ended => decide ((ended.1.processes 0).pTable 0x1000 = some ⟨0, 0⟩) &&
      decide ((ended.1.processes 1).pTable 0x2000 = some ⟨0, 0⟩)) (by decide +kernel)
  simp only [Bool.and_eq_true, decide_eq_true_eq] at found
  exact ⟨rfl, final, labels, ran, found⟩

end Runs

end ImcGem5.Sim.Proofs.Workload

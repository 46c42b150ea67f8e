import ImcGem5.Riscv.Walker
import ImcGem5.Lib.Prefixes

/-! A page-table walk as a chase for the leaf, and what the chase depends on: not on the
accessed and dirty bits, and not on the bits of the address below the page. -/

namespace ImcGem5.Riscv.Proofs.Walks
open Lib Mem PTESv39 WalkerState
open BitVec hiding not_or not_and

inductive Stop where
  | blocked (fault : MmuFault)
  | leaf (level : Nat) (read : Addr)
  deriving DecidableEq

def invalid (pte : PTESv39) : Bool := pte.v = false ∨ (pte.r = false ∧ pte.w = true)

def isLeaf (pte : PTESv39) : Bool := pte.r ∨ pte.x

def readFault (pmp : PMP) (vaddr read : Addr) : Option MmuFault :=
  (pmp.pmpCheck ⟨read, 8, none⟩ .read .supervisor vaddr).map .access

/-- The walk to the leaf or fault it ends at. -/
def chase (pmp : PMP) (mode : AccessMode) (memory : PageMemory) (vaddr : Addr) : Nat → Addr → Stop
  | level, read =>
    match readFault pmp vaddr read with
    | some fault => .blocked fault
    | none =>
      if invalid (memory read) then .blocked (createPagefault vaddr mode)
      else if isLeaf (memory read) then .leaf level read
      else
        match level with
        | 0 => .blocked (createPagefault vaddr mode)
        | below + 1 => chase pmp mode memory vaddr below (pteAddr (PTESv39.ppn (memory read)) vaddr below)

def atLeaf (state : WalkerState) (walk : Walk) (mmu : Mmu) : Except Fault (Mmu × Option MmuFault) :=
  match state.leafStep walk (mmu.memory walk.read) with
  | .done fault write insert => do
    let tlb ← Mmu.tlbInsert mmu.tlb insert
    return (⟨tlb, Mmu.writeBack mmu.memory walk.read write⟩, fault)
  | .next _ _ => .error .stuck

theorem leafStep_done (state : WalkerState) (walk : Walk) (pte : PTESv39) :
    ∃ fault write insert, state.leafStep walk pte = .done fault write insert := by
  unfold leafStep
  split
  · exact ⟨_, _, _, rfl⟩
  split
  · exact ⟨_, _, _, rfl⟩
  split
  · exact ⟨_, _, _, rfl⟩
  · exact ⟨_, _, _, rfl⟩

theorem walkLoop_eq (state : WalkerState) (entry : TlbEntry) (mmu : Mmu) (level : Nat) (read : Addr) :
    Mmu.walkLoop state (level + 1) ⟨level, entry, read⟩ mmu =
      match chase state.pmp state.mode mmu.memory entry.vaddr level read with
      | .blocked fault => .ok (mmu, some fault)
      | .leaf level read => atLeaf state ⟨level, entry, read⟩ mmu := by
  have step : ∀ walk : Walk, state.stepWalk walk (mmu.memory walk.read) = match readFault state.pmp walk.entry.vaddr walk.read with
      | some fault => .done (some fault) none none
      | none =>
        if invalid (mmu.memory walk.read) then .done (some (state.pageFault walk)) none none
        else if isLeaf (mmu.memory walk.read) then state.leafStep walk (mmu.memory walk.read)
        else state.tableStep walk (mmu.memory walk.read) := by
    intro walk
    unfold stepWalk invalid isLeaf
    simp only [decide_eq_true_eq]
    rfl
  induction level generalizing read with
  | zero =>
    unfold Mmu.walkLoop chase
    rw [step]
    cases readFault state.pmp entry.vaddr read with
    | some => rfl
    | none =>
      cases invalid (mmu.memory read) with
      | true => rfl
      | false =>
        cases isLeaf (mmu.memory read) with
        | true =>
          obtain ⟨fault, write, insert, ended⟩ := leafStep_done state ⟨0, entry, read⟩ (mmu.memory read)
          simp only [Bool.false_eq_true, if_false, if_true, atLeaf, ended]
        | false => rfl
  | succ level ih =>
    unfold Mmu.walkLoop chase
    rw [step]
    cases readFault state.pmp entry.vaddr read with
    | some => rfl
    | none =>
      cases invalid (mmu.memory read) with
      | true => rfl
      | false =>
        cases isLeaf (mmu.memory read) with
        | true =>
          obtain ⟨fault, write, insert, ended⟩ := leafStep_done state ⟨level + 1, entry, read⟩ (mmu.memory read)
          simp only [Bool.false_eq_true, if_false, if_true, atLeaf, ended]
        | false => exact ih _

/-- Equal up to accessed and dirty bits. -/
def SamePte (first second : PTESv39) : Prop := ∀ i, i ≠ 6 → i ≠ 7 → first.getLsbD i = second.getLsbD i

theorem SamePte.refl (pte : PTESv39) : SamePte pte pte := fun _ _ _ => rfl

variable {first second : PTESv39} {pmp : PMP} {read : Addr} {leaf level : Nat} {mode : AccessMode}

theorem SamePte.trans {third : PTESv39} (early : SamePte first second) (late : SamePte second third) : SamePte first third :=
  fun i notA notD => (early i notA notD).trans (late i notA notD)

theorem SamePte.extract {first second : PTESv39} (same : SamePte first second) {start : Nat} (above : 8 ≤ start) (length : Nat) :
    first.extractLsb' start length = second.extractLsb' start length := by
  apply eq_of_getLsbD_eq
  intro i _
  rw [getLsbD_extractLsb', getLsbD_extractLsb', same (start + i) (by omega) (by omega)]

theorem SamePte.r (same : SamePte first second) : first.r = second.r := same 1 (by omega) (by omega)
theorem SamePte.w (same : SamePte first second) : first.w = second.w := same 2 (by omega) (by omega)
theorem SamePte.x (same : SamePte first second) : first.x = second.x := same 3 (by omega) (by omega)
theorem SamePte.u (same : SamePte first second) : first.u = second.u := same 4 (by omega) (by omega)

theorem SamePte.invalid (same : SamePte first second) : invalid first = invalid second := by
  unfold Walks.invalid v
  rw [same 0 (by omega) (by omega), same.r, same.w]

theorem SamePte.isLeaf (same : SamePte first second) : isLeaf first = isLeaf second := by
  unfold Walks.isLeaf
  rw [same.r, same.x]

theorem SamePte.ppn (same : SamePte first second) : first.ppn = second.ppn := same.extract (by decide) 44

theorem SamePte.misaligned (same : SamePte first second) (level : Nat) :
    WalkerState.misaligned level first = WalkerState.misaligned level second := by
  unfold WalkerState.misaligned ppn0 ppn1
  rw [same.extract (by decide) 9, same.extract (by decide) 9]

def SameTables (first second : PageMemory) : Prop := ∀ addr, SamePte (first addr) (second addr)

theorem chase_tables {first second : PageMemory} (same : SameTables first second) (pmp : PMP) (mode : AccessMode) (vaddr : Addr)
    (level : Nat) (read : Addr) : chase pmp mode first vaddr level read = chase pmp mode second vaddr level read := by
  induction level generalizing read with
  | zero =>
    unfold chase
    rw [(same read).invalid, (same read).isLeaf]
  | succ _ ih =>
    unfold chase
    rw [(same read).invalid, (same read).isLeaf, (same read).ppn]
    dsimp only
    rw [ih]

theorem readFault_none {vaddr other : Addr} (granted : readFault pmp vaddr read = none) : readFault pmp other read = none := by
  unfold readFault at granted ⊢
  rw [Option.map_eq_none_iff] at granted ⊢
  unfold PMP.pmpCheck at granted ⊢
  split at granted
  next unasked => rw [if_pos unasked]
  next asked =>
    rw [if_neg asked]
    dsimp only at granted ⊢
    split at granted
    next grants => rw [if_pos grants]
    next => cases granted

theorem shift_of_agree {first second : Addr} {n : Nat} (agree : Agree (64 - n) first second) : first >>> n = second >>> n := by
  apply eq_of_getLsbD_eq
  intro i _
  rw [getLsbD_ushiftRight, getLsbD_ushiftRight]
  by_cases inside : n + i < 64
  · have bit := agree (63 - (n + i)) (by omega)
    rw [getMsbD_eq_getLsbD, getMsbD_eq_getLsbD, decide_eq_true (by omega : 63 - (n + i) < 64), Bool.true_and,
      Bool.true_and, show 64 - 1 - (63 - (n + i)) = n + i by omega] at bit
    exact bit
  · rw [getLsbD_of_ge _ _ (by omega), getLsbD_of_ge _ _ (by omega)]

theorem pteAddr_page {first second : Addr} (agree : Agree (64 - logBytes leaf) first second)
    (above : leaf ≤ level) (ppn : BitVec 44) : pteAddr ppn first level = pteAddr ppn second level := by
  have shift : first >>> (PageShift + LEVEL_BITS * level) = second >>> (PageShift + LEVEL_BITS * level) := by
    apply shift_of_agree
    apply agree.mono
    unfold logBytes PageShift LEVEL_BITS
    omega
  unfold pteAddr
  rw [shift]

theorem chase_level {memory : PageMemory} {vaddr : Addr} {last : Addr}
    (chased : chase pmp mode memory vaddr level read = .leaf leaf last) : leaf ≤ level := by
  induction level generalizing read with
  | zero =>
    unfold chase at chased
    split at chased
    · cases chased
    split at chased
    · cases chased
    split at chased
    · cases chased
      exact Nat.le_refl 0
    · cases chased
  | succ _ ih =>
    unfold chase at chased
    split at chased
    · cases chased
    split at chased
    · cases chased
    split at chased
    · cases chased
      exact Nat.le_refl _
    · exact Nat.le_succ_of_le (ih chased)

theorem chase_page {other : AccessMode} {memory : PageMemory} {first second : Addr} {last : Addr}
    (chased : chase pmp mode memory first level read = .leaf leaf last) (agree : Agree (64 - logBytes leaf) first second) :
    chase pmp other memory second level read = .leaf leaf last := by
  induction level generalizing read with
  | zero =>
    unfold chase at chased ⊢
    split at chased
    · cases chased
    next granted =>
      rw [readFault_none granted]
      split at chased
      · cases chased
      next valid =>
        rw [if_neg valid]
        split at chased
        next leaf => rw [if_pos leaf, chased]
        next => cases chased
  | succ _ ih =>
    unfold chase at chased ⊢
    split at chased
    · cases chased
    next granted =>
      rw [readFault_none granted]
      dsimp only
      split at chased
      · cases chased
      next valid =>
        rw [if_neg valid]
        split at chased
        next leaf => rw [if_pos leaf, chased]
        next table =>
          rw [if_neg table]
          rw [← pteAddr_page agree (chase_level chased)]
          exact ih chased

theorem setA_same (pte : PTESv39) : SamePte pte pte.setA := by
  intro i notA _
  have other : (1#64 <<< 6).getLsbD i = false := by
    rw [getLsbD_shiftLeft, getLsbD_one]
    simp
    omega
  rw [setA, getLsbD_or, other, Bool.or_false]

theorem setD_same (pte : PTESv39) : SamePte pte pte.setD := by
  intro i _ notD
  have other : (1#64 <<< 7).getLsbD i = false := by
    rw [getLsbD_shiftLeft, getLsbD_one]
    simp
    omega
  rw [setD, getLsbD_or, other, Bool.or_false]

theorem updated_same (mode : AccessMode) (pte : PTESv39) : SamePte pte (updated mode pte) := by
  unfold updated
  dsimp only
  cases pte.a with
  | true =>
    rw [if_pos rfl]
    split
    · exact setD_same pte
    · exact SamePte.refl pte
  | false =>
    rw [if_neg Bool.false_ne_true]
    split
    · exact (setA_same pte).trans (setD_same _)
    · exact setA_same pte

theorem updated_accessed (mode : AccessMode) (pte : PTESv39) : a (updated mode pte) = true := by
  unfold updated setA setD a
  dsimp only
  split <;> split <;> simp_all

theorem updated_dirty (pte : PTESv39) : d (updated .write pte) = true := by
  unfold updated
  generalize (if pte.a = true then pte else pte.setA) = accessed
  by_cases clean : accessed.d = false ∧ AccessMode.write = .write
  · rw [if_pos clean]
    simp [d, setD]
  · rw [if_neg clean]
    simpa using clean

theorem updated_keeps_dirty (mode : AccessMode) {pte : PTESv39} (dirty : pte.d = true) : d (updated mode pte) = true := by
  unfold updated setA setD
  dsimp only
  unfold d at dirty ⊢
  split <;> split <;> simp_all

theorem updated_of_not_doWrite {pte : PTESv39} (unwritten : doWrite mode pte = false) : updated mode pte = pte := by
  unfold doWrite at unwritten
  rw [decide_eq_false_iff_not, not_or, not_and] at unwritten
  unfold updated
  have accessed : pte.a = true := by simpa using unwritten.1
  rw [if_pos accessed]
  rw [if_neg]
  intro ⟨clean, write⟩
  exact unwritten.2 clean write

end ImcGem5.Riscv.Proofs.Walks

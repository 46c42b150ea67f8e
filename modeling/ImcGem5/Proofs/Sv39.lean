import ImcGem5.Riscv.Sv39
import ImcGem5.Proofs.Transparent

/-! Where the walker departs from Sv39: it takes any address for a canonical one, knows
nothing of MXR, lets SUM pass instruction fetches, and writes an entry back that memory
protection has kept from it. -/

namespace ImcGem5.Riscv.Proofs.Sv39
open Lib Mem Riscv.Sv39 Tlb Walks Transparent BitVec WalkerState

theorem canonical_iff (va : Addr) : canonical va = true ↔ sextVaddr va = va := by
  have bit : ∀ i, i ≤ 25 → va.getMsbD i = va.getLsbD (63 - i) := by
    intro i high
    rw [getMsbD_eq_getLsbD, decide_eq_true (by omega), Bool.true_and]
  constructor
  · intro same
    simp only [canonical, List.all_eq_true, List.mem_range, beq_iff_eq] at same
    have high : ∀ i, i ≤ 25 → va.getMsbD i = va.getLsbD 38 := by
      intro i small
      rw [bit i small]
      by_cases last : i = 25
      · rw [last]
      · rw [← same (24 - i) (by omega), show 39 + (24 - i) = 63 - i by omega]
    apply signExtended_of_bits
    intro i small
    rw [high i small, BitVec.msb, high 0 (by omega)]
  · intro extended
    simp only [canonical, List.all_eq_true, List.mem_range, beq_iff_eq]
    intro i small
    have first := SignExtended.bits extended (show 24 - i ≤ 25 by omega)
    have last := SignExtended.bits extended (Nat.le_refl 25)
    rw [bit _ (by omega), show 63 - (24 - i) = 39 + i by omega] at first
    exact first.trans last.symm

theorem pteAddr_eq (ppn : BitVec 44) (va : Addr) (i : Nat) :
    pteAddr ppn va i = ppn.setWidth 64 * 4096 + (vpn va i).setWidth 64 * 8 := by
  have index : (va >>> (PageShift + LEVEL_BITS * i)) &&& 511 = (vpn va i).setWidth 64 := by
    apply eq_of_getLsbD_eq
    intro j small
    rw [vpn, getLsbD_and, getLsbD_ushiftRight, getLsbD_setWidth, getLsbD_extractLsb', decide_eq_true small,
      Bool.true_and, Bool.and_comm, show (511 : Addr) = (BitVec.allOnes 9).setWidth 64 by decide, getLsbD_setWidth, decide_eq_true small,
      Bool.true_and, getLsbD_allOnes]
    rfl
  unfold pteAddr
  rw [index, show PageShift = 12 from rfl, shiftLeft_eq_mul_twoPow]
  rfl

theorem pmpCheck_eq (pmp : PMP) (va addr : Addr) (mode : AccessMode) :
    pmp.pmpCheck ⟨addr, 8, none⟩ mode .supervisor va = if granted pmp mode addr then none else some ⟨va, mode⟩ := by
  unfold granted PMP.pmpCheck
  cases pmp.shouldCheckPMP .supervisor with
  | false => rfl
  | true =>
    simp only [Bool.not_true, Bool.false_eq_true, if_false]
    split
    · rfl
    · rfl

theorem readFault_eq (pmp : PMP) (va addr : Addr) :
    readFault pmp va addr = if granted pmp .read addr then none else some (.access ⟨va, .read⟩) := by
  rw [readFault, pmpCheck_eq]
  split
  · rfl
  · rfl

theorem chase_reach (pmp : PMP) (mode : AccessMode) (memory : PageMemory) (va : Addr) (i : Nat) (ppn : BitVec 44) :
    chase pmp mode memory va i (pteAddr ppn va i) =
      match reach pmp memory va i (ppn.setWidth 64 * 4096) with
      | .missing => .blocked (createPagefault va mode)
      | .refused => .blocked (.access ⟨va, .read⟩)
      | .leaf level addr => .leaf level addr := by
  have unfolded : ∀ pte : PTESv39, (invalid pte = true ↔ pte.v = false ∨ (pte.r = false ∧ pte.w = true)) ∧
      (isLeaf pte = true ↔ pte.r = true ∨ pte.x = true) := by
    intro pte
    exact ⟨decide_eq_true_iff, decide_eq_true_iff⟩
  induction i generalizing ppn with
  | zero =>
    unfold chase reach
    rw [← pteAddr_eq, readFault_eq]
    dsimp only
    cases granted pmp .read (pteAddr ppn va 0) with
    | false => rfl
    | true =>
      simp only [if_true, Bool.not_true, Bool.false_eq_true, if_false, (unfolded _).1, (unfolded _).2]
      split
      · rfl
      split
      · rfl
      · rfl
  | succ i ih =>
    unfold chase reach
    rw [← pteAddr_eq, readFault_eq]
    dsimp only
    cases granted pmp .read (pteAddr ppn va (i + 1)) with
    | false => rfl
    | true =>
      simp only [if_true, Bool.not_true, Bool.false_eq_true, if_false, (unfolded _).1, (unfolded _).2]
      split
      · rfl
      split
      · rfl
      · exact ih _

variable {pmp : PMP} {memory : PageMemory} {va addr : Addr} {i : Nat} {pte : PTESv39}

theorem reach_level {level : Nat} {ppn : BitVec 44}
    (reached : reach pmp memory va i (ppn.setWidth 64 * 4096) = .leaf level addr) : level ≤ i := by
  have chased := chase_reach pmp .read memory va i ppn
  rw [reached] at chased
  exact chase_level chased

theorem reach_leaf {level : Nat} {a : Addr}
    (reached : reach pmp memory va i a = .leaf level addr) : PTESv39.r (memory addr) = true ∨ PTESv39.x (memory addr) = true := by
  induction i generalizing a with
  | zero =>
    unfold reach at reached
    dsimp only at reached
    split at reached
    · cases reached
    split at reached
    · cases reached
    split at reached
    next leaf =>
      cases reached
      exact leaf
    next => cases reached
  | succ _ ih =>
    unfold reach at reached
    dsimp only at reached
    split at reached
    · cases reached
    split at reached
    · cases reached
    split at reached
    next leaf =>
      cases reached
      exact leaf
    next => exact ih reached

theorem ppn_toNat (pte : PTESv39) : pte.ppn.toNat = pte.toNat / 1024 % 2 ^ 44 := by
  rw [PTESv39.ppn, extractLsb'_toNat, Nat.shiftRight_eq_div_pow]

theorem misaligned_eq (below : i ≤ 2) (pte : PTESv39) : misaligned i pte = !aligned i pte := by
  have parts : (pte.ppn0 ≠ 0 ↔ pte.ppn.toNat % 512 ≠ 0) ∧ (pte.ppn1 ≠ 0 ↔ pte.ppn.toNat / 512 % 512 ≠ 0) := by
    rw [ppn_toNat]
    constructor
    · rw [PTESv39.ppn0, ne_eq, ← toNat_inj, extractLsb'_toNat, Nat.shiftRight_eq_div_pow]
      change ¬pte.toNat / 2 ^ 10 % 2 ^ 9 = 0 ↔ _
      omega
    · rw [PTESv39.ppn1, ne_eq, ← toNat_inj, extractLsb'_toNat, Nat.shiftRight_eq_div_pow]
      change ¬pte.toNat / 2 ^ 19 % 2 ^ 9 = 0 ↔ _
      omega
  unfold misaligned aligned
  rw [← decide_not, decide_eq_decide, parts.1, parts.2]
  obtain rfl | rfl | rfl : i = 0 ∨ i = 1 ∨ i = 2 := by omega
  · omega
  · omega
  · omega

theorem or_bit (set : pte.getLsbD i = true) : pte ||| 1#64 <<< i = pte := by
  apply eq_of_getLsbD_eq
  intro j _
  rw [getLsbD_or, getLsbD_shiftLeft, getLsbD_one]
  by_cases here : j = i
  · rw [here, set, Bool.true_or]
  · simp
    omega

theorem updated_eq (mode : AccessMode) (pte : PTESv39) : updated mode pte = marked mode pte := by
  have accessed : (if pte.a = true then pte else pte.setA) = pte ||| 0x40#64 := by
    split
    next set => exact (or_bit set).symm
    next => rfl
  unfold updated marked
  rw [accessed]
  generalize pte ||| 0x40#64 = pte
  dsimp only
  by_cases write : mode = .write
  · rw [if_pos write]
    split
    next => rfl
    next dirty =>
      have set : pte.d = true := by simpa [write] using dirty
      exact (or_bit set).symm
  · rw [if_neg write, if_neg (fun both => write both.2)]
    exact (or_zero).symm

theorem marked_ne_iff (mode : AccessMode) (pte : PTESv39) : marked mode pte ≠ pte ↔ doWrite mode pte = true := by
  rw [← updated_eq]
  constructor
  · intro changed
    by_contra unwritten
    exact changed (updated_of_not_doWrite (eq_false_of_ne_true unwritten))
  · intro write same
    rw [doWrite, decide_eq_true_eq] at write
    obtain unaccessed | ⟨clean, rfl⟩ := write
    · have accessed := updated_accessed mode pte
      rw [same, unaccessed] at accessed
      cases accessed
    · have dirty := updated_dirty pte
      rw [same, clean] at dirty
      cases dirty

theorem leafAddress_eq (below : i ≤ 2) (even : aligned i pte = true) (va : Addr) : leafAddress i pte va = translated i pte va := by
  have size : logBytes i = 12 + 9 * i := by
    unfold logBytes PageShift LEVEL_BITS
    omega
  rw [aligned, decide_eq_true_eq] at even
  have mask : (1#64 <<< (12 + 9 * i) - 1 : Addr).toNat = 2 ^ (12 + 9 * i) - 1 := by
    obtain rfl | rfl | rfl : i = 0 ∨ i = 1 ∨ i = 2 := by omega
    · rfl
    · rfl
    · rfl
  have offset : va.toNat % 2 ^ (12 + 9 * i) < 2 ^ (12 + 9 * i) := Nat.mod_lt _ (Nat.two_pow_pos _)
  have upper : pte.ppn.toNat * 4096 = 2 ^ (12 + 9 * i) * (pte.ppn.toNat / 2 ^ (9 * i)) := by
    have whole := Nat.div_add_mod pte.ppn.toNat (2 ^ (9 * i))
    rw [even, Nat.add_zero] at whole
    calc pte.ppn.toNat * 4096 = 2 ^ (9 * i) * (pte.ppn.toNat / 2 ^ (9 * i)) * 4096 := by rw [whole]
      _ = 2 ^ (12 + 9 * i) * (pte.ppn.toNat / 2 ^ (9 * i)) := by rw [Nat.pow_add, Nat.mul_assoc (2 ^ 12), Nat.mul_comm]
  have page : (pte.ppn.setWidth 64 <<< PageShift).toNat = pte.ppn.toNat * 4096 := by
    rw [toNat_shiftLeft, toNat_setWidth, Nat.shiftLeft_eq, Nat.mod_eq_of_lt (by omega : pte.ppn.toNat < 2 ^ 64)]
    exact Nat.mod_eq_of_lt (by change _ * 4096 < _; omega)
  have sum : leafAddress i pte va = BitVec.ofNat 64 (leafAddress i pte va).toNat := (ofNat_toNat 64 _ ▸ setWidth_eq _).symm
  rw [sum, translated]
  congr 1
  unfold leafAddress
  rw [size, toNat_or, page, toNat_and, mask, Nat.and_two_pow_sub_one_eq_mod, upper, ← Nat.two_pow_add_eq_or_of_lt offset,
    Nat.mul_comm]

theorem checkPermissions_none_iff (status : STATUS) (pmode : RegVal) (va : Addr) (mode : AccessMode) (pte : PTESv39) :
    checkPermissions status pmode va mode pte = none ↔
      lacksPermission mode pte = false ∧ ¬(pmode = PRV_U ∧ pte.u = false) ∧ ¬(pmode = PRV_S ∧ pte.u = true ∧ status.sum = 0) := by
  unfold checkPermissions
  by_cases lacks : lacksPermission mode pte = true
  · simp [lacks]
  · by_cases user : pmode = PRV_U ∧ pte.u = false
    · simp [lacks, user]
    · by_cases supervisor : pmode = PRV_S ∧ pte.u = true ∧ status.sum = 0
      · simp [lacks, supervisor]
      · rw [if_neg lacks, if_neg user, if_neg supervisor]
        simp only [true_iff]
        exact ⟨eq_false_of_ne_true lacks, user, supervisor⟩

def ending : Except MmuFault Addr → Ending
  | .error (.page fault) => .page fault
  | .error (.access _) => .access
  | .ok paddr => .address paddr

/-- None of the three points where walker and specification part. -/
structure Conforms (pmp : PMP) (status : STATUS) (pmode : RegVal) (satp : SATP) (memory : PageMemory) (va : Addr) (mode : AccessMode) : Prop where
  canonical : canonical va = true
  readable : ∀ i addr, reach pmp memory va 2 (satp.ppn.setWidth 64 * 4096) = .leaf i addr → aligned i (memory addr) = true →
    ¬(mode = .read ∧ PTESv39.r (memory addr) = false ∧ status.mxr = 1 ∧ inMode status pmode mode (memory addr) = true)
  fetched : ∀ i addr, reach pmp memory va 2 (satp.ppn.setWidth 64 * 4096) = .leaf i addr → aligned i (memory addr) = true →
    ¬(mode = .execute ∧ PTESv39.x (memory addr) = true ∧ pmode = PRV_S ∧ PTESv39.u (memory addr) = true ∧ status.sum = 1)
  writable : ∀ i addr, reach pmp memory va 2 (satp.ppn.setWidth 64 * 4096) = .leaf i addr →
    permitted status pmode mode i (memory addr) = true → marked mode (memory addr) ≠ memory addr → granted pmp .write addr = true

theorem scan_user (mode : AccessMode) (first last : Addr) (matched : Option PmpEntry) (table : List PmpEntry) :
    PMP.scan mode .user first last matched table = PMP.scan mode .supervisor first last matched table := by
  induction table generalizing matched with
  | nil => rfl
  | cons _ _ ih =>
    unfold PMP.scan
    simp only [ih]
    rfl

theorem pmpCheck_user (pmp : PMP) (req : PmpRequest) (mode : AccessMode) (vaddr : Addr) :
    pmp.pmpCheck req mode .user vaddr = pmp.pmpCheck req mode .supervisor vaddr := by
  unfold PMP.pmpCheck
  simp only [scan_user]
  rfl

theorem writeFault_eq {state : WalkerState} (privilege : state.pmode = PRV_S ∨ state.pmode = PRV_U) (i : Nat) (va addr : Addr) (asid : BitVec 16)
    (pte : PTESv39) : state.writeFault ⟨i, { vaddr := va, asid }, addr⟩ pte =
      if marked state.mode pte = pte ∨ granted state.pmp .write addr = true then none else some (.access ⟨va, .write⟩) := by
  have asked : state.pmp.pmpCheck ⟨addr, 8, none⟩ .write (pmpMode state.pmode) va =
      if granted state.pmp .write addr then none else some ⟨va, .write⟩ := by
    rw [← pmpCheck_eq]
    obtain supervisor | user := privilege
    · rw [supervisor]
      rfl
    · rw [user]
      exact pmpCheck_user state.pmp _ .write va
  unfold writeFault pmpCheck
  rw [asked]
  by_cases unmarked : marked state.mode pte = pte
  · have write : ¬doWrite state.mode pte = true := fun write => (marked_ne_iff state.mode pte).mpr write unmarked
    rw [if_neg write, if_pos (.inl unmarked)]
  · rw [if_pos ((marked_ne_iff state.mode pte).mp unmarked)]
    cases granted state.pmp .write addr with
    | true => rw [if_pos rfl, if_pos (.inr rfl)]; rfl
    | false =>
      rw [if_neg Bool.false_ne_true, if_neg]
      · rfl
      · intro either
        exact either.elim unmarked Bool.false_ne_true

def passes (state : WalkerState) (va : Addr) (i : Nat) (pte : PTESv39) : Prop :=
  checkPermissions state.status state.pmode va state.mode pte = none ∧ aligned i pte = true

instance (state : WalkerState) (va : Addr) (i : Nat) (pte : PTESv39) : Decidable (passes state va i pte) := inferInstanceAs (Decidable (_ ∧ _))

section
variable {state : WalkerState} {memory : PageMemory} {va : Addr}

theorem outcome_of_leaf {i : Nat} {addr : Addr}
    (reached : reach state.pmp memory va 2 (state.satp.ppn.setWidth 64 * 4096) = .leaf i addr) (stopped : ¬passes state va i (memory addr)) :
    outcome state memory va = (memory, .error (createPagefault va state.mode)) := by
  unfold outcome
  rw [chase_reach, reached]
  dsimp only
  cases checked : checkPermissions state.status state.pmode va state.mode (memory addr) with
  | some => rw [checkPermissions_fault checked]
  | none =>
    have odd : aligned i (memory addr) = false := eq_false_of_ne_true fun even => stopped ⟨checked, even⟩
    rw [misaligned_eq (reach_level reached), odd]
    rfl

theorem outcome_of_pass (privilege : state.pmode = PRV_S ∨ state.pmode = PRV_U) {i : Nat} {addr : Addr}
    (reached : reach state.pmp memory va 2 (state.satp.ppn.setWidth 64 * 4096) = .leaf i addr) (passed : passes state va i (memory addr)) :
    outcome state memory va =
      (if marked state.mode (memory addr) = memory addr then memory else Function.update memory addr (marked state.mode (memory addr)),
        if marked state.mode (memory addr) = memory addr ∨ granted state.pmp .write addr = true then .ok (translated i (memory addr) va)
        else .error (.access ⟨va, .write⟩)) := by
  unfold outcome
  rw [chase_reach, reached]
  dsimp only
  rw [passed.1]
  dsimp only
  rw [misaligned_eq (reach_level reached), passed.2, writeFault_eq privilege, leafAddress_eq (reach_level reached) passed.2]
  rw [Bool.not_true, if_neg Bool.false_ne_true]
  have write := marked_ne_iff state.mode (memory addr)
  congr 1
  · unfold written
    by_cases unmarked : marked state.mode (memory addr) = memory addr
    · rw [if_pos unmarked, if_neg fun writes => write.mpr writes unmarked]
      rfl
    · rw [if_neg unmarked, if_pos (write.mp unmarked), updated_eq]
      rfl
  · by_cases open_ : marked state.mode (memory addr) = memory addr ∨ granted state.pmp .write addr = true
    · rw [if_pos open_, if_pos open_]
    · rw [if_neg open_, if_neg open_]

theorem outcome_page (privilege : state.pmode = PRV_S ∨ state.pmode = PRV_U) {fault : AddressFault}
    (faulted : (outcome state memory va).2 = .error (.page fault)) : fault.vaddr = va := by
  cases reached : reach state.pmp memory va 2 (state.satp.ppn.setWidth 64 * 4096) with
  | missing =>
    rw [outcome, chase_reach, reached] at faulted
    cases faulted
    rfl
  | refused =>
    rw [outcome, chase_reach, reached] at faulted
    cases faulted
  | leaf i addr =>
    by_cases passed : passes state va i (memory addr)
    · rw [outcome_of_pass privilege reached passed] at faulted
      dsimp only at faulted
      split at faulted
      · cases faulted
      · cases faulted
    · rw [outcome_of_leaf reached passed] at faulted
      cases faulted
      rfl

end

theorem passes_iff {status : STATUS} {pmode : RegVal} (privilege : pmode = PRV_S ∨ pmode = PRV_U) (va : Addr) (mode : AccessMode)
    (leaf : pte.r = true ∨ pte.x = true) :
    (checkPermissions status pmode va mode pte = none ↔ allows status mode pte = true ∧ inMode status pmode mode pte = true) ↔
      ¬(mode = .read ∧ pte.r = false ∧ status.mxr = 1 ∧ inMode status pmode mode pte = true) ∧
      ¬(mode = .execute ∧ pte.x = true ∧ pmode = PRV_S ∧ pte.u = true ∧ status.sum = 1) := by
  have apart : PRV_S ≠ PRV_U ∧ PRV_U ≠ PRV_S := by decide
  rw [checkPermissions_none_iff]
  unfold allows inMode lacksPermission
  obtain clear | set := eq_zero_or_eq_one status.sum
  · obtain rfl | rfl := privilege
    · cases mode <;> cases pte.u <;> cases r : pte.r <;> simp_all
    · cases mode <;> cases pte.u <;> cases r : pte.r <;> simp_all
  · obtain rfl | rfl := privilege
    · cases mode <;> cases pte.u <;> cases r : pte.r <;> simp_all
    · cases mode <;> cases pte.u <;> cases r : pte.r <;> simp_all

theorem update_ne (changed : pte ≠ memory addr) : Function.update memory addr pte ≠ memory := by
  intro same
  have here := congrFun same addr
  rw [Function.update_self] at here
  exact changed here

theorem Conforms.of_no_leaf {status : STATUS} {pmode : RegVal} {satp : SATP} {mode : AccessMode}
    (plain : Riscv.Sv39.canonical va = true) (nowhere : ∀ i addr, reach pmp memory va 2 (satp.ppn.setWidth 64 * 4096) ≠ .leaf i addr) :
    Conforms pmp status pmode satp memory va mode :=
  ⟨plain, fun i addr reached => absurd reached (nowhere i addr), fun i addr reached => absurd reached (nowhere i addr),
    fun i addr reached => absurd reached (nowhere i addr)⟩

theorem permitted_iff (status : STATUS) (pmode : RegVal) (mode : AccessMode) (i : Nat) (pte : PTESv39) :
    permitted status pmode mode i pte = true ↔ (allows status mode pte = true ∧ inMode status pmode mode pte = true) ∧ aligned i pte = true := by
  rw [permitted, Bool.and_eq_true, Bool.and_eq_true]

theorem outcome_iff {state : WalkerState} (privilege : state.pmode = PRV_S ∨ state.pmode = PRV_U) (memory : PageMemory) {va : Addr}
    (plain : canonical va = true) :
    ((outcome state memory va).1, ending (outcome state memory va).2) =
        translate state.pmp state.status state.pmode state.satp memory va state.mode ↔
      Conforms state.pmp state.status state.pmode state.satp memory va state.mode := by
  unfold Sv39.translate
  rw [plain, Bool.not_true, if_neg Bool.false_ne_true]
  cases reached : reach state.pmp memory va 2 (state.satp.ppn.setWidth 64 * 4096) with
  | missing | refused =>
    rw [outcome, chase_reach, reached]
    exact ⟨fun _ => .of_no_leaf plain fun i addr => by rw [reached]; exact nofun, fun _ => rfl⟩
  | leaf i addr =>
    dsimp only
    have conforms_iff : Conforms state.pmp state.status state.pmode state.satp memory va state.mode ↔
        (aligned i (memory addr) = true →
          (checkPermissions state.status state.pmode va state.mode (memory addr) = none ↔
            allows state.status state.mode (memory addr) = true ∧ inMode state.status state.pmode state.mode (memory addr) = true)) ∧
        (permitted state.status state.pmode state.mode i (memory addr) = true → marked state.mode (memory addr) ≠ memory addr →
          granted state.pmp .write addr = true) := by
      rw [passes_iff privilege va state.mode (reach_leaf reached)]
      constructor
      · intro ⟨_, readable, fetched, writable⟩
        exact ⟨fun even => ⟨readable i addr reached even, fetched i addr reached even⟩, writable i addr reached⟩
      · intro ⟨agrees, writable⟩
        refine ⟨plain, ?_, ?_, ?_⟩
        · intro i' addr' again even
          rw [reached, Reach.leaf.injEq] at again
          obtain ⟨rfl, rfl⟩ := again
          exact (agrees even).1
        · intro i' addr' again even
          rw [reached, Reach.leaf.injEq] at again
          obtain ⟨rfl, rfl⟩ := again
          exact (agrees even).2
        · intro i' addr' again
          rw [reached, Reach.leaf.injEq] at again
          obtain ⟨rfl, rfl⟩ := again
          exact writable
    rw [conforms_iff]
    have allowed_iff := permitted_iff state.status state.pmode state.mode i (memory addr)
    by_cases passed : passes state va i (memory addr)
    · rw [outcome_of_pass privilege reached passed]
      cases allowed : permitted state.status state.pmode state.mode i (memory addr) with
      | false =>
        -- a fetch passes that the architecture refuses
        constructor
        · intro same
          have ended := congrArg Prod.snd same
          dsimp only at ended
          split at ended
          · cases ended
          · cases ended
        · intro ⟨agrees, _⟩
          have allowed' := allowed_iff.mpr ⟨(agrees passed.2).mp passed.1, passed.2⟩
          rw [allowed] at allowed'
          cases allowed'
      | true =>
        have both := (allowed_iff.mp allowed).1
        rw [Bool.not_true, if_neg Bool.false_ne_true]
        by_cases unmarked : marked state.mode (memory addr) = memory addr
        · rw [if_pos unmarked, if_pos unmarked, if_pos (.inl unmarked)]
          exact ⟨fun _ => ⟨fun _ => ⟨fun _ => both, fun _ => passed.1⟩, fun _ changed => absurd unmarked changed⟩, fun _ => rfl⟩
        · rw [if_neg unmarked, if_neg unmarked]
          by_cases open_ : granted state.pmp .write addr = true
          · rw [if_pos open_, if_pos (.inr open_)]
            exact ⟨fun _ => ⟨fun _ => ⟨fun _ => both, fun _ => passed.1⟩, fun _ _ => open_⟩, fun _ => rfl⟩
          · -- the entry is written although the write is refused
            rw [if_neg open_, if_neg fun either => either.elim unmarked open_]
            constructor
            · intro same
              exact absurd (congrArg Prod.fst same) (update_ne unmarked)
            · intro ⟨_, writable⟩
              exact absurd (writable rfl unmarked) open_
    · rw [outcome_of_leaf reached passed]
      cases allowed : permitted state.status state.pmode state.mode i (memory addr) with
      | false =>
        refine ⟨fun _ => ⟨fun even => ⟨fun checked => absurd ⟨checked, even⟩ passed, fun both => ?_⟩, nofun⟩, fun _ => rfl⟩
        have allowed' := allowed_iff.mpr ⟨both, even⟩
        rw [allowed] at allowed'
        cases allowed'
      | true =>
        -- a load is refused that the architecture lets pass
        obtain ⟨both, even⟩ := allowed_iff.mp allowed
        constructor
        · intro same
          have ended := congrArg Prod.snd same
          rw [Bool.not_true, if_neg Bool.false_ne_true] at ended
          split at ended
          · cases ended
          split at ended
          · cases ended
          · cases ended
        · intro ⟨agrees, _⟩
          exact absurd ⟨(agrees even).mpr both, even⟩ passed

/-- A translation that walks: its result and the memory after it are those of Sv39. -/
def Follows (size : Nat) (pmp : PMP) (context : Context) (memory : PageMemory) (va : Addr) (mode : AccessMode) : Prop :=
  ∃ mmu result, Mmu.doTranslate ⟨TLB.new size, memory⟩ pmp context va mode = .ok (mmu, result) ∧
    (mmu.memory, ending result) = translate pmp context.status (context.getMemPriv mode) context.satp memory va mode

theorem walk_follows_iff {size : Nat} (nonempty : 0 < size) (pmp : PMP) {context : Context} (sv39 : context.satp.mode = Hart.SATP_SV39)
    (memory : PageMemory) (va : Addr) {mode : AccessMode}
    (privilege : context.getMemPriv mode = PRV_S ∨ context.getMemPriv mode = PRV_U) :
    Follows size pmp context memory va mode ↔ Conforms pmp context.status (context.getMemPriv mode) context.satp memory va mode := by
  obtain ⟨_, translates, _⟩ := doTranslate_ok sv39 (new_ready nonempty (Mirror pmp context.satp memory)) va mode
  have follows_iff : Follows size pmp context memory va mode ↔
      ((outcome (walkerFor pmp context mode) memory (sextVaddr va)).1, ending (outcome (walkerFor pmp context mode) memory (sextVaddr va)).2) =
        translate pmp context.status (context.getMemPriv mode) context.satp memory va mode := by
    constructor
    · intro ⟨mmu, result, ran, same⟩
      rw [translates] at ran
      cases ran
      exact same
    · exact fun same => ⟨_, _, translates, same⟩
  rw [follows_iff]
  by_cases plain : canonical va = true
  · rw [(canonical_iff va).mp plain]
    exact @outcome_iff (walkerFor pmp context mode) privilege memory va plain
  · constructor
    · intro same
      -- the fault would have to be about the address before its sign extension
      have ended := congrArg Prod.snd same
      rw [Sv39.translate, if_pos (by rw [eq_false_of_ne_true plain]; rfl)] at ended
      have faulted : ∃ fault, (outcome (walkerFor pmp context mode) memory (sextVaddr va)).2 = .error (.page fault) ∧ fault.vaddr = va := by
        cases result : (outcome (walkerFor pmp context mode) memory (sextVaddr va)).2 with
        | ok =>
          rw [result] at ended
          cases ended
        | error fault =>
          rw [result] at ended
          cases fault with
          | access => cases ended
          | page =>
            cases ended
            exact ⟨_, rfl, rfl⟩
      obtain ⟨fault, faulted, about⟩ := faulted
      have extended := @outcome_page (walkerFor pmp context mode) memory (sextVaddr va) privilege fault faulted
      exact absurd ((canonical_iff va).mpr (extended.symm.trans about)) plain
    · exact fun conforms => absurd conforms.canonical plain

theorem walk_follows_store : Follows 4 (PMP.new 16) ⟨PRV_U, 0, 0x8000000000080000⟩ pageTables 0x201234 .write := by
  refine (walk_follows_iff (by decide) (PMP.new 16) (by decide) pageTables 0x201234 (.inr (by decide))).mpr ⟨by decide, ?_, ?_, ?_⟩
  · exact fun _ _ _ _ loads => nomatch loads.1
  · exact fun _ _ _ _ fetches => nomatch fetches.1
  · intro i addr reached _ _
    rfl

def codeTables : PageMemory := fun addr => if addr = 0x80000000 then 0x20000059 else 0

theorem walk_ignores_mxr : ¬Follows 4 (PMP.new 16) ⟨PRV_U, 0x80000, 0x8000000000080000⟩ codeTables 0x1000 .read := by
  intro ⟨mmu, result, ran, same⟩
  have code : (Mmu.doTranslate ⟨TLB.new 4, codeTables⟩ (PMP.new 16) ⟨PRV_U, 0x80000, 0x8000000000080000⟩ 0x1000 .read).map
      (fun ended => ending ended.2) = .ok (.page ⟨0x1000, .read⟩) := by rfl
  have specified : (translate (PMP.new 16) 0x80000 PRV_U 0x8000000000080000 codeTables 0x1000 .read).2 = .address 0x80001000 := by decide
  rw [ran, Except.map, Except.ok.injEq] at code
  exact absurd (code.symm.trans ((congrArg Prod.snd same).trans specified)) nofun

end ImcGem5.Riscv.Proofs.Sv39

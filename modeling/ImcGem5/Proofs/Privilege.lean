import ImcGem5.Riscv.Hart

/-! What the events of a hart do to its privilege and to the fields of its status that
decide the privilege of a later return and of loads and stores. -/

namespace ImcGem5.Riscv.Proofs.Privilege
open Lib Mem BitVec Hart

variable {hart after : Hart} {idx : MiscReg} {middle : Hart} {value data old : RegVal} {csr : CSRIndex} {metadata : CSRMetadata}
  {inst : CsrInst} {executed : Executed} {target : PrivilegeMode} {trapped : Bool} {event : HartEvent}

@[simp] theorem set_same (hart : Hart) (idx : MiscReg) (val : RegVal) : (hart.set idx val).miscRegFile idx = val :=
  Function.update_self ..

@[simp] theorem set_other (hart : Hart) {other : MiscReg} (apart : other ≠ idx) (val : RegVal) :
    (hart.set idx val).miscRegFile other = hart.miscRegFile other :=
  Function.update_of_ne apart ..

def statusOf (hart : Hart) : STATUS := hart.miscRegFile .status

structure SameView (first second : STATUS) : Prop where
  mprv : second.mprv = first.mprv
  mpp : second.mpp = first.mpp

theorem SameView.refl (status : STATUS) : SameView status status := ⟨rfl, rfl⟩

theorem SameView.trans {first second third : STATUS} (early : SameView first second) (late : SameView second third) :
    SameView first third :=
  ⟨late.mprv.trans early.mprv, late.mpp.trans early.mpp⟩

theorem sameView_of_bits {first second : STATUS}
    (same : ∀ index, index = 17 ∨ index = 11 ∨ index = 12 → second.getLsbD index = first.getLsbD index) : SameView first second := by
  constructor
  · apply eq_of_getLsbD_eq
    intro index inside
    simp only [STATUS.mprv, getLsbD_extractLsb']
    rw [same (17 + index) (by omega)]
  · apply eq_of_getLsbD_eq
    intro index inside
    simp only [STATUS.mpp, getLsbD_extractLsb']
    rw [same (11 + index) (by omega)]

theorem sameView_insert (status : STATUS) (start : Nat) {length : Nat} (value : BitVec length)
    (apart : 18 ≤ start ∨ (start + length ≤ 17 ∧ 13 ≤ start) ∨ start + length ≤ 11) : SameView status (insertField status start value) := by
  constructor
  · exact extract_insertField_other _ _ _ (by omega) (by omega)
  · exact extract_insertField_other _ _ _ (by omega) (by omega)

theorem setSd_view (status : STATUS) (rvType : RiscvType) (value : BitVec 1) : SameView status (status.setSd rvType value) := by
  apply sameView_insert
  cases rvType <;> exact .inl (by decide)

theorem readStatus_view (hart : Hart) : SameView (statusOf hart) hart.readStatus.1 := setSd_view _ _ _

theorem readStatus_status (hart : Hart) : statusOf hart.readStatus.2 = hart.readStatus.1 := set_same _ _ _

theorem readStatus_other (hart : Hart) (apart : idx ≠ .status) :
    hart.readStatus.2.miscRegFile idx = hart.miscRegFile idx := set_other _ apart _

theorem legalStatus_view (hart : Hart) (val : STATUS) : SameView val (hart.legalStatus val) := by
  unfold legalStatus
  cases hart.rvType with
  | rv32 => exact .refl val
  | rv64 =>
    apply sameView_of_bits
    intro index which
    have unwired : (STATUS_SXL_MASK ||| STATUS_UXL_MASK).getLsbD index = false := by
      obtain rfl | rfl | rfl := which <;> decide
    have inside : index < 64 := by omega
    simp only [getLsbD_or, getLsbD_and, getLsbD_not, unwired, inside]
    simp

theorem setStatus_view (hart : Hart) (val : STATUS) : SameView val (statusOf (hart.setStatus val)) := by
  unfold statusOf setStatus
  rw [set_same]
  exact legalStatus_view hart val

theorem setStatus_other (hart : Hart) (val : STATUS) (apart : idx ≠ .status) :
    (hart.setStatus val).miscRegFile idx = hart.miscRegFile idx := set_other _ apart _

structure Quiet (hart after : Hart) : Prop where
  prv : after.miscRegFile .prv = hart.miscRegFile .prv
  view : SameView (statusOf hart) (statusOf after)
  rvType : after.rvType = hart.rvType

theorem Quiet.refl (hart : Hart) : Quiet hart hart := ⟨rfl, .refl _, rfl⟩

theorem Quiet.trans (early : Quiet hart middle) (late : Quiet middle after) : Quiet hart after :=
  ⟨late.prv.trans early.prv, early.view.trans late.view, late.rvType.trans early.rvType⟩

theorem set_quiet (hart : Hart) (val : RegVal) (notPrv : idx ≠ .prv) (notStatus : idx ≠ .status) : Quiet hart (hart.set idx val) := by
  refine ⟨set_other hart (Ne.symm notPrv) val, ?_, rfl⟩
  unfold statusOf
  rw [set_other hart (Ne.symm notStatus) val]
  exact .refl _

theorem readStatus_quiet (hart : Hart) : Quiet hart hart.readStatus.2 := by
  refine ⟨readStatus_other hart (by decide), ?_, rfl⟩
  rw [readStatus_status]
  exact readStatus_view hart

theorem setPmpCfg_quiet (hart : Hart) (idx : Fin 4) (val : RegVal) : Quiet hart (hart.setPmpCfg idx val) :=
  ⟨rfl, .refl _, rfl⟩

theorem setPmpAddr_quiet (hart : Hart) (idx : Fin 16) (val : RegVal) : Quiet hart (hart.setPmpAddr idx val) := by
  unfold setPmpAddr
  dsimp only
  split
  · exact ⟨rfl, .refl _, rfl⟩
  · exact ⟨rfl, .refl _, rfl⟩

theorem readMiscReg_quiet (read : hart.readMiscReg idx = .ok (value, after)) : Quiet hart after := by
  have counter : ∀ hpmcounter current, hart.readCounter hpmcounter current = .ok (value, after) → Quiet hart after := by
    intro hpmcounter current counted
    obtain ⟨_, _, same⟩ := of_bind counted
    cases same
    exact .refl hart
  unfold readMiscReg at read
  split at read
  all_goals first
    | exact counter _ _ read
    | (cases read; exact .refl hart)
    | skip
  cases read
  exact readStatus_quiet hart

theorem setMiscReg_quiet {val : RegVal} (notPrv : idx ≠ .prv) (notStatus : idx ≠ .status)
    (written : hart.setMiscReg idx val = .ok after) : Quiet hart after := by
  unfold setMiscReg at written
  split at written
  all_goals first
    | exact absurd rfl notStatus
    | (obtain ⟨_, _, same⟩ := of_bind written; cases same; exact setPmpCfg_quiet _ _ _)
    | (obtain ⟨_, _, same⟩ := of_bind written; cases same; exact setPmpAddr_quiet _ _ _)
    | (cases written; exact .refl hart)
    | (cases written; exact ⟨rfl, .refl _, rfl⟩)
    | (cases written; exact set_quiet _ _ notPrv notStatus)

structure RowOk (row : CSRIndex × CSRMetadata) : Prop where
  prv : row.2.physIndex ≠ .prv
  status : row.2.physIndex = .status → row.1 = CSR_USTATUS ∨ row.1 = CSR_SSTATUS ∨ row.1 = CSR_MSTATUS
  pmpcfg : ∀ i, row.2.physIndex = .pmpcfg i → Hart.PrivilegeBits row.1 = PRV_M
  pmpaddr : ∀ i, row.2.physIndex = .pmpaddr i → Hart.PrivilegeBits row.1 = PRV_M

theorem csrTable_ok : ∀ row ∈ csrTable, RowOk row := by
  have prv : ∀ row ∈ csrTable, row.2.physIndex ≠ .prv := by decide +kernel
  have status : ∀ row ∈ csrTable, row.2.physIndex = .status →
      row.1 = CSR_USTATUS ∨ row.1 = CSR_SSTATUS ∨ row.1 = CSR_MSTATUS := by decide +kernel
  have pmpcfg : ∀ row ∈ csrTable, ∀ i, row.2.physIndex = .pmpcfg i → Hart.PrivilegeBits row.1 = PRV_M := by decide +kernel
  have pmpaddr : ∀ row ∈ csrTable, ∀ i, row.2.physIndex = .pmpaddr i → Hart.PrivilegeBits row.1 = PRV_M := by decide +kernel
  intro row member
  exact ⟨prv row member, status row member, pmpcfg row member, pmpaddr row member⟩

theorem csrData_ok (found : CSRData csr = some metadata) : RowOk (csr, metadata) := by
  obtain ⟨_, _, split, _⟩ := List.lookup_eq_some_iff.mp found
  apply csrTable_ok
  rw [split]
  exact List.mem_append_cons_self

theorem rvZext_view (rvType : RiscvType) (value : RegVal) : SameView value (rvZext rvType value) := by
  cases rvType with
  | rv64 => exact .refl value
  | rv32 =>
    apply sameView_of_bits
    intro index which
    have inside : index < 64 ∧ index < 32 := by omega
    simp [rvZext, inside.1, inside.2]

theorem lower_mask (lower : csr = CSR_USTATUS ∨ csr = CSR_SSTATUS) (rvType : RiscvType) {index : Nat}
    (which : index = 17 ∨ index = 11 ∨ index = 12) : (CSRMasks rvType csr).getLsbD index = false := by
  obtain rfl | rfl := lower <;> cases rvType <;> obtain rfl | rfl | rfl := which <;> decide +kernel

theorem masked_view (old data : RegVal) {mask : RegVal}
    (clear : ∀ index, index = 17 ∨ index = 11 ∨ index = 12 → mask.getLsbD index = false) :
    SameView old ((old &&& ~~~mask) ||| (data &&& mask)) := by
  apply sameView_of_bits
  intro index which
  have inside : index < 64 := by omega
  simp only [getLsbD_or, getLsbD_and, getLsbD_not, clear index which, inside]
  simp

/-- What an instruction does before it is finished. Only mstatus shows the fields. -/
structure Executes (hart : Hart) (csr : CSRIndex) (after : Hart) (executed : Executed) : Prop where
  prv : after.miscRegFile .prv = hart.miscRegFile .prv
  rvType : after.rvType = hart.rvType
  view : SameView (statusOf hart) (statusOf after) ∨ (csr = CSR_MSTATUS ∧ ∃ rd, executed = .done rd)

theorem Quiet.executes (quiet : Quiet hart after) (csr : CSRIndex) (executed : Executed) : Executes hart csr after executed :=
  ⟨quiet.prv, quiet.rvType, .inl quiet.view⟩

theorem writeCsr_quiet {midx : MiscReg} {new : RegVal} (notPrv : midx ≠ .prv) (notStatus : midx ≠ .status)
    (written : hart.writeCsr csr midx data old new = .ok (some after)) : Quiet hart after := by
  unfold writeCsr at written
  split at written
  · cases written
    exact (set_quiet hart _ (by decide) (by decide)).trans (set_quiet _ _ (by decide) (by decide))
  split at written
  · split at written
    · obtain ⟨middle, set, same⟩ := of_bind written
      cases same
      exact setMiscReg_quiet notPrv notStatus set
    · cases written
  · obtain ⟨middle, set, same⟩ := of_bind written
    cases same
    exact setMiscReg_quiet notPrv notStatus set

theorem writeCsr_status (views : csr = CSR_USTATUS ∨ csr = CSR_SSTATUS ∨ csr = CSR_MSTATUS) {new : RegVal}
    (written : hart.writeCsr csr .status data old new = .ok (some after)) : after = hart.setStatus new := by
  have shared : csr ≠ CSR_FCSR ∧ csr ∈ sharedCsrs := by
    obtain rfl | rfl | rfl := views <;> decide
  unfold writeCsr at written
  rw [if_neg shared.1, if_pos shared.2] at written
  split at written
  · cases written
    rfl
  · cases written

theorem readCsr_quiet {midx : MiscReg} (read : hart.readCsr csr midx = .ok (value, after)) : Quiet hart after := by
  unfold readCsr at read
  split at read
  · cases read
    exact .refl hart
  · exact readMiscReg_quiet read

theorem writeStatus_executes (views : csr = CSR_USTATUS ∨ csr = CSR_SSTATUS ∨ csr = CSR_MSTATUS)
    {shown rd : RegVal} (read : hart.readCsr csr .status = .ok (value, middle)) (rvType : RiscvType)
    (written : middle.writeCsr csr .status shown old
      ((rvZext middle.rvType value &&& ~~~CSRMasks rvType csr) ||| (data &&& CSRMasks rvType csr)) = .ok (some after)) :
    Executes hart csr after (.done rd) := by
  have quiet := readCsr_quiet read
  have notFcsr : csr ≠ CSR_FCSR := by
    obtain rfl | rfl | rfl := views <;> decide
  have current : value = hart.readStatus.1 := by
    unfold readCsr at read
    rw [if_neg notFcsr] at read
    cases read
    rfl
  rw [writeCsr_status views written]
  refine ⟨?_, quiet.rvType, ?_⟩
  · rw [setStatus_other _ _ (by decide)]
    exact quiet.prv
  by_cases machine : csr = CSR_MSTATUS
  · exact .inr ⟨machine, rd, rfl⟩
  · have lower : csr = CSR_USTATUS ∨ csr = CSR_SSTATUS := by
      obtain same | same | same := views
      · exact .inl same
      · exact .inr same
      · exact absurd same machine
    left
    rw [current]
    have old := (readStatus_view hart).trans (rvZext_view middle.rvType _)
    have new := masked_view (rvZext middle.rvType hart.readStatus.1) data (fun _ which => lower_mask lower rvType which)
    exact (old.trans new).trans (setStatus_view _ _)

theorem accessCsr_executes (row : RowOk (inst.csr, metadata))
    (accessed : hart.accessCsr inst metadata.physIndex = .ok (after, executed)) : Executes hart inst.csr after executed := by
  obtain ⟨⟨_, middle⟩, read, rest⟩ := of_bind accessed
  have quiet : Quiet hart middle := readCsr_quiet read
  dsimp only at rest
  split at rest
  · cases rest
    exact quiet.executes _ _
  split at rest
  · cases rest
    exact quiet.executes _ _
  obtain ⟨written, writes, rest⟩ := of_bind rest
  cases written with
  | none =>
    cases rest
    exact quiet.executes _ _
  | some =>
    cases rest
    by_cases status : metadata.physIndex = .status
    · rw [status] at writes read
      exact writeStatus_executes (row.status status) read hart.rvType writes
    · exact (quiet.trans (writeCsr_quiet row.prv status writes)).executes _ _

theorem executeCsr_executes (ran : hart.executeCsr inst = .ok (after, executed)) :
    Executes hart inst.csr after executed ∧ (Hart.PrivilegeBits inst.csr ≤ hart.miscRegFile .prv ∨ ∃ fault, executed = .faulted fault) := by
  unfold executeCsr at ran
  dsimp only at ran
  split at ran
  · cases ran
    exact ⟨(Quiet.refl hart).executes _ _, .inr ⟨_, rfl⟩⟩
  next metadata found =>
    split at ran
    · cases ran
      exact ⟨(Quiet.refl hart).executes _ _, .inr ⟨_, rfl⟩⟩
    split at ran
    · cases ran
      exact ⟨(Quiet.refl hart).executes _ _, .inr ⟨_, rfl⟩⟩
    next privileged =>
      have quiet : Quiet hart (hart.satpTrapped inst.csr).2 := by
        unfold satpTrapped
        split
        · exact readStatus_quiet hart
        · exact .refl hart
      split at ran
      · cases ran
        exact ⟨quiet.executes _ _, .inr ⟨_, rfl⟩⟩
      · have accessed := accessCsr_executes (csrData_ok found) ran
        refine ⟨⟨accessed.prv.trans quiet.prv, accessed.rvType.trans quiet.rvType, ?_⟩, .inl (BitVec.not_lt.mp privileged)⟩
        obtain view | machine := accessed.view
        · exact .inl (quiet.view.trans view)
        · exact .inr machine

/-- What a trap does. It is handled in user mode only from user mode, and below machine
mode only from below machine mode. -/
structure Traps (hart after : Hart) (target : PrivilegeMode) : Prop where
  prv : after.miscRegFile .prv = target.encoding
  user : target = .user → hart.miscRegFile .prv = PRV_U
  below : target = .supervisor → hart.miscRegFile .prv ≠ PRV_M
  mprv : (statusOf after).mprv = (statusOf hart).mprv
  mpp : target ≠ .machine → (statusOf after).mpp = (statusOf hart).mpp

theorem delegate_user {pp mdeleg sdeleg : RegVal} {code : Nat} (target : delegate pp mdeleg sdeleg code = .user) : pp = PRV_U := by
  unfold delegate at target
  split at target
  next user => exact user.1
  next =>
    split at target
    · cases target
    · cases target

theorem delegate_supervisor {pp mdeleg sdeleg : RegVal} {code : Nat} (target : delegate pp mdeleg sdeleg code = .supervisor) :
    pp ≠ PRV_M := by
  unfold delegate at target
  split at target
  · cases target
  split at target
  next below => exact below.1
  next => cases target

theorem handlerMode_user {fault : RiscvFault} (target : hart.handlerMode fault = .user) : hart.miscRegFile .prv = PRV_U := by
  unfold handlerMode at target
  split at target
  · cases target
  · exact delegate_user target
  · exact delegate_user target

theorem handlerMode_supervisor {fault : RiscvFault} (target : hart.handlerMode fault = .supervisor) :
    hart.miscRegFile .prv ≠ PRV_M := by
  unfold handlerMode at target
  split at target
  · cases target
  · exact delegate_supervisor target
  · exact delegate_supervisor target

theorem stackStatus_mprv (status : STATUS) (pp : RegVal) (target : PrivilegeMode) :
    (stackStatus status pp target).mprv = status.mprv := by
  cases target with
  | user => exact ((sameView_insert _ _ _ (by omega)).trans (sameView_insert _ _ _ (by omega))).mprv
  | supervisor =>
    exact (((sameView_insert _ _ _ (by omega)).trans (sameView_insert _ _ _ (by omega))).trans (sameView_insert _ _ _ (by omega))).mprv
  | machine =>
    have outer : SameView (status.setMpp (pp.setWidth 2)) (stackStatus status pp .machine) :=
      (sameView_insert _ _ _ (by omega)).trans (sameView_insert _ _ _ (by omega))
    exact outer.mprv.trans (extract_insertField_other _ _ _ (by omega) (by omega))

theorem stackStatus_mpp (status : STATUS) (pp : RegVal) (below : target ≠ .machine) :
    (stackStatus status pp target).mpp = status.mpp := by
  cases target with
  | user => exact ((sameView_insert _ _ _ (by omega)).trans (sameView_insert _ _ _ (by omega))).mpp
  | supervisor =>
    exact (((sameView_insert _ _ _ (by omega)).trans (sameView_insert _ _ _ (by omega))).trans (sameView_insert _ _ _ (by omega))).mpp
  | machine => exact absurd rfl below

theorem invoke_traps (hart : Hart) (fault : RiscvFault) : Traps hart (hart.invoke fault) (hart.handlerMode fault) := by
  have mode : hart.readStatus.2.handlerMode fault = hart.handlerMode fault := rfl
  have prv : (hart.invoke fault).miscRegFile .prv = (hart.handlerMode fault).encoding := by
    unfold invoke
    dsimp only
    split
    · rw [set_other _ (by decide), setStatus_other _ _ (by decide), set_same, mode]
    · rw [setStatus_other _ _ (by decide), set_same, mode]
  have status : SameView (stackStatus hart.readStatus.1 (hart.miscRegFile .prv) (hart.handlerMode fault))
      (statusOf (hart.invoke fault)) := by
    unfold invoke statusOf
    dsimp only
    split
    · rw [set_other _ (by decide)]
      exact setStatus_view _ _
    · exact setStatus_view _ _
  have read := readStatus_view hart
  refine ⟨prv, handlerMode_user, handlerMode_supervisor, ?_, ?_⟩
  · rw [status.mprv, stackStatus_mprv, read.mprv]
  · intro below
    rw [status.mpp, stackStatus_mpp _ _ below, read.mpp]

theorem Traps.of_quiet (quiet : Quiet hart middle) (traps : Traps middle after target) : Traps hart after target := by
  refine ⟨traps.prv, ?_, ?_, traps.mprv.trans quiet.view.mprv, ?_⟩
  · intro user
    rw [← quiet.prv]
    exact traps.user user
  · intro below
    rw [← quiet.prv]
    exact traps.below below
  · intro below
    exact (traps.mpp below).trans quiet.view.mpp

inductive Moves (hart after : Hart) (event : HartEvent) : Bool → Prop where
  | quiet (quiet : Quiet hart after) : Moves hart after event false
  | machine (high : PRV_M ≤ hart.miscRegFile .prv) (prv : after.miscRegFile .prv = hart.miscRegFile .prv) : Moves hart after event false
  | trap (target : PrivilegeMode) (traps : Traps hart after target) : Moves hart after event true
  | sret (machInst : BitVec 32) (is : event = .sret machInst) (low : hart.miscRegFile .prv ≠ PRV_U)
      (untrapped : ¬ (hart.miscRegFile .prv = PRV_S ∧ (statusOf hart).tsr = 1)) (prv : after.miscRegFile .prv = (statusOf hart).spp.setWidth 64)
      (view : SameView (statusOf hart) (statusOf after)) : Moves hart after event false
  | mret (machInst : BitVec 32) (is : event = .mret machInst) (high : hart.miscRegFile .prv = PRV_M)
      (prv : after.miscRegFile .prv = (statusOf hart).mpp.setWidth 64) (mpp : (statusOf after).mpp = 0) : Moves hart after event false

theorem uret_quiet (hart : Hart) : Quiet hart hart.uret := by
  have cleared : SameView hart.readStatus.1 ((hart.readStatus.1.setUie hart.readStatus.1.upie).setUpie 1) :=
    (sameView_insert _ _ _ (by omega)).trans (sameView_insert _ _ _ (by omega))
  exact ⟨rfl, ((readStatus_view hart).trans cleared).trans (setStatus_view _ _), rfl⟩

theorem sret_moves (hart : Hart) (machInst : BitVec 32) :
    Moves hart ((hart.sret machInst).1.finishReturn (hart.sret machInst).2).1 (.sret machInst)
      ((hart.sret machInst).1.finishReturn (hart.sret machInst).2).2 := by
  unfold sret
  dsimp only
  split
  · exact .trap _ ((invoke_traps _ _).of_quiet (readStatus_quiet hart))
  next allowed =>
    have low : hart.miscRegFile .prv ≠ PRV_U := fun user => allowed (.inl user)
    have spp : hart.readStatus.1.spp = (statusOf hart).spp :=
      extract_insertField_other _ _ _ (by omega) (by cases hart.rvType <;> exact .inl (by decide))
    have tsr : hart.readStatus.1.tsr = (statusOf hart).tsr :=
      extract_insertField_other _ _ _ (by omega) (by cases hart.rvType <;> exact .inl (by decide))
    have untrapped : ¬ (hart.miscRegFile .prv = PRV_S ∧ (statusOf hart).tsr = 1) := by
      rw [← tsr]
      exact fun trapped => allowed (.inr trapped)
    refine .sret machInst rfl low untrapped ?_ ?_
    · rw [← spp]
      rfl
    · have cleared : SameView hart.readStatus.1 (((hart.readStatus.1.setSie hart.readStatus.1.spie).setSpie 1).setSpp 0) :=
        ((sameView_insert _ _ _ (by omega)).trans (sameView_insert _ _ _ (by omega))).trans (sameView_insert _ _ _ (by omega))
      exact ((readStatus_view hart).trans cleared).trans (setStatus_view _ _)

theorem mret_moves (hart : Hart) (machInst : BitVec 32) :
    Moves hart ((hart.mret machInst).1.finishReturn (hart.mret machInst).2).1 (.mret machInst)
      ((hart.mret machInst).1.finishReturn (hart.mret machInst).2).2 := by
  unfold mret
  split
  · exact .trap _ (invoke_traps _ _)
  next high =>
    refine .mret machInst rfl (not_not.mp high) ?_ ?_
    · rw [← (readStatus_view hart).mpp]
      rfl
    · have returned := setStatus_view ((hart.readStatus.2.set .prv (hart.readStatus.1.mpp.setWidth 64)).set .nmie 1)
        (((hart.readStatus.1.setMie hart.readStatus.1.mpie).setMpie 1).setMpp 0)
      exact returned.mpp.trans (extract_insertField_same _ _ _ (by omega))

theorem csr_moves (ran : hart.executeCsr inst = .ok (after, executed)) :
    Moves hart (after.finish executed).1 (.csr inst) (after.finish executed).2 := by
  obtain ⟨executes, privileged⟩ := executeCsr_executes ran
  cases executed with
  | done =>
    obtain view | ⟨mstatus, _⟩ := executes.view
    · exact .quiet ⟨executes.prv, view, executes.rvType⟩
    · obtain high | ⟨_, impossible⟩ := privileged
      · rw [mstatus] at high
        exact .machine high executes.prv
      · cases impossible
  | faulted =>
    obtain view | ⟨_, _, impossible⟩ := executes.view
    · exact .trap _ ((invoke_traps _ _).of_quiet ⟨executes.prv, view, executes.rvType⟩)
    · cases impossible

theorem globalMask_quiet {mask : BitVec NumInterruptTypes} (masked : hart.globalMask = .ok (mask, after)) : Quiet hart after := by
  have read := readStatus_quiet hart
  unfold globalMask at masked
  dsimp only at masked
  split at masked
  · cases masked
    exact read
  split at masked
  · cases masked
    exact read
  split at masked
  · cases masked
    exact read
  · cases masked

theorem checkInterrupts_quiet {check : Bool} (checked : hart.checkInterrupts = .ok (check, after)) : Quiet hart after := by
  unfold checkInterrupts at checked
  split at checked
  · cases checked
    exact .refl hart
  · obtain ⟨⟨_, _⟩, masked, same⟩ := of_bind checked
    cases same
    exact globalMask_quiet masked

theorem getInterrupt_quiet {fault : Option RiscvFault} (got : hart.getInterrupt = .ok (fault, after)) : Quiet hart after := by
  obtain ⟨⟨_, middle⟩, checked, rest⟩ := of_bind got
  obtain ⟨_, _, rest⟩ := of_bind rest
  have quiet : Quiet hart middle := checkInterrupts_quiet checked
  split at rest
  · cases rest
    exact quiet
  · obtain ⟨⟨_, _⟩, masked, same⟩ := of_bind rest
    cases same
    exact quiet.trans (globalMask_quiet masked)

theorem interrupt_moves (taken : hart.takeInterrupt = .ok (after, trapped)) : Moves hart after .interrupt trapped := by
  obtain ⟨⟨_, middle⟩, checked, rest⟩ := of_bind taken
  have quiet : Quiet hart middle := checkInterrupts_quiet checked
  dsimp only at rest
  split at rest
  · obtain ⟨⟨fault, _⟩, got, rest⟩ := of_bind rest
    have later := quiet.trans (getInterrupt_quiet got)
    cases fault with
    | none =>
      cases rest
      exact .quiet later
    | some =>
      cases rest
      exact .trap _ ((invoke_traps _ _).of_quiet later)
  · cases rest
    exact .quiet quiet

theorem happen_moves (happened : hart.happen event = .ok (after, trapped)) : Moves hart after event trapped := by
  cases event with
  | csr =>
    obtain ⟨⟨_, _⟩, ran, same⟩ := of_bind happened
    have moved := csr_moves ran
    rw [Except.ok.inj same] at moved
    exact moved
  | uret =>
    cases happened
    exact .quiet (uret_quiet hart)
  | sret machInst =>
    have moved := sret_moves hart machInst
    rw [Except.ok.inj happened] at moved
    exact moved
  | mret machInst =>
    have moved := mret_moves hart machInst
    rw [Except.ok.inj happened] at moved
    exact moved
  | exception =>
    cases happened
    exact .trap _ (invoke_traps _ _)
  | interrupt => exact interrupt_moves happened
  | post | clear | count =>
    cases happened
    exact .quiet ⟨rfl, .refl _, rfl⟩
  | postNMI | clearNMI =>
    cases happened
    exact .quiet (set_quiet hart _ (by decide) (by decide))

def ValidPrv (prv : RegVal) : Prop := prv = PRV_U ∨ prv = PRV_S ∨ prv = PRV_M

instance ValidPrv.decidable (prv : RegVal) : Decidable (ValidPrv prv) := inferInstanceAs (Decidable (_ ∨ _ ∨ _))

theorem encoding_valid (mode : PrivilegeMode) : ValidPrv mode.encoding := by
  cases mode with
  | user => exact .inl rfl
  | supervisor => exact .inr (.inl rfl)
  | machine => exact .inr (.inr rfl)

section

variable (valid : ValidPrv (hart.miscRegFile .prv))
include valid

theorem readCounter_total (hpmcounter : Nat) (current : RegVal) : ∃ value, hart.readCounter hpmcounter current = .ok (value, hart) := by
  have enabled : ∃ enabled, hart.hpmCounterEnabled hpmcounter = .ok enabled := by
    unfold hpmCounterEnabled
    obtain user | supervisor | machine := valid
    · rw [user, if_neg (by decide), if_neg (by decide), if_pos rfl]
      exact ⟨_, rfl⟩
    · rw [supervisor, if_neg (by decide), if_pos rfl]
      exact ⟨_, rfl⟩
    · rw [if_pos machine]
      exact ⟨_, rfl⟩
  obtain ⟨enabled, ran⟩ := enabled
  exact ⟨_, bind_of_ok ran _⟩

theorem readMiscReg_total (idx : MiscReg) : ∃ value after, hart.readMiscReg idx = .ok (value, after) := by
  have counter : ∀ hpmcounter current, ∃ value after, hart.readCounter hpmcounter current = .ok (value, after) := by
    intro hpmcounter current
    obtain ⟨value, counted⟩ := readCounter_total valid hpmcounter current
    exact ⟨value, hart, counted⟩
  unfold readMiscReg
  split
  all_goals first
    | exact counter _ _
    | exact ⟨_, _, rfl⟩

theorem readCsr_total (csr : CSRIndex) (midx : MiscReg) : ∃ value after, hart.readCsr csr midx = .ok (value, after) := by
  unfold readCsr
  split
  · exact ⟨_, _, rfl⟩
  · exact readMiscReg_total valid midx

end

theorem setMiscReg_total (val : RegVal) (pmpcfg : ∀ i, idx = .pmpcfg i → hart.miscRegFile .prv = PRV_M)
    (pmpaddr : ∀ i, idx = .pmpaddr i → hart.miscRegFile .prv = PRV_M) : ∃ after, hart.setMiscReg idx val = .ok after := by
  unfold setMiscReg
  split
  all_goals first
    | exact ⟨_, rfl⟩
    | skip
  · rw [pmpcfg _ rfl]
    exact ⟨_, rfl⟩
  · rw [pmpaddr _ rfl]
    exact ⟨_, rfl⟩

theorem writeCsr_total (data old new : RegVal)
    (pmpcfg : ∀ i, idx = .pmpcfg i → hart.miscRegFile .prv = PRV_M) (pmpaddr : ∀ i, idx = .pmpaddr i → hart.miscRegFile .prv = PRV_M) :
    ∃ written, hart.writeCsr csr idx data old new = .ok written := by
  unfold writeCsr
  split
  · exact ⟨_, rfl⟩
  split
  · split
    · obtain ⟨after, set⟩ := setMiscReg_total new pmpcfg pmpaddr
      exact ⟨_, bind_of_ok set _⟩
    · exact ⟨_, rfl⟩
  · obtain ⟨after, set⟩ := setMiscReg_total data pmpcfg pmpaddr
    exact ⟨_, bind_of_ok set _⟩

theorem machine_of_privileged (valid : ValidPrv (hart.miscRegFile .prv)) (high : PRV_M ≤ hart.miscRegFile .prv) :
    hart.miscRegFile .prv = PRV_M := by
  obtain user | supervisor | machine := valid
  · rw [user] at high
    exact absurd high (by decide)
  · rw [supervisor] at high
    exact absurd high (by decide)
  · exact machine

theorem accessCsr_total (row : RowOk (inst.csr, metadata))
    (valid : ValidPrv (hart.miscRegFile .prv)) (privileged : Hart.PrivilegeBits inst.csr ≤ hart.miscRegFile .prv) :
    ∃ after executed, hart.accessCsr inst metadata.physIndex = .ok (after, executed) := by
  obtain ⟨value, middle, read⟩ := readCsr_total valid inst.csr metadata.physIndex
  have quiet := readCsr_quiet read
  have machine : Hart.PrivilegeBits inst.csr = PRV_M → middle.miscRegFile .prv = PRV_M := by
    intro bits
    rw [bits] at privileged
    rw [quiet.prv]
    exact machine_of_privileged valid privileged
  unfold accessCsr
  rw [bind_of_ok read]
  dsimp only
  split
  · exact ⟨_, _, rfl⟩
  split
  · exact ⟨_, _, rfl⟩
  · obtain ⟨written, writes⟩ := writeCsr_total
      (rvZext middle.rvType (inst.op.code (rvZext middle.rvType value &&& CSRMasks hart.rvType inst.csr)) &&& CSRMasks hart.rvType inst.csr)
      (rvZext middle.rvType value) _ (fun i same => machine (row.pmpcfg i same)) (fun i same => machine (row.pmpaddr i same))
    rw [bind_of_ok writes]
    cases written with
    | none | some => exact ⟨_, _, rfl⟩

theorem executeCsr_total (valid : ValidPrv (hart.miscRegFile .prv)) (inst : CsrInst) :
    ∃ after executed, hart.executeCsr inst = .ok (after, executed) := by
  unfold executeCsr
  dsimp only
  split
  · exact ⟨_, _, rfl⟩
  next metadata found =>
    split
    · exact ⟨_, _, rfl⟩
    split
    · exact ⟨_, _, rfl⟩
    next privileged =>
      split
      · exact ⟨_, _, rfl⟩
      · have prv : (hart.satpTrapped inst.csr).2.miscRegFile .prv = hart.miscRegFile .prv := by
          unfold satpTrapped
          split
          · exact readStatus_other hart (by decide)
          · rfl
        apply accessCsr_total (csrData_ok found)
        · rw [prv]
          exact valid
        · rw [prv]
          exact BitVec.not_lt.mp privileged

theorem setSd_extract (status : STATUS) (rvType : RiscvType) (value : BitVec 1) {start length : Nat} (below : start + length ≤ 31) :
    (status.setSd rvType value).extractLsb' start length = status.extractLsb' start length := by
  apply extract_insertField_other _ _ _ (by omega)
  left
  cases rvType with
  | rv32 => exact below
  | rv64 => exact Nat.le_trans below (by decide)

theorem readStatus_again (hart : Hart) : hart.readStatus.2.readStatus = hart.readStatus := by
  have again : ∀ status : STATUS, ∀ value : BitVec 1, (status.setSd hart.rvType value).setSd hart.rvType
        (if (status.setSd hart.rvType value).xs = 3 ∨ (status.setSd hart.rvType value).fs = 3 ∨
          (status.setSd hart.rvType value).vs = 3 then 1 else 0) =
      status.setSd hart.rvType (if status.xs = 3 ∨ status.fs = 3 ∨ status.vs = 3 then 1 else 0) := by
    intro status value
    have xs : (status.setSd hart.rvType value).xs = status.xs := setSd_extract _ _ _ (by decide)
    have fs : (status.setSd hart.rvType value).fs = status.fs := setSd_extract _ _ _ (by decide)
    have vs : (status.setSd hart.rvType value).vs = status.vs := setSd_extract _ _ _ (by decide)
    rw [xs, fs, vs]
    exact insertField_insertField _ _ _ _
  have status : hart.readStatus.2.readStatus.1 = hart.readStatus.1 := by
    change STATUS.setSd (statusOf hart.readStatus.2) hart.rvType _ = _
    rw [readStatus_status]
    exact again _ _
  have regs : hart.readStatus.2.readStatus.2 = hart.readStatus.2 := by
    change hart.readStatus.2.set .status hart.readStatus.2.readStatus.1 = hart.set .status hart.readStatus.1
    rw [status]
    unfold Hart.set readStatus Hart.set
    rw [Function.update_idem]
  exact Prod.ext status regs

theorem globalMask_total (valid : ValidPrv (hart.miscRegFile .prv)) : ∃ mask, hart.globalMask = .ok (mask, hart.readStatus.2) := by
  have prv : hart.readStatus.2.miscRegFile .prv = hart.miscRegFile .prv := readStatus_other hart (by decide)
  unfold globalMask
  dsimp only
  rw [prv]
  obtain user | supervisor | machine := valid
  · rw [if_pos user]
    exact ⟨_, rfl⟩
  · rw [supervisor, if_neg (by decide), if_pos rfl]
    exact ⟨_, rfl⟩
  · rw [machine, if_neg (by decide), if_neg (by decide), if_pos rfl]
    exact ⟨_, rfl⟩

theorem globalMask_again (hart : Hart) : hart.readStatus.2.globalMask = hart.globalMask := by
  unfold globalMask
  rw [readStatus_again]

section

variable (valid : ValidPrv (hart.miscRegFile .prv))
include valid

theorem checkInterrupts_total : ∃ check middle, hart.checkInterrupts = .ok (check, middle) ∧
    middle.checkInterrupts = hart.checkInterrupts ∧ ∃ mask last, middle.globalMask = .ok (mask, last) := by
  obtain ⟨mask, masked⟩ := globalMask_total valid
  unfold checkInterrupts
  split
  next nmi =>
    refine ⟨true, hart, rfl, ?_, mask, _, masked⟩
    rw [if_pos nmi]
  next nmi =>
    have quietNmi : hart.readStatus.2.checkNonMaskableInterrupt = hart.checkNonMaskableInterrupt := rfl
    rw [bind_of_ok masked]
    refine ⟨_, _, rfl, ?_, mask, _, (globalMask_again hart).trans masked⟩
    rw [quietNmi, if_neg nmi, globalMask_again, bind_of_ok masked]

theorem takeInterrupt_total : ∃ after trapped, hart.takeInterrupt = .ok (after, trapped) := by
  obtain ⟨_, middle, checked, same, _, _, masked⟩ := checkInterrupts_total valid
  unfold takeInterrupt
  rw [bind_of_ok checked]
  dsimp only
  split
  next holds =>
    have got : ∃ fault final, middle.getInterrupt = .ok (fault, final) := by
      unfold getInterrupt
      rw [bind_of_ok (same.trans checked), holds]
      dsimp only
      unfold Fault.ensure
      rw [if_pos rfl, ok_bind]
      split
      · exact ⟨_, _, rfl⟩
      · rw [bind_of_ok masked]
        exact ⟨_, _, rfl⟩
    obtain ⟨fault, final, got⟩ := got
    rw [bind_of_ok got]
    cases fault with
    | none | some => exact ⟨_, _, rfl⟩
  next => exact ⟨_, _, rfl⟩

theorem happen_total (event : HartEvent) : ∃ after trapped, hart.happen event = .ok (after, trapped) := by
  cases event with
  | csr inst =>
    obtain ⟨_, _, ran⟩ := executeCsr_total valid inst
    exact ⟨_, _, bind_of_ok ran _⟩
  | interrupt => exact takeInterrupt_total valid
  | uret | sret | mret | exception | post | clear | postNMI | clearNMI | count => exact ⟨_, _, rfl⟩

end

def ReturnsToMode (hart : Hart) : HartEvent → Prop
  | .mret _ => hart.miscRegFile .prv = PRV_M → (statusOf hart).mpp ≠ 2
  | _ => True

instance ReturnsToMode.decidable (hart : Hart) (event : HartEvent) : Decidable (ReturnsToMode hart event) :=
  match event with
  | .mret _ => inferInstanceAs (Decidable (_ → _))
  | .csr _ | .uret | .sret _ | .exception _ _ | .interrupt | .post _ | .clear _ | .postNMI | .clearNMI | .count _ _ => .isTrue trivial

/-- Privilege rises by traps alone. -/
structure Guarded (label : HartLabel) : Prop where
  before : ValidPrv label.before
  after : ValidPrv label.after
  rises : label.before < label.after → label.trapped = true
  traps : label.trapped = true → label.before ≤ label.after

theorem spp_valid (spp : BitVec 1) : ValidPrv (spp.setWidth 64) := by
  revert spp
  decide

theorem spp_le (spp : BitVec 1) : ¬ PRV_S < spp.setWidth 64 ∧ ¬ PRV_M < spp.setWidth 64 := by
  revert spp
  decide

theorem mpp_valid {mpp : BitVec 2} (mode : mpp ≠ 2) : ValidPrv (mpp.setWidth 64) := by
  revert mpp
  decide

theorem mpp_le (mpp : BitVec 2) : ¬ PRV_M < mpp.setWidth 64 := by
  revert mpp
  decide

theorem guarded_same {prv : RegVal} (valid : ValidPrv prv) : Guarded ⟨prv, false, prv⟩ :=
  ⟨valid, valid, fun rises => absurd rises (BitVec.lt_irrefl prv), nofun⟩

/-- A trap goes to a mode that is not below the one it comes from. -/
theorem Traps.guarded (traps : Traps hart after target) (valid : ValidPrv (hart.miscRegFile .prv)) :
    Guarded ⟨hart.miscRegFile .prv, true, after.miscRegFile .prv⟩ := by
  have reached : ValidPrv (after.miscRegFile .prv) := by
    rw [traps.prv]
    exact encoding_valid target
  refine ⟨valid, reached, fun _ => rfl, fun _ => ?_⟩
  change hart.miscRegFile .prv ≤ after.miscRegFile .prv
  rw [traps.prv]
  cases target with
  | user =>
    rw [traps.user rfl]
    decide
  | supervisor =>
    obtain user | supervisor | machine := valid
    · rw [user]
      decide
    · rw [supervisor]
      decide
    · exact absurd machine (traps.below rfl)
  | machine =>
    obtain user | supervisor | machine := valid
    · rw [user]
      decide
    · rw [supervisor]
      decide
    · rw [machine]
      decide

theorem Moves.guarded (moves : Moves hart after event trapped)
    (valid : ValidPrv (hart.miscRegFile .prv)) (returns : ReturnsToMode hart event) :
    Guarded ⟨hart.miscRegFile .prv, trapped, after.miscRegFile .prv⟩ := by
  cases moves with
  | quiet quiet =>
    rw [quiet.prv]
    exact guarded_same valid
  | machine _ prv =>
    rw [prv]
    exact guarded_same valid
  | trap _ traps => exact traps.guarded valid
  | sret _ _ low _ prv =>
    rw [prv]
    refine ⟨valid, spp_valid _, ?_, nofun⟩
    intro rises
    obtain user | supervisor | machine := valid
    · exact absurd user low
    · rw [supervisor] at rises
      exact absurd rises (spp_le _).1
    · rw [machine] at rises
      exact absurd rises (spp_le _).2
  | mret _ is high prv =>
    subst is
    have mode := returns high
    rw [prv]
    refine ⟨valid, mpp_valid mode, ?_, nofun⟩
    intro rises
    rw [high] at rises
    exact absurd rises (mpp_le _)

theorem step_guarded (valid : ValidPrv (hart.miscRegFile .prv)) (returns : ReturnsToMode hart event) :
    ∃ after label, hart.step event = .ok (after, [label]) ∧ after.miscRegFile .prv = label.after ∧ Guarded label := by
  obtain ⟨after, _, happened⟩ := happen_total valid event
  exact ⟨after, _, bind_of_ok happened _, rfl, (happen_moves happened).guarded valid returns⟩

/-- In every run in which no mret returns to the reserved mode, the privilege is a mode
before and after each step, only a trap raises it, and no trap lowers it. -/
theorem privilege_integrity (start : Hart) (valid : ValidPrv (start.miscRegFile .prv)) (events : List HartEvent)
    (returns : Each Hart.step ReturnsToMode start events) :
    ∃ final labels, run Hart.step start events = .ok (final, labels) ∧ ValidPrv (final.miscRegFile .prv) ∧
      ∀ label ∈ labels, Guarded label := by
  apply run_advances ReturnsToMode (fun state labels => ValidPrv (state.miscRegFile .prv) ∧ ∀ label ∈ labels, Guarded label)
    ?_ ⟨valid, nofun⟩ returns
  intro state past event ⟨valid, guarded⟩ allowed
  obtain ⟨after, label, taken, reached, guard⟩ := step_guarded valid allowed
  refine ⟨after, [label], taken, ?_, ?_⟩
  · rw [reached]
    exact guard.after
  · intro other member
    obtain early | late := mem_concat.mp member
    · exact guarded other early
    · rw [late]
      exact guard

def handover : List HartEvent := [.csr ⟨.csrrw 0x800, CSR_MSTATUS, 0⟩, .mret 0, .exception 9 0, .mret 0]

theorem privilege_integrity_handover : ∃ final labels,
    run Hart.step (.new .rv64 0 16) handover = .ok (final, labels) ∧ ValidPrv (final.miscRegFile .prv) ∧
      ∀ label ∈ labels, Guarded label := by
  apply privilege_integrity
  · exact .inr (.inr rfl)
  · decide +kernel

def reservedReturn : List HartEvent := [.csr ⟨.csrrw 0x1000, CSR_MSTATUS, 0⟩, .mret 0]

theorem privilege_integrity_fails : ∃ final labels,
    run Hart.step (.new .rv64 0 16) reservedReturn = .ok (final, labels) ∧ ¬ ValidPrv (final.miscRegFile .prv) := by
  have reached : (run Hart.step (.new .rv64 0 16) reservedReturn).map (fun ended => ended.1.miscRegFile .prv) = .ok 2 := by rfl
  cases ran : run Hart.step (.new .rv64 0 16) reservedReturn with
  | error =>
    rw [ran] at reached
    cases reached
  | ok ended =>
    rw [ran] at reached
    refine ⟨ended.1, ended.2, rfl, ?_⟩
    rw [(Except.ok.inj reached : ended.1.miscRegFile .prv = 2)]
    decide

/-- An sret does not leave loads and stores with more privilege than it returns to. -/
def LeavesContained (hart : Hart) : HartEvent → Prop
  | .sret _ => hart.miscRegFile .prv ≠ PRV_U → ¬ (hart.miscRegFile .prv = PRV_S ∧ (statusOf hart).tsr = 1) →
      (statusOf hart).mprv = 0 ∨ (statusOf hart).mpp.setWidth 64 ≤ (statusOf hart).spp.setWidth 64
  | _ => True

instance LeavesContained.decidable (hart : Hart) (event : HartEvent) : Decidable (LeavesContained hart event) :=
  match event with
  | .sret _ => inferInstanceAs (Decidable (_ → _ → _))
  | .csr _ | .uret | .mret _ | .exception _ _ | .interrupt | .post _ | .clear _ | .postNMI | .clearNMI | .count _ _ => .isTrue trivial

/-- Below machine mode, MPRV is off or leads to a mode not above the hart's. The bound
on MPP is for a hart in the reserved mode. -/
structure Contained (hart : Hart) : Prop where
  prv : hart.miscRegFile .prv ≤ PRV_M
  view : hart.miscRegFile .prv = PRV_M ∨ (statusOf hart).mprv = 0 ∨
    ((statusOf hart).mpp.setWidth 64 ≤ hart.miscRegFile .prv ∧ (statusOf hart).mpp.setWidth 64 ≤ PRV_S)

theorem encoding_le (mode : PrivilegeMode) : mode.encoding ≤ PRV_M := by
  cases mode <;> decide

theorem Traps.contained (traps : Traps hart after target) (contained : Contained hart) : Contained after := by
  refine ⟨?_, ?_⟩
  · rw [traps.prv]
    exact encoding_le target
  cases target with
  | machine => exact .inl traps.prv
  | supervisor =>
    right
    rw [traps.prv, traps.mprv, traps.mpp (by decide)]
    obtain machine | off | ⟨_, bound⟩ := contained.view
    · exact absurd machine (traps.below rfl)
    · exact .inl off
    · exact .inr ⟨bound, bound⟩
  | user =>
    right
    rw [traps.prv, traps.mprv, traps.mpp (by decide)]
    obtain machine | off | ⟨below, bound⟩ := contained.view
    · rw [traps.user rfl] at machine
      exact absurd machine (by decide)
    · exact .inl off
    · rw [traps.user rfl] at below
      exact .inr ⟨below, bound⟩

theorem spp_le_supervisor (spp : BitVec 1) : spp.setWidth 64 ≤ PRV_S := by
  revert spp
  decide

theorem Moves.contained (moves : Moves hart after event trapped) (contained : Contained hart)
    (leaves : LeavesContained hart event) : Contained after := by
  cases moves with
  | quiet quiet =>
    refine ⟨?_, ?_⟩
    · rw [quiet.prv]
      exact contained.prv
    · rw [quiet.prv, quiet.view.mprv, quiet.view.mpp]
      exact contained.view
  | machine high prv =>
    have machine : hart.miscRegFile .prv = PRV_M := BitVec.le_antisymm contained.prv high
    refine ⟨?_, ?_⟩
    · rw [prv]
      exact contained.prv
    · rw [prv]
      exact .inl machine
  | trap _ traps => exact traps.contained contained
  | sret _ is low untrapped prv view =>
    subst is
    have supervisor := spp_le_supervisor (statusOf hart).spp
    refine ⟨?_, .inr ?_⟩
    · rw [prv]
      exact BitVec.le_trans supervisor (by decide)
    · rw [prv, view.mprv, view.mpp]
      obtain off | below := leaves low untrapped
      · exact .inl off
      · exact .inr ⟨below, BitVec.le_trans below supervisor⟩
  | mret _ _ _ prv mpp =>
    refine ⟨?_, .inr (.inr ?_)⟩
    · rw [prv]
      exact BitVec.not_lt.mp (mpp_le _)
    · rw [mpp]
      exact ⟨Nat.zero_le _, by decide⟩

theorem run_contained {start final : Hart} {events : List HartEvent} {labels : List HartLabel} (contained : Contained start)
    (leaves : Each Hart.step LeavesContained start events) (ran : run Hart.step start events = .ok (final, labels)) : Contained final := by
  refine run_keeps LeavesContained Contained ?_ contained leaves ran
  intro state event after made kept allowed taken
  obtain ⟨⟨_, _⟩, happened, same⟩ := of_bind taken
  cases same
  exact (happen_moves happened).contained kept allowed

/-- In every run from reset in which each sret leaves loads and stores contained, they
run below machine mode with no more privilege than the hart. -/
theorem memory_privilege_contained (rvType : RiscvType) (contextId : RegVal) (pmpEntries : Nat) (entry : Addr) (events : List HartEvent)
    (leaves : Each Hart.step LeavesContained ((Hart.new rvType contextId pmpEntries).reset entry) events) {final : Hart}
    {labels : List HartLabel} (ran : run Hart.step ((Hart.new rvType contextId pmpEntries).reset entry) events = .ok (final, labels))
    (lower : final.miscRegFile .prv = PRV_S ∨ final.miscRegFile .prv = PRV_U) (mode : AccessMode) :
    (final.getMemPriv mode).1 ≤ final.miscRegFile .prv := by
  have start : Contained ((Hart.new rvType contextId pmpEntries).reset entry) := ⟨BitVec.le_refl PRV_M, .inl rfl⟩
  have contained := run_contained start leaves ran
  have view := readStatus_view final
  have below : final.miscRegFile .prv ≠ PRV_M := by
    obtain supervisor | user := lower
    · rw [supervisor]
      decide
    · rw [user]
      decide
  change (if mode ≠ .execute ∧ final.readStatus.1.mprv = 1 then final.readStatus.1.mpp.setWidth 64 else final.miscRegFile .prv) ≤ _
  split
  next modified =>
    rw [view.mpp]
    obtain machine | off | ⟨bound, _⟩ := contained.view
    · exact absurd machine below
    · rw [view.mprv, off] at modified
      exact absurd modified.2 (by decide)
    · exact bound
  next => exact BitVec.le_refl _

def supervised : List HartEvent := [.csr ⟨.csrrw 0x20900, CSR_MSTATUS, 0⟩, .sret 0]

theorem memory_privilege_supervised : ∃ final labels,
    run Hart.step ((Hart.new .rv64 0 16).reset 0) supervised = .ok (final, labels) ∧
      final.miscRegFile .prv = PRV_S ∧ (final.getMemPriv .read).1 ≤ final.miscRegFile .prv := by
  have reached : (run Hart.step ((Hart.new .rv64 0 16).reset 0) supervised).map (fun ended => ended.1.miscRegFile .prv) =
    .ok PRV_S := by rfl
  cases ran : run Hart.step ((Hart.new .rv64 0 16).reset 0) supervised with
  | error =>
    rw [ran] at reached
    cases reached
  | ok ended =>
    rw [ran] at reached
    have prv : ended.1.miscRegFile .prv = PRV_S := Except.ok.inj reached
    refine ⟨ended.1, ended.2, rfl, prv, ?_⟩
    exact memory_privilege_contained .rv64 0 16 0 supervised (by decide +kernel) ran (.inl prv) .read

def escaped : List HartEvent := [.csr ⟨.csrrw 0x21900, CSR_MSTATUS, 0⟩, .sret 0]

theorem memory_privilege_fails : ∃ final labels,
    run Hart.step ((Hart.new .rv64 0 16).reset 0) escaped = .ok (final, labels) ∧
      final.miscRegFile .prv = PRV_S ∧ (final.getMemPriv .read).1 = PRV_M := by
  have reached : (run Hart.step ((Hart.new .rv64 0 16).reset 0) escaped).map
    (fun ended => (ended.1.miscRegFile .prv, (ended.1.getMemPriv .read).1)) = .ok (PRV_S, PRV_M) := by rfl
  cases ran : run Hart.step ((Hart.new .rv64 0 16).reset 0) escaped with
  | error =>
    rw [ran] at reached
    cases reached
  | ok ended =>
    rw [ran] at reached
    have both := Except.ok.inj reached
    exact ⟨ended.1, ended.2, rfl, congrArg (·.1) both, congrArg (·.2) both⟩

end ImcGem5.Riscv.Proofs.Privilege

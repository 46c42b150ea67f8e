import ImcGem5.Proofs.Privilege

/-! Returning from a trap undoes its entry. -/

namespace ImcGem5.Riscv.Proofs.TrapReturn
open Lib Mem Proofs.Privilege BitVec Hart

def xret (hart : Hart) (machInst : BitVec 32) : PrivilegeMode → Hart × Executed
  | .user => (hart.uret, .done 0)
  | .supervisor => hart.sret machInst
  | .machine => hart.mret machInst

def xIE (status : STATUS) : PrivilegeMode → BitVec 1
  | .user => status.uie
  | .supervisor => status.sie
  | .machine => status.mie

def stacked : PrivilegeMode → Nat → Prop
  | .user, index => index = 4
  | .supervisor, index => index = 5 ∨ index = 8
  | .machine, index => index = 7 ∨ index = 11 ∨ index = 12

def unstackStatus (status : STATUS) : PrivilegeMode → STATUS
  | .user => (status.setUie status.upie).setUpie 1
  | .supervisor => ((status.setSie status.spie).setSpie 1).setSpp 0
  | .machine => ((status.setMie status.mpie).setMpie 1).setMpp 0

/-! Fields of the status -/

def SameBut (but : Nat → Prop) (first second : BitVec 64) : Prop :=
  ∀ index < 64, ¬but index → second.getLsbD index = first.getLsbD index

section SameBut
variable {but wider : Nat → Prop} {first second third : BitVec 64}

theorem SameBut.trans (early : SameBut but first second) (late : SameBut but second third) : SameBut but first third :=
  fun index inside outside => (late index inside outside).trans (early index inside outside)

theorem SameBut.mono (same : SameBut but first second) (implies : ∀ index, but index → wider index) : SameBut wider first second :=
  fun index inside outside => same index inside fun differs => outside (implies index differs)

variable {length : Nat}

theorem SameBut.field (same : SameBut but first second) {start : Nat} (fits : start + length ≤ 64)
    (outside : ∀ index, start ≤ index → index < start + length → ¬but index) :
    second.extractLsb' start length = first.extractLsb' start length := by
  apply eq_of_getLsbD_eq
  intro index inside
  rw [getLsbD_extractLsb', getLsbD_extractLsb', same (start + index) (by omega) (outside (start + index) (by omega) (by omega))]

theorem insertField_sameBut (word : BitVec 64) (start : Nat) (value : BitVec length) :
    SameBut (fun index => start ≤ index ∧ index < start + length) word (insertField word start value) := by
  intro index inside outside
  rw [getLsbD_insertField _ _ _ _ inside, if_neg outside]

end SameBut

def isSd (rvType : RiscvType) (index : Nat) : Prop := index = STATUS.sd rvType

theorem setSd_sameBut (status : STATUS) (rvType : RiscvType) (value : BitVec 1) :
    SameBut (isSd rvType) status (status.setSd rvType value) :=
  (insertField_sameBut status (STATUS.sd rvType) value).mono fun _ _ => by
    unfold isSd
    omega

def position : PrivilegeMode → Nat
  | .user => 0
  | .supervisor => 1
  | .machine => 3

theorem xIE_eq (word : STATUS) (mode : PrivilegeMode) : xIE word mode = word.extractLsb' (position mode) 1 := by
  cases mode <;> rfl

def touched (mode : PrivilegeMode) (index : Nat) : Prop := stacked mode index ∨ index = position mode

theorem touched_low {mode : PrivilegeMode} {index : Nat} (touches : touched mode index) : index < 13 := by
  cases mode with
  | user | supervisor | machine => simp only [touched, stacked, position] at touches; omega

theorem insert_touches {mode : PrivilegeMode} (word : STATUS) {start : Nat} (value : BitVec length)
    (within : ∀ index, start ≤ index → index < start + length → touched mode index) :
    SameBut (touched mode) word (insertField word start value) :=
  (insertField_sameBut word start value).mono fun index inside => within index inside.1 inside.2

/-- A trap and its return write the same fields of the status. -/
theorem stacking_touches (status : STATUS) (pp : RegVal) (mode : PrivilegeMode) :
    SameBut (touched mode) status (stackStatus status pp mode) ∧ SameBut (touched mode) status (unstackStatus status mode) := by
  cases mode with
  | user => constructor <;> refine (insert_touches _ _ ?_).trans (insert_touches _ _ ?_) <;> simp only [touched, stacked, position] <;> omega
  | supervisor | machine =>
    constructor <;> refine ((insert_touches _ _ ?_).trans (insert_touches _ _ ?_)).trans (insert_touches _ _ ?_) <;>
      simp only [touched, stacked, position] <;> omega

theorem setStatus_exact (hart : Hart) {mode : PrivilegeMode} {val : STATUS} (same : SameBut (touched mode) (statusOf hart) val) :
    statusOf (hart.setStatus val) = val := by
  unfold statusOf setStatus
  rw [set_same, legalStatus]
  cases hart.rvType with
  | rv32 => rfl
  | rv64 =>
    apply eq_of_getLsbD_eq
    intro index inside
    simp only [getLsbD_or, getLsbD_and, getLsbD_not, inside, decide_true, Bool.true_and]
    by_cases touches : touched mode index
    · have low := touched_low touches
      have unwired : ∀ i < 13, (STATUS_SXL_MASK ||| STATUS_UXL_MASK).getLsbD i = false := by decide
      rw [← getLsbD_or, unwired index low]
      simp
    · rw [show (hart.miscRegFile .status).getLsbD index = val.getLsbD index from (same index inside touches).symm, ← getLsbD_or]
      cases (STATUS_SXL_MASK ||| STATUS_UXL_MASK).getLsbD index <;> simp

/-! Stacking and unstacking -/

section Stack
variable {status read : STATUS} {rvType : RiscvType} {pp : RegVal}

theorem sd_above (rvType : RiscvType) {index : Nat} (low : index < 13) : ¬isSd rvType index := by
  unfold isSd STATUS.sd
  cases rvType with
  | rv32 | rv64 => dsimp only; omega

theorem field_read (same : SameBut (isSd rvType) status read) {start : Nat} (low : start + length ≤ 13) :
    read.extractLsb' start length = status.extractLsb' start length :=
  same.field (by omega) fun _ _ _ => sd_above rvType (by omega)

theorem extract_below {size : Nat} (word : BitVec 64) (first : BitVec length) (second : BitVec size) {start other : Nat}
    (fits : start + length ≤ 64) (apart : start + length ≤ other ∨ other + size ≤ start) :
    (insertField (insertField word start first) other second).extractLsb' start length = first :=
  (extract_insertField_other _ _ _ fits apart).trans (extract_insertField_same _ _ _ fits)

theorem unstack_xIE (mode : PrivilegeMode) (same : SameBut (isSd rvType) (stackStatus status pp mode) read) :
    xIE (unstackStatus read mode) mode = xIE status mode := by
  cases mode with
  | user =>
    have pie : read.upie = status.uie :=
      (field_read same (by decide)).trans (extract_below _ _ _ (by decide) (by decide))
    exact (extract_below _ _ _ (by decide) (by decide)).trans pie
  | supervisor =>
    have pie : read.spie = status.sie :=
      (field_read same (by decide)).trans (extract_below _ _ _ (by decide) (by decide))
    refine (extract_insertField_other _ _ _ (by decide) (by decide)).trans ?_
    exact (extract_below _ _ _ (by decide) (by decide)).trans pie
  | machine =>
    have pie : read.mpie = status.mie :=
      (field_read same (by decide)).trans (extract_below _ _ _ (by decide) (by decide))
    refine (extract_insertField_other _ _ _ (by decide) (by decide)).trans ?_
    exact (extract_below _ _ _ (by decide) (by decide)).trans pie

theorem read_spp (same : SameBut (isSd rvType) (stackStatus status pp .supervisor) read) : read.spp = pp.setWidth 1 := by
  refine (field_read same (by decide)).trans ((extract_insertField_other _ _ _ (by decide) (by decide)).trans ?_)
  exact extract_below _ _ _ (by decide) (by decide)

theorem read_mpp (same : SameBut (isSd rvType) (stackStatus status pp .machine) read) : read.mpp = pp.setWidth 2 := by
  refine (field_read same (by decide)).trans ((extract_insertField_other _ _ _ (by decide) (by decide)).trans ?_)
  exact extract_below _ _ _ (by decide) (by decide)

theorem unstack_sameBut (mode : PrivilegeMode) (same : SameBut (isSd rvType) (stackStatus status pp mode) read) :
    SameBut (fun index => stacked mode index ∨ isSd rvType index) status (unstackStatus read mode) := by
  intro index inside outside
  by_cases enable : index = position mode
  · subst enable
    have back := congrArg (fun field => field.getLsbD 0) (unstack_xIE mode same)
    rw [xIE_eq, xIE_eq] at back
    simpa [getLsbD_extractLsb'] using back
  · have untouched : ¬touched mode index := by
      rintro (pushed | enables)
      · exact outside (.inl pushed)
      · exact enable enables
    rw [(stacking_touches read 0 mode).2 index inside untouched, same index inside fun sd => outside (.inr sd),
      (stacking_touches status pp mode).1 index inside untouched]

end Stack

/-! Entering a trap -/

section Invoke
variable (hart : Hart) (fault : RiscvFault)

structure Entered (entered : Hart) (mode : PrivilegeMode) : Prop where
  prv : entered.miscRegFile .prv = mode.encoding
  status : statusOf entered = Hart.stackStatus hart.readStatus.1 (hart.miscRegFile .prv) mode
  epc : entered.miscRegFile (Hart.trapRegs fault mode).epc = hart.pc
  isa : entered.miscRegFile .isa = hart.miscRegFile .isa
  rvType : entered.rvType = hart.rvType

theorem setStatus_stacked (middle : Hart) (mode : PrivilegeMode) (kept : statusOf middle = hart.readStatus.1) :
    statusOf (middle.setStatus (stackStatus hart.readStatus.1 (hart.miscRegFile .prv) mode)) =
      stackStatus hart.readStatus.1 (hart.miscRegFile .prv) mode := by
  refine @setStatus_exact middle mode _ ?_
  rw [kept]
  exact (stacking_touches _ _ _).1

variable {idx : MiscReg}

theorem trapRegs_apart (mode : PrivilegeMode) (plain : idx = .status ∨ idx = .isa) :
    idx ≠ (trapRegs fault mode).cause ∧ idx ≠ (trapRegs fault mode).epc ∧ idx ≠ (trapRegs fault mode).tval := by
  cases mode <;> obtain rfl | rfl := plain <;> exact ⟨nofun, nofun, nofun⟩

theorem epc_apart (mode : PrivilegeMode) : (trapRegs fault mode).epc ≠ (trapRegs fault mode).tval ∧
    (trapRegs fault mode).epc ≠ .prv ∧ (trapRegs fault mode).epc ≠ .status ∧ (trapRegs fault mode).epc ≠ .nmie := by
  cases mode <;> exact ⟨nofun, nofun, nofun, nofun⟩

theorem invoke_entered : Entered hart fault (hart.invoke fault) (hart.handlerMode fault) := by
  have mode : hart.readStatus.2.handlerMode fault = hart.handlerMode fault := rfl
  refine ⟨(invoke_traps hart fault).prv, ?_, ?_, ?_, ?_⟩
  · obtain ⟨cause, epc, tval⟩ := trapRegs_apart fault (hart.handlerMode fault) (.inl rfl)
    unfold invoke statusOf
    dsimp only
    split
    all_goals
      try rw [set_other _ (by decide)]
      refine setStatus_stacked hart _ (hart.handlerMode fault) ?_
      unfold statusOf
      rw [set_other _ (by decide), mode, set_other _ tval, set_other _ epc, set_other _ cause]
      exact readStatus_status hart
  · obtain ⟨tval, prv, status, nmie⟩ := epc_apart fault (hart.handlerMode fault)
    unfold invoke
    dsimp only
    split
    all_goals
      try rw [set_other _ nmie]
      rw [setStatus_other _ _ status, set_other _ prv, mode, set_other _ tval, set_same]
      rfl
  · obtain ⟨cause, epc, tval⟩ := trapRegs_apart fault (hart.handlerMode fault) (.inr rfl)
    unfold invoke
    dsimp only
    split
    all_goals
      try rw [set_other _ (by decide)]
      rw [setStatus_other _ _ (by decide), set_other _ (by decide), mode, set_other _ tval, set_other _ epc, set_other _ cause]
      exact readStatus_other hart (by decide)
  · unfold invoke
    dsimp only
    split
    · rfl
    · rfl

end Invoke

/-! Returning from it -/

/-- The pc is aligned to 2 bytes, or to 4 when compressed instructions are disabled. -/
def Aligned (hart : Hart) : Prop :=
  if (hart.miscRegFile .isa).getLsbD 2 then hart.pc.getLsbD 0 = false else hart.pc.getLsbD 0 = false ∧ hart.pc.getLsbD 1 = false

instance Aligned.decidable (hart : Hart) : Decidable (Aligned hart) := by
  unfold Aligned
  infer_instance

theorem mbitsFrom_eq {value : BitVec 64} {last : Nat} (clear : ∀ index < last, value.getLsbD index = false) : mbitsFrom value last = value := by
  apply eq_of_getLsbD_eq
  intro index inside
  rw [mbitsFrom, getLsbD_shiftLeft, getLsbD_ushiftRight, decide_eq_true inside, Bool.true_and]
  by_cases low : index < last
  · simp [low, clear index low]
  · simp [low, show last + (index - last) = index by omega]

theorem readEpc_eq {hart entered : Hart} (aligned : Aligned hart) (isa : entered.miscRegFile .isa = hart.miscRegFile .isa)
    (epc : entered.miscRegFile idx = hart.pc) : entered.readEpc idx = hart.pc := by
  rw [readEpc, isa, epc]
  unfold Aligned at aligned
  split
  next compressed =>
    rw [if_pos compressed] at aligned
    refine mbitsFrom_eq fun index low => ?_
    obtain rfl : index = 0 := by omega
    exact aligned
  next uncompressed =>
    rw [if_neg uncompressed] at aligned
    refine mbitsFrom_eq fun index low => ?_
    obtain rfl | rfl : index = 0 ∨ index = 1 := by omega
    · exact aligned.1
    · exact aligned.2

/-- The mode, its interrupt-enable bit and the pc are back, and no other bit of the status has changed but those that hold what
was stacked, and SD. -/
structure Undone (hart after : Hart) (mode : PrivilegeMode) : Prop where
  prv : after.miscRegFile .prv = hart.miscRegFile .prv
  xIE : xIE (statusOf after) mode = xIE (statusOf hart) mode
  pc : after.pc = hart.pc
  status : SameBut (fun index => stacked mode index ∨ isSd hart.rvType index) (statusOf hart) (statusOf after)

section Return
variable {hart entered : Hart} {fault : RiscvFault} {mode : PrivilegeMode}

theorem readStatus_sameBut (hart : Hart) : SameBut (isSd hart.rvType) (statusOf hart) hart.readStatus.1 := setSd_sameBut _ _ _

theorem Entered.read (enters : Entered hart fault entered mode) :
    SameBut (isSd hart.rvType) (stackStatus hart.readStatus.1 (hart.miscRegFile .prv) mode) entered.readStatus.1 := by
  rw [← enters.status, ← enters.rvType]
  exact readStatus_sameBut entered

theorem setStatus_unstacked (middle : Hart) (mode : PrivilegeMode) {read : STATUS} (kept : statusOf middle = read) :
    statusOf (middle.setStatus (unstackStatus read mode)) = unstackStatus read mode := by
  refine @setStatus_exact middle mode _ ?_
  rw [kept]
  exact (stacking_touches _ 0 _).2

theorem Entered.undone (enters : Entered hart fault entered mode) {after : Hart} (prv : after.miscRegFile .prv = hart.miscRegFile .prv)
    (pc : after.pc = hart.pc) (status : statusOf after = unstackStatus entered.readStatus.1 mode) : Undone hart after mode := by
  have read := readStatus_sameBut hart
  refine ⟨prv, ?_, pc, ?_⟩
  · rw [status, unstack_xIE mode enters.read, xIE_eq, xIE_eq]
    exact field_read read (by cases mode <;> decide)
  · rw [status]
    exact (read.mono fun _ sd => .inr sd).trans (unstack_sameBut mode enters.read)

theorem setStatus_keeps (middle : Hart) (val : STATUS) (apart : idx ≠ .status) {value : RegVal}
    (kept : middle.miscRegFile idx = value) : (middle.setStatus val).miscRegFile idx = value := by
  rw [setStatus_other middle val apart, kept]

theorem set_keeps (middle : Hart) {other : MiscReg} (apart : other ≠ idx) (val : RegVal) {value : RegVal}
    (kept : middle.miscRegFile other = value) : (middle.set idx val).miscRegFile other = value := by
  rw [set_other middle apart val, kept]

theorem Entered.returned (enters : Entered hart fault entered mode) (aligned : Aligned hart) {middle : Hart}
    (kept : statusOf middle = entered.readStatus.1) (prv : middle.miscRegFile .prv = hart.miscRegFile .prv)
    (isa : middle.miscRegFile .isa = hart.miscRegFile .isa) (epc : middle.miscRegFile idx = hart.pc) (apart : idx ≠ .status) :
    Undone hart { middle.setStatus (unstackStatus entered.readStatus.1 mode) with
      pc := (middle.setStatus (unstackStatus entered.readStatus.1 mode)).readEpc idx } mode := by
  refine enters.undone ?_ ?_ ?_
  · exact setStatus_keeps middle (unstackStatus entered.readStatus.1 mode) (by decide) prv
  · exact readEpc_eq aligned (setStatus_keeps middle _ (by decide) isa) (setStatus_keeps middle _ apart epc)
  · exact setStatus_unstacked middle mode kept

theorem uret_undone (enters : Entered hart fault entered .user) (user : hart.miscRegFile .prv = PRV_U) : Undone hart entered.uret .user := by
  have prv : entered.readStatus.2.miscRegFile .prv = hart.miscRegFile .prv := by
    rw [readStatus_other entered (by decide), enters.prv, user]
    rfl
  have uepc : entered.readStatus.2.miscRegFile .uepc = hart.pc := (readStatus_other entered (by decide)).trans enters.epc
  refine enters.undone ?_ ?_ ?_
  · exact setStatus_keeps entered.readStatus.2 (unstackStatus entered.readStatus.1 .user) (by decide) prv
  · exact setStatus_keeps entered.readStatus.2 (unstackStatus entered.readStatus.1 .user) (by decide) uepc
  · exact setStatus_unstacked entered.readStatus.2 .user (readStatus_status entered)

theorem Entered.tsr (enters : Entered hart fault entered mode) : entered.readStatus.1.tsr = (statusOf hart).tsr := by
  have apart : ∀ index, 22 ≤ index → index < 22 + 1 → ¬isSd hart.rvType index := by
    intro index above below
    unfold isSd STATUS.sd
    cases hart.rvType with
    | rv32 | rv64 => dsimp only; omega
  have above : ∀ index, 22 ≤ index → index < 22 + 1 → ¬touched mode index := by
    intro index high _ touches
    have low := touched_low touches
    omega
  calc entered.readStatus.1.tsr
      = (stackStatus hart.readStatus.1 (hart.miscRegFile .prv) mode).tsr := enters.read.field (by decide) apart
    _ = hart.readStatus.1.tsr := (stacking_touches _ _ mode).1.field (by decide) above
    _ = (statusOf hart).tsr := (readStatus_sameBut hart).field (by decide) apart

theorem sret_undone (enters : Entered hart fault entered .supervisor) (aligned : Aligned hart)
    (low : hart.miscRegFile .prv = PRV_U ∨ hart.miscRegFile .prv = PRV_S) (tsr : (statusOf hart).tsr = 0) (machInst : BitVec 32) :
    ∃ after, entered.sret machInst = (after, .done 0) ∧ Undone hart after .supervisor := by
  have supervisor : entered.readStatus.2.miscRegFile .prv = PRV_S := (readStatus_other entered (by decide)).trans enters.prv
  have allowed : ¬(PRV_S = PRV_U ∨ (PRV_S = PRV_S ∧ (0 : BitVec 1) = 1)) := by decide
  have isa : entered.readStatus.2.miscRegFile .isa = hart.miscRegFile .isa := (readStatus_other entered (by decide)).trans enters.isa
  have sepc : entered.readStatus.2.miscRegFile .sepc = hart.pc := (readStatus_other entered (by decide)).trans enters.epc
  have spp : (entered.readStatus.1.spp.setWidth 64 : RegVal) = hart.miscRegFile .prv := by
    rw [read_spp enters.read]
    obtain is | is := low <;> rw [is] <;> decide
  unfold sret
  dsimp only
  rw [supervisor, enters.tsr, tsr, if_neg allowed]
  refine ⟨_, rfl, enters.returned aligned ?_ ?_ ?_ ?_ (by decide)⟩
  · exact set_keeps _ (by decide) _ (readStatus_status entered)
  · rw [set_same, spp]
  · exact set_keeps _ (by decide) _ isa
  · exact set_keeps _ (by decide) _ sepc

theorem mret_undone (enters : Entered hart fault entered .machine) (aligned : Aligned hart) (valid : ValidPrv (hart.miscRegFile .prv))
    (machInst : BitVec 32) : ∃ after, entered.mret machInst = (after, .done 0) ∧ Undone hart after .machine := by
  have machine : ¬entered.miscRegFile .prv ≠ PRV_M := not_not.mpr enters.prv
  have isa : entered.readStatus.2.miscRegFile .isa = hart.miscRegFile .isa := (readStatus_other entered (by decide)).trans enters.isa
  have mepc : entered.readStatus.2.miscRegFile .mepc = hart.pc := (readStatus_other entered (by decide)).trans enters.epc
  have mpp : (entered.readStatus.1.mpp.setWidth 64 : RegVal) = hart.miscRegFile .prv := by
    rw [read_mpp enters.read]
    obtain is | is | is := valid <;> rw [is] <;> decide
  unfold mret
  rw [if_neg machine]
  refine ⟨_, rfl, enters.returned aligned ?_ ?_ ?_ ?_ (by decide)⟩
  · exact set_keeps _ (by decide) _ (set_keeps _ (by decide) _ (readStatus_status entered))
  · exact set_keeps _ (by decide) _ ((set_same _ _ _).trans mpp)
  · exact set_keeps _ (by decide) _ (set_keeps _ (by decide) _ isa)
  · exact set_keeps _ (by decide) _ (set_keeps _ (by decide) _ mepc)

end Return

/-- The return of the mode that a fault traps into, executed as the handler's first instruction, undoes the trap. -/
theorem trap_return (hart : Hart) (fault : RiscvFault) (valid : ValidPrv (hart.miscRegFile .prv)) (aligned : Aligned hart)
    (tsr : (statusOf hart).tsr = 0) (machInst : BitVec 32) :
    ∃ after, xret (hart.invoke fault) machInst (hart.handlerMode fault) = (after, .done 0) ∧
      Undone hart after (hart.handlerMode fault) := by
  have enters := invoke_entered hart fault
  cases mode : hart.handlerMode fault with
  | user =>
    rw [mode] at enters
    exact ⟨_, rfl, uret_undone enters (handlerMode_user mode)⟩
  | supervisor =>
    rw [mode] at enters
    have low : hart.miscRegFile .prv = PRV_U ∨ hart.miscRegFile .prv = PRV_S := by
      obtain user | supervisor | machine := valid
      · exact .inl user
      · exact .inr supervisor
      · exact absurd machine (handlerMode_supervisor mode)
    exact sret_undone enters aligned low tsr machInst
  | machine =>
    rw [mode] at enters
    exact mret_undone enters aligned valid machInst

def delegatedCall : Hart :=
  let hart := ((Hart.new .rv64 0 16).set .prv PRV_U).set .medeleg 0x100
  { hart.set .status 0x2 with pc := 0x1002 }

theorem trap_return_delegatedCall : delegatedCall.handlerMode ⟨.others, 8, 0⟩ = .supervisor ∧
    ∃ after, xret (delegatedCall.invoke ⟨.others, 8, 0⟩) 0 (delegatedCall.handlerMode ⟨.others, 8, 0⟩) = (after, .done 0) ∧
      Undone delegatedCall after (delegatedCall.handlerMode ⟨.others, 8, 0⟩) := by
  refine ⟨by decide +kernel, trap_return delegatedCall ⟨.others, 8, 0⟩ ?_ ?_ ?_ 0⟩
  · exact .inl rfl
  · decide +kernel
  · decide +kernel

end ImcGem5.Riscv.Proofs.TrapReturn

import ImcGem5.Proofs.Pmp
import ImcGem5.Proofs.Privilege

/-! A restored hart has its registers back, and a memory protection without rules. -/

namespace ImcGem5.Riscv.Proofs.Checkpoint
open Lib Mem Proofs.Pmp Hart BitVec

variable {hart after : Hart}

def Decodes (hart after : Hart) : Prop := Synced hart.pmp → Synced after.pmp

theorem Decodes.refl (hart : Hart) : Decodes hart hart := id

theorem Decodes.trans {middle : Hart} (early : Decodes hart middle) (late : Decodes middle after) : Decodes hart after :=
  late ∘ early

theorem decodes_of_same (same : after.pmp = hart.pmp) : Decodes hart after := by
  intro synced
  rw [same]
  exact synced

theorem setPmpCfg_decodes (hart : Hart) (idx : Fin 4) (val : RegVal) : Decodes hart (hart.setPmpCfg idx val) := by
  have bytes : ∀ (positions : List Nat) (old : RegVal) (written : PMP × RegVal), Synced written.1 →
      Synced (positions.foldl (writeCfgByte idx old val) written).1 := by
    intro positions old
    induction positions with
    | nil => exact fun _ synced => synced
    | cons i _ ih =>
      intro written synced
      exact ih _ (apply_synced synced (.updateCfg (i + 4 * idx) (val.extractLsb' (8 * i) 8)))
  intro synced
  exact bytes _ _ (hart.pmp, 0) synced

theorem setPmpAddr_decodes (hart : Hart) (idx : Fin 16) (val : RegVal) : Decodes hart (hart.setPmpAddr idx val) := by
  intro synced
  have updated : Synced (hart.pmp.pmpUpdateAddr idx val).1 := apply_synced synced (.updateAddr idx val)
  unfold setPmpAddr
  dsimp only
  split
  · exact updated
  · exact updated

theorem readMiscReg_pmp {idx : MiscReg} {value : RegVal} (read : hart.readMiscReg idx = .ok (value, after)) : after.pmp = hart.pmp := by
  have counter : ∀ hpmcounter current, hart.readCounter hpmcounter current = .ok (value, after) → after.pmp = hart.pmp := by
    intro hpmcounter current counted
    obtain ⟨_, _, same⟩ := of_bind counted
    cases same
    rfl
  unfold readMiscReg at read
  split at read
  all_goals first
    | exact counter _ _ read
    | (cases read; rfl)

theorem setMiscReg_decodes {idx : MiscReg} {val : RegVal} (written : hart.setMiscReg idx val = .ok after) : Decodes hart after := by
  unfold setMiscReg at written
  split at written
  all_goals first
    | (obtain ⟨_, _, same⟩ := of_bind written; cases same; exact setPmpCfg_decodes _ _ _)
    | (obtain ⟨_, _, same⟩ := of_bind written; cases same; exact setPmpAddr_decodes _ _ _)
    | (cases written; exact decodes_of_same rfl)

variable {midx : MiscReg}

theorem readCsr_pmp {csr : CSRIndex} {value : RegVal} (read : hart.readCsr csr midx = .ok (value, after)) : after.pmp = hart.pmp := by
  unfold readCsr at read
  split at read
  · cases read
    rfl
  · exact readMiscReg_pmp read

theorem writeCsr_decodes {csr : CSRIndex} {data old new : RegVal}
    (written : hart.writeCsr csr midx data old new = .ok (some after)) : Decodes hart after := by
  unfold writeCsr at written
  split at written
  · cases written
    exact decodes_of_same rfl
  split at written
  · split at written
    · obtain ⟨middle, set, same⟩ := of_bind written
      cases same
      exact setMiscReg_decodes set
    · cases written
  · obtain ⟨middle, set, same⟩ := of_bind written
    cases same
    exact setMiscReg_decodes set

theorem accessCsr_decodes {inst : CsrInst} {executed : Executed}
    (accessed : hart.accessCsr inst midx = .ok (after, executed)) : Decodes hart after := by
  obtain ⟨⟨_, middle⟩, read, rest⟩ := of_bind accessed
  have kept : Decodes hart middle := decodes_of_same (readCsr_pmp read)
  dsimp only at rest
  split at rest
  · cases rest
    exact kept
  split at rest
  · cases rest
    exact kept
  obtain ⟨written, writes, rest⟩ := of_bind rest
  cases written with
  | none =>
    cases rest
    exact kept
  | some =>
    cases rest
    exact kept.trans (writeCsr_decodes writes)

theorem executeCsr_decodes {inst : CsrInst} {executed : Executed} (ran : hart.executeCsr inst = .ok (after, executed)) :
    Decodes hart after := by
  have satp : (hart.satpTrapped inst.csr).2.pmp = hart.pmp := by
    unfold satpTrapped
    split
    · rfl
    · rfl
  unfold executeCsr at ran
  dsimp only at ran
  split at ran
  · cases ran
    exact .refl hart
  split at ran
  · cases ran
    exact .refl hart
  split at ran
  · cases ran
    exact .refl hart
  split at ran
  · cases ran
    exact decodes_of_same satp
  · exact (decodes_of_same satp).trans (accessCsr_decodes ran)

theorem invoke_pmp (hart : Hart) (fault : RiscvFault) : (hart.invoke fault).pmp = hart.pmp := by
  unfold invoke
  dsimp only
  split
  · rfl
  · rfl

theorem globalMask_pmp {mask : BitVec NumInterruptTypes} (masked : hart.globalMask = .ok (mask, after)) : after.pmp = hart.pmp := by
  unfold globalMask at masked
  dsimp only at masked
  split at masked
  · cases masked
    rfl
  split at masked
  · cases masked
    rfl
  split at masked
  · cases masked
    rfl
  · cases masked

theorem checkInterrupts_pmp {check : Bool} (checked : hart.checkInterrupts = .ok (check, after)) : after.pmp = hart.pmp := by
  unfold checkInterrupts at checked
  split at checked
  · cases checked
    rfl
  · obtain ⟨⟨_, _⟩, masked, same⟩ := of_bind checked
    cases same
    exact globalMask_pmp masked

theorem getInterrupt_pmp {fault : Option RiscvFault} (got : hart.getInterrupt = .ok (fault, after)) : after.pmp = hart.pmp := by
  obtain ⟨⟨_, middle⟩, checked, rest⟩ := of_bind got
  obtain ⟨_, _, rest⟩ := of_bind rest
  have kept : middle.pmp = hart.pmp := checkInterrupts_pmp checked
  split at rest
  · cases rest
    exact kept
  · obtain ⟨⟨_, _⟩, masked, same⟩ := of_bind rest
    cases same
    exact (globalMask_pmp masked).trans kept

theorem takeInterrupt_pmp {trapped : Bool} (taken : hart.takeInterrupt = .ok (after, trapped)) : after.pmp = hart.pmp := by
  obtain ⟨⟨_, middle⟩, checked, rest⟩ := of_bind taken
  have kept : middle.pmp = hart.pmp := checkInterrupts_pmp checked
  dsimp only at rest
  split at rest
  · obtain ⟨⟨fault, _⟩, got, rest⟩ := of_bind rest
    have later := (getInterrupt_pmp got).trans kept
    cases fault with
    | none =>
      cases rest
      exact later
    | some =>
      cases rest
      exact (invoke_pmp _ _).trans later
  · cases rest
    exact kept

theorem finish_pmp (hart : Hart) (executed : Executed) : (hart.finish executed).1.pmp = hart.pmp := by
  cases executed with
  | done => rfl
  | faulted fault => exact invoke_pmp hart fault

theorem finishReturn_pmp (hart : Hart) (executed : Executed) : (hart.finishReturn executed).1.pmp = hart.pmp := by
  cases executed with
  | done => rfl
  | faulted fault => exact invoke_pmp hart fault

theorem sret_pmp (hart : Hart) (machInst : BitVec 32) : (hart.sret machInst).1.pmp = hart.pmp := by
  unfold sret
  dsimp only
  split
  · rfl
  · rfl

theorem mret_pmp (hart : Hart) (machInst : BitVec 32) : (hart.mret machInst).1.pmp = hart.pmp := by
  unfold mret
  split
  · rfl
  · rfl

theorem happen_decodes {event : HartEvent} {trapped : Bool} (happened : hart.happen event = .ok (after, trapped)) :
    Decodes hart after := by
  cases event with
  | csr =>
    obtain ⟨⟨middle, executed⟩, ran, same⟩ := of_bind happened
    have last : after = (middle.finish executed).1 := (congrArg (·.1) (Except.ok.inj same)).symm
    rw [last]
    exact (executeCsr_decodes ran).trans (decodes_of_same (finish_pmp middle executed))
  | sret machInst =>
    have last : after = _ := (congrArg (·.1) (Except.ok.inj happened)).symm
    rw [last]
    exact decodes_of_same ((finishReturn_pmp _ _).trans (sret_pmp hart machInst))
  | mret machInst =>
    have last : after = _ := (congrArg (·.1) (Except.ok.inj happened)).symm
    rw [last]
    exact decodes_of_same ((finishReturn_pmp _ _).trans (mret_pmp hart machInst))
  | interrupt => exact decodes_of_same (takeInterrupt_pmp happened)
  | exception =>
    cases happened
    exact decodes_of_same (invoke_pmp _ _)
  | uret | post | clear | postNMI | clearNMI | count =>
    cases happened
    exact decodes_of_same rfl

theorem operate_decodes {op : HartOp} {labels : List HartLabel} (taken : hart.operate op = .ok (after, labels)) : Decodes hart after := by
  cases op with
  | event =>
    obtain ⟨⟨_, _⟩, happened, same⟩ := of_bind taken
    cases same
    exact happen_decodes happened
  | resetThread =>
    cases taken
    intro synced
    exact apply_synced synced .reset

theorem run_decoded {rvType : RiscvType} {contextId : RegVal} {pmpEntries : Nat} {ops : List HartOp} {final : Hart}
    {labels : List HartLabel} (ran : run operate (.new rvType contextId pmpEntries) ops = .ok (final, labels)) : Synced final.pmp := by
  refine run_keeps (fun _ _ => True) (fun state => Synced state.pmp) ?_ (new_synced pmpEntries)
    (each_of_forall (fun _ _ _ => trivial) _) ran
  intro state op after made synced _ taken
  exact operate_decodes taken synced

theorem scan_last (mode : AccessMode) (pmode : PrivilegeMode) (last : Addr) (table : List PmpEntry) :
    PMP.scan mode pmode (allOnes 64) last none table = none := by
  induction table with
  | nil => rfl
  | cons entry _ ih =>
    have outside : entry.pmpAddr.contains (allOnes 64) = false := by
      have none : (allOnes 64).ult entry.pmpAddr.stop = false := by
        rw [ult_eq_decide, toNat_allOnes, decide_eq_false_iff_not]
        omega
      unfold AddrRange.contains
      rw [none, Bool.and_false]
    unfold PMP.scan
    rw [outside]
    exact ih

theorem active_refuses {pmp : PMP} (synced : Synced pmp) (active : ∃ entry ∈ pmp.pmpTable, entry.active = true) :
    (pmp.pmpCheck ⟨allOnes 64, 1, none⟩ .read .user 0).isNone = false := by
  obtain ⟨entry, member, on⟩ := active
  have rules : pmp.numRules ≠ 0 := by
    rw [synced.numRules]
    exact Nat.ne_of_gt (List.countP_pos_iff.mpr ⟨entry, member, on⟩)
  have consulted : pmp.shouldCheckPMP .user = true := by
    unfold PMP.shouldCheckPMP
    simp [rules]
  unfold PMP.pmpCheck
  rw [consulted]
  rw [scan_last]
  rfl

theorem inactive_grants {pmp : PMP} (synced : Synced pmp) (inactive : ∀ entry ∈ pmp.pmpTable, entry.active = false)
    (req : PmpRequest) (mode : AccessMode) (pmode : PrivilegeMode) (vaddr : Addr) : (pmp.pmpCheck req mode pmode vaddr).isNone = true := by
  have rules : pmp.numRules = 0 := by
    rw [synced.numRules, List.countP_eq_zero]
    intro entry member
    rw [inactive entry member]
    decide
  have unasked : pmp.shouldCheckPMP pmode = false := by
    unfold PMP.shouldCheckPMP
    simp [rules]
  unfold PMP.pmpCheck
  rw [unasked]
  rfl

def restored (hart : Hart) : Hart := (Hart.new hart.rvType hart.contextId hart.pmp.pmpTable.length).unserialize hart.serialize

/-- In every reachable state, a restored hart grants the same accesses if and only if
every entry of the protection is off. -/
theorem checkpoint_grants_same_iff (rvType : RiscvType) (contextId : RegVal) (pmpEntries : Nat) (ops : List HartOp) {final : Hart}
    {labels : List HartLabel} (ran : run Hart.operate (.new rvType contextId pmpEntries) ops = .ok (final, labels)) :
    (∀ req mode pmode vaddr, ((restored final).pmp.pmpCheck req mode pmode vaddr).isNone = (final.pmp.pmpCheck req mode pmode vaddr).isNone) ↔
      ∀ entry ∈ final.pmp.pmpTable, entry.active = false := by
  have synced := run_decoded ran
  have fresh : ∀ req mode pmode vaddr, ((restored final).pmp.pmpCheck req mode pmode vaddr).isNone = true := by
    apply inactive_grants (new_synced _)
    intro entry member
    rw [List.eq_of_mem_replicate member]
    decide
  constructor
  · intro same entry member
    by_contra on
    have refused := active_refuses synced ⟨entry, member, (Bool.eq_true_of_not_eq_false on)⟩
    rw [← same, fresh] at refused
    cases refused
  · intro inactive req mode pmode vaddr
    rw [fresh, inactive_grants synced inactive]

theorem checkpoint_grants_same_unprotected : ∃ final labels,
    run Hart.operate (.new .rv64 0 16) [.event (.csr ⟨.csrrw 1, 0x340, 0⟩)] = .ok (final, labels) ∧
      ∀ req mode pmode vaddr, ((restored final).pmp.pmpCheck req mode pmode vaddr).isNone =
        (final.pmp.pmpCheck req mode pmode vaddr).isNone := by
  have table : (run operate (.new .rv64 0 16) [.event (.csr ⟨.csrrw 1, 0x340, 0⟩)]).map (fun ended => ended.1.pmp) =
    .ok (.new 16) := by rfl
  cases ran : run operate (.new .rv64 0 16) [.event (.csr ⟨.csrrw 1, 0x340, 0⟩)] with
  | error =>
    rw [ran] at table
    cases table
  | ok ended =>
    rw [ran] at table
    refine ⟨ended.1, ended.2, rfl, (checkpoint_grants_same_iff .rv64 0 16 _ ran).mpr ?_⟩
    rw [(Except.ok.inj table : ended.1.pmp = .new 16)]
    decide

def kilobyte : List HartOp := [.event (.csr ⟨.csrrw 0x100, 0x3B0, 0⟩), .event (.csr ⟨.csrrw 0x0F, 0x3A0, 0⟩)]

theorem checkpoint_forgets_protection : ∃ final labels, run Hart.operate (.new .rv64 0 16) kilobyte = .ok (final, labels) ∧
    (final.pmp.pmpCheck ⟨0x1000, 8, none⟩ .write .user 0).isNone = false ∧
    ((restored final).pmp.pmpCheck ⟨0x1000, 8, none⟩ .write .user 0).isNone = true := by
  have checks : (run operate (.new .rv64 0 16) kilobyte).map (fun ended =>
      ((ended.1.pmp.pmpCheck ⟨0x1000, 8, none⟩ .write .user 0).isNone,
        ((restored ended.1).pmp.pmpCheck ⟨0x1000, 8, none⟩ .write .user 0).isNone)) = .ok (false, true) := by decide +kernel
  cases ran : run operate (.new .rv64 0 16) kilobyte with
  | error =>
    rw [ran] at checks
    cases checks
  | ok ended =>
    rw [ran] at checks
    have both := Except.ok.inj checks
    exact ⟨ended.1, ended.2, rfl, congrArg (·.1) both, congrArg (·.2) both⟩

end ImcGem5.Riscv.Proofs.Checkpoint

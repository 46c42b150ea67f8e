import ImcGem5.Proofs.Privilege

/-! Nine CSRs are views of three registers. A write through one of them changes the bits it
shows and no others, and always has a bit to change, so nothing is left of the case that
would fault. -/

namespace ImcGem5.Riscv.Proofs.Views
open Lib Privilege BitVec Hart

variable {hart : Hart} {csr : CSRIndex} {idx : MiscReg} {inst : CsrInst}

def register (csr : CSRIndex) : MiscReg := ((CSRData csr).map CSRMetadata.physIndex).getD .prv

def stored (hart : Hart) : MiscReg → RegVal
  | .ip => hart.ip.setWidth 64
  | .ie => hart.ie.setWidth 64
  | idx => hart.miscRegFile idx

def shown (hart : Hart) : MiscReg → RegVal
  | .status => hart.readStatus.1
  | idx => stored hart idx

def Hardwired (bit : Nat) : Prop := bit = 63 ∨ bit = 35 ∨ bit = 34 ∨ bit = 33 ∨ bit = 32

/-- What a CSR shows of its register is `rd`, and what an instruction makes of it is stored. -/
structure Viewed (hart after : Hart) (inst : CsrInst) (rd : RegVal) : Prop where
  returned : rd = shown hart (register inst.csr) &&& CSRMasks .rv64 inst.csr
  outside : ∀ bit, (CSRMasks .rv64 inst.csr).getLsbD bit = false →
    (stored after (register inst.csr)).getLsbD bit = (stored hart (register inst.csr)).getLsbD bit
  inside : ∀ bit, (CSRMasks .rv64 inst.csr).getLsbD bit = true → ¬Hardwired bit →
    (stored after (register inst.csr)).getLsbD bit = (inst.op.code rd).getLsbD bit
  registers : ∀ idx, idx ≠ register inst.csr → stored after idx = stored hart idx
  elsewhere : { after with miscRegFile := hart.miscRegFile, ip := hart.ip, ie := hart.ie } = hart

structure Row (csr : CSRIndex) : Prop where
  data : CSRData csr = some { physIndex := register csr }
  plain : csr ≠ CSR_SATP ∧ csr ≠ CSR_FCSR ∧ csr.extractLsb' 10 2 ≠ 3
  which : (register csr = .status ∧ (CSRMasks .rv64 csr).getLsbD 63 = true) ∨
    ((register csr = .ip ∨ register csr = .ie) ∧ CSRMasks .rv64 csr &&& ~~~fieldMask 64 0 12 = 0)

theorem register_eq (data : CSRData csr = some { physIndex := idx }) : register csr = idx := by
  rw [register, data]
  rfl

theorem row_status (data : CSRData csr = some { physIndex := .status })
    (plain : csr ≠ CSR_SATP ∧ csr ≠ CSR_FCSR ∧ csr.extractLsb' 10 2 ≠ 3) (sd : (CSRMasks .rv64 csr).getLsbD 63 = true) : Row csr := by
  have same := register_eq data
  exact ⟨by rw [same, data], plain, .inl ⟨same, sd⟩⟩

theorem row_interrupt (data : CSRData csr = some { physIndex := idx }) (interrupt : idx = .ip ∨ idx = .ie)
    (plain : csr ≠ CSR_SATP ∧ csr ≠ CSR_FCSR ∧ csr.extractLsb' 10 2 ≠ 3)
    (low : CSRMasks .rv64 csr &&& ~~~fieldMask 64 0 12 = 0) : Row csr := by
  have same := register_eq data
  exact ⟨by rw [same, data], plain, .inr ⟨by rwa [same], low⟩⟩

theorem row_of_shared (csr : CSRIndex) (shared : csr ∈ sharedCsrs) : Row csr := by
  simp only [sharedCsrs, List.mem_cons, List.not_mem_nil, or_false] at shared
  rcases shared with rfl | rfl | rfl | rfl | rfl | rfl | rfl | rfl | rfl
  · exact row_interrupt rfl (.inl rfl) (by decide) (by decide +kernel)
  · exact row_interrupt rfl (.inr rfl) (by decide) (by decide +kernel)
  · exact row_interrupt rfl (.inl rfl) (by decide) (by decide +kernel)
  · exact row_interrupt rfl (.inr rfl) (by decide) (by decide +kernel)
  · exact row_interrupt rfl (.inl rfl) (by decide) (by decide +kernel)
  · exact row_interrupt rfl (.inr rfl) (by decide) (by decide +kernel)
  · exact row_status rfl (by decide) (by decide +kernel)
  · exact row_status rfl (by decide) (by decide +kernel)
  · exact row_status rfl (by decide) (by decide +kernel)

theorem merged_bit (old new mask : RegVal) (bit : Nat) : ((old &&& ~~~mask) ||| (new &&& mask)).getLsbD bit =
    if mask.getLsbD bit = true then new.getLsbD bit else old.getLsbD bit := by
  rw [getLsbD_or, getLsbD_and, getLsbD_and, getLsbD_not]
  by_cases inside : bit < 64
  · rw [decide_eq_true inside, Bool.true_and]
    cases mask.getLsbD bit <;> simp
  · rw [getLsbD_of_ge old bit (not_lt.mp inside), getLsbD_of_ge new bit (not_lt.mp inside)]
    simp

theorem shown_bit (wide : hart.rvType = .rv64) (idx : MiscReg) {bit : Nat} (other : bit ≠ 63) :
    (shown hart idx).getLsbD bit = (stored hart idx).getLsbD bit := by
  by_cases status : idx = .status
  · subst status
    change (hart.readStatus.1).getLsbD bit = (hart.miscRegFile .status).getLsbD bit
    by_cases inside : bit < 64
    · rw [readStatus, wide]
      exact (getLsbD_insertField _ _ _ _ inside).trans (if_neg (by change ¬(63 ≤ bit ∧ bit < 64); omega))
    · rw [getLsbD_of_ge _ bit (not_lt.mp inside), getLsbD_of_ge _ bit (not_lt.mp inside)]
  · cases idx <;> first | rfl | exact absurd rfl status

def afterRead (hart : Hart) : MiscReg → Hart
  | .status => hart.readStatus.2
  | _ => hart

theorem readCsr_eq (row : Row csr) : hart.readCsr csr (register csr) = .ok (shown hart (register csr), afterRead hart (register csr)) := by
  unfold readCsr
  rw [if_neg row.plain.2.1]
  rcases row.which with ⟨status, _⟩ | ⟨ip | ie, _⟩
  · rw [status]
    rfl
  · rw [ip]
    rfl
  · rw [ie]
    rfl

theorem afterRead_rvType (hart : Hart) (idx : MiscReg) : (afterRead hart idx).rvType = hart.rvType := by
  cases idx <;> rfl

/-- What an operation makes of the bits that a CSR shows, among the others of the register. -/
def merged (hart : Hart) (inst : CsrInst) : RegVal :=
  (shown hart (register inst.csr) &&& ~~~CSRMasks .rv64 inst.csr) |||
    (inst.op.code (shown hart (register inst.csr) &&& CSRMasks .rv64 inst.csr) &&& CSRMasks .rv64 inst.csr)

theorem merged_ne (changes : inst.op.code (shown hart (register inst.csr) &&& CSRMasks .rv64 inst.csr) &&& CSRMasks .rv64 inst.csr ≠
      shown hart (register inst.csr) &&& CSRMasks .rv64 inst.csr) : merged hart inst ≠ shown hart (register inst.csr) := by
  intro same
  apply changes
  apply eq_of_getLsbD_eq
  intro bit _
  have bits := merged_bit (shown hart (register inst.csr))
    (inst.op.code (shown hart (register inst.csr) &&& CSRMasks .rv64 inst.csr)) (CSRMasks .rv64 inst.csr) bit
  unfold merged at same
  rw [same] at bits
  rw [getLsbD_and, getLsbD_and]
  cases set : (CSRMasks .rv64 inst.csr).getLsbD bit with
  | false => rw [Bool.and_false, Bool.and_false]
  | true =>
    rw [if_pos set] at bits
    rw [Bool.and_true, Bool.and_true, bits]

theorem accessCsr_eq (row : Row inst.csr) (shared : inst.csr ∈ sharedCsrs) (wide : hart.rvType = .rv64) {written : Hart}
    (writes : (afterRead hart (register inst.csr)).setMiscReg (register inst.csr) (merged hart inst) = .ok written) :
    ∃ after, hart.accessCsr inst (register inst.csr) =
        .ok (after, .done (shown hart (register inst.csr) &&& CSRMasks .rv64 inst.csr)) ∧
      (after = written ∨ after = afterRead hart (register inst.csr) ∧
        inst.op.code (shown hart (register inst.csr) &&& CSRMasks .rv64 inst.csr) &&& CSRMasks .rv64 inst.csr =
          shown hart (register inst.csr) &&& CSRMasks .rv64 inst.csr) := by
  have width := (afterRead_rvType hart (register inst.csr)).trans wide
  by_cases same : inst.op.code (shown hart (register inst.csr) &&& CSRMasks .rv64 inst.csr) &&& CSRMasks .rv64 inst.csr =
      shown hart (register inst.csr) &&& CSRMasks .rv64 inst.csr
  · refine ⟨afterRead hart (register inst.csr), ?_, .inr ⟨rfl, same⟩⟩
    unfold accessCsr
    rw [readCsr_eq row, ok_bind]
    dsimp only
    rw [width, wide]
    exact if_pos same
  · refine ⟨written, ?_, .inl rfl⟩
    have wrote : (afterRead hart (register inst.csr)).writeCsr inst.csr (register inst.csr)
        (inst.op.code (shown hart (register inst.csr) &&& CSRMasks .rv64 inst.csr) &&& CSRMasks .rv64 inst.csr)
        (shown hart (register inst.csr)) (merged hart inst) = .ok (some written) := by
      unfold writeCsr
      rw [if_neg row.plain.2.1, if_pos shared, if_pos (merged_ne same), writes]
      rfl
    unfold accessCsr
    rw [readCsr_eq row, ok_bind]
    dsimp only
    rw [width, wide]
    apply (if_neg same).trans
    apply (if_neg row.plain.2.2).trans
    exact bind_of_ok wrote _

theorem stored_afterRead (hart : Hart) (idx : MiscReg) : stored (afterRead hart idx) idx = shown hart idx := by
  cases idx <;> rfl

theorem stored_set {other : MiscReg} (apart : other ≠ idx) (val : RegVal) : stored (hart.set idx val) other = stored hart other := by
  cases other <;> first | rfl | exact set_other hart apart val

theorem afterRead_other {other : MiscReg} (apart : other ≠ idx) : stored (afterRead hart idx) other = stored hart other := by
  by_cases status : idx = .status
  · subst status
    exact stored_set apart _
  · cases idx <;> first | rfl | exact absurd rfl status

theorem legalStatus_bit (wide : hart.rvType = .rv64) (val : STATUS) (bit : Nat) : (hart.legalStatus val).getLsbD bit =
    if 32 ≤ bit ∧ bit < 36 then (hart.miscRegFile .status).getLsbD bit else val.getLsbD bit := by
  have wired : STATUS_SXL_MASK ||| STATUS_UXL_MASK = fieldMask 64 32 4 := by decide
  unfold legalStatus
  rw [wide]
  rw [wired, merged_bit, getLsbD_fieldMask]
  by_cases inside : bit < 64
  · simp only [decide_eq_true inside, Bool.true_and, Bool.and_eq_true, decide_eq_true_eq]
  · rw [getLsbD_of_ge val bit (not_lt.mp inside), getLsbD_of_ge _ bit (not_lt.mp inside), ite_self, ite_self]

theorem written_bits (row : Row inst.csr) (wide : hart.rvType = .rv64) : ∃ written,
    (afterRead hart (register inst.csr)).setMiscReg (register inst.csr) (merged hart inst) = .ok written ∧
      (∀ bit, (stored written (register inst.csr)).getLsbD bit = (merged hart inst).getLsbD bit ∨
        Hardwired bit ∧ (stored written (register inst.csr)).getLsbD bit = (shown hart (register inst.csr)).getLsbD bit) ∧
      (∀ idx, idx ≠ register inst.csr → stored written idx = stored hart idx) ∧
      { written with miscRegFile := hart.miscRegFile, ip := hart.ip, ie := hart.ie } = hart := by
  rcases row.which with ⟨status, _⟩ | ⟨interrupt, low⟩
  · rw [status]
    refine ⟨hart.readStatus.2.setStatus (merged hart inst), rfl, ?_, ?_, rfl⟩
    · intro bit
      have same : hart.readStatus.2.rvType = .rv64 := wide
      have legal := legalStatus_bit same (merged hart inst) bit
      have file : stored (hart.readStatus.2.setStatus (merged hart inst)) .status = hart.readStatus.2.legalStatus (merged hart inst) :=
        set_same ..
      rw [file]
      by_cases wired : 32 ≤ bit ∧ bit < 36
      · rw [if_pos wired] at legal
        refine .inr ⟨?_, legal.trans (congrArg (·.getLsbD bit) (stored_afterRead hart .status))⟩
        unfold Hardwired
        omega
      · rw [if_neg wired] at legal
        exact .inl legal
    · intro idx apart
      exact (stored_set apart _).trans (afterRead_other apart)
  · -- No bit above the interrupts is set in the merged value.
    have short : ∀ bit, 12 ≤ bit → (shown hart (register inst.csr)).getLsbD bit = false → (merged hart inst).getLsbD bit = false := by
      intro bit high none
      by_cases inside : bit < 64
      · have clear : (CSRMasks .rv64 inst.csr &&& ~~~fieldMask 64 0 12).getLsbD bit = false := by
          rw [low]
          exact getLsbD_zero
        rw [getLsbD_and, getLsbD_not, getLsbD_fieldMask, decide_eq_true inside, decide_eq_false (by omega : ¬bit < 0 + 12),
          Bool.and_false, Bool.not_false, Bool.true_and, Bool.and_true] at clear
        rw [merged, merged_bit, if_neg (by rw [clear]; exact Bool.false_ne_true), none]
      · exact getLsbD_of_ge _ bit (not_lt.mp inside)
    have kept : ∀ controller : BitVec NumInterruptTypes, shown hart (register inst.csr) = controller.setWidth 64 → ∀ bit,
        (((merged hart inst).setWidth NumInterruptTypes).setWidth 64).getLsbD bit = (merged hart inst).getLsbD bit := by
      intro controller is bit
      by_cases small : bit < 12
      · have inside : bit < 64 := by omega
        simp [NumInterruptTypes, small, inside]
      · rw [short bit (not_lt.mp small)]
        · rw [getLsbD_setWidth, getLsbD_of_ge ((merged hart inst).setWidth NumInterruptTypes) bit (not_lt.mp small), Bool.and_false]
        · rw [is, getLsbD_setWidth, getLsbD_of_ge controller bit (not_lt.mp small), Bool.and_false]
    rcases interrupt with ip | ie
    · rw [ip] at kept ⊢
      refine ⟨{ hart with ip := (merged hart inst).setWidth NumInterruptTypes }, rfl, fun bit => .inl (kept hart.ip rfl bit), ?_, rfl⟩
      intro idx apart
      cases idx <;> first | rfl | exact absurd rfl apart
    · rw [ie] at kept ⊢
      refine ⟨{ hart with ie := (merged hart inst).setWidth NumInterruptTypes }, rfl, fun bit => .inl (kept hart.ie rfl bit), ?_, rfl⟩
      intro idx apart
      cases idx <;> first | rfl | exact absurd rfl apart

theorem shown_outside (row : Row csr) (wide : hart.rvType = .rv64) {bit : Nat} (clear : (CSRMasks .rv64 csr).getLsbD bit = false) :
    (shown hart (register csr)).getLsbD bit = (stored hart (register csr)).getLsbD bit := by
  rcases row.which with ⟨_, sd⟩ | ⟨ip | ie, _⟩
  · apply shown_bit wide
    rintro rfl
    rw [clear] at sd
    cases sd
  · rw [ip]
    rfl
  · rw [ie]
    rfl

theorem accessCsr_viewed (row : Row inst.csr) (shared : inst.csr ∈ sharedCsrs) (wide : hart.rvType = .rv64) :
    ∃ after rd, hart.accessCsr inst (register inst.csr) = .ok (after, .done rd) ∧ Viewed hart after inst rd := by
  obtain ⟨_, writes, bits, others, elsewhere⟩ := written_bits row wide
  obtain ⟨after, accessed, which⟩ := accessCsr_eq row shared wide writes
  refine ⟨after, _, accessed, rfl, ?_, ?_, ?_, ?_⟩
  · intro bit clear
    rw [← shown_outside row wide clear]
    rcases which with rfl | ⟨rfl, _⟩
    · rcases bits bit with stays | ⟨_, wired⟩
      · rw [stays, merged, merged_bit, if_neg (by rw [clear]; exact Bool.false_ne_true)]
      · exact wired
    · rw [stored_afterRead]
  · intro bit set free
    rcases which with rfl | ⟨rfl, same⟩
    · rcases bits bit with stays | ⟨wired, _⟩
      · rw [stays, merged, merged_bit, if_pos set]
      · exact absurd wired free
    · rw [stored_afterRead]
      have agree := congrArg (·.getLsbD bit) same
      simp only [getLsbD_and, set, Bool.and_true] at agree
      exact agree.symm
  · intro idx apart
    rcases which with rfl | ⟨rfl, _⟩
    · exact others idx apart
    · exact afterRead_other apart
  · rcases which with rfl | ⟨rfl, _⟩
    · exact elsewhere
    · cases register inst.csr <;> rfl

/-- A CSR shows its part of the register it shares with others, and changes no other part. -/
theorem views_do_not_leak (hart : Hart) (wide : hart.rvType = .rv64) (inst : CsrInst) (shared : inst.csr ∈ Hart.sharedCsrs) :
    if hart.miscRegFile .prv < Hart.PrivilegeBits inst.csr then
      hart.executeCsr inst = .ok (hart, .faulted (illegalInstFault inst.machInst))
    else ∃ after rd, hart.executeCsr inst = .ok (after, .done rd) ∧ Viewed hart after inst rd := by
  have row := row_of_shared inst.csr shared
  have known : hart.rvType ∈ [RiscvType.rv64, RiscvType.rv32] := by
    rw [wide]
    decide
  have steps : hart.executeCsr inst = if hart.miscRegFile .prv < Hart.PrivilegeBits inst.csr then
      .ok (hart, .faulted (illegalInstFault inst.machInst)) else hart.accessCsr inst (register inst.csr) := by
    unfold executeCsr
    rw [row.data]
    dsimp only
    rw [if_neg (not_not.mpr known), satpTrapped, if_neg row.plain.1]
    rfl
  rw [steps]
  split
  · rfl
  · exact accessCsr_viewed row shared wide

theorem views_do_not_leak_sstatus : (Hart.new .rv64 0 0).rvType = .rv64 ∧ CSR_SSTATUS ∈ Hart.sharedCsrs ∧
    if (Hart.new .rv64 0 0).miscRegFile .prv < Hart.PrivilegeBits CSR_SSTATUS then
      (Hart.new .rv64 0 0).executeCsr ⟨.csrrs 2, CSR_SSTATUS, 0⟩ = .ok (Hart.new .rv64 0 0, .faulted (illegalInstFault 0))
    else ∃ after rd, (Hart.new .rv64 0 0).executeCsr ⟨.csrrs 2, CSR_SSTATUS, 0⟩ = .ok (after, .done rd) ∧
      Viewed (Hart.new .rv64 0 0) after ⟨.csrrs 2, CSR_SSTATUS, 0⟩ rd :=
  ⟨rfl, by decide, views_do_not_leak (Hart.new .rv64 0 0) rfl ⟨.csrrs 2, CSR_SSTATUS, 0⟩ (by decide)⟩

end ImcGem5.Riscv.Proofs.Views

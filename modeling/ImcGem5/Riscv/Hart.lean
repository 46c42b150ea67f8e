import ImcGem5.Riscv.Csr
import ImcGem5.Riscv.Pmp

/-! A hart in full-system mode: its control registers, its interrupt controller and its
memory protection, and the instructions, traps and interrupts that change them. The
general registers are left out; an instruction takes its operand and returns its result. -/

namespace ImcGem5.Riscv
open Lib Mem

def PRV_U : RegVal := 0
def PRV_S : RegVal := 1
def PRV_M : RegVal := 3

def PrivilegeMode.encoding : PrivilegeMode → RegVal
  | .user => PRV_U
  | .supervisor => PRV_S
  | .machine => PRV_M

/-- The low half, extended as the width of the registers asks. -/
def rvZext : RiscvType → RegVal → RegVal
  | .rv32, value => (value.setWidth 32).setWidth 64
  | .rv64, value => value

def rvSext : RiscvType → RegVal → RegVal
  | .rv32, value => (value.setWidth 32).signExtend 64
  | .rv64, value => value

structure Hart where
  rvType : RiscvType
  contextId : RegVal := 0
  miscRegFile : MiscReg → RegVal
  ip : BitVec NumInterruptTypes := 0
  ie : BitVec NumInterruptTypes := 0
  pmp : PMP
  pc : Addr := 0
  loadReservation : Option Addr := none
  curCycle : RegVal := 0
  totalInsts : RegVal := 0

namespace Hart

/-- setMiscRegNoEffect; setMiscReg does no more for a register without a case of its own. -/
def set (hart : Hart) (idx : MiscReg) (val : RegVal) : Hart :=
  { hart with miscRegFile := Function.update hart.miscRegFile idx val }

def clearedMisa : RiscvType → RegVal
  | .rv32 => 0x14112D#64 ||| (1#64 <<< 30)
  | .rv64 => 0x14112D#64 ||| (2#64 <<< 62)

def clearedStatus : RiscvType → STATUS
  | .rv32 => STATUS.setFs 0 1
  | .rv64 => ((STATUS.setFs 0 1).setUxl 2).setSxl 2

/-- ISA::clear -/
def clearedRegs (rvType : RiscvType) : MiscReg → RegVal
  | .prv => PRV_M
  | .isa => clearedMisa rvType
  | .status => clearedStatus rvType
  | .mcounteren => 0x7
  | .scounteren => 0x7
  | .tselect => 1
  | .nmie => 1
  | _ => 0

def new (rvType : RiscvType) (contextId : RegVal) (pmpEntries : Nat) : Hart :=
  { rvType, contextId, miscRegFile := clearedRegs rvType, pmp := .new pmpEntries }

def hpmCounterEnabled (hart : Hart) (hpmcounter : Nat) : Except Fault Bool :=
  if hart.miscRegFile .prv = PRV_M then .ok true
  else if hart.miscRegFile .prv = PRV_S then .ok ((hart.miscRegFile .mcounteren).getLsbD hpmcounter)
  else if hart.miscRegFile .prv = PRV_U then .ok ((hart.miscRegFile .scounteren).getLsbD hpmcounter)
  else .error (.panic "Unknown privilege level %d\n")

/-- A counter that is not enabled reads as zero. -/
def readCounter (hart : Hart) (hpmcounter : Nat) (value : RegVal) : Except Fault (RegVal × Hart) := do
  let enabled ← hart.hpmCounterEnabled hpmcounter
  return (if enabled then value else 0, hart)

/-- The status register has its SD bit brought up to date whenever it is read. -/
def readStatus (hart : Hart) : STATUS × Hart :=
  let status : STATUS := hart.miscRegFile .status
  let dirty := status.xs = 3 ∨ status.fs = 3 ∨ status.vs = 3
  let status := status.setSd hart.rvType (if dirty then 1 else 0)
  (status, hart.set .status status)

/-- If compressed instructions are disabled, epc[1] is 0 as well. -/
def readEpc (hart : Hart) (idx : MiscReg) : RegVal :=
  if (hart.miscRegFile .isa).getLsbD 2 then mbitsFrom (hart.miscRegFile idx) 1 else mbitsFrom (hart.miscRegFile idx) 2

def readMiscReg (hart : Hart) : MiscReg → Except Fault (RegVal × Hart)
  | .hartid => .ok (hart.contextId, hart)
  | .cycle => hart.readCounter 0 hart.curCycle
  | .cycleh => hart.readCounter 0 (hart.curCycle >>> 32)
  | .time => hart.readCounter 1 (hart.miscRegFile .time)
  | .timeh => hart.readCounter 1 (hart.miscRegFile .timeh)
  | .instret => hart.readCounter 2 hart.totalInsts
  | .instreth => hart.readCounter 2 (hart.totalInsts >>> 32)
  | .hpmcounter i => hart.readCounter (3 + i.val) hart.curCycle
  | .hpmcounterh i => hart.readCounter (3 + i.val) (hart.curCycle >>> 32)
  | .ip => .ok (hart.ip.setWidth 64, hart)
  | .ie => .ok (hart.ie.setWidth 64, hart)
  | .sepc => .ok (hart.readEpc .sepc, hart)
  | .mepc => .ok (hart.readEpc .mepc, hart)
  | .status => .ok hart.readStatus
  | idx => .ok (hart.miscRegFile idx, hart)

/-- `0xFF << (8*i)`, on int. From 32 on the shift has no defined result; the hosts take
its amount modulo 32. -/
def cfgByteMask (i : Nat) : RegVal := (0xFF#32 <<< (8 * i % 32)).signExtend 64

/-- One turn of the loop over the bytes of a pmpcfg register, with the value so far. -/
def writeCfgByte (idx : Nat) (old val : RegVal) (written : PMP × RegVal) (i : Nat) : PMP × RegVal :=
  let cfg : PmpCfg := val.extractLsb' (8 * i) 8
  let (pmp, result) := written.1.pmpUpdateCfg (i + 4 * idx) cfg
  (pmp, written.2 ||| if result then cfg.setWidth 64 <<< (8 * i) else old &&& cfgByteMask i)

def cfgBytes : RiscvType → Nat
  | .rv32 => 4
  | .rv64 => 8

def setPmpCfg (hart : Hart) (idx : Fin 4) (val : RegVal) : Hart :=
  let (pmp, res) := (List.range (cfgBytes hart.rvType)).foldl
    (writeCfgByte idx (hart.miscRegFile (.pmpcfg idx)) val) (hart.pmp, 0)
  { hart with pmp }.set (.pmpcfg idx) res

def setPmpAddr (hart : Hart) (idx : Fin 16) (val : RegVal) : Hart :=
  let (pmp, result) := hart.pmp.pmpUpdateAddr idx val
  if result then { hart with pmp }.set (.pmpaddr idx) val else { hart with pmp }

def SATP_BARE : BitVec 4 := 0
def SATP_SV39 : BitVec 4 := 8

/-- A mode that is not supported leaves the mode as it was. -/
def legalSatp (current val : RegVal) : RegVal :=
  let mode : BitVec 4 := val.extractLsb' 60 4
  if mode ≠ SATP_BARE ∧ mode ≠ SATP_SV39 then insertField val 60 (current.extractLsb' 60 4) else val

/-- Compressed instructions are only disabled when the next instruction is aligned. -/
def legalMisa (hart : Hart) (val : RegVal) : RegVal :=
  let current := hart.miscRegFile .isa
  let npc := hart.pc + 4
  if val.getLsbD 2 = false ∧ npc.extractLsb' 0 3 ≠ 0 then insertField val 2 (current.extractLsb' 2 1) else val

/-- SXL and UXL are hard-wired where they exist. -/
def legalStatus (hart : Hart) (val : STATUS) : STATUS :=
  match hart.rvType with
  | .rv32 => val
  | .rv64 =>
    let wired := STATUS_SXL_MASK ||| STATUS_UXL_MASK
    (val &&& ~~~wired) ||| (hart.miscRegFile .status &&& wired)

def setStatus (hart : Hart) (val : STATUS) : Hart := hart.set .status (hart.legalStatus val)

def setMiscReg (hart : Hart) : MiscReg → RegVal → Except Fault Hart
  | .cycle, _ => .ok hart
  | .time, _ => .ok hart
  | .instret, _ => .ok hart
  | .hpmcounter _, _ => .ok hart
  | .pmpcfg idx, val => do
    Fault.ensure (hart.miscRegFile .prv == PRV_M) "readMiscRegNoEffect(MISCREG_PRV) == PRV_M"
    return hart.setPmpCfg idx val
  | .pmpaddr idx, val => do
    Fault.ensure (hart.miscRegFile .prv == PRV_M) "readMiscRegNoEffect(MISCREG_PRV) == PRV_M"
    return hart.setPmpAddr idx val
  | .ip, val => .ok { hart with ip := val.setWidth NumInterruptTypes }
  | .ie, val => .ok { hart with ie := val.setWidth NumInterruptTypes }
  | .satp, val => .ok (hart.set .satp (legalSatp (hart.miscRegFile .satp) val))
  | .tselect, val => .ok (hart.set .tselect (val + 1))
  | .isa, val => .ok (hart.set .isa (hart.legalMisa val))
  | .status, val => .ok (hart.setStatus val)
  | idx, val => .ok (hart.set idx val)

end Hart

inductive FaultType where
  | interrupt
  | nonMaskableInterrupt
  | others
  deriving DecidableEq, Repr

structure RiscvFault where
  faultType : FaultType
  code : Nat
  trapValue : RegVal := 0
  deriving DecidableEq, Repr

def INST_ILLEGAL : Nat := 2

def illegalInstFault (machInst : BitVec 32) : RiscvFault := ⟨.others, INST_ILLEGAL, machInst.setWidth 64⟩

structure TrapRegs where
  cause : MiscReg
  epc : MiscReg
  tvec : MiscReg
  tval : MiscReg

namespace Hart

def trapRegs (fault : RiscvFault) : PrivilegeMode → TrapRegs
  | .user => ⟨.ucause, .uepc, .utvec, .utval⟩
  | .supervisor => ⟨.scause, .sepc, .stvec, .stval⟩
  | .machine => ⟨.mcause, .mepc, if fault.faultType = .nonMaskableInterrupt then .nmivec else .mtvec, .mtval⟩

/-- The mode that handles a trap from mode `pp`, as the delegation registers say. -/
def delegate (pp mdeleg sdeleg : RegVal) (code : Nat) : PrivilegeMode :=
  if pp = PRV_U ∧ sdeleg.getLsbD code then .user
  else if pp ≠ PRV_M ∧ mdeleg.getLsbD code then .supervisor
  else .machine

def handlerMode (hart : Hart) (fault : RiscvFault) : PrivilegeMode :=
  let pp := hart.miscRegFile .prv
  match fault.faultType with
  | .nonMaskableInterrupt => .machine
  | .interrupt => delegate pp (hart.miscRegFile .mideleg) (hart.miscRegFile .sideleg) fault.code
  | .others => delegate pp (hart.miscRegFile .medeleg) (hart.miscRegFile .sedeleg) fault.code

/-- The status with the state before the trap stacked into it. -/
def stackStatus (status : STATUS) (pp : RegVal) : PrivilegeMode → STATUS
  | .user => (status.setUpie status.uie).setUie 0
  | .supervisor => ((status.setSpp (pp.setWidth 1)).setSpie status.sie).setSie 0
  | .machine => ((status.setMpp (pp.setWidth 2)).setMpie status.mie).setMie 0

def causeInterruptMask : RiscvType → RegVal
  | .rv32 => 1#64 <<< 31
  | .rv64 => 1#64 <<< 63

/-- The address a handler starts at; vectored handlers are only for interrupts. -/
def handlerAddr (fault : RiscvFault) (tvec : RegVal) : Addr :=
  let base := mbitsFrom tvec 2
  if fault.faultType = .interrupt ∧ tvec.extractLsb' 0 2 = 1 then base + BitVec.ofNat 64 (4 * fault.code) else base

/-- RiscvFault::invoke -/
def invoke (hart : Hart) (fault : RiscvFault) : Hart :=
  let pp := hart.miscRegFile .prv
  let (status, hart) := hart.readStatus
  let prv := hart.handlerMode fault
  let regs := trapRegs fault prv
  let code := BitVec.ofNat 64 fault.code
  let cause := if fault.faultType = .interrupt then code ||| causeInterruptMask hart.rvType else code
  let hart := hart.set regs.cause cause
  let hart := hart.set regs.epc hart.pc
  let hart := hart.set regs.tval fault.trapValue
  let hart := hart.set .prv prv.encoding
  let hart := hart.setStatus (stackStatus status pp prv)
  let hart := if fault.faultType = .nonMaskableInterrupt then hart.set .nmie 0 else hart
  { hart with loadReservation := none, pc := handlerAddr fault (hart.miscRegFile regs.tvec) }

/-- Reset::invoke -/
def reset (hart : Hart) (entry : Addr) : Hart :=
  let hart := hart.set .prv PRV_M
  let (status, hart) := hart.readStatus
  let hart := hart.setStatus ((status.setMie 0).setMprv 0)
  let hart := hart.set .mcause 0
  { hart with pc := entry, pmp := hart.pmp.pmpReset }

/-- How the mask of globalMask starts: nothing but the bits of the nine interrupts can be set. -/
def interruptMask (mei mti msi sei sti ssi uei uti usi : Bool) : BitVec NumInterruptTypes :=
  BitVec.ofBoolListLE [usi, ssi, false, msi, uti, sti, false, mti, uei, sei, false, mei]

/-- An interrupt that is not delegated, or is and the mode below has it enabled. -/
def maskBit (deleg : RegVal) (enabled : Bool) (num : Nat) : Bool := !deleg.getLsbD num || (deleg.getLsbD num && enabled)

def globalMask (hart : Hart) : Except Fault (BitVec NumInterruptTypes × Hart) :=
  let (status, hart) := hart.readStatus
  let mideleg := hart.miscRegFile .mideleg
  let sideleg := hart.miscRegFile .sideleg
  let prv := hart.miscRegFile .prv
  let uie : Bool := status.uie = 1
  let sie : Bool := status.sie = 1
  let mie : Bool := status.mie = 1
  if prv = PRV_U then
    .ok (interruptMask (maskBit sideleg uie 11) (maskBit sideleg uie 7) (maskBit sideleg uie 3)
      (maskBit sideleg uie 9) (maskBit sideleg uie 5) (maskBit sideleg uie 1) uie uie uie, hart)
  else if prv = PRV_S then
    .ok (interruptMask (maskBit mideleg sie 11) (maskBit mideleg sie 7) (maskBit mideleg sie 3)
      sie sie sie false false false, hart)
  else if prv = PRV_M then
    .ok (interruptMask mie mie mie false false false false false false, hart)
  else .error (.panic "Unknown privilege mode %d.")

def checkNonMaskableInterrupt (hart : Hart) : Bool := hart.miscRegFile .nmip &&& hart.miscRegFile .nmie ≠ 0

def checkInterrupt (hart : Hart) (num : Nat) : Bool := hart.ip.getLsbD num && hart.ie.getLsbD num

/-- With a non-maskable interrupt the mask is not asked for. -/
def checkInterrupts (hart : Hart) : Except Fault (Bool × Hart) :=
  if hart.checkNonMaskableInterrupt then .ok (true, hart)
  else do
    let (mask, hart) ← hart.globalMask
    return (hart.ip &&& hart.ie &&& mask ≠ 0, hart)

def interruptOrder : List Nat :=
  [INT_EXT_MACHINE, INT_SOFTWARE_MACHINE, INT_TIMER_MACHINE, INT_EXT_SUPER, INT_SOFTWARE_SUPER, INT_TIMER_SUPER,
    INT_EXT_USER, INT_SOFTWARE_USER, INT_TIMER_USER]

/-- The fault of the first interrupt in order; NoFault is `none`. -/
def firstInterrupt (hart : Hart) (mask : BitVec NumInterruptTypes) : Option RiscvFault :=
  (interruptOrder.find? fun id => hart.checkInterrupt id && mask.getLsbD id).map fun id => ⟨.interrupt, id, 0⟩

def getInterrupt (hart : Hart) : Except Fault (Option RiscvFault × Hart) := do
  let (check, hart) ← hart.checkInterrupts
  Fault.ensure check "checkInterrupts()"
  if hart.checkNonMaskableInterrupt then return (some ⟨.nonMaskableInterrupt, 0, 0⟩, hart)
  else
    let (mask, hart) ← hart.globalMask
    return (hart.firstInterrupt mask, hart)

/-- TLB::getMemPriv -/
def getMemPriv (hart : Hart) (mode : AccessMode) : RegVal × Hart :=
  let (status, hart) := hart.readStatus
  let pmode := hart.miscRegFile .prv
  (if mode ≠ .execute ∧ status.mprv = 1 then status.mpp.setWidth 64 else pmode, hart)

end Hart

inductive CsrOp where
  | csrrw (rs1 : RegVal)
  | csrrs (rs1 : RegVal)
  | csrrc (rs1 : RegVal)
  | csrrwi (uimm : BitVec 5)
  | csrrsi (uimm : BitVec 5)
  | csrrci (uimm : BitVec 5)
  deriving DecidableEq, Repr

/-- The value to write, from the one read. -/
def CsrOp.code : CsrOp → RegVal → RegVal
  | .csrrw rs1, _ => rs1
  | .csrrs rs1, data => data ||| rs1
  | .csrrc rs1, data => data &&& ~~~rs1
  | .csrrwi uimm, _ => uimm.setWidth 64
  | .csrrsi uimm, data => data ||| uimm.setWidth 64
  | .csrrci uimm, data => data &&& ~~~uimm.setWidth 64

structure CsrInst where
  op : CsrOp
  csr : CSRIndex
  machInst : BitVec 32
  deriving DecidableEq, Repr

/-- How an instruction ends: with the value for its destination, or with a fault. -/
inductive Executed where
  | done (rd : RegVal)
  | faulted (fault : RiscvFault)
  deriving DecidableEq, Repr

namespace Hart

/-- The status register is only read for the one CSR that can be trapped. -/
def satpTrapped (hart : Hart) (csr : CSRIndex) : Bool × Hart :=
  if csr = CSR_SATP then
    let (status, hart) := hart.readStatus
    (hart.miscRegFile .prv = PRV_S ∧ status.tvm = 1, hart)
  else (false, hart)

def readCsr (hart : Hart) (csr : CSRIndex) (midx : MiscReg) : Except Fault (RegVal × Hart) :=
  if csr = CSR_FCSR then .ok (hart.miscRegFile .fflags ||| (hart.miscRegFile .frm <<< FRM_OFFSET), hart)
  else hart.readMiscReg midx

/-- The CSRs that show a part of a register that others show too. -/
def sharedCsrs : List CSRIndex :=
  [CSR_MIP, CSR_MIE, CSR_SIP, CSR_SIE, CSR_UIP, CSR_UIE, CSR_MSTATUS, CSR_SSTATUS, CSR_USTATUS]

def writeCsr (hart : Hart) (csr : CSRIndex) (midx : MiscReg) (data olddataAll newdataAll : RegVal) : Except Fault (Option Hart) :=
  if csr = CSR_FCSR then
    .ok (some ((hart.set .fflags ((data.extractLsb' 0 5).setWidth 64)).set .frm ((data.extractLsb' 5 3).setWidth 64)))
  else if csr ∈ sharedCsrs then
    if newdataAll ≠ olddataAll then do
      let hart ← hart.setMiscReg midx newdataAll
      return some hart
    else .ok none
  else do
    let hart ← hart.setMiscReg midx data
    return some hart

def PrivilegeBits (csr : CSRIndex) : RegVal := (csr.extractLsb' 8 2).setWidth 64

/-- What CSRExecute does once an access is allowed. -/
def accessCsr (hart : Hart) (inst : CsrInst) (midx : MiscReg) : Except Fault (Hart × Executed) := do
  let maskVal := CSRMasks hart.rvType inst.csr
  let (value, hart) ← hart.readCsr inst.csr midx
  let olddataAll := rvZext hart.rvType value
  let olddata := olddataAll &&& maskVal
  let rd := rvSext hart.rvType olddata
  let data := rvZext hart.rvType (inst.op.code olddata) &&& maskVal
  if data = olddata then return (hart, .done rd)
  else if inst.csr.extractLsb' 10 2 = 3 then return (hart, .faulted (illegalInstFault inst.machInst))
  else
    match ← hart.writeCsr inst.csr midx data olddataAll ((olddataAll &&& ~~~maskVal) ||| data) with
    | some hart => return (hart, .done rd)
    | none => return (hart, .faulted (illegalInstFault inst.machInst))

/-- CSRExecute -/
def executeCsr (hart : Hart) (inst : CsrInst) : Except Fault (Hart × Executed) :=
  let illegal := Executed.faulted (illegalInstFault inst.machInst)
  match CSRData inst.csr with
  | none => .ok (hart, illegal)
  | some metadata =>
    if hart.rvType ∉ metadata.rvTypes then .ok (hart, illegal)
    else if hart.miscRegFile .prv < PrivilegeBits inst.csr then .ok (hart, illegal)
    else
      let (trapped, hart) := hart.satpTrapped inst.csr
      if trapped then .ok (hart, illegal) else hart.accessCsr inst metadata.physIndex

def uret (hart : Hart) : Hart :=
  let (status, hart) := hart.readStatus
  let hart := hart.setStatus ((status.setUie status.upie).setUpie 1)
  { hart with pc := hart.miscRegFile .uepc }

def sret (hart : Hart) (machInst : BitVec 32) : Hart × Executed :=
  let (status, hart) := hart.readStatus
  let pm := hart.miscRegFile .prv
  if pm = PRV_U ∨ (pm = PRV_S ∧ status.tsr = 1) then (hart, .faulted (illegalInstFault machInst))
  else
    let hart := hart.set .prv (status.spp.setWidth 64)
    let hart := hart.setStatus (((status.setSie status.spie).setSpie 1).setSpp 0)
    ({ hart with pc := hart.readEpc .sepc }, .done 0)

def mret (hart : Hart) (machInst : BitVec 32) : Hart × Executed :=
  if hart.miscRegFile .prv ≠ PRV_M then (hart, .faulted (illegalInstFault machInst))
  else
    let (status, hart) := hart.readStatus
    let hart := hart.set .prv (status.mpp.setWidth 64)
    let hart := hart.set .nmie 1
    let hart := hart.setStatus (((status.setMie status.mpie).setMpie 1).setMpp 0)
    ({ hart with pc := hart.readEpc .mepc }, .done 0)

end Hart

/-- What can happen to a hart. An exception is any fault that an instruction raises for
reasons of its own, a system call among them. -/
inductive HartEvent where
  | csr (inst : CsrInst)
  | uret
  | sret (machInst : BitVec 32)
  | mret (machInst : BitVec 32)
  | exception (code : Nat) (trapValue : RegVal)
  | interrupt
  | post (num : Fin NumInterruptTypes)
  | clear (num : Fin NumInterruptTypes)
  | postNMI
  | clearNMI
  | count (cycles insts : RegVal)
  deriving DecidableEq, Repr

/-- The privilege before and after a step, and whether the step entered a trap. -/
structure HartLabel where
  before : RegVal
  trapped : Bool
  after : RegVal
  deriving DecidableEq, Repr

namespace Hart

def finish (hart : Hart) : Executed → Hart × Bool
  | .done _ => ({ hart with pc := hart.pc + 4 }, false)
  | .faulted fault => (hart.invoke fault, true)

/-- A return has set the pc itself. -/
def finishReturn (hart : Hart) : Executed → Hart × Bool
  | .done _ => (hart, false)
  | .faulted fault => (hart.invoke fault, true)

/-- The check for interrupts before an instruction. -/
def takeInterrupt (hart : Hart) : Except Fault (Hart × Bool) := do
  let (check, hart) ← hart.checkInterrupts
  if check then
    let (fault, hart) ← hart.getInterrupt
    match fault with
    | some fault => return (hart.invoke fault, true)
    | none => return (hart, false)
  else return (hart, false)

def happen (hart : Hart) : HartEvent → Except Fault (Hart × Bool)
  | .csr inst => do
    let (hart, executed) ← hart.executeCsr inst
    return hart.finish executed
  | .uret => .ok (hart.uret, false)
  | .sret machInst => .ok ((hart.sret machInst).1.finishReturn (hart.sret machInst).2)
  | .mret machInst => .ok ((hart.mret machInst).1.finishReturn (hart.mret machInst).2)
  | .exception code trapValue => .ok (hart.invoke ⟨.others, code, trapValue⟩, true)
  | .interrupt => hart.takeInterrupt
  | .post num => .ok ({ hart with ip := hart.ip ||| BitVec.ofNat NumInterruptTypes 1 <<< num.val }, false)
  | .clear num => .ok ({ hart with ip := hart.ip &&& ~~~(BitVec.ofNat NumInterruptTypes 1 <<< num.val) }, false)
  | .postNMI => .ok (hart.set .nmip 1, false)
  | .clearNMI => .ok (hart.set .nmip 0, false)
  | .count cycles insts => .ok ({ hart with curCycle := cycles, totalInsts := insts }, false)

def step : Step Hart HartEvent HartLabel Fault := fun hart event => do
  let (after, trapped) ← hart.happen event
  return (after, [⟨hart.miscRegFile .prv, trapped, after.miscRegFile .prv⟩])

end Hart

/-- The life of a hart: events, and now and then a reset of its thread. -/
inductive HartOp where
  | event (event : HartEvent)
  | resetThread (entry : Addr)
  deriving DecidableEq, Repr

def Hart.operate : Step Hart HartOp HartLabel Fault := fun hart op =>
  match op with
  | .event event => hart.step event
  | .resetThread entry => .ok (hart.reset entry, [])

/-- What a checkpoint holds of a hart's ISA and MMU objects. The memory protection has no
serialize of its own, and the translations, which it does not read, are left out. -/
structure Checkpoint where
  miscRegFile : MiscReg → RegVal

/-- ISA::serialize -/
def Hart.serialize (hart : Hart) : Checkpoint := ⟨hart.miscRegFile⟩

/-- ISA::unserialize -/
def Hart.unserialize (hart : Hart) (checkpoint : Checkpoint) : Hart := { hart with miscRegFile := checkpoint.miscRegFile }

end ImcGem5.Riscv

import ImcGem5.Riscv.Hart

/-! Sv39 translation in atomic mode: the page-table walker, which fills the TLB and sets
the accessed and dirty bits, and the translation that looks there first. -/

namespace ImcGem5.Riscv
open Lib Mem

/-- Memory as the walker sees it: all its accesses are of eight bytes, and aligned. -/
abbrev PageMemory := Addr → BitVec 64

abbrev PTESv39 := BitVec 64

namespace PTESv39

def v (pte : PTESv39) : Bool := pte.getLsbD 0
def r (pte : PTESv39) : Bool := pte.getLsbD 1
def w (pte : PTESv39) : Bool := pte.getLsbD 2
def x (pte : PTESv39) : Bool := pte.getLsbD 3
def u (pte : PTESv39) : Bool := pte.getLsbD 4
def a (pte : PTESv39) : Bool := pte.getLsbD 6
def d (pte : PTESv39) : Bool := pte.getLsbD 7
def ppn (pte : PTESv39) : BitVec 44 := pte.extractLsb' 10 44
def ppn0 (pte : PTESv39) : BitVec 9 := pte.extractLsb' 10 9
def ppn1 (pte : PTESv39) : BitVec 9 := pte.extractLsb' 19 9

def setA (pte : PTESv39) : PTESv39 := pte ||| 1#64 <<< 6
def setD (pte : PTESv39) : PTESv39 := pte ||| 1#64 <<< 7
def clearW (pte : PTESv39) : PTESv39 := pte &&& ~~~(1#64 <<< 2)

end PTESv39

abbrev SATP := BitVec 64

namespace SATP

def mode (satp : SATP) : BitVec 4 := satp.extractLsb' 60 4
def asid (satp : SATP) : BitVec 16 := satp.extractLsb' 44 16
def ppn (satp : SATP) : BitVec 44 := satp.extractLsb' 0 44

end SATP

def PageShift : Nat := 12
def LEVEL_BITS : Nat := 9

def sextVaddr (vaddr : Addr) : Addr := (vaddr.setWidth 39).signExtend 64

/-- The address of an entry in the table at `ppn`. -/
def pteAddr (ppn : BitVec 44) (vaddr : Addr) (level : Nat) : Addr :=
  let idx := (vaddr >>> (PageShift + LEVEL_BITS * level)) &&& 511
  (ppn.setWidth 64 <<< PageShift) + idx * 8

/-- A page fault, or an access fault; the code follows from the mode. -/
inductive MmuFault where
  | page (fault : AddressFault)
  | access (fault : AddressFault)
  deriving DecidableEq, Repr

def createPagefault (vaddr : Addr) (mode : AccessMode) : MmuFault := .page ⟨vaddr, mode⟩

/-- The registers of a thread that translation reads. -/
structure Context where
  prv : RegVal
  status : STATUS
  satp : SATP
  deriving DecidableEq, Repr

def Hart.context (hart : Hart) : Context := ⟨hart.miscRegFile .prv, hart.readStatus.1, hart.miscRegFile .satp⟩

namespace Context

def getMemPriv (context : Context) (mode : AccessMode) : RegVal :=
  if mode ≠ .execute ∧ context.status.mprv = 1 then context.status.mpp.setWidth 64 else context.prv

end Context

/-- Memory protection only asks whether the mode is machine mode. -/
def pmpMode (pmode : RegVal) : PrivilegeMode :=
  if pmode = PRV_M then .machine else if pmode = PRV_U then .user else .supervisor

def lacksPermission (mode : AccessMode) (pte : PTESv39) : Bool :=
  match mode with
  | .read => !pte.r
  | .write => !pte.w
  | .execute => !pte.x

def checkPermissions (status : STATUS) (pmode : RegVal) (vaddr : Addr) (mode : AccessMode) (pte : PTESv39) : Option MmuFault :=
  if lacksPermission mode pte then some (createPagefault vaddr mode)
  else if pmode = PRV_U ∧ pte.u = false then some (createPagefault vaddr mode)
  else if pmode = PRV_S ∧ pte.u = true ∧ status.sum = 0 then some (createPagefault vaddr mode)
  else none

/-- What a walk fetches before it starts, and the protection it asks. -/
structure WalkerState where
  status : STATUS
  pmode : RegVal
  satp : SATP
  mode : AccessMode
  pmp : PMP
  deriving DecidableEq, Repr

/-- Where a walk stands: the level and the address of the entry to read. -/
structure Walk where
  level : Nat
  entry : TlbEntry
  read : Addr
  deriving DecidableEq, Repr

/-- A step sets up another read, or ends the walk with a fault, an entry to write back
and an entry for the TLB. -/
inductive Stepped where
  | next (level : Nat) (read : Addr)
  | done (fault : Option MmuFault) (write : Option PTESv39) (insert : Option TlbEntry)
  deriving DecidableEq, Repr

namespace WalkerState

def pageFault (state : WalkerState) (walk : Walk) : MmuFault := createPagefault walk.entry.vaddr state.mode

def pmpCheck (state : WalkerState) (walk : Walk) (mode : AccessMode) (pmode : PrivilegeMode) : Option MmuFault :=
  (state.pmp.pmpCheck ⟨walk.read, 8, none⟩ mode pmode walk.entry.vaddr).map .access

/-- Superpages have the lower parts of their PPN clear. -/
def misaligned (level : Nat) (pte : PTESv39) : Bool := (1 ≤ level ∧ pte.ppn0 ≠ 0) ∨ (level = 2 ∧ pte.ppn1 ≠ 0)

/-- Step 7: the accessed bit, and for writes the dirty bit. -/
def updated (mode : AccessMode) (pte : PTESv39) : PTESv39 :=
  let pte := if pte.a then pte else pte.setA
  if pte.d = false ∧ mode = .write then pte.setD else pte

def doWrite (mode : AccessMode) (pte : PTESv39) : Bool := pte.a = false ∨ (pte.d = false ∧ mode = .write)

def logBytes (level : Nat) : Nat := PageShift + level * LEVEL_BITS

/-- Step 8: the entry is not writable until a write sets the dirty bit. -/
def tlbEntry (mode : AccessMode) (walk : Walk) (pte : PTESv39) : TlbEntry :=
  { walk.entry with
    logBytes := logBytes walk.level
    paddr := pte.ppn.setWidth 64
    vaddr := walk.entry.vaddr &&& ~~~(1#64 <<< logBytes walk.level - 1)
    pte := if pte.d = false ∧ mode ≠ .write then pte.clearW else pte }

def written (mode : AccessMode) (pte : PTESv39) : Option PTESv39 := if doWrite mode pte then some (updated mode pte) else none

/-- The protection is asked for the write with the mode of the access. -/
def writeFault (state : WalkerState) (walk : Walk) (pte : PTESv39) : Option MmuFault :=
  if doWrite state.mode pte then state.pmpCheck walk .write (pmpMode state.pmode) else none

/-- A leaf. The entry is written back even if protection refuses the write. -/
def leafStep (state : WalkerState) (walk : Walk) (pte : PTESv39) : Stepped :=
  match checkPermissions state.status state.pmode walk.entry.vaddr state.mode pte with
  | some fault => .done (some fault) none none
  | none =>
    if misaligned walk.level pte then .done (some (state.pageFault walk)) none none
    else
      match state.writeFault walk pte with
      | some fault => .done (some fault) (written state.mode pte) none
      | none => .done none (written state.mode pte) (some (tlbEntry state.mode walk (updated state.mode pte)))

/-- Not a leaf; below level 0 there is nothing more to read. -/
def tableStep (state : WalkerState) (walk : Walk) (pte : PTESv39) : Stepped :=
  match walk.level with
  | 0 => .done (some (state.pageFault walk)) none none
  | level + 1 => .next level (pteAddr pte.ppn walk.entry.vaddr level)

def stepWalk (state : WalkerState) (walk : Walk) (pte : PTESv39) : Stepped :=
  match state.pmpCheck walk .read .supervisor with
  | some fault => .done (some fault) none none
  | none =>
    if pte.v = false ∨ (pte.r = false ∧ pte.w = true) then .done (some (state.pageFault walk)) none none
    else if pte.r ∨ pte.x then state.leafStep walk pte
    else state.tableStep walk pte

def setupWalk (state : WalkerState) (vaddr : Addr) : Walk :=
  let vaddr := sextVaddr vaddr
  { level := 2, entry := { vaddr, asid := state.satp.asid }, read := pteAddr state.satp.ppn vaddr 2 }

end WalkerState

/-- The TLB and the memory behind it. -/
structure Mmu where
  tlb : TLB
  memory : PageMemory

namespace Mmu

def tlbInsert (tlb : TLB) : Option TlbEntry → Except Fault TLB
  | none => .ok tlb
  | some entry => do
    let (tlb, _) ← tlb.insert entry.vaddr entry
    return tlb

def writeBack (memory : PageMemory) (read : Addr) : Option PTESv39 → PageMemory
  | none => memory
  | some pte => Function.update memory read pte

/-- The loop of startWalk. It takes a turn for each level. -/
def walkLoop (state : WalkerState) : Nat → Walk → Mmu → Except Fault (Mmu × Option MmuFault)
  | 0, _, _ => .error .stuck
  | turns + 1, walk, mmu =>
    match state.stepWalk walk (mmu.memory walk.read) with
    | .next level read => walkLoop state turns { walk with level, read } mmu
    | .done fault write insert => do
      let tlb ← tlbInsert mmu.tlb insert
      return (⟨tlb, writeBack mmu.memory walk.read write⟩, fault)

def startWalk (state : WalkerState) (vaddr : Addr) (mmu : Mmu) : Except Fault (Mmu × Option MmuFault) :=
  walkLoop state 3 (state.setupWalk vaddr) mmu

/-- Walker::start: the registers are fetched now. -/
def start (mmu : Mmu) (pmp : PMP) (context : Context) (vaddr : Addr) (mode : AccessMode) : Except Fault (Mmu × Option MmuFault) := do
  Fault.ensure (context.satp.mode == Hart.SATP_SV39) "satp.mode == AddrXlateMode::SV39"
  startWalk ⟨context.status, context.getMemPriv mode, context.satp, mode, pmp⟩ vaddr mmu

def lookup (mmu : Mmu) (vpn : Addr) (asid : BitVec 16) : Except Fault (Mmu × Option Nat) := do
  let (tlb, found) ← mmu.tlb.lookup vpn asid false
  return ({ mmu with tlb }, found)

/-- `e->paddr << PageShift | (vaddr & mask(e->logBytes))` -/
def physical (entry : TlbEntry) (vaddr : Addr) : Addr := (entry.paddr <<< PageShift) ||| (vaddr &&& (1#64 <<< entry.logBytes - 1))

/-- The first lookup, and after a walk the second one, which has to find something. -/
def lookupOrWalk (mmu : Mmu) (pmp : PMP) (context : Context) (vaddr : Addr) (mode : AccessMode) :
    Except Fault (Mmu × Except MmuFault Nat) := do
  let (mmu, found) ← mmu.lookup (sextVaddr vaddr) context.satp.asid
  match found with
  | some idx => return (mmu, .ok idx)
  | none =>
    let (mmu, fault) ← mmu.start pmp context vaddr mode
    match fault with
    | some fault => return (mmu, .error fault)
    | none =>
      let (mmu, found) ← mmu.lookup (sextVaddr vaddr) context.satp.asid
      match found with
      | some idx => return (mmu, .ok idx)
      | none => .error (.assertion "e != nullptr")

/-- The check of the entry found. A write through an entry that is not writable walks
again, to update the dirty bit. -/
def recheck (mmu : Mmu) (pmp : PMP) (context : Context) (vaddr : Addr) (mode : AccessMode) (entry : TlbEntry) :
    Except Fault (Mmu × Option MmuFault) :=
  match checkPermissions context.status (context.getMemPriv mode) (sextVaddr vaddr) mode entry.pte with
  | none => .ok (mmu, none)
  | some fault => if mode = .write ∧ PTESv39.w entry.pte = false then mmu.start pmp context vaddr mode else .ok (mmu, some fault)

def doTranslate (mmu : Mmu) (pmp : PMP) (context : Context) (vaddr : Addr) (mode : AccessMode) :
    Except Fault (Mmu × Except MmuFault Addr) := do
  let (mmu, found) ← mmu.lookupOrWalk pmp context vaddr mode
  match found with
  | .error fault => return (mmu, .error fault)
  | .ok idx =>
    let entry ← mmu.tlb.entry idx
    let (mmu, fault) ← mmu.recheck pmp context vaddr mode entry
    match fault with
    | some fault => return (mmu, .error fault)
    | none => return (mmu, .ok (physical entry (sextVaddr vaddr)))

/-- Bare mode and machine mode use the address as it is. -/
def addressOf (mmu : Mmu) (pmp : PMP) (context : Context) (vaddr : Addr) (mode : AccessMode) :
    Except Fault (Mmu × Except MmuFault Addr) :=
  if context.getMemPriv mode = PRV_M ∨ context.satp.mode = Hart.SATP_BARE then .ok (mmu, .ok vaddr)
  else mmu.doTranslate pmp context vaddr mode

/-- The checks on a physical address. -/
def checkPhysical (pmp : PMP) (pmode : RegVal) (vaddr paddr : Addr) (size : Nat) (mode : AccessMode) : Except MmuFault Addr :=
  if paddr.getLsbD 63 then .error (.access ⟨vaddr, mode⟩)
  else
    match pmp.pmpCheck ⟨paddr, size, some vaddr⟩ mode (pmpMode pmode) 0 with
    | some fault => .error (.access fault)
    | none => .ok paddr

/-- TLB::translateAtomic -/
def translateAtomic (mmu : Mmu) (pmp : PMP) (context : Context) (vaddr : Addr) (size : Nat) (mode : AccessMode) :
    Except Fault (Mmu × Except MmuFault Addr) := do
  let (mmu, outcome) ← mmu.addressOf pmp context vaddr mode
  match outcome with
  | .error fault => return (mmu, .error fault)
  | .ok paddr => return (mmu, checkPhysical pmp (context.getMemPriv mode) vaddr paddr size mode)

end Mmu

/-- A translation, with the privilege and the status at its time. -/
structure Access where
  prv : RegVal
  status : STATUS
  vaddr : Addr
  size : Nat
  mode : AccessMode
  deriving DecidableEq, Repr

structure AccessLabel where
  outcome : Except MmuFault Addr
  memory : PageMemory

/-- Translations one after another, under one satp and one protection. -/
def Mmu.step (pmp : PMP) (satp : SATP) : Step Mmu Access AccessLabel Fault := fun mmu access => do
  let (mmu, outcome) ← mmu.translateAtomic pmp ⟨access.prv, access.status, satp⟩ access.vaddr access.size access.mode
  return (mmu, [⟨outcome, mmu.memory⟩])

/-- The same with the TLB flushed before each. -/
def Mmu.flushedStep (pmp : PMP) (satp : SATP) : Step Mmu Access AccessLabel Fault := fun mmu access => do
  let tlb ← mmu.tlb.flushAll
  Mmu.step pmp satp { mmu with tlb } access

end ImcGem5.Riscv

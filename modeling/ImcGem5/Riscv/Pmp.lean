import ImcGem5.Riscv.Tlb
import ImcGem5.Mem.Abstract

/-! Physical memory protection. Each entry keeps its registers and the address range
they were last decoded to. -/

namespace ImcGem5.Riscv
open Lib Mem

inductive PrivilegeMode where
  | user
  | supervisor
  | machine
  deriving DecidableEq, Repr

inductive PmpAmatch where
  | off
  | tor
  | na4
  | napot
  deriving DecidableEq, Repr

/-- A byte of a pmpcfg register. -/
abbrev PmpCfg := BitVec 8

def PMP_READ : PmpCfg := 1#8 <<< 0
def PMP_WRITE : PmpCfg := 1#8 <<< 1
def PMP_EXEC : PmpCfg := 1#8 <<< 2
def PMP_A_MASK : PmpCfg := 3#8 <<< 3
def PMP_LOCK : PmpCfg := 1#8 <<< 7

def pmpGetAField (cfg : PmpCfg) : PmpAmatch :=
  match ((cfg >>> 3) &&& 0x03).toNat with
  | 0 => .off
  | 1 => .tor
  | 2 => .na4
  | _ => .napot

/-- The number of trailing zeros, 64 for zero. -/
def ctz64 (value : BitVec 64) : Nat := ((List.range 64).find? value.getLsbD).getD 64

/-- mbits(value, 63, last) -/
def mbitsFrom (value : BitVec 64) (last : Nat) : BitVec 64 := (value >>> last) <<< last

def pmpDecodeNapot (pmpaddr : Addr) : AddrRange :=
  if pmpaddr = -1 then ⟨0, -1⟩
  else
    let t1 := ctz64 (~~~pmpaddr)
    let range := 1#64 <<< ((t1 + 3) % 64)
    let base := mbitsFrom pmpaddr t1 <<< 2
    ⟨base, base + range⟩

structure PmpEntry where
  pmpAddr : AddrRange := ⟨0, 0⟩
  rawAddr : Addr := 0
  pmpCfg : PmpCfg := 0
  deriving DecidableEq, Repr

namespace PmpEntry

def active (entry : PmpEntry) : Bool := pmpGetAField entry.pmpCfg ≠ .off

def locked (entry : PmpEntry) : Bool := PMP_LOCK &&& entry.pmpCfg ≠ 0

/-- Whether a configuration has the permission a mode needs. -/
def permits (entry : PmpEntry) : AccessMode → Bool
  | .read => PMP_READ &&& entry.pmpCfg ≠ 0
  | .write => PMP_WRITE &&& entry.pmpCfg ≠ 0
  | .execute => PMP_EXEC &&& entry.pmpCfg ≠ 0

/-- The switch of pmpUpdateRule. -/
def rule (entry : PmpEntry) (prevAddr : Addr) : AddrRange :=
  match pmpGetAField entry.pmpCfg with
  | .off => ⟨0, 0⟩
  | .tor => ⟨prevAddr <<< 2, entry.rawAddr <<< 2⟩
  | .na4 => ⟨entry.rawAddr <<< 2, (entry.rawAddr <<< 2) + 4⟩
  | .napot => pmpDecodeNapot entry.rawAddr

end PmpEntry

/-- `paddr`, `size` and the virtual address of a request, if it has one. -/
structure PmpRequest where
  paddr : Addr
  size : Nat
  vaddr : Option Addr := none
  deriving DecidableEq, Repr

structure AddressFault where
  vaddr : Addr
  mode : AccessMode
  deriving DecidableEq, Repr

structure PMP where
  pmpTable : List PmpEntry
  numRules : Nat := 0
  hasLockEntry : Bool := false
  deriving DecidableEq, Repr

namespace PMP

def new (pmpEntries : Nat) : PMP := { pmpTable := List.replicate pmpEntries {} }

def prevAddr (table : List PmpEntry) (index : Nat) : Addr :=
  if 1 ≤ index then (table[index - 1]?.map (·.rawAddr)).getD 0 else 0

def pmpUpdateRule (pmp : PMP) (index : Nat) : PMP :=
  match pmp.pmpTable[index]? with
  | none => pmp
  | some entry =>
    let table := pmp.pmpTable.set index { entry with pmpAddr := entry.rule (prevAddr pmp.pmpTable index) }
    { pmpTable := table, numRules := table.countP (·.active), hasLockEntry := table.any (·.locked) }

def pmpUpdateCfg (pmp : PMP) (index : Nat) (cfg : PmpCfg) : PMP × Bool :=
  match pmp.pmpTable[index]? with
  | none => (pmp, false)
  | some entry =>
    if entry.locked then (pmp, false)
    else (pmpUpdateRule { pmp with pmpTable := pmp.pmpTable.set index { entry with pmpCfg := cfg } } index, true)

def pmpUpdateAddr (pmp : PMP) (index : Nat) (addr : Addr) : PMP × Bool :=
  match pmp.pmpTable[index]? with
  | none => (pmp, false)
  | some entry =>
    if entry.locked then (pmp, false)
    else if (pmp.pmpTable[index + 1]?.map fun next => next.locked && pmpGetAField next.pmpCfg == .tor).getD false then (pmp, false)
    else
      let pmp := { pmp with pmpTable := pmp.pmpTable.set index { entry with rawAddr := addr } }
      ((List.range pmp.pmpTable.length).foldl pmpUpdateRule pmp, true)

/-- One turn of the loop of pmpReset. -/
def resetEntry (pmp : PMP) (index : Nat) : PMP :=
  match pmp.pmpTable[index]? with
  | none => pmp
  | some entry =>
    pmpUpdateRule { pmp with pmpTable := pmp.pmpTable.set index { entry with pmpCfg := entry.pmpCfg &&& ~~~(PMP_A_MASK ||| PMP_LOCK) } } index

def pmpReset (pmp : PMP) : PMP := (List.range pmp.pmpTable.length).foldl resetEntry pmp

def shouldCheckPMP (pmp : PMP) (pmode : PrivilegeMode) : Bool :=
  pmp.numRules ≠ 0 && (pmode ≠ .machine || pmp.hasLockEntry)

def decides (entry : PmpEntry) (mode : AccessMode) (pmode : PrivilegeMode) : Bool :=
  (pmode = .machine && !entry.locked) || entry.permits mode

/-- The loop over the table, with the last entry that matched. -/
def scan (mode : AccessMode) (pmode : PrivilegeMode) (first last : Addr) : Option PmpEntry → List PmpEntry → Option Bool
  | _, [] => none
  | matched, entry :: rest =>
    let matched := if entry.pmpAddr.contains first && entry.pmpAddr.contains last then some entry else matched
    match matched with
    | some hit => if hit.active then some (decides hit mode pmode) else scan mode pmode first last matched rest
    | none => scan mode pmode first last matched rest

/-- NoFault is `none`. -/
def pmpCheck (pmp : PMP) (req : PmpRequest) (mode : AccessMode) (pmode : PrivilegeMode) (vaddr : Addr) : Option AddressFault :=
  if !pmp.shouldCheckPMP pmode then none
  else
    let granted := (scan mode pmode req.paddr (req.paddr + BitVec.ofNat 64 req.size - 1) none pmp.pmpTable).getD (pmode = .machine)
    if granted then none else some ⟨req.vaddr.getD vaddr, mode⟩

end PMP

inductive PmpOp where
  | updateCfg (index : Nat) (cfg : PmpCfg)
  | updateAddr (index : Nat) (addr : Addr)
  | reset
  deriving DecidableEq, Repr

def PMP.apply (pmp : PMP) : PmpOp → PMP
  | .updateCfg index cfg => (pmp.pmpUpdateCfg index cfg).1
  | .updateAddr index addr => (pmp.pmpUpdateAddr index addr).1
  | .reset => pmp.pmpReset

end ImcGem5.Riscv

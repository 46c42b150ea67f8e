import ImcGem5.Riscv.Walker

/-! Sv39 as the privileged architecture defines it, in the version the walker numbers its
steps after (1.10 and 1.11). This is a statement of purpose and not a translation of source
text. -/

namespace ImcGem5.Riscv.Sv39
open Lib Mem

/-- How a translation ends. The algorithm leaves open which access exception is raised. -/
inductive Ending where
  | page (fault : AddressFault)
  | access
  | address (paddr : Addr)
  deriving DecidableEq, Repr

/-- Bits 63 to 39 equal bit 38. -/
def canonical (va : Addr) : Bool := (List.range 25).all fun i => va.getLsbD (39 + i) == va.getLsbD 38

def vpn (va : Addr) (i : Nat) : BitVec 9 := va.extractLsb' (12 + 9 * i) 9

/-- Whether memory protection lets a supervisor access an entry. -/
def granted (pmp : PMP) (mode : AccessMode) (addr : Addr) : Bool := (pmp.pmpCheck ⟨addr, 8, none⟩ mode .supervisor 0).isNone

/-- Steps 2 to 4: where the tables lead. -/
inductive Reach where
  | missing
  | refused
  | leaf (i : Nat) (addr : Addr)
  deriving DecidableEq, Repr

/-- From the table at `a`, which is of level `i`. -/
def reach (pmp : PMP) (memory : PageMemory) (va : Addr) : Nat → Addr → Reach
  | i, a =>
    let addr := a + (vpn va i).setWidth 64 * 8
    let pte : PTESv39 := memory addr
    if !granted pmp .read addr then .refused
    else if pte.v = false ∨ (pte.r = false ∧ pte.w = true) then .missing
    else if pte.r = true ∨ pte.x = true then .leaf i addr
    else
      match i with
      | 0 => .missing
      | below + 1 => reach pmp memory va below (pte.ppn.setWidth 64 * 4096)

/-- Step 5: the permissions, with MXR. -/
def allows (status : STATUS) (mode : AccessMode) (pte : PTESv39) : Bool :=
  match mode with
  | .read => pte.r || (status.mxr = 1 && pte.x)
  | .write => pte.w
  | .execute => pte.x

/-- Step 5: user pages are for user mode, and with SUM for the loads and stores of
supervisor mode. -/
def inMode (status : STATUS) (pmode : RegVal) (mode : AccessMode) (pte : PTESv39) : Bool :=
  if pmode = PRV_U then pte.u else !pte.u || (status.sum = 1 && mode ≠ .execute)

/-- Step 6 -/
def aligned (i : Nat) (pte : PTESv39) : Bool := pte.ppn.toNat % 2 ^ (9 * i) = 0

/-- Step 7 -/
def marked (mode : AccessMode) (pte : PTESv39) : PTESv39 := pte ||| 0x40#64 ||| if mode = .write then 0x80#64 else 0

/-- Step 8: the upper parts of the PPN, and the rest of the address as it is. -/
def translated (i : Nat) (pte : PTESv39) (va : Addr) : Addr :=
  BitVec.ofNat 64 (pte.ppn.toNat / 2 ^ (9 * i) * 2 ^ (12 + 9 * i) + va.toNat % 2 ^ (12 + 9 * i))

def permitted (status : STATUS) (pmode : RegVal) (mode : AccessMode) (i : Nat) (pte : PTESv39) : Bool :=
  allows status mode pte && inMode status pmode mode pte && aligned i pte

def translate (pmp : PMP) (status : STATUS) (pmode : RegVal) (satp : SATP) (memory : PageMemory) (va : Addr) (mode : AccessMode) :
    PageMemory × Ending :=
  if !canonical va then (memory, .page ⟨va, mode⟩)
  else
    match reach pmp memory va 2 (satp.ppn.setWidth 64 * 4096) with
    | .missing => (memory, .page ⟨va, mode⟩)
    | .refused => (memory, .access)
    | .leaf i addr =>
      let pte := memory addr
      if !permitted status pmode mode i pte then (memory, .page ⟨va, mode⟩)
      else if marked mode pte = pte then (memory, .address (translated i pte va))
      else if granted pmp .write addr then (Function.update memory addr (marked mode pte), .address (translated i pte va))
      else (memory, .access)

end ImcGem5.Riscv.Sv39

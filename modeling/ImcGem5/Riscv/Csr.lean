import ImcGem5.Lib.Bits
import Mathlib.Data.List.FinRange

/-! The control and status registers of a hart: what stands behind each CSR number, and
the bits of it that the number shows. The names of the registers are left out. -/

namespace ImcGem5.Riscv
open Lib

abbrev RegVal := BitVec 64

inductive RiscvType where
  | rv32
  | rv64
  deriving DecidableEq, Repr

/-- MiscRegIndex. Counter and event `i` of the source is `i - 3` here. -/
inductive MiscReg where
  | prv | isa | vendorid | archid | impid | hartid | status | ip | ie
  | cycle | time | instret | hpmcounter (i : Fin 29) | hpmevent (i : Fin 29)
  | tselect | tdata1 | tdata2 | tdata3 | dcsr | dpc | dscratch
  | medeleg | mideleg | mtvec | mcounteren | mscratch | mepc | mcause | mtval
  | pmpcfg (i : Fin 4) | pmpaddr (i : Fin 16)
  | sedeleg | sideleg | stvec | scounteren | sscratch | sepc | scause | stval | satp
  | utvec | uscratch | uepc | ucause | utval | fflags | frm
  | nmivec | nmie | nmip
  | mstatush | cycleh | timeh | instreth | hpmcounterh (i : Fin 29)
  deriving DecidableEq, Repr

/-- A CSR number. -/
abbrev CSRIndex := BitVec 12

def CSR_USTATUS : CSRIndex := 0x000
def CSR_FFLAGS : CSRIndex := 0x001
def CSR_FRM : CSRIndex := 0x002
def CSR_FCSR : CSRIndex := 0x003
def CSR_UIE : CSRIndex := 0x004
def CSR_UIP : CSRIndex := 0x044
def CSR_SSTATUS : CSRIndex := 0x100
def CSR_SIE : CSRIndex := 0x104
def CSR_SIP : CSRIndex := 0x144
def CSR_SATP : CSRIndex := 0x180
def CSR_MSTATUS : CSRIndex := 0x300
def CSR_MISA : CSRIndex := 0x301
def CSR_MIE : CSRIndex := 0x304
def CSR_MSTATUSH : CSRIndex := 0x310
def CSR_MIP : CSRIndex := 0x344

structure CSRMetadata where
  physIndex : MiscReg
  rvTypes : List RiscvType := [.rv64, .rv32]
  deriving DecidableEq, Repr

/-- The rows of a family of numbered registers. -/
def csrFamily {n : Nat} (first : Nat) (physIndex : Fin n → MiscReg) (rvTypes : List RiscvType) : List (CSRIndex × CSRMetadata) :=
  (List.finRange n).map fun i => (BitVec.ofNat 12 (first + i.val), ⟨physIndex i, rvTypes⟩)

def csrTable : List (CSRIndex × CSRMetadata) :=
  [(CSR_USTATUS, { physIndex := .status }), (CSR_UIE, { physIndex := .ie }), (0x005, { physIndex := .utvec }),
    (0x040, { physIndex := .uscratch }), (0x041, { physIndex := .uepc }), (0x042, { physIndex := .ucause }),
    (0x043, { physIndex := .utval }), (CSR_UIP, { physIndex := .ip }), (CSR_FFLAGS, { physIndex := .fflags }),
    (CSR_FRM, { physIndex := .frm }), (CSR_FCSR, { physIndex := .fflags }), (0xC00, { physIndex := .cycle }),
    (0xC01, { physIndex := .time }), (0xC02, { physIndex := .instret })] ++
  csrFamily 0xC03 .hpmcounter [.rv64, .rv32] ++
  [(0xC80, ⟨.cycleh, [.rv32]⟩), (0xC81, ⟨.timeh, [.rv32]⟩), (0xC82, ⟨.instreth, [.rv32]⟩)] ++
  csrFamily 0xC83 .hpmcounterh [.rv32] ++
  [(CSR_SSTATUS, { physIndex := .status }), (0x102, { physIndex := .sedeleg }), (0x103, { physIndex := .sideleg }),
    (CSR_SIE, { physIndex := .ie }), (0x105, { physIndex := .stvec }), (0x106, { physIndex := .scounteren }),
    (0x140, { physIndex := .sscratch }), (0x141, { physIndex := .sepc }), (0x142, { physIndex := .scause }),
    (0x143, { physIndex := .stval }), (CSR_SIP, { physIndex := .ip }), (CSR_SATP, { physIndex := .satp }),
    (0xF11, { physIndex := .vendorid }), (0xF12, { physIndex := .archid }), (0xF13, { physIndex := .impid }),
    (0xF14, { physIndex := .hartid }), (CSR_MSTATUS, { physIndex := .status }), (CSR_MISA, { physIndex := .isa }),
    (0x302, { physIndex := .medeleg }), (0x303, { physIndex := .mideleg }), (CSR_MIE, { physIndex := .ie }),
    (0x305, { physIndex := .mtvec }), (0x306, { physIndex := .mcounteren }), (CSR_MSTATUSH, ⟨.mstatush, [.rv32]⟩),
    (0x340, { physIndex := .mscratch }), (0x341, { physIndex := .mepc }), (0x342, { physIndex := .mcause }),
    (0x343, { physIndex := .mtval }), (CSR_MIP, { physIndex := .ip }),
    (0x3A0, { physIndex := .pmpcfg 0 }), (0x3A1, ⟨.pmpcfg 1, [.rv32]⟩), (0x3A2, { physIndex := .pmpcfg 2 }),
    (0x3A3, ⟨.pmpcfg 3, [.rv32]⟩)] ++
  csrFamily 0x3B0 .pmpaddr [.rv64, .rv32] ++
  [(0xB00, { physIndex := .cycle }), (0xB02, { physIndex := .instret })] ++
  csrFamily 0xB03 .hpmcounter [.rv64, .rv32] ++
  [(0xB80, ⟨.cycleh, [.rv32]⟩), (0xB82, ⟨.instreth, [.rv32]⟩)] ++
  csrFamily 0xB83 .hpmcounterh [.rv32] ++
  csrFamily 0x323 .hpmevent [.rv64, .rv32] ++
  [(0x7A0, { physIndex := .tselect }), (0x7A1, { physIndex := .tdata1 }), (0x7A2, { physIndex := .tdata2 }),
    (0x7A3, { physIndex := .tdata3 }), (0x7B0, { physIndex := .dcsr }), (0x7B1, { physIndex := .dpc }),
    (0x7B2, { physIndex := .dscratch })]

def CSRData (csr : CSRIndex) : Option CSRMetadata := csrTable.lookup csr

abbrev STATUS := BitVec 64

namespace STATUS

def sd : RiscvType → Nat
  | .rv32 => 31
  | .rv64 => 63

def tsr (status : STATUS) : BitVec 1 := status.extractLsb' 22 1
def tvm (status : STATUS) : BitVec 1 := status.extractLsb' 20 1
def mxr (status : STATUS) : BitVec 1 := status.extractLsb' 19 1
def sum (status : STATUS) : BitVec 1 := status.extractLsb' 18 1
def mprv (status : STATUS) : BitVec 1 := status.extractLsb' 17 1
def xs (status : STATUS) : BitVec 2 := status.extractLsb' 15 2
def fs (status : STATUS) : BitVec 2 := status.extractLsb' 13 2
def mpp (status : STATUS) : BitVec 2 := status.extractLsb' 11 2
def vs (status : STATUS) : BitVec 2 := status.extractLsb' 9 2
def spp (status : STATUS) : BitVec 1 := status.extractLsb' 8 1
def mpie (status : STATUS) : BitVec 1 := status.extractLsb' 7 1
def spie (status : STATUS) : BitVec 1 := status.extractLsb' 5 1
def upie (status : STATUS) : BitVec 1 := status.extractLsb' 4 1
def mie (status : STATUS) : BitVec 1 := status.extractLsb' 3 1
def sie (status : STATUS) : BitVec 1 := status.extractLsb' 1 1
def uie (status : STATUS) : BitVec 1 := status.extractLsb' 0 1

def setSxl (status : STATUS) (value : BitVec 2) : STATUS := insertField status 34 value
def setUxl (status : STATUS) (value : BitVec 2) : STATUS := insertField status 32 value
def setMprv (status : STATUS) (value : BitVec 1) : STATUS := insertField status 17 value
def setFs (status : STATUS) (value : BitVec 2) : STATUS := insertField status 13 value
def setMpp (status : STATUS) (value : BitVec 2) : STATUS := insertField status 11 value
def setSpp (status : STATUS) (value : BitVec 1) : STATUS := insertField status 8 value
def setMpie (status : STATUS) (value : BitVec 1) : STATUS := insertField status 7 value
def setSpie (status : STATUS) (value : BitVec 1) : STATUS := insertField status 5 value
def setUpie (status : STATUS) (value : BitVec 1) : STATUS := insertField status 4 value
def setMie (status : STATUS) (value : BitVec 1) : STATUS := insertField status 3 value
def setSie (status : STATUS) (value : BitVec 1) : STATUS := insertField status 1 value
def setUie (status : STATUS) (value : BitVec 1) : STATUS := insertField status 0 value
def setSd (status : STATUS) (rvType : RiscvType) (value : BitVec 1) : STATUS := insertField status (sd rvType) value

end STATUS

def ISA_EXT_MASK : RegVal := fieldMask 64 0 26

def MISA_MASKS : RiscvType → RegVal
  | .rv32 => (3#64 <<< 30) ||| ISA_EXT_MASK
  | .rv64 => (3#64 <<< 62) ||| ISA_EXT_MASK

def STATUS_SD_MASKS (rvType : RiscvType) : RegVal := 1#64 <<< STATUS.sd rvType
def STATUS_MBE_MASK : RiscvType → RegVal
  | .rv32 => 1#64 <<< 5
  | .rv64 => 1#64 <<< 37
def STATUS_SBE_MASK : RiscvType → RegVal
  | .rv32 => 1#64 <<< 4
  | .rv64 => 1#64 <<< 36
def STATUS_SXL_MASK : RegVal := 3#64 <<< 34
def STATUS_UXL_MASK : RegVal := 3#64 <<< 32
def STATUS_TSR_MASK : RegVal := 1#64 <<< 22
def STATUS_TW_MASK : RegVal := 1#64 <<< 21
def STATUS_TVM_MASK : RegVal := 1#64 <<< 20
def STATUS_MXR_MASK : RegVal := 1#64 <<< 19
def STATUS_SUM_MASK : RegVal := 1#64 <<< 18
def STATUS_MPRV_MASK : RegVal := 1#64 <<< 17
def STATUS_XS_MASK : RegVal := 3#64 <<< 15
def STATUS_FS_MASK : RegVal := 3#64 <<< 13
def STATUS_MPP_MASK : RegVal := 3#64 <<< 11
def STATUS_VS_MASK : RegVal := 3#64 <<< 9
def STATUS_SPP_MASK : RegVal := 1#64 <<< 8
def STATUS_MPIE_MASK : RegVal := 1#64 <<< 7
def STATUS_SPIE_MASK : RegVal := 1#64 <<< 5
def STATUS_UPIE_MASK : RegVal := 1#64 <<< 4
def STATUS_MIE_MASK : RegVal := 1#64 <<< 3
def STATUS_SIE_MASK : RegVal := 1#64 <<< 1
def STATUS_UIE_MASK : RegVal := 1#64 <<< 0

def MSTATUS_MASKS : RiscvType → RegVal
  | .rv32 => STATUS_SD_MASKS .rv32 ||| STATUS_TSR_MASK ||| STATUS_TW_MASK ||| STATUS_TVM_MASK ||| STATUS_MXR_MASK |||
      STATUS_SUM_MASK ||| STATUS_MPRV_MASK ||| STATUS_XS_MASK ||| STATUS_FS_MASK ||| STATUS_VS_MASK ||| STATUS_MPP_MASK |||
      STATUS_SPP_MASK ||| STATUS_MPIE_MASK ||| STATUS_SPIE_MASK ||| STATUS_UPIE_MASK ||| STATUS_MIE_MASK |||
      STATUS_SIE_MASK ||| STATUS_UIE_MASK
  | .rv64 => STATUS_SD_MASKS .rv64 ||| STATUS_MBE_MASK .rv64 ||| STATUS_SBE_MASK .rv64 ||| STATUS_SXL_MASK |||
      STATUS_UXL_MASK ||| STATUS_TSR_MASK ||| STATUS_TW_MASK ||| STATUS_TVM_MASK ||| STATUS_MXR_MASK ||| STATUS_SUM_MASK |||
      STATUS_MPRV_MASK ||| STATUS_XS_MASK ||| STATUS_FS_MASK ||| STATUS_VS_MASK ||| STATUS_MPP_MASK ||| STATUS_SPP_MASK |||
      STATUS_MPIE_MASK ||| STATUS_SPIE_MASK ||| STATUS_UPIE_MASK ||| STATUS_MIE_MASK ||| STATUS_SIE_MASK ||| STATUS_UIE_MASK

def MSTATUSH_MASKS : RegVal := STATUS_MBE_MASK .rv32 ||| STATUS_SBE_MASK .rv32

def SSTATUS_MASKS : RiscvType → RegVal
  | .rv32 => STATUS_SD_MASKS .rv32 ||| STATUS_MXR_MASK ||| STATUS_SUM_MASK ||| STATUS_XS_MASK ||| STATUS_FS_MASK |||
      STATUS_VS_MASK ||| STATUS_SPP_MASK ||| STATUS_SPIE_MASK ||| STATUS_UPIE_MASK ||| STATUS_SIE_MASK ||| STATUS_UIE_MASK
  | .rv64 => STATUS_SD_MASKS .rv64 ||| STATUS_UXL_MASK ||| STATUS_MXR_MASK ||| STATUS_SUM_MASK ||| STATUS_XS_MASK |||
      STATUS_FS_MASK ||| STATUS_VS_MASK ||| STATUS_SPP_MASK ||| STATUS_SPIE_MASK ||| STATUS_UPIE_MASK ||| STATUS_SIE_MASK |||
      STATUS_UIE_MASK

def USTATUS_MASKS (rvType : RiscvType) : RegVal :=
  STATUS_SD_MASKS rvType ||| STATUS_MXR_MASK ||| STATUS_SUM_MASK ||| STATUS_XS_MASK ||| STATUS_FS_MASK ||| STATUS_VS_MASK |||
    STATUS_UPIE_MASK ||| STATUS_UIE_MASK

/-- The interrupt numbers, which are the bits of mip and mie. -/
def INT_SOFTWARE_USER : Nat := 0
def INT_SOFTWARE_SUPER : Nat := 1
def INT_SOFTWARE_MACHINE : Nat := 3
def INT_TIMER_USER : Nat := 4
def INT_TIMER_SUPER : Nat := 5
def INT_TIMER_MACHINE : Nat := 7
def INT_EXT_USER : Nat := 8
def INT_EXT_SUPER : Nat := 9
def INT_EXT_MACHINE : Nat := 11
def NumInterruptTypes : Nat := 12

def MI_MASK : RegVal :=
  1#64 <<< 11 ||| 1#64 <<< 9 ||| 1#64 <<< 8 ||| 1#64 <<< 7 ||| 1#64 <<< 5 ||| 1#64 <<< 4 ||| 1#64 <<< 3 ||| 1#64 <<< 1 ||| 1#64 <<< 0
def SI_MASK : RegVal := 1#64 <<< 9 ||| 1#64 <<< 8 ||| 1#64 <<< 5 ||| 1#64 <<< 4 ||| 1#64 <<< 1 ||| 1#64 <<< 0
def UI_MASK : RegVal := 1#64 <<< 8 ||| 1#64 <<< 4 ||| 1#64 <<< 0
def FRM_OFFSET : Nat := 5
def FFLAGS_MASK : RegVal := 1#64 <<< FRM_OFFSET - 1
def FRM_MASK : RegVal := 0x7

def csrMaskTable (rvType : RiscvType) : List (CSRIndex × RegVal) :=
  [(CSR_USTATUS, USTATUS_MASKS rvType), (CSR_UIE, UI_MASK), (CSR_UIP, UI_MASK), (CSR_FFLAGS, FFLAGS_MASK), (CSR_FRM, FRM_MASK),
    (CSR_FCSR, FFLAGS_MASK ||| (FRM_MASK <<< FRM_OFFSET)), (CSR_SSTATUS, SSTATUS_MASKS rvType), (CSR_SIE, SI_MASK),
    (CSR_SIP, SI_MASK), (CSR_MSTATUS, MSTATUS_MASKS rvType), (CSR_MISA, MISA_MASKS rvType), (CSR_MIE, MI_MASK),
    (CSR_MIP, MI_MASK)] ++
  match rvType with
  | .rv32 => [(CSR_MSTATUSH, MSTATUSH_MASKS)]
  | .rv64 => []

/-- A number without an entry shows every bit. -/
def CSRMasks (rvType : RiscvType) (csr : CSRIndex) : RegVal := ((csrMaskTable rvType).lookup csr).getD (BitVec.allOnes 64)

end ImcGem5.Riscv

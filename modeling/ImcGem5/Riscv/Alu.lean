import ImcGem5.Riscv.Hart

/-! Multiplications of the integer unit: the high halves of products, which are put together
from halves of the operands, and products without carries. -/

namespace ImcGem5.Riscv

/-- `(uint64_t)(uint32_t)value` -/
def lowHalf (value : RegVal) : RegVal := (value.setWidth 32).setWidth 64

/-- std::abs of an int64_t, as an operand of mulhu_64. -/
def abs64 (value : RegVal) : RegVal := if value.slt 0 then -value else value

def mulhu_64 (rs1 rs2 : RegVal) : RegVal :=
  let rs1_lo := lowHalf rs1
  let rs1_hi := rs1 >>> 32
  let rs2_lo := lowHalf rs2
  let rs2_hi := rs2 >>> 32
  let hi := rs1_hi * rs2_hi
  let mid1 := rs1_hi * rs2_lo
  let mid2 := rs1_lo * rs2_hi
  let lo := rs1_lo * rs2_lo
  let carry := (lowHalf mid1 + lowHalf mid2 + (lo >>> 32)) >>> 32
  hi + (mid1 >>> 32) + (mid2 >>> 32) + carry

/-- The high half of a product from that of the magnitudes. -/
def signHigh (negate : Bool) (rs1 rs2 res : RegVal) : RegVal :=
  if negate then ~~~res + (if rs1 * rs2 = 0 then 1 else 0) else res

def mulh_64 (rs1 rs2 : RegVal) : RegVal :=
  signHigh (rs1.slt 0 != rs2.slt 0) rs1 rs2 (mulhu_64 (abs64 rs1) (abs64 rs2))

def mulhsu_64 (rs1 rs2 : RegVal) : RegVal := signHigh (rs1.slt 0) rs1 rs2 (mulhu_64 (abs64 rs1) rs2)

/-- rvSelect(32, 64) -/
def xlen : RiscvType → Nat
  | .rv32 => 32
  | .rv64 => 64

/-- The loops of the products without carries, over the bits of the second operand from `first` on. -/
def clmulLoop (rs2 : RegVal) (term : Nat → RegVal) (first count : Nat) : RegVal :=
  (List.range' first count).foldl (fun result i => if (rs2 >>> i) &&& 1 ≠ 0 then result ^^^ term i else result) 0

def clmul (rvType : RiscvType) (rs1 rs2 : RegVal) : RegVal :=
  rvSext rvType (clmulLoop rs2 (fun i => rs1 <<< i) 0 (xlen rvType))

def clmulr (rvType : RiscvType) (rs1 rs2 : RegVal) : RegVal :=
  rvSext rvType (clmulLoop rs2 (fun i => rvZext rvType rs1 >>> (xlen rvType - i - 1)) 0 (xlen rvType))

/-- The MSB can never be 1, so there is no sign to extend. -/
def clmulh (rvType : RiscvType) (rs1 rs2 : RegVal) : RegVal :=
  clmulLoop rs2 (fun i => rvZext rvType rs1 >>> (xlen rvType - i)) 1 (xlen rvType - 1)

end ImcGem5.Riscv

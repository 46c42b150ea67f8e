import ImcGem5.Isa.Compressed
import ImcGem5.Isa.Expansion

/-! Whether compressed instructions do what the instructions do that they stand for. -/

namespace ImcGem5.Isa.Proofs.Expansion
open Lib Mem Rv64 Isa.Expansion Option
open BitVec hiding and_self

/-! The fields of words put together from fields -/

section Fields
variable (a b d : RegIndex) (f : BitVec 3) (op : BitVec 7)

theorem rType_fields (g : BitVec 7) :
    quadrant (rType g b a f d op) = op.extractLsb' 0 2 ∧ opcode5 (rType g b a f d op) = op.extractLsb' 2 5 ∧
      Rv64.rd (rType g b a f d op) = d ∧ funct3 (rType g b a f d op) = f ∧ rs1 (rType g b a f d op) = a ∧
      Rv64.rs2 (rType g b a f d op) = b ∧ funct7 (rType g b a f d op) = g ∧
      kfunct5 (rType g b a f d op) = g.extractLsb' 0 5 ∧ bs (rType g b a f d op) = g.extractLsb' 5 2 := by
  simp (disch := omega) only [quadrant, opcode5, Rv64.rd, funct3, rs1, Rv64.rs2, funct7, kfunct5, bs, rType,
    extractLsb'_append_eq_of_add_le, extractLsb'_append_eq_of_le, Nat.reduceSub, extractLsb'_eq_self, and_self]

theorem iType_fields (imm : BitVec 12) :
    quadrant (iType imm a f d op) = op.extractLsb' 0 2 ∧ opcode5 (iType imm a f d op) = op.extractLsb' 2 5 ∧
      Rv64.rd (iType imm a f d op) = d ∧ funct3 (iType imm a f d op) = f ∧ rs1 (iType imm a f d op) = a ∧
      imm12 (iType imm a f d op) = imm ∧ fs3 (iType imm a f d op) = imm.extractLsb' 7 5 ∧
      shamt6 (iType imm a f d op) = imm.extractLsb' 0 6 := by
  simp (disch := omega) only [quadrant, opcode5, Rv64.rd, funct3, rs1, imm12, fs3, shamt6, iType,
    extractLsb'_append_eq_of_add_le, extractLsb'_append_eq_of_le, Nat.reduceSub, extractLsb'_eq_self, and_self]

theorem sType_fields (imm : BitVec 12) :
    quadrant (sType imm b a f op) = op.extractLsb' 0 2 ∧ opcode5 (sType imm b a f op) = op.extractLsb' 2 5 ∧
      funct3 (sType imm b a f op) = f ∧ rs1 (sType imm b a f op) = a ∧ Rv64.rs2 (sType imm b a f op) = b ∧
      imm5 (sType imm b a f op) = imm.extractLsb' 0 5 ∧ imm7 (sType imm b a f op) = imm.extractLsb' 5 7 := by
  simp (disch := omega) only [quadrant, opcode5, funct3, rs1, Rv64.rs2, imm5, imm7, sType,
    extractLsb'_append_eq_of_add_le, extractLsb'_append_eq_of_le, Nat.reduceSub, extractLsb'_eq_self, and_self]

theorem bType_fields (imm : BitVec 13) :
    quadrant (bType imm b a f op) = op.extractLsb' 0 2 ∧ opcode5 (bType imm b a f op) = op.extractLsb' 2 5 ∧
      funct3 (bType imm b a f op) = f ∧ rs1 (bType imm b a f op) = a ∧ Rv64.rs2 (bType imm b a f op) = b ∧
      bimm12bit11 (bType imm b a f op) = imm.extractLsb' 11 1 ∧ bimm12bits4to1 (bType imm b a f op) = imm.extractLsb' 1 4 ∧
      bimm12bits10to5 (bType imm b a f op) = imm.extractLsb' 5 6 ∧ immsign (bType imm b a f op) = imm.extractLsb' 12 1 := by
  simp (disch := omega) only [quadrant, opcode5, funct3, rs1, Rv64.rs2, bimm12bit11, bimm12bits4to1, bimm12bits10to5, immsign, bType,
    extractLsb'_append_eq_of_add_le, extractLsb'_append_eq_of_le, Nat.reduceSub, extractLsb'_eq_self, and_self]

theorem uType_fields (imm : BitVec 20) :
    quadrant (uType imm d op) = op.extractLsb' 0 2 ∧ opcode5 (uType imm d op) = op.extractLsb' 2 5 ∧
      Rv64.rd (uType imm d op) = d ∧ imm20 (uType imm d op) = imm := by
  simp (disch := omega) only [quadrant, opcode5, Rv64.rd, imm20, uType,
    extractLsb'_append_eq_of_add_le, extractLsb'_append_eq_of_le, Nat.reduceSub, extractLsb'_eq_self, and_self]

theorem jType_fields (imm : BitVec 21) :
    quadrant (jType imm d op) = op.extractLsb' 0 2 ∧ opcode5 (jType imm d op) = op.extractLsb' 2 5 ∧
      Rv64.rd (jType imm d op) = d ∧ ujimmbits10to1 (jType imm d op) = imm.extractLsb' 1 10 ∧
      ujimmbit11 (jType imm d op) = imm.extractLsb' 11 1 ∧ ujimmbits19to12 (jType imm d op) = imm.extractLsb' 12 8 ∧
      immsign (jType imm d op) = imm.extractLsb' 20 1 := by
  simp (disch := omega) only [quadrant, opcode5, Rv64.rd, ujimmbits10to1, ujimmbit11, ujimmbits19to12, immsign, jType,
    extractLsb'_append_eq_of_add_le, extractLsb'_append_eq_of_le, Nat.reduceSub, extractLsb'_eq_self, and_self]

end Fields

/-! Integers put together from bitfields -/

section Integers
variable {m n : Nat}

theorem u64_append (x : BitVec m) (y : BitVec n) : u64 (x ++ y) = u64 x <<< n ||| u64 y := by
  apply eq_of_getLsbD_eq
  intro index inside
  simp only [u64, getLsbD_setWidth, getLsbD_or, getLsbD_shiftLeft, getLsbD_append, inside, decide_true, Bool.true_and]
  by_cases low : index < n
  · simp [low]
  · simp [low, show index - n < 64 by omega, getLsbD_of_ge y index (by omega)]

theorem u64_zero : u64 0#n = 0#64 := by simp [u64]

theorem u64_eq_zero (narrow : n ≤ 64) {x : BitVec n} : u64 x = 0 ↔ x = 0 := by
  constructor
  · intro zero
    have back : (u64 x).setWidth n = x := (setWidth_setWidth_of_le x narrow).trans (setWidth_eq x)
    rw [← back, zero]
    simp
  · rintro rfl
    exact u64_zero

theorem u64_extract (start : Nat) (x : BitVec m) (low high : Nat) :
    u64 (x.extractLsb' start (low + high)) = u64 (x.extractLsb' start low) ||| u64 (x.extractLsb' (start + low) high) <<< low := by
  apply eq_of_getLsbD_eq
  intro index inside
  simp only [u64, getLsbD_setWidth, getLsbD_or, getLsbD_shiftLeft, getLsbD_extractLsb', inside, decide_true, Bool.true_and]
  by_cases below : index < low
  · simp [below, show index < low + high by omega]
  · have shifted : start + low + (index - low) = start + index := by omega
    simp [below, shifted, show index - low < 64 by omega, show index - low < high ↔ index < low + high by omega]

theorem slice_extract (start : Nat) {length first last : Nat} (x : BitVec m) (inside : first < length) :
    slice (x.extractLsb' start length) first last = u64 (x.extractLsb' (start + last) (first + 1 - last)) := by
  rw [slice]
  congr 1
  apply eq_of_getLsbD_eq
  intro index low
  simp only [getLsbD_extractLsb', low, decide_true, Bool.true_and, show last + index < length by omega, Nat.add_assoc]

theorem sext_u64 (positive : 0 < n) (narrow : n ≤ 64) (x : BitVec n) : sext n (u64 x) = x.signExtend 64 := by
  have sign : (u64 x).getLsbD (n - 1) = x.msb := by
    rw [msb_eq_getLsbD_last, u64, getLsbD_setWidth, decide_eq_true (by omega : n - 1 < 64), Bool.true_and]
  apply eq_of_getLsbD_eq
  intro index inside
  rw [getLsbD_signExtend, sext, sign]
  by_cases low : index < n
  · split <;> simp [u64, inside, low]
  · have past : x.getLsbD index = false := getLsbD_of_ge x index (by omega)
    have ones : (BitVec.allOnes 64).getLsbD (index - n) = true := by
      rw [getLsbD_allOnes, decide_eq_true (by omega : index - n < 64)]
    split
    next negative => simp only [u64, getLsbD_or, getLsbD_setWidth, getLsbD_shiftLeft, ones, past, inside, low,
      negative, decide_true, decide_false, Bool.not_false, Bool.and_self, Bool.and_false, Bool.or_true]
    next nonnegative => simp [u64, inside, past, nonnegative]

theorem sext_signExtend (positive : 0 < m) (wider : m ≤ n) (narrow : n ≤ 64) (x : BitVec m) :
    sext n (u64 (x.signExtend n)) = sext m (u64 x) := by
  rw [sext_u64 (by omega) narrow, sext_u64 positive (by omega)]
  apply eq_of_getLsbD_eq
  intro index inside
  have sign : (x.signExtend n).msb = x.msb := by
    rw [msb_signExtend, decide_eq_true (by omega : 0 < n), Bool.true_and]
    split
    next same => rw [show m - n = 0 by omega, BitVec.msb]
    next widened => rfl
  simp only [getLsbD_signExtend, inside, decide_true, Bool.true_and, sign]
  by_cases low : index < m
  · simp [low, show index < n by omega]
  · simp +contextual [low]

theorem extractLsb'_signExtend {length : Nat} (inside : length ≤ m) (wider : m ≤ n) (x : BitVec m) :
    (x.signExtend n).extractLsb' 0 length = x.extractLsb' 0 length := by
  apply eq_of_getLsbD_eq
  intro index low
  rw [getLsbD_extractLsb', getLsbD_extractLsb', getLsbD_signExtend, Nat.zero_add,
    if_pos (by omega : index < m), decide_eq_true (by omega : index < n), Bool.true_and]

theorem sext_setWidth (wider : m < n) (narrow : n ≤ 64) (x : BitVec m) : sext n (u64 (x.setWidth n)) = u64 x := by
  have nonnegative : (x.setWidth n).msb = false := by
    rw [msb_eq_getLsbD_last, getLsbD_setWidth, getLsbD_of_ge x (n - 1) (by omega), Bool.and_false]
  rw [sext_u64 (by omega) narrow, signExtend_eq_setWidth_of_msb_false nonnegative, u64, setWidth_setWidth (by omega)]

theorem sext_eq_zero (positive : 0 < n) (narrow : n ≤ 64) {x : BitVec n} : sext n (u64 x) = 0 ↔ x = 0 := by
  rw [sext_u64 positive narrow, ← toInt_inj, ← toInt_inj, toInt_signExtend_of_le narrow]
  simp

/-! The immediates of the formats whose bits are not in order -/

theorem storeOffset_sType (a b : RegIndex) (f : BitVec 3) (op : BitVec 7) (imm : BitVec 12) :
    storeOffset (sType imm b a f op) = sext 12 (u64 imm) := by
  have joined : u64 imm = u64 (imm.extractLsb' 0 (5 + 7)) := by rw [extractLsb'_eq_self]
  rw [joined, u64_extract]
  simp only [storeOffset, sType_fields, Nat.zero_add]

theorem bOpImm_bType (a b : RegIndex) (f : BitVec 3) (op : BitVec 7) {imm : BitVec 13} (even : imm.extractLsb' 0 1 = 0#1) :
    bOpImm (bType imm b a f op) = sext 13 (u64 imm) := by
  have joined : u64 imm = u64 (imm.extractLsb' 0 (1 + (4 + (6 + (1 + 1))))) := by rw [extractLsb'_eq_self]
  rw [joined, u64_extract, u64_extract, u64_extract, u64_extract, even, u64_zero]
  simp only [bOpImm, bType_fields, shiftLeft_or_distrib, ← shiftLeft_add, zero_or, BitVec.or_assoc, Nat.reduceAdd]

theorem jOpImm_jType (d : RegIndex) (op : BitVec 7) {imm : BitVec 21} (even : imm.extractLsb' 0 1 = 0#1) :
    jOpImm (jType imm d op) = sext 21 (u64 imm) := by
  have joined : u64 imm = u64 (imm.extractLsb' 0 (1 + (10 + (1 + (8 + 1))))) := by rw [extractLsb'_eq_self]
  rw [joined, u64_extract, u64_extract, u64_extract, u64_extract, even, u64_zero]
  simp only [jOpImm, jType_fields, shiftLeft_or_distrib, ← shiftLeft_add, zero_or, BitVec.or_assoc, Nat.reduceAdd]

end Integers

/-! What the decoder makes of the expanded instructions -/

section Decode
variable {μ φ : Type} (port : MemPort μ φ) (a b d : RegIndex) (imm : BitVec 12)

theorem decode_quadrant3 {machInst : ExtMachInst} (quadrant3 : quadrant machInst = 3) :
    decode port machInst = decodeQuadrant3 port machInst := if_pos quadrant3

theorem decode_lw : decode port (Expansion.lw d a imm) =
    some (Rv64.load port 4 a (sext 12 (u64 imm)) fun Mem xc => .ok (xc.setReg d (ofInt32 Mem))) := by
  obtain ⟨q, o, dest, f, src, i, _⟩ := iType_fields a d 0b010 0b0000011 imm
  rw [Expansion.lw, decode_quadrant3 port q, decodeQuadrant3, o, f]
  change some (Rv64.lw port (iType imm a 0b010 d 0b0000011)) = _
  rw [Rv64.lw, iOpImm, dest, src, i]

theorem decode_ld : decode port (Expansion.ld d a imm) =
    some (Rv64.load port 8 a (sext 12 (u64 imm)) fun Mem xc => .ok (xc.setReg d Mem)) := by
  obtain ⟨q, o, dest, f, src, i, _⟩ := iType_fields a d 0b011 0b0000011 imm
  rw [Expansion.ld, decode_quadrant3 port q, decodeQuadrant3, o, f]
  change some (Rv64.ld port (iType imm a 0b011 d 0b0000011)) = _
  rw [Rv64.ld, iOpImm, dest, src, i]

theorem decode_fld : decode port (Expansion.fld d a imm) =
    some (Rv64.load port 8 a (sext 12 (u64 imm)) fun Mem xc => fpuOn xc (.ok (xc.setFreg d Mem))) := by
  obtain ⟨q, o, dest, f, src, i, _⟩ := iType_fields a d 0b011 0b0000111 imm
  rw [Expansion.fld, decode_quadrant3 port q, decodeQuadrant3, o, f]
  change some (Rv64.fld port (iType imm a 0b011 d 0b0000111)) = _
  rw [Rv64.fld, iOpImm, dest, src, i]

theorem decode_sw : decode port (Expansion.sw b a imm) =
    some (Rv64.store port 4 a (sext 12 (u64 imm)) fun xc => .ok ((xc.reg b).setWidth 32)) := by
  obtain ⟨q, o, f, base, src, _⟩ := sType_fields a b 0b010 0b0100011 imm
  rw [Expansion.sw, decode_quadrant3 port q, decodeQuadrant3, o, f]
  change some (Rv64.sw port (sType imm b a 0b010 0b0100011)) = _
  rw [Rv64.sw, storeOffset_sType, base, src]

theorem decode_sd : decode port (Expansion.sd b a imm) = some (Rv64.store port 8 a (sext 12 (u64 imm)) fun xc => .ok (xc.reg b)) := by
  obtain ⟨q, o, f, base, src, _⟩ := sType_fields a b 0b011 0b0100011 imm
  rw [Expansion.sd, decode_quadrant3 port q, decodeQuadrant3, o, f]
  change some (Rv64.sd port (sType imm b a 0b011 0b0100011)) = _
  rw [Rv64.sd, storeOffset_sType, base, src]

theorem decode_fsd : decode port (Expansion.fsd b a imm) =
    some (Rv64.store port 8 a (sext 12 (u64 imm)) fun xc => fpuOn xc (.ok (xc.fregs b))) := by
  obtain ⟨q, o, f, base, src, _⟩ := sType_fields a b 0b011 0b0100111 imm
  rw [Expansion.fsd, decode_quadrant3 port q, decodeQuadrant3, o, f]
  change some (Rv64.fsd port (sType imm b a 0b011 0b0100111)) = _
  rw [Rv64.fsd, storeOffset_sType, base, src]

theorem decode_addi : decode port (Expansion.addi d a imm) = some (regImm d a (sext 12 (u64 imm)) fun x imm => rvSext (x + imm)) := by
  obtain ⟨q, o, dest, f, src, i, _⟩ := iType_fields a d 0b000 0b0010011 imm
  rw [Expansion.addi, decode_quadrant3 port q, decodeQuadrant3, o, f]
  change some (Rv64.addi (iType imm a 0b000 d 0b0010011)) = _
  rw [Rv64.addi, iOpImm, dest, src, i]

theorem decode_andi : decode port (Expansion.andi d a imm) = some (regImm d a (sext 12 (u64 imm)) fun x imm => rvSext (x &&& imm)) := by
  obtain ⟨q, o, dest, f, src, i, _⟩ := iType_fields a d 0b111 0b0010011 imm
  rw [Expansion.andi, decode_quadrant3 port q, decodeQuadrant3, o, f]
  change some (Rv64.andi (iType imm a 0b111 d 0b0010011)) = _
  rw [Rv64.andi, iOpImm, dest, src, i]

theorem decode_addiw : decode port (Expansion.addiw d a imm) =
    some (regImm d a (sext 12 (u64 imm)) fun x imm => ofInt32 (x.setWidth 32 + imm.setWidth 32)) := by
  obtain ⟨q, o, dest, f, src, i, _⟩ := iType_fields a d 0b000 0b0011011 imm
  rw [Expansion.addiw, decode_quadrant3 port q, decodeQuadrant3, o, f]
  change some (Rv64.addiw (iType imm a 0b000 d 0b0011011)) = _
  rw [Rv64.addiw, iOpImm, dest, src, i]

theorem decode_slli (shamt : BitVec 6) : decode port (Expansion.slli d a shamt) =
    some (regImm d a (u64 shamt) fun x imm => rvSext (x <<< imm)) := by
  obtain ⟨q, o, dest, f, src, _, g, i⟩ := iType_fields a d 0b001 0b0010011 (0b000000#6 ++ shamt)
  rw [Expansion.slli, decode_quadrant3 port q, decodeQuadrant3, o, f, g, extractLsb'_append_eq_of_le (by decide)]
  change some (Rv64.slli (iType (0b000000#6 ++ shamt) a 0b001 d 0b0010011)) = _
  rw [Rv64.slli, dest, src, i, extractLsb'_append_eq_right]
  rfl

theorem decode_srli (shamt : BitVec 6) : decode port (Expansion.srli d a shamt) =
    some (regImm d a (u64 shamt) fun x imm => rvSext (rvZext x >>> imm)) := by
  obtain ⟨q, o, dest, f, src, _, g, i⟩ := iType_fields a d 0b101 0b0010011 (0b000000#6 ++ shamt)
  rw [Expansion.srli, decode_quadrant3 port q, decodeQuadrant3, o, f, g, extractLsb'_append_eq_of_le (by decide)]
  change some (Rv64.srli (iType (0b000000#6 ++ shamt) a 0b101 d 0b0010011)) = _
  rw [Rv64.srli, dest, src, i, extractLsb'_append_eq_right]
  rfl

theorem decode_srai (shamt : BitVec 6) : decode port (Expansion.srai d a shamt) =
    some (regImm d a (u64 shamt) fun x imm => (rvSext x).sshiftRight' imm) := by
  obtain ⟨q, o, dest, f, src, _, g, i⟩ := iType_fields a d 0b101 0b0010011 (0b010000#6 ++ shamt)
  rw [Expansion.srai, decode_quadrant3 port q, decodeQuadrant3, o, f, g, extractLsb'_append_eq_of_le (by decide)]
  change some (Rv64.srai (iType (0b010000#6 ++ shamt) a 0b101 d 0b0010011)) = _
  rw [Rv64.srai, dest, src, i, extractLsb'_append_eq_right]
  rfl

theorem decode_add : decode port (Expansion.add d a b) = some (regReg d a b fun x y => rvSext (x + y)) := by
  obtain ⟨q, o, dest, f, first, second, _, k, s⟩ := rType_fields a b d 0b000 0b0110011 0b0000000
  rw [Expansion.add, decode_quadrant3 port q, decodeQuadrant3, o, f, k, s]
  change some (Rv64.add (rType 0b0000000 b a 0b000 d 0b0110011)) = _
  rw [Rv64.add, dest, first, second]

theorem decode_sub : decode port (Expansion.sub d a b) = some (regReg d a b fun x y => rvSext (x - y)) := by
  obtain ⟨q, o, dest, f, first, second, _, k, s⟩ := rType_fields a b d 0b000 0b0110011 0b0100000
  rw [Expansion.sub, decode_quadrant3 port q, decodeQuadrant3, o, f, k, s]
  change some (Rv64.sub (rType 0b0100000 b a 0b000 d 0b0110011)) = _
  rw [Rv64.sub, dest, first, second]

theorem decode_xor : decode port (Expansion.xor d a b) = some (regReg d a b fun x y => rvSext (x ^^^ y)) := by
  obtain ⟨q, o, dest, f, first, second, g, _⟩ := rType_fields a b d 0b100 0b0110011 0b0000000
  rw [Expansion.xor, decode_quadrant3 port q, decodeQuadrant3, o, f, g]
  change some (Rv64.xor (rType 0b0000000 b a 0b100 d 0b0110011)) = _
  rw [Rv64.xor, dest, first, second]

theorem decode_or : decode port (Expansion.or d a b) = some (regReg d a b fun x y => rvSext (x ||| y)) := by
  obtain ⟨q, o, dest, f, first, second, g, _⟩ := rType_fields a b d 0b110 0b0110011 0b0000000
  rw [Expansion.or, decode_quadrant3 port q, decodeQuadrant3, o, f, g]
  change some (Rv64.or (rType 0b0000000 b a 0b110 d 0b0110011)) = _
  rw [Rv64.or, dest, first, second]

theorem decode_and : decode port (Expansion.and d a b) = some (regReg d a b fun x y => rvSext (x &&& y)) := by
  obtain ⟨q, o, dest, f, first, second, g, _⟩ := rType_fields a b d 0b111 0b0110011 0b0000000
  rw [Expansion.and, decode_quadrant3 port q, decodeQuadrant3, o, f, g]
  change some (Rv64.and (rType 0b0000000 b a 0b111 d 0b0110011)) = _
  rw [Rv64.and, dest, first, second]

theorem decode_addw : decode port (Expansion.addw d a b) = some (regReg d a b fun x y => ofInt32 (x.setWidth 32 + y.setWidth 32)) := by
  obtain ⟨q, o, dest, f, first, second, g, _⟩ := rType_fields a b d 0b000 0b0111011 0b0000000
  rw [Expansion.addw, decode_quadrant3 port q, decodeQuadrant3, o, f, g]
  change some (Rv64.addw (rType 0b0000000 b a 0b000 d 0b0111011)) = _
  rw [Rv64.addw, dest, first, second]

theorem decode_subw : decode port (Expansion.subw d a b) = some (regReg d a b fun x y => ofInt32 (x.setWidth 32 - y.setWidth 32)) := by
  obtain ⟨q, o, dest, f, first, second, g, _⟩ := rType_fields a b d 0b000 0b0111011 0b0100000
  rw [Expansion.subw, decode_quadrant3 port q, decodeQuadrant3, o, f, g]
  change some (Rv64.subw (rType 0b0100000 b a 0b000 d 0b0111011)) = _
  rw [Rv64.subw, dest, first, second]

theorem decode_lui (imm : BitVec 20) : decode port (Expansion.lui d imm) =
    some fun xc => .ok (xc.setReg d (sext 20 (u64 imm) <<< 12)) := by
  obtain ⟨q, o, dest, i⟩ := uType_fields d 0b0110111 imm
  rw [Expansion.lui, decode_quadrant3 port q, decodeQuadrant3, o]
  change some (Rv64.lui (uType imm d 0b0110111)) = _
  unfold Rv64.lui
  rw [uOpImm, dest, i]

theorem decode_beq (offset : BitVec 13) : decode port (Expansion.beq a b offset) =
    some (branch (bOpImm (Expansion.beq a b offset)) fun xc => rvSext (xc.reg a) == rvSext (xc.reg b)) := by
  obtain ⟨q, o, f, first, second, _⟩ := bType_fields a b 0b000 0b1100011 offset
  rw [Expansion.beq, decode_quadrant3 port q, decodeQuadrant3, o, f]
  change some (Rv64.beq (bType offset b a 0b000 0b1100011)) = _
  rw [Rv64.beq, first, second]

theorem decode_bne (offset : BitVec 13) : decode port (Expansion.bne a b offset) =
    some (branch (bOpImm (Expansion.bne a b offset)) fun xc => rvSext (xc.reg a) != rvSext (xc.reg b)) := by
  obtain ⟨q, o, f, first, second, _⟩ := bType_fields a b 0b001 0b1100011 offset
  rw [Expansion.bne, decode_quadrant3 port q, decodeQuadrant3, o, f]
  change some (Rv64.bne (bType offset b a 0b001 0b1100011)) = _
  rw [Rv64.bne, first, second]

theorem decode_jal (offset : BitVec 21) : decode port (Expansion.jal d offset) =
    some fun xc => .ok { xc.setReg d (rvSext xc.npc) with npc := rvZext (xc.pc + jOpImm (Expansion.jal d offset)) } := by
  obtain ⟨q, o, dest, _⟩ := jType_fields d 0b1101111 offset
  rw [Expansion.jal, decode_quadrant3 port q, decodeQuadrant3, o]
  change some (Rv64.jal (jType offset d 0b1101111)) = _
  unfold Rv64.jal
  rw [dest]

theorem decode_jalr : decode port (Expansion.jalr d a imm) =
    some fun xc => .ok { xc.setReg d (rvSext xc.npc) with npc := rvZext ((sext 12 (u64 imm) + xc.reg a) &&& ~~~1#64) } := by
  obtain ⟨q, o, dest, f, src, i, _⟩ := iType_fields a d 0b000 0b1100111 imm
  rw [Expansion.jalr, decode_quadrant3 port q, decodeQuadrant3, o, f]
  change some (Rv64.jalr (iType imm a 0b000 d 0b1100111)) = _
  unfold Rv64.jalr
  rw [iOpImm, dest, src, i]

end Decode

/-! The immediates, which both sides put together from the same pieces of the word -/

section Immediates
variable (c : BitVec 16)

theorem popular_eq (field : BitVec 3) : popular field = 0b01#2 ++ field := by
  revert field
  decide

theorem signed_imm6 : sext 12 (u64 ((imm6 c).signExtend 12)) = ciImm c := by
  rw [sext_signExtend (by decide) (by decide) (by decide), imm6, u64_append, BitVec.or_comm]
  rfl

theorem upper_imm6 : sext 20 (u64 ((imm6 c).signExtend 20)) = ciImm c := by
  rw [sext_signExtend (by decide) (by decide) (by decide), imm6, u64_append, BitVec.or_comm]
  rfl

theorem shamt_imm6 : u64 (imm6 c) = ciShamt c := by
  rw [imm6, u64_append, BitVec.or_comm]
  rfl

theorem candi_imm : candiImm c = ciImm c := by
  unfold candiImm ciImm
  generalize cimm5 c = low, cimm1 c = high
  revert low high
  decide +kernel

theorem word_offset : sext 12 (u64 ((wordOffset c).setWidth 12)) = clwOffset c := by
  rw [sext_setWidth (by decide) (by decide), wordOffset, u64_append, u64_append, u64_append, u64_zero, clwOffset, cimm2, cimm3]
  simp (disch := decide) only [slice_extract, shiftLeft_or_distrib, ← shiftLeft_add, or_zero, Nat.reduceAdd, Nat.reduceSub]
  ac_rfl

theorem double_offset : sext 12 (u64 ((doubleOffset c).setWidth 12)) = cldOffset c := by
  rw [sext_setWidth (by decide) (by decide), doubleOffset, u64_append, u64_append, u64_zero, cldOffset, cimm2, cimm3]
  simp only [shiftLeft_or_distrib, ← shiftLeft_add, or_zero, Nat.reduceAdd]
  ac_rfl

theorem lwsp_offset : sext 12 (u64 ((lwspOffset c).setWidth 12)) = clwspOffset c := by
  rw [sext_setWidth (by decide) (by decide), lwspOffset, u64_append, u64_append, u64_append, u64_zero, clwspOffset, cimm5, cimm1]
  simp (disch := decide) only [slice_extract, shiftLeft_or_distrib, ← shiftLeft_add, or_zero, Nat.reduceAdd, Nat.reduceSub]
  ac_rfl

theorem ldsp_offset : sext 12 (u64 ((ldspOffset c).setWidth 12)) = cldspOffset c := by
  rw [sext_setWidth (by decide) (by decide), ldspOffset, u64_append, u64_append, u64_append, u64_zero, cldspOffset, cimm5, cimm1]
  simp (disch := decide) only [slice_extract, shiftLeft_or_distrib, ← shiftLeft_add, or_zero, Nat.reduceAdd, Nat.reduceSub]
  ac_rfl

theorem swsp_offset : sext 12 (u64 ((swspOffset c).setWidth 12)) = cswspOffset c := by
  rw [sext_setWidth (by decide) (by decide), swspOffset, u64_append, u64_append, u64_zero, cswspOffset, cimm6]
  simp (disch := decide) only [slice_extract, shiftLeft_or_distrib, ← shiftLeft_add, or_zero, Nat.reduceAdd, Nat.reduceSub]
  ac_rfl

theorem sdsp_offset : sext 12 (u64 ((sdspOffset c).setWidth 12)) = csdspOffset c := by
  rw [sext_setWidth (by decide) (by decide), sdspOffset, u64_append, u64_append, u64_zero, csdspOffset, cimm6]
  simp (disch := decide) only [slice_extract, shiftLeft_or_distrib, ← shiftLeft_add, or_zero, Nat.reduceAdd, Nat.reduceSub]
  ac_rfl

theorem addi4spn_imm : sext 12 (u64 ((addi4spnImm c).setWidth 12)) = c4spnImm c := by
  rw [sext_setWidth (by decide) (by decide), addi4spnImm, u64_append, u64_append, u64_append, u64_append, u64_zero, c4spnImm, cimm8]
  simp (disch := decide) only [slice_extract, shiftLeft_or_distrib, ← shiftLeft_add, or_zero, Nat.reduceAdd, Nat.reduceSub]
  ac_rfl

theorem addi16sp_imm : sext 12 (u64 ((addi16spImm c).signExtend 12)) = c16spImm c := by
  rw [sext_signExtend (by decide) (by decide) (by decide), c16spImm, addi16spImm, u64_append, u64_append, u64_append, u64_append,
    u64_append, u64_zero, cimm5, cimm1]
  congr 1
  simp (disch := decide) only [slice_extract, shiftLeft_or_distrib, ← shiftLeft_add, or_zero, Nat.reduceAdd, Nat.reduceSub]
  ac_rfl

theorem branch_even : ((branchOffset c).signExtend 13).extractLsb' 0 1 = 0#1 := by
  rw [extractLsb'_signExtend (by decide) (by decide), branchOffset, extractLsb'_append_eq_right]

theorem jump_even : ((jumpOffset c).signExtend 21).extractLsb' 0 1 = 0#1 := by
  rw [extractLsb'_signExtend (by decide) (by decide), jumpOffset, extractLsb'_append_eq_right]

theorem branch_offset : sext 13 (u64 ((branchOffset c).signExtend 13)) = cbImm c := by
  rw [sext_signExtend (by decide) (by decide) (by decide), cbImm, branchOffset, u64_append, u64_append, u64_append, u64_append,
    u64_append, u64_zero, cimm5, cimm3]
  congr 1
  simp (disch := decide) only [slice_extract, shiftLeft_or_distrib, ← shiftLeft_add, or_zero, Nat.reduceAdd, Nat.reduceSub]
  ac_rfl

theorem jump_offset : sext 21 (u64 ((jumpOffset c).signExtend 21)) = cjImm c := by
  rw [sext_signExtend (by decide) (by decide) (by decide), cjImm, jumpOffset, u64_append, u64_append, u64_append, u64_append,
    u64_append, u64_append, u64_append, u64_append, u64_zero]
  unfold cjumpimm3to1 cjumpimm4to4 cjumpimm5to5 cjumpimm6to6 cjumpimm7to7 cjumpimm9to8 cjumpimm10to10 cjumpimmsign
  congr 1
  simp only [shiftLeft_or_distrib, ← shiftLeft_add, or_zero, Nat.reduceAdd]
  ac_rfl

theorem addi4spn_zero : c4spnImm c = 0 ↔ addi4spnImm c = 0 := by
  rw [← addi4spn_imm, sext_setWidth (by decide) (by decide), u64_eq_zero (by decide)]

theorem addi16sp_zero : c16spImm c = 0 ↔ addi16spImm c = 0 := by
  rw [← addi16sp_imm, sext_signExtend (by decide) (by decide) (by decide), sext_eq_zero (by decide) (by decide)]

theorem upper_zero : ciImm c <<< 12 = 0 ↔ imm6 c = 0 := by
  unfold ciImm imm6
  change sext 6 (u64 (c.extractLsb' 2 5) ||| u64 (c.extractLsb' 12 1) <<< 5) <<< 12 = 0 ↔ _
  generalize c.extractLsb' 2 5 = low, c.extractLsb' 12 1 = high
  revert low high
  decide +kernel

end Immediates

/-! The instructions that do what they stand for -/

section Agrees
variable {μ φ : Type} (port : MemPort μ φ) {c : BitVec 16} {w : BitVec 32}

theorem popular_rd' : popular (rp1 c) = rd' c := popular_eq (rp1 c)

theorem popular_rs2' : popular (rp2 c) = rs2' c := popular_eq (rp2 c)

theorem quadrant0_agrees (q : (cquadrant c).toNat = 0) (stands : expandQuadrant0 c = some w) :
    decode port w = some (decodeCompressed port c) := by
  rw [decodeCompressed, q]
  unfold copcode
  unfold expandQuadrant0 at stands
  split at stands
  next op =>
    rw [op]
    split at stands
    next => cases stands
    next nonzero =>
      have accepted : (c4spnImm c == 0) = false := beq_false_of_ne (mt (addi4spn_zero c).mp nonzero)
      cases stands
      rw [decode_addi, addi4spn_imm, ← popular_rs2']
      change _ = some (c_addi4spn c)
      rw [c_addi4spn, accepted]
      rfl
  next op =>
    cases stands
    rw [op, decode_fld, double_offset, ← popular_rd', ← popular_rs2']
    rfl
  next op =>
    cases stands
    rw [op, decode_lw, word_offset, ← popular_rd', ← popular_rs2']
    rfl
  next op =>
    cases stands
    rw [op, decode_ld, double_offset, ← popular_rd', ← popular_rs2']
    rfl
  next op =>
    cases stands
    rw [op, decode_fsd, double_offset, ← popular_rd', ← popular_rs2']
    rfl
  next op =>
    cases stands
    rw [op, decode_sw, word_offset, ← popular_rd', ← popular_rs2']
    rfl
  next op =>
    cases stands
    rw [op, decode_sd, double_offset, ← popular_rd', ← popular_rs2']
    rfl
  next => cases stands

@[simp] theorem reg_zero (xc : ExecContext μ) : xc.reg x0 = 0 := rfl

section

variable (q : (cquadrant c).toNat = 1)
include q

theorem alu_agrees (op : (copcode c).toNat = 4) (stands : expandAlu c = some w) : decode port w = some (decodeCompressed port c) := by
  unfold expandAlu at stands
  split at stands <;> rw [decodeCompressed, q, op] <;> unfold cfunct2high cfunct1 cfunct2low
  next high =>
    cases stands
    rw [high, decode_srli, shamt_imm6, ← popular_rd']
    rfl
  next high =>
    cases stands
    rw [high, decode_srai, shamt_imm6, ← popular_rd']
    rfl
  next high =>
    cases stands
    rw [high, decode_andi, signed_imm6, ← candi_imm, ← popular_rd']
    rfl
  next high one low =>
    cases stands
    rw [high, one, low, decode_sub, ← popular_rd', ← popular_rs2']
    rfl
  next high one low =>
    cases stands
    rw [high, one, low, decode_xor, ← popular_rd', ← popular_rs2']
    rfl
  next high one low =>
    cases stands
    rw [high, one, low, decode_or, ← popular_rd', ← popular_rs2']
    rfl
  next high one low =>
    cases stands
    rw [high, one, low, decode_and, ← popular_rd', ← popular_rs2']
    rfl
  next high one low =>
    cases stands
    rw [high, one, low, decode_subw, ← popular_rd', ← popular_rs2']
    rfl
  next high one low =>
    cases stands
    rw [high, one, low, decode_addw, ← popular_rd', ← popular_rs2']
    rfl
  next => cases stands

theorem decodeCompressed_lui (op : (copcode c).toNat = 3) (notSp : (rc1 c).toNat ≠ 2) : decodeCompressed port c = c_lui c := by
  simp only [decodeCompressed, q, op]

theorem quadrant1_agrees (stands : expandQuadrant1 c = some w) : decode port w = some (decodeCompressed port c) := by
  unfold expandQuadrant1 at stands
  split at stands
  next op =>
    cases stands
    rw [decodeCompressed, q, show (copcode c).toNat = 0 from op, decode_addi, signed_imm6]
    rfl
  next op =>
    rw [decodeCompressed, q, show (copcode c).toNat = 1 from op]
    split at stands
    next => cases stands
    next nonzero =>
      have accepted : (rc1 c == 0) = false := beq_false_of_ne nonzero
      cases stands
      rw [decode_addiw, signed_imm6]
      change _ = some (c_addiw c)
      rw [c_addiw, accepted]
      rfl
  next op =>
    cases stands
    rw [decodeCompressed, q, show (copcode c).toNat = 2 from op, decode_addi, signed_imm6]
    change _ = some (c_li c)
    congr 1
    funext xc
    simp [regImm, c_li, rvSext, rvSelect]
    rfl
  next op =>
    have op : (copcode c).toNat = 3 := op
    split at stands
    next stack =>
      split at stands
      next => cases stands
      next nonzero =>
        have accepted : (c16spImm c == 0) = false := beq_false_of_ne (mt (addi16sp_zero c).mp nonzero)
        cases stands
        rw [decodeCompressed, q, op, show (rc1 c).toNat = 2 from congrArg BitVec.toNat stack, decode_addi, addi16sp_imm]
        change _ = some (c_addi16sp c)
        rw [c_addi16sp, accepted]
        rfl
    next other =>
      split at stands
      next => cases stands
      next nonzero =>
        have accepted : (ciImm c <<< 12 == 0) = false := beq_false_of_ne (mt (upper_zero c).mp nonzero)
        cases stands
        have notSp : (rc1 c).toNat ≠ 2 := fun same => other (eq_of_toNat_eq same)
        rw [decode_lui, upper_imm6, decodeCompressed_lui port q op notSp]
        simp only [c_lui, accepted]
        rfl
  next op => exact alu_agrees port q op stands
  next op =>
    cases stands
    rw [decodeCompressed, q, show (copcode c).toNat = 5 from op, decode_jal, Expansion.jal, jOpImm_jType _ _ (jump_even c), jump_offset]
    rfl
  next op =>
    cases stands
    rw [decodeCompressed, q, show (copcode c).toNat = 6 from op, decode_beq, Expansion.beq, bOpImm_bType _ _ _ _ (branch_even c), branch_offset, ← popular_rd']
    rfl
  next op =>
    cases stands
    rw [decodeCompressed, q, show (copcode c).toNat = 7 from op, decode_bne, Expansion.bne, bOpImm_bType _ _ _ _ (branch_even c), branch_offset, ← popular_rd']
    rfl
  next => cases stands

end

end Agrees

/-! The instructions that do not always do what they stand for -/

section Same
variable {μ φ : Type} (port : MemPort μ φ) {c : BitVec 16} {w : BitVec 32} (xc : ExecContext μ)

def Loads (size : Nat) (EA : Addr) : Prop := alignmentOk port EA size = true ∧ ∃ loaded, port.readMem xc.mem EA size = .ok loaded

def Diverges (c : BitVec 16) : Prop :=
  (cquadrant c).toNat = 2 ∧ match (copcode c).toNat with
    | 1 => xc.fs = fpuOff ∧ Loads port xc 8 (rvZext (xc.reg stackPointerReg + cldspOffset c))
    | 4 => rc2 c = 0 ∧ rc1 c ≠ 0 ∧ (xc.reg (rc1 c)).getLsbD 0 = true
    | 5 => xc.fs = fpuOff
    | _ => False

theorem fldsp_same (d : RegIndex) (offset : Word) :
    (Rv64.load port 8 stackPointerReg offset fun Mem xc => fpuOn xc (.ok (xc.setFreg d Mem))) xc =
        (Rv64.load port 8 stackPointerReg offset fun Mem xc => .ok (xc.setFreg d Mem)) xc ↔
      ¬(xc.fs = fpuOff ∧ Loads port xc 8 (rvZext (xc.reg stackPointerReg + offset))) := by
  simp only [Rv64.load, Loads]
  cases aligned : alignmentOk port (rvZext (xc.reg stackPointerReg + offset)) 8 with
  | false => simp
  | true =>
    cases read : port.readMem xc.mem (rvZext (xc.reg stackPointerReg + offset)) 8 with
    | error => simp
    | ok => by_cases off : xc.fs = fpuOff <;> simp [fpuOn, off]

theorem fsdsp_same (b : RegIndex) (offset : Word) :
    (Rv64.store port 8 stackPointerReg offset fun xc => fpuOn xc (.ok (xc.fregs b))) xc =
        (Rv64.store port 8 stackPointerReg offset fun xc => .ok (xc.fregs b)) xc ↔ ¬xc.fs = fpuOff := by
  by_cases off : xc.fs = fpuOff
  · simp only [Rv64.store, fpuOn, off, not_true_eq_false, iff_false]
    cases aligned : alignmentOk port (rvZext (xc.reg stackPointerReg + offset)) 8 with
    | false => simp [bind, Except.bind]
    | true =>
      cases written : port.writeMem xc.mem (rvZext (xc.reg stackPointerReg + offset)) 8 (xc.fregs b) <;>
        simp [bind, Except.bind, written]
  · simp [Rv64.store, fpuOn, off]

theorem target_same (target : Word) : (sext 12 (u64 0#12) + target) &&& ~~~1#64 = target ↔ ¬target.getLsbD 0 = true := by
  have start : sext 12 (u64 0#12) + target = target := BitVec.zero_add target
  have cleared (index : Nat) (inside : index < 64) : (~~~1#64).getLsbD index = !decide (index = 0) := by
    rw [getLsbD_not, getLsbD_one, decide_eq_true inside]
    simp
  rw [start]
  constructor
  · intro same odd
    have bit : (target &&& ~~~1#64).getLsbD 0 = target.getLsbD 0 := by rw [same]
    rw [getLsbD_and, cleared 0 (by decide), odd] at bit
    cases bit
  · intro even
    apply eq_of_getLsbD_eq
    intro index inside
    rw [getLsbD_and, cleared index inside]
    by_cases first : index = 0
    · rw [first, Bool.eq_false_of_not_eq_true even, Bool.false_and]
    · rw [decide_eq_false first, Bool.not_false, Bool.and_true]

theorem same_of_agrees (agrees : decode port w = some (decodeCompressed port c)) (never : ¬Diverges port xc c) :
    execute port w xc = some (decodeCompressed port c xc) ↔ ¬Diverges port xc c := by
  rw [execute, agrees]
  exact iff_of_true rfl never

theorem jump_same (after : ExecContext μ) (target : Word) :
    (.ok { after with npc := rvZext ((sext 12 (u64 0#12) + target) &&& ~~~1#64) } : Except (Fault φ) (ExecContext μ)) =
        .ok { after with npc := rvZext target } ↔ ¬target.getLsbD 0 = true := by
  rw [Except.ok.injEq, ExecContext.mk.injEq]
  simp only [true_and, and_true]
  exact target_same target

section

variable (q : (cquadrant c).toNat = 2)
include q

theorem decodeCompressed_move (op : (copcode c).toNat = 4) :
    decodeCompressed port c =
      if cfunct1 c = 0 then if rc2 c = 0 then c_jr c else c_mv c
      else if rc2 c = 0 then if rc1 c = 0 then c_ebreak else c_jalr c else c_add c := by
  have zero {width : Nat} (x : BitVec width) : x = 0 ↔ x.toNat = 0 := by
    rw [← toNat_inj]
    simp
  rw [decodeCompressed, q, op]
  simp only [zero]
  obtain first | first : (cfunct1 c).toNat = 0 ∨ (cfunct1 c).toNat = 1 := by
    omega
  · rw [first]
    cases (rc2 c).toNat with
    | zero => rfl
    | succ => rfl
  · rw [first]
    cases (rc2 c).toNat with
    | zero => cases (rc1 c).toNat with
      | zero => rfl
      | succ => rfl
    | succ => rfl

theorem move_same (op : (copcode c).toNat = 4) (stands : expandMove c = some w) :
    execute port w xc = some (decodeCompressed port c xc) ↔ ¬Diverges port xc c := by
  have diverges : Diverges port xc c ↔ rc2 c = 0 ∧ rc1 c ≠ 0 ∧ (xc.reg (rc1 c)).getLsbD 0 = true := by
    rw [Diverges, q, op, and_iff_right rfl]
    exact Iff.rfl
  have move := decodeCompressed_move port q op
  unfold expandMove at stands
  split at stands
  next first =>
    rw [if_pos (show cfunct1 c = 0 from first)] at move
    split at stands
    next second =>
      have second : rc2 c = 0 := second
      split at stands
      next => cases stands
      next jumps =>
        have jumps : rc1 c ≠ 0 := jumps
        cases stands
        rw [move, if_pos second, diverges, and_iff_right second, and_iff_right jumps, execute, decode_jalr, map_some,
          some_inj, c_jr, beq_false_of_ne jumps]
        exact jump_same xc (xc.reg (rc1 c))
    next second =>
      have second : rc2 c ≠ 0 := second
      refine same_of_agrees port xc ?_ (fun wrong => second (diverges.mp wrong).1)
      cases stands
      rw [move, if_neg second, decode_add]
      congr 1
      funext xc
      simp [regReg, c_mv]
      rfl
  next first =>
    rw [if_neg (show ¬cfunct1 c = 0 from first)] at move
    split at stands
    next second =>
      have second : rc2 c = 0 := second
      rw [if_pos second] at move
      split at stands
      next breaks =>
        have breaks : rc1 c = 0 := breaks
        refine same_of_agrees port xc ?_ (fun wrong => (diverges.mp wrong).2.1 breaks)
        cases stands
        rw [move, if_pos breaks]
        rfl
      next jumps =>
        have jumps : rc1 c ≠ 0 := jumps
        cases stands
        rw [move, if_neg jumps, diverges, and_iff_right second, and_iff_right jumps, execute, decode_jalr, map_some,
          some_inj, c_jalr]
        exact jump_same (xc.setReg returnAddrReg (rvSext xc.npc)) (xc.reg (rc1 c))
    next second =>
      have second : rc2 c ≠ 0 := second
      refine same_of_agrees port xc ?_ (fun wrong => second (diverges.mp wrong).1)
      cases stands
      rw [move, if_neg second, decode_add]
      rfl

theorem quadrant2_same (stands : expandQuadrant2 c = some w) :
    execute port w xc = some (decodeCompressed port c xc) ↔ ¬Diverges port xc c := by
  unfold expandQuadrant2 at stands
  split at stands
  next op =>
    have op : (copcode c).toNat = 0 := op
    refine same_of_agrees port xc ?_ (by simp [Diverges, op])
    cases stands
    rw [decodeCompressed, q, op, decode_slli, shamt_imm6]
    rfl
  next op =>
    have op : (copcode c).toNat = 1 := op
    cases stands
    rw [execute, decode_fld, ldsp_offset, decodeCompressed, q, op, Diverges, q, op, map_some, some_inj, and_iff_right rfl]
    exact fldsp_same port xc (fc1 c) (cldspOffset c)
  next op =>
    have op : (copcode c).toNat = 2 := op
    split at stands
    next => cases stands
    next nonzero =>
      have accepted : (rc1 c == 0) = false := beq_false_of_ne nonzero
      refine same_of_agrees port xc ?_ (by simp [Diverges, op])
      cases stands
      rw [decodeCompressed, q, op, decode_lw, lwsp_offset]
      change _ = some (c_lwsp port c)
      rw [c_lwsp, accepted]
      rfl
  next op =>
    have op : (copcode c).toNat = 3 := op
    split at stands
    next => cases stands
    next nonzero =>
      have accepted : (rc1 c == 0) = false := beq_false_of_ne nonzero
      refine same_of_agrees port xc ?_ (by simp [Diverges, op])
      cases stands
      rw [decodeCompressed, q, op, decode_ld, ldsp_offset]
      change _ = some (c_ldsp port c)
      rw [c_ldsp, accepted]
      rfl
  next op =>
    exact move_same port xc q op stands
  next op =>
    have op : (copcode c).toNat = 5 := op
    cases stands
    rw [execute, decode_fsd, sdsp_offset, decodeCompressed, q, op, Diverges, q, op, map_some, some_inj, and_iff_right rfl]
    exact fsdsp_same port xc (fc2 c) (csdspOffset c)
  next op =>
    have op : (copcode c).toNat = 6 := op
    refine same_of_agrees port xc ?_ (by simp [Diverges, op])
    cases stands
    rw [decodeCompressed, q, op, decode_sw, swsp_offset]
    rfl
  next op =>
    have op : (copcode c).toNat = 7 := op
    refine same_of_agrees port xc ?_ (by simp [Diverges, op])
    cases stands
    rw [decodeCompressed, q, op, decode_sd, sdsp_offset]
    rfl
  next => cases stands

end

/-! Reserved words -/

theorem illegal_faults {condition : Bool} (holds : condition = true) (reason : String) (rest : Execute μ φ) :
    ∃ fault, illegalIf condition reason rest xc = .error fault :=
  ⟨.illegalInst reason, by rw [illegalIf, if_pos holds]⟩

theorem load_faults (size : Nat) (base : RegIndex) (offset : Word) {memacc : BitVec (8 * size) → Execute μ φ}
    (faults : ∀ Mem after, ∃ fault, memacc Mem after = .error fault) : ∃ fault, Rv64.load port size base offset memacc xc = .error fault := by
  simp only [Rv64.load]
  split
  next => exact ⟨_, rfl⟩
  next =>
    split
    next fault _ => exact ⟨_, rfl⟩
    next Mem after _ => exact faults Mem _

theorem reserved0 (q : (cquadrant c).toNat = 0) (reserved : expandQuadrant0 c = none) :
    ∃ fault, decodeCompressed port c xc = .error fault := by
  rw [decodeCompressed, q]
  unfold expandQuadrant0 at reserved
  split at reserved
  next op =>
    rw [show (copcode c).toNat = 0 from op]
    split at reserved
    next zero => exact illegal_faults xc (beq_iff_eq.mpr ((addi4spn_zero c).mpr zero)) _ _
    next => cases reserved
  all_goals try cases reserved
  next zero one two three five six seven =>
    have op : (c.extractLsb' 13 3).toNat = 4 := by
      simp only [imp_false] at zero one two three five six seven
      omega
    rw [show (copcode c).toNat = 4 from op]
    exact ⟨.unknownInst, rfl⟩

theorem reservedAlu (q : (cquadrant c).toNat = 1) (op : (copcode c).toNat = 4) (reserved : expandAlu c = none) :
    ∃ fault, decodeCompressed port c xc = .error fault := by
  rw [decodeCompressed, q, op]
  unfold expandAlu at reserved
  split at reserved
  all_goals try cases reserved
  next srl sra and sub xor or all subw addw =>
    simp only [imp_false] at srl sra and sub xor or all subw addw
    have high : (c.extractLsb' 10 2).toNat = 3 := by
      omega
    have one : (c.extractLsb' 12 1).toNat = 1 := by
      by_contra
      omega
    rw [show (cfunct2high c).toNat = 3 from high, show (cfunct1 c).toNat = 1 from one]
    obtain low | low : (cfunct2low c).toNat = 2 ∨ (cfunct2low c).toNat = 3 := by
      unfold cfunct2low
      omega
    · rw [low]
      exact ⟨.unknownInst, rfl⟩
    · rw [low]
      exact ⟨.unknownInst, rfl⟩

theorem reserved1 (q : (cquadrant c).toNat = 1) (reserved : expandQuadrant1 c = none) :
    ∃ fault, decodeCompressed port c xc = .error fault := by
  unfold expandQuadrant1 at reserved
  split at reserved
  next => cases reserved
  next op =>
    rw [decodeCompressed, q, show (copcode c).toNat = 1 from op]
    split at reserved
    next zero => exact illegal_faults xc (beq_iff_eq.mpr zero) _ _
    next => cases reserved
  next => cases reserved
  next op =>
    have op : (copcode c).toNat = 3 := op
    split at reserved
    next stack =>
      rw [decodeCompressed, q, op, show (rc1 c).toNat = 2 from congrArg BitVec.toNat stack]
      split at reserved
      next zero => exact illegal_faults xc (beq_iff_eq.mpr ((addi16sp_zero c).mpr zero)) _ _
      next => cases reserved
    next other =>
      have notSp : (rc1 c).toNat ≠ 2 := fun same => other (eq_of_toNat_eq same)
      rw [decodeCompressed_lui port q op notSp]
      split at reserved
      next zero => exact illegal_faults xc (beq_iff_eq.mpr ((upper_zero c).mpr zero)) _ _
      next => cases reserved
  next op => exact reservedAlu port xc q op reserved
  next => cases reserved
  next => cases reserved
  next => cases reserved
  next zero one two three four five six seven =>
    simp only [imp_false] at zero one two three four five six seven
    omega

theorem reserved2 (q : (cquadrant c).toNat = 2) (reserved : expandQuadrant2 c = none) :
    ∃ fault, decodeCompressed port c xc = .error fault := by
  unfold expandQuadrant2 at reserved
  split at reserved
  next => cases reserved
  next => cases reserved
  next op =>
    rw [decodeCompressed, q, show (copcode c).toNat = 2 from op]
    split at reserved
    next zero => exact load_faults port xc 4 _ _ fun Mem after => illegal_faults after (beq_iff_eq.mpr zero) _ _
    next => cases reserved
  next op =>
    rw [decodeCompressed, q, show (copcode c).toNat = 3 from op]
    split at reserved
    next zero => exact load_faults port xc 8 _ _ fun Mem after => illegal_faults after (beq_iff_eq.mpr zero) _ _
    next => cases reserved
  next op =>
    rw [decodeCompressed_move port q op]
    unfold expandMove at reserved
    split at reserved
    next first =>
      rw [if_pos (show cfunct1 c = 0 from first)]
      split at reserved
      next second =>
        rw [if_pos (show rc2 c = 0 from second)]
        split at reserved
        next zero => exact illegal_faults xc (beq_iff_eq.mpr zero) _ _
        next => cases reserved
      next => cases reserved
    next =>
      split at reserved
      next => split at reserved <;> cases reserved
      next => cases reserved
  next => cases reserved
  next => cases reserved
  next => cases reserved
  next zero one two three four five six seven =>
    simp only [imp_false] at zero one two three four five six seven
    omega

theorem reserved_faults (compressed : (cquadrant c).toNat ≠ 3) (reserved : expand c = none) :
    ∃ fault, decodeCompressed port c xc = .error fault := by
  unfold expand at reserved
  split at reserved
  next q => exact reserved0 port xc q reserved
  next q => exact reserved1 port xc q reserved
  next q => exact reserved2 port xc q reserved
  next zero one two =>
    simp only [imp_false] at zero one two
    unfold cquadrant at compressed
    omega

/-! Whole words -/

theorem cquadrant_low (machInst : ExtMachInst) : cquadrant (machInst.setWidth 16) = quadrant machInst := by
  apply eq_of_getLsbD_eq
  intro index low
  simp only [cquadrant, quadrant, getLsbD_extractLsb', getLsbD_setWidth, low, decide_true, Bool.true_and,
    decide_eq_true (by omega : 0 + index < 16)]

theorem execute_compressed {machInst : ExtMachInst} (compressed : quadrant machInst ≠ 3) :
    execute port machInst xc = some (decodeCompressed port (machInst.setWidth 16) xc) := by
  rw [execute, decode, if_neg compressed, map_some]

theorem expanded_same (stands : expand c = some w) : execute port w xc = some (decodeCompressed port c xc) ↔ ¬Diverges port xc c := by
  have elsewhere (other : (cquadrant c).toNat ≠ 2) : ¬Diverges port xc c := fun wrong => other wrong.1
  unfold expand at stands
  split at stands
  next q =>
    have q : (cquadrant c).toNat = 0 := q
    exact same_of_agrees port xc (quadrant0_agrees port q stands) (elsewhere (by rw [q]; decide))
  next q =>
    have q : (cquadrant c).toNat = 1 := q
    exact same_of_agrees port xc (quadrant1_agrees port q stands) (elsewhere (by rw [q]; decide))
  next q => exact quadrant2_same port xc q stands
  next => cases stands

/-- A compressed word is reserved and faults, or does what it stands for except where it diverges. -/
theorem compressed_described {machInst : ExtMachInst} (compressed : quadrant machInst ≠ 3) :
    (expand (machInst.setWidth 16) = none → ∃ fault, execute port machInst xc = some (.error fault)) ∧
      ∀ w, expand (machInst.setWidth 16) = some w →
        (execute port machInst xc = execute port w xc ↔ ¬Diverges port xc (machInst.setWidth 16)) := by
  rw [execute_compressed port xc compressed]
  constructor
  · intro reserved
    have short : (cquadrant (machInst.setWidth 16)).toNat ≠ 3 := by
      rw [cquadrant_low]
      exact fun same => compressed (eq_of_toNat_eq same)
    obtain ⟨fault, faults⟩ := reserved_faults port xc short reserved
    exact ⟨fault, by rw [faults]⟩
  · intro w stands
    rw [eq_comm]
    exact expanded_same port xc stands

def zeros : MemPort Unit Unit where
  alignmentCheckEnabled := true
  readMem := fun _ _ _ => .ok (0, ())
  writeMem := fun _ _ _ _ => .ok ()

def off : ExecContext Unit where
  regs := fun _ => 0
  fregs := fun _ => 1
  pc := 0x1000
  npc := 0x1002
  fs := fpuOff
  mem := ()

theorem compressed_described_on :
    execute zeros 0x2002 { off with fs := 1 } = execute zeros (Expansion.fld 0 sp 0) { off with fs := 1 } :=
  ((@compressed_described _ _ zeros { off with fs := 1 } 0x2002 (by decide)).2 (Expansion.fld 0 sp 0) rfl).mpr
    fun wrong => absurd wrong.2.1 (by decide)

/-- c.fldsp loads when the FPU is off. -/
theorem fldsp_loads_off :
    ¬∀ machInst : ExtMachInst, quadrant machInst ≠ 3 → ∀ w, expand (machInst.setWidth 16) = some w → ∀ xc : ExecContext Unit,
      execute zeros machInst xc = execute zeros w xc := by
  intro same
  have wrong := same 0x2002 (by decide) (Expansion.fld 0 sp 0) rfl off
  cases wrong

end Same

end ImcGem5.Isa.Proofs.Expansion

import ImcGem5.Isa.Encoding
import ImcGem5.Lib.Bits

/-! Agreement of assembler and decoder. Both notations are brought to the same
fields: operands are written and read back field by field, and a match value with
its mask asks for exactly the fields on which the decoder branches. -/

namespace ImcGem5.Isa.Proofs
open Lib Mem Assembler Decoder List BitVec

theorem mask_shift (field : Field) : field.mask <<< field.shift = fieldMask 64 field.shift 5 := by
  cases field <;> rfl

theorem insertOperand_eq (field : Field) (insn : insn_t) (regno : RegIndex) :
    insertOperand field insn regno = insertField insn field.shift regno := by
  have kept : regno.setWidth 64 &&& field.mask = regno.setWidth 64 := by
    have ones : field.mask = (BitVec.allOnes 5).setWidth 64 := by cases field <;> rfl
    rw [ones, ← setWidth_and, and_allOnes]
  rw [insertOperand, insertBits, mask_shift, kept, insertField]

variable {start length : Nat} {operand : Operand}

theorem extract_setWidth (insn : insn_t) (fits : start + length ≤ 32) :
    (insn.setWidth 32).extractLsb' start length = insn.extractLsb' start length := by
  apply eq_of_getLsbD_eq
  intro index inside
  have bound : start + index < 32 := by omega
  simp only [getLsbD_extractLsb', getLsbD_setWidth, bound, decide_true, Bool.true_and]

theorem extract_zeroExtend (machInst : MachInst) (fits : start + length ≤ 32) :
    (machInst.setWidth 64).extractLsb' start length = machInst.extractLsb' start length := by
  apply eq_of_getLsbD_eq
  intro index inside
  have bound : start + index < 64 := by omega
  simp only [getLsbD_extractLsb', getLsbD_setWidth, bound, decide_true, Bool.true_and]

/-- The fields below the branch on quadrant and opcode that tell the six apart. -/
def selected (op : ImcOp) (machInst : MachInst) : Prop :=
  match op with
  | .addmod => funct3 machInst = 0x0 ∧ funct2 machInst = 0x01
  | .mulmod => funct3 machInst = 0x0 ∧ funct2 machInst = 0x02
  | .submod => funct3 machInst = 0x0 ∧ funct2 machInst = 0x03
  | .mulimc => funct3 machInst = 0x01 ∧ funct7 machInst = 0x03
  | .invmod => funct3 machInst = 0x01 ∧ funct7 machInst = 0x04
  | .cmpimc => funct3 machInst = 0x01 ∧ funct7 machInst = 0x05

def Carries (op : ImcOp) (machInst : MachInst) : Prop :=
  quadrant machInst = 0x3 ∧ opcode5 machInst = 0x02 ∧ selected op machInst

theorem decode_op_iff (op : ImcOp) (machInst : MachInst) : (decode machInst).map ImcInst.op = some op ↔ Carries op machInst := by
  constructor
  · intro found
    unfold decode at found
    split at found
    case isFalse => cases found
    rename_i inQuadrant
    split at found
    case isFalse => cases found
    rename_i inOpcode
    refine ⟨inQuadrant, inOpcode, ?_⟩
    repeat' split at found
    all_goals cases found
    all_goals exact ⟨by assumption, by assumption⟩
  · rintro ⟨inQuadrant, inOpcode, fields⟩
    unfold decode
    rw [if_pos inQuadrant, if_pos inOpcode]
    cases op <;> obtain ⟨third, last⟩ := fields <;> rw [third, last] <;> rfl

theorem mask_fields (op : ImcOp) : (opcode op).mask =
    fieldMask 64 0 2 ||| (fieldMask 64 2 5 ||| (fieldMask 64 12 3 ||| fieldMask 64 25 (if ternaryOp op then 2 else 7))) := by
  cases op <;> rfl

theorem matchOpcode_iff (op : ImcOp) (machInst : MachInst) :
    matchOpcode (opcode op) (machInst.setWidth 64) = true ↔ Carries op machInst := by
  have last : 25 + (if ternaryOp op then 2 else 7) ≤ 32 := by cases op <;> decide
  rw [matchOpcode, beq_iff_eq, mask_fields]
  rw [and_or_distrib_left, and_or_distrib_left, and_or_distrib_left]
  rw [ofNat_eq_ofNat, or_eq_zero_iff, or_eq_zero_iff, or_eq_zero_iff]
  rw [← ofNat_eq_ofNat, masked_eq_zero_iff _ _ (by decide), masked_eq_zero_iff _ _ (by decide),
    masked_eq_zero_iff _ _ (by decide), masked_eq_zero_iff _ _ (by omega)]
  rw [extract_zeroExtend _ (by decide), extract_zeroExtend _ (by decide), extract_zeroExtend _ (by decide),
    extract_zeroExtend _ last]
  cases op <;> exact Iff.rfl

theorem matchOpcode_decode (op : ImcOp) (machInst : MachInst) :
    matchOpcode (opcode op) (machInst.setWidth 64) = true ↔ (decode machInst).map ImcInst.op = some op := by
  rw [matchOpcode_iff, decode_op_iff]

theorem field_apart {field other : Field} (different : field ≠ other) :
    field.shift + 5 ≤ other.shift ∨ other.shift + 5 ≤ field.shift := by
  cases field <;> cases other <;> first | exact absurd rfl different | decide

variable {pairs : List (Operand × RegIndex)}

theorem extract_insertOperands_other (fits : start + length ≤ 64) (insn : insn_t)
    (apart : ∀ pair ∈ pairs, start + length ≤ pair.1.field.shift ∨ pair.1.field.shift + 5 ≤ start) :
    (insertOperands insn pairs).extractLsb' start length = insn.extractLsb' start length := by
  induction pairs generalizing insn with
  | nil => rfl
  | cons pair rest ih =>
    rw [insertOperands, ih _ fun other member => apart other (mem_cons_of_mem _ member), insertOperand_eq]
    exact extract_insertField_other _ _ _ fits (apart pair mem_cons_self)

theorem extract_insertOperands_same (insn : insn_t)
    (distinct : (pairs.map (·.1.field)).Nodup) {regno : RegIndex} (member : (operand, regno) ∈ pairs) :
    (insertOperands insn pairs).extractLsb' operand.field.shift 5 = regno := by
  have fits : operand.field.shift + 5 ≤ 64 := by cases operand <;> decide
  induction pairs generalizing insn with
  | nil => cases member
  | cons pair rest ih =>
    obtain ⟨absent, others⟩ := nodup_cons.mp distinct
    rw [insertOperands]
    rcases mem_cons.mp member with rfl | later
    · rw [extract_insertOperands_other fits, insertOperand_eq, extract_insertField_same _ _ _ fits]
      intro other present
      apply field_apart
      intro same
      exact absent (mem_map.mpr ⟨other, present, same.symm⟩)
    · exact ih _ others later

theorem args_distinct (op : ImcOp) : ((opcode op).args.map Operand.field).Nodup := by
  cases op <;> decide

theorem args_apart (op : ImcOp) (member : operand ∈ (opcode op).args)
    (covered : (start, length) ∈ [(0, 2), (2, 5), (12, 3), (25, if ternaryOp op then 2 else 7)]) :
    start + length ≤ operand.field.shift ∨ operand.field.shift + 5 ≤ start := by
  have all : ∀ field ∈ [(0, 2), (2, 5), (12, 3), (25, if ternaryOp op then 2 else 7)], ∀ other ∈ (opcode op).args,
      field.1 + field.2 ≤ other.field.shift ∨ other.field.shift + 5 ≤ field.1 := by
    cases op <;> decide
  exact all (start, length) covered operand member

theorem extract_assemble_covered (op : ImcOp) (regs : List RegIndex) (start length : Nat) (fits : start + length ≤ 32)
    (covered : (start, length) ∈ [(0, 2), (2, 5), (12, 3), (25, if ternaryOp op then 2 else 7)]) :
    (assemble (opcode op) regs).extractLsb' start length = (opcode op).match.extractLsb' start length := by
  rw [assemble, extract_setWidth _ fits, extract_insertOperands_other (by omega)]
  intro pair member
  exact args_apart op (of_mem_zip member).1 covered

theorem assemble_carries (op : ImcOp) (regs : List RegIndex) : Carries op (assemble (opcode op) regs) := by
  have last : 25 + (if ternaryOp op then 2 else 7) ≤ 32 := by cases op <;> decide
  have inQuadrant := extract_assemble_covered op regs 0 2 (by decide) (by simp)
  have inOpcode := extract_assemble_covered op regs 2 5 (by decide) (by simp)
  have third := extract_assemble_covered op regs 12 3 (by decide) (by simp)
  have selecting := extract_assemble_covered op regs 25 _ last (by simp)
  cases op <;> exact ⟨inQuadrant, inOpcode, third, selecting⟩

theorem decode_format {machInst : MachInst} {inst : ImcInst} (found : decode machInst = some inst) :
    inst = if ternaryOp inst.op then r4Op machInst inst.op else rOp2 machInst inst.op := by
  unfold decode at found
  repeat' split at found
  all_goals cases found
  all_goals rfl

def operandOf (machInst : MachInst) : Operand → RegIndex
  | .s => rs1 machInst
  | .t => rs2 machInst
  | .r => rs3 machInst
  | .l => rs4 machInst

theorem operands_of_decode {machInst : MachInst} {inst : ImcInst} (found : decode machInst = some inst) :
    inst.operands = (opcode inst.op).args.map (operandOf machInst) := by
  have format := decode_format found
  obtain ⟨op, _⟩ := inst
  cases op <;> cases format <;> rfl

theorem operandOf_assemble {op : ImcOp} {regs : List RegIndex} (same : (opcode op).args.length = regs.length)
    {regno : RegIndex} (member : (operand, regno) ∈ (opcode op).args.zip regs) : operandOf (assemble (opcode op) regs) operand = regno := by
  have distinct : (((opcode op).args.zip regs).map (·.1.field)).Nodup := by
    have fields := congrArg (List.map Operand.field) (map_fst_zip (Nat.le_of_eq same))
    rw [map_map] at fields
    exact fields ▸ args_distinct op
  have read := extract_insertOperands_same (opcode op).match distinct member
  have fits : operand.field.shift + 5 ≤ 32 := by cases operand <;> decide
  rw [← extract_setWidth _ fits] at read
  cases operand <;> exact read

theorem map_eq_of_zip {α β : Type} {left : List α} {right : List β} {value : α → β} (same : left.length = right.length)
    (each : ∀ pair ∈ left.zip right, value pair.1 = pair.2) : left.map value = right := by
  calc left.map value = ((left.zip right).map (·.1)).map value := by rw [map_fst_zip (Nat.le_of_eq same)]
    _ = (left.zip right).map (fun pair => value pair.1) := by rw [map_map]; rfl
    _ = (left.zip right).map (·.2) := map_congr_left each
    _ = right := map_snd_zip (Nat.le_of_eq same.symm)

theorem decode_assemble (inst : ImcInst) : ∃ decoded,
    decode (assemble (opcode inst.op) inst.operands) = some decoded ∧ decoded.op = inst.op ∧
      decoded.operands = inst.operands := by
  have carried := (decode_op_iff inst.op _).mpr (assemble_carries inst.op inst.operands)
  obtain ⟨decoded, found, same⟩ := Option.map_eq_some_iff.mp carried
  refine ⟨decoded, found, same, ?_⟩
  have lengths : (opcode inst.op).args.length = inst.operands.length := by
    obtain ⟨op, _⟩ := inst
    cases op <;> rfl
  rw [operands_of_decode found, same]
  exact map_eq_of_zip lengths fun _ member => operandOf_assemble lengths member

/-- Every assembled in-memory instruction is decoded as itself with its registers in
order, and every word decoded as one matches that instruction's pair alone. -/
theorem assembler_decoder_agree :
    (∀ inst : ImcInst, ∃ decoded, decode (assemble (opcode inst.op) inst.operands) = some decoded ∧
      decoded.op = inst.op ∧ decoded.operands = inst.operands) ∧
    (∀ machInst inst, decode machInst = some inst →
      ∀ op, matchOpcode (opcode op) (machInst.setWidth 64) = true ↔ op = inst.op) := by
  refine ⟨decode_assemble, fun machInst inst found op => ?_⟩
  rw [matchOpcode_decode, found, Option.map_some, Option.some.injEq]
  exact eq_comm

theorem addmod_word_matches :
    decode 0x62B5068B = some ⟨.addmod, 10, 11, 12, 13⟩ ∧ ∀ op, matchOpcode (opcode op) 0x62B5068B = true ↔ op = .addmod :=
  ⟨by decide, assembler_decoder_agree.2 0x62B5068B ⟨.addmod, 10, 11, 12, 13⟩ (by decide)⟩

end ImcGem5.Isa.Proofs

import ImcGem5.Isa.Instruction
import ImcGem5.Proofs.InMemory
import Mathlib.Data.Int.ModEq

/-! Straight-line modular programs in memory. The three handlers use different
signedness and all wrap at 64 bits; with operands below 2^32 none of that shows, and
each keeps its result reduced and congruent to the integer result. -/

namespace ImcGem5.Mem.Proofs
open Lib BitVec Int Function

def Small (modulus value : Word) : Prop := value.toNat < 2 ^ 32 ∨ value = modulus

structure Modulus (modulus : Word) : Prop where
  positive : 1 ≤ modulus.toNat
  bounded : modulus.toNat ≤ 2 ^ 32

variable {modulus valA valB : Word}

theorem Small.le (small : Small modulus valA) (valid : Modulus modulus) : valA.toNat ≤ 2 ^ 32 := by
  rcases small with below | rfl
  · omega
  · exact valid.bounded

section

variable (valid : Modulus modulus)
include valid

theorem Modulus.ne_zero : modulus ≠ 0 := by
  rintro rfl
  exact absurd valid.positive (by decide)

end

theorem toInt_of_le {value : Word} (bounded : value.toNat ≤ 2 ^ 33) : value.toInt = value.toNat := by
  apply toInt_eq_toNat_of_lt
  omega

theorem Modulus.toInt (valid : Modulus modulus) : modulus.toInt = modulus.toNat := by
  have bounded := valid.bounded
  exact toInt_of_le (by omega)

structure Setting (modulusAt : Addr) (operands : Addr → Prop) (mem : AbstractMemory) : Prop where
  modulus : operands modulusAt
  aligned : ∀ operand, operands operand → operand.toNat % 8 = 0
  inRange : ∀ operand, operands operand → mem.range.backs operand 8 = true
  below : ∀ operand, operands operand → operand ≠ modulusAt → (mem.pmem.word operand.toNat).toNat < 2 ^ 32
  valid : Modulus (mem.pmem.word modulusAt.toNat)

def requests (labels : List MemLabel) : List Packet :=
  labels.filterMap fun
    | .accepted pkt => some pkt
    | _ => none

def exactly (values : Addr → Int) (pkt : Packet) : Addr → Int :=
  let value := match dispatch pkt.req.flags with
    | some .addmod => values (address pkt 0) + values (address pkt 1)
    | some .submod => values (address pkt 0) - values (address pkt 1)
    | some .mulmod => values (address pkt 0) * values (address pkt 1)
    | _ => values (address pkt 3)
  update values (address pkt 3) value

def integers (mem : AbstractMemory) (program : List Packet) : Addr → Int :=
  program.foldl exactly fun operand => (mem.pmem.word operand.toNat).toNat

section
variable {modulusAt : Addr} {operands : Addr → Prop} {start : AbstractMemory}

/-- Every operand word stands for the integer the program has computed for it. -/
structure Evaluated (modulusAt : Addr) (operands : Addr → Prop) (start mem : AbstractMemory) (program : List Packet) :
    Prop where
  range : mem.range = start.range
  modulus : mem.pmem.word modulusAt.toNat = start.pmem.word modulusAt.toNat
  small : ∀ operand, operands operand → Small (start.pmem.word modulusAt.toNat) (mem.pmem.word operand.toNat)
  congruent : ∀ operand, operands operand →
    ((mem.pmem.word operand.toNat).toNat : Int) ≡ integers start program operand
      [ZMOD (start.pmem.word modulusAt.toNat).toNat]
  written : ∀ pkt ∈ program, operands (address pkt 3)
  reduced : ∀ pkt ∈ program,
    (mem.pmem.word (address pkt 3).toNat).toNat < (start.pmem.word modulusAt.toNat).toNat

theorem Setting.evaluated (setting : Setting modulusAt operands start) :
    Evaluated modulusAt operands start start [] where
  range := rfl
  modulus := rfl
  small operand member := by
    by_cases same : operand = modulusAt
    · exact .inr (by rw [same])
    · exact .inl (setting.below operand member same)
  congruent operand _ := Int.ModEq.refl _
  written pkt member := by cases member
  reduced pkt member := by cases member

end

end ImcGem5.Mem.Proofs

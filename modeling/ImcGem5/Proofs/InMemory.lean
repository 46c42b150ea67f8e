import ImcGem5.Proofs.Controller

/-! One description of the six handlers: operand words are read at the addresses in
the packet, one function of the words is computed, and one word is written. -/

namespace ImcGem5.Mem.Proofs
open Lib AbstractMemory

def arity : ImcOp → Nat
  | .addmod | .submod | .mulmod => 3
  | .mulimc | .invmod | .cmpimc => 2

def compute (op : ImcOp) (word : Nat → Word) : Except Abort Word :=
  match op with
  | .addmod => ImcOp.addmodResult (word 0) (word 1) (word 2)
  | .submod => ImcOp.submodResult (word 0) (word 1) (word 2)
  | .mulmod => ImcOp.mulmodResult (word 0) (word 1) (word 2)
  | .mulimc => ImcOp.mulimcResult (word 0) (word 1)
  | .invmod => ImcOp.invmodResult (word 0) (word 1)
  | .cmpimc => ImcOp.cmpimcResult (word 0) (word 1)

def address (pkt : Packet) (position : Nat) : Addr :=
  BitVec.ofNat 64 (leNat ((pkt.data.drop (8 * position)).take 8))

def result (op : ImcOp) (mem : AbstractMemory) (pkt : Packet) : Except Abort Word :=
  compute op fun position => mem.pmem.word (address pkt position).toNat

def stored (op : ImcOp) (mem : AbstractMemory) (pkt : Packet) (value : Word) : AbstractMemory :=
  { mem with pmem := mem.pmem.setWord (address pkt (arity op)).toNat value }

def footprint (op : ImcOp) (pkt : Packet) : List Effect :=
  (List.range (arity op)).map (fun position => .read (span (address pkt position) 8)) ++
    [.wrote (span (address pkt (arity op)) 8)]

variable {pkt : Packet} {paddr : Addr} {mem next : AbstractMemory} {op : ImcOp} {effects : List Effect}

theorem operand_eq (position : Nat) (long : 8 * (position + 1) ≤ pkt.data.length) :
    pkt.operand (8 * position) = .ok (address pkt position) := by
  rw [Packet.operand, if_pos (by omega)]
  rfl

theorem operand_ok (position : Nat) (ran : pkt.operand (8 * position) = .ok paddr) :
    8 * (position + 1) ≤ pkt.data.length ∧ paddr = address pkt position := by
  unfold Packet.operand at ran
  split at ran
  · cases ran
    exact ⟨by omega, rfl⟩
  · cases ran

theorem hostWord_eq (backed : mem.range.backs paddr 8 = true) : mem.hostWord paddr = .ok (mem.pmem.word paddr.toNat) := by
  rw [hostWord, hostRead, if_pos backed]
  rfl

theorem hostWord_ok {word : Word} (ran : mem.hostWord paddr = .ok word) :
    mem.range.backs paddr 8 = true ∧ word = mem.pmem.word paddr.toNat := by
  obtain ⟨_, read, ran⟩ := of_bind ran
  obtain ⟨backed, rfl⟩ := hostRead_ok read
  exact ⟨backed, (Except.ok.inj ran).symm⟩

theorem setHostWord_eq (backed : mem.range.backs paddr 8 = true) (value : Word) :
    mem.setHostWord paddr value = .ok { mem with pmem := mem.pmem.setWord paddr.toNat value } := by
  rw [setHostWord, hostWrite, leBytes_length, if_pos backed]
  rfl

theorem setHostWord_ok {value : Word} (ran : mem.setHostWord paddr value = .ok next) :
    mem.range.backs paddr 8 = true ∧ next = { mem with pmem := mem.pmem.setWord paddr.toNat value } := by
  obtain ⟨backed, rfl⟩ := hostWrite_ok ran
  exact ⟨backed, rfl⟩

/-- The operands of the packet lie inside the memory. -/
structure Fits (op : ImcOp) (mem : AbstractMemory) (pkt : Packet) : Prop where
  long : 8 * (arity op + 1) ≤ pkt.data.length
  backed : ∀ position ≤ arity op, mem.range.backs (address pkt position) 8 = true

structure Readable (op : ImcOp) (mem : AbstractMemory) (pkt : Packet) : Prop where
  long : 8 * (arity op + 1) ≤ pkt.data.length
  backed : ∀ position < arity op, mem.range.backs (address pkt position) 8 = true

theorem Fits.readable (fits : Fits op mem pkt) : Readable op mem pkt where
  long := fits.long
  backed position bound := fits.backed position (Nat.le_of_lt bound)

theorem handler_readable (readable : Readable op mem pkt) : handler op mem pkt = result op mem pkt >>= fun value =>
      mem.setHostWord (address pkt (arity op)) value >>= fun next => .ok (next, footprint op pkt) := by
  obtain ⟨long, backed⟩ := readable
  have first : pkt.operand 0 = .ok (address pkt 0) := operand_eq 0 (by omega)
  have second : pkt.operand 8 = .ok (address pkt 1) := operand_eq 1 (by cases op <;> simp only [arity] at long <;> omega)
  have third : pkt.operand 16 = .ok (address pkt 2) := operand_eq 2 (by cases op <;> simp only [arity] at long <;> omega)
  have backedFirst := hostWord_eq (backed 0 (by cases op <;> decide))
  have backedSecond := hostWord_eq (backed 1 (by cases op <;> decide))
  cases op with
  | addmod | submod | mulmod =>
    have last : pkt.operand 24 = .ok (address pkt 3) := operand_eq 3 (by simp only [arity] at long; omega)
    have backedThird := hostWord_eq (backed 2 (by decide))
    simp only [handler, addmod, submod, mulmod, ternaryHandler, ternary, first, second, third, last, ok_bind, backedFirst,
      backedSecond, backedThird, result, compute]
    rfl
  | mulimc | invmod | cmpimc =>
    simp only [handler, mulimc, invmod, cmpimc, binaryHandler, binary, first, second, third, ok_bind, backedFirst, backedSecond,
      result, compute]
    rfl

/-- A handler stores its result and nothing else. -/
theorem handler_eq (fits : Fits op mem pkt) : handler op mem pkt =
      result op mem pkt >>= fun value => .ok (stored op mem pkt value, footprint op pkt) := by
  have target := setHostWord_eq (fits.backed (arity op) (Nat.le_refl _))
  rw [handler_readable fits.readable]
  simp only [target, ok_bind]
  rfl

theorem ternaryHandler_fits {computed : Word → Word → Word → Except Abort Word}
    (ran : ternaryHandler computed mem pkt = .ok (next, effects)) :
    32 ≤ pkt.data.length ∧ ∀ position ≤ 3, mem.range.backs (address pkt position) 8 = true := by
  obtain ⟨_, first, ran⟩ := of_bind ran
  obtain ⟨_, second, ran⟩ := of_bind ran
  obtain ⟨_, third, ran⟩ := of_bind ran
  obtain ⟨_, last, ran⟩ := of_bind ran
  obtain ⟨_, rfl⟩ := operand_ok 0 first
  obtain ⟨_, rfl⟩ := operand_ok 1 second
  obtain ⟨_, rfl⟩ := operand_ok 2 third
  obtain ⟨long, rfl⟩ := operand_ok 3 last
  obtain ⟨_, readA, ran⟩ := of_bind ran
  obtain ⟨_, readB, ran⟩ := of_bind ran
  obtain ⟨_, readC, ran⟩ := of_bind ran
  obtain ⟨_, _, ran⟩ := of_bind ran
  obtain ⟨_, written, _⟩ := of_bind ran
  refine ⟨long, fun position bound => ?_⟩
  match position, bound with
  | 0, _ => exact (hostWord_ok readA).1
  | 1, _ => exact (hostWord_ok readB).1
  | 2, _ => exact (hostWord_ok readC).1
  | 3, _ => exact (setHostWord_ok written).1

theorem binaryHandler_fits {computed : Word → Word → Except Abort Word} (ran : binaryHandler computed mem pkt = .ok (next, effects)) :
    24 ≤ pkt.data.length ∧ ∀ position ≤ 2, mem.range.backs (address pkt position) 8 = true := by
  obtain ⟨_, first, ran⟩ := of_bind ran
  obtain ⟨_, second, ran⟩ := of_bind ran
  obtain ⟨_, third, ran⟩ := of_bind ran
  obtain ⟨_, rfl⟩ := operand_ok 0 first
  obtain ⟨_, rfl⟩ := operand_ok 1 second
  obtain ⟨long, rfl⟩ := operand_ok 2 third
  obtain ⟨_, readA, ran⟩ := of_bind ran
  obtain ⟨_, readB, ran⟩ := of_bind ran
  obtain ⟨_, _, ran⟩ := of_bind ran
  obtain ⟨_, written, _⟩ := of_bind ran
  refine ⟨long, fun position bound => ?_⟩
  match position, bound with
  | 0, _ => exact (hostWord_ok readA).1
  | 1, _ => exact (hostWord_ok readB).1
  | 2, _ => exact (setHostWord_ok written).1

theorem handler_ok (ran : handler op mem pkt = .ok (next, effects)) :
    Fits op mem pkt ∧ ∃ value, result op mem pkt = .ok value ∧ next = stored op mem pkt value ∧
      effects = footprint op pkt := by
  have fits : Fits op mem pkt := by
    cases op with
    | addmod | submod | mulmod =>
      obtain ⟨long, backed⟩ := ternaryHandler_fits ran
      exact ⟨long, backed⟩
    | mulimc | invmod | cmpimc =>
      obtain ⟨long, backed⟩ := binaryHandler_fits ran
      exact ⟨long, backed⟩
  refine ⟨fits, ?_⟩
  rw [handler_eq fits] at ran
  obtain ⟨value, computed, ran⟩ := of_bind ran
  cases ran
  exact ⟨value, computed, rfl, rfl⟩

def operandWord (mem : AbstractMemory) (pkt : Packet) (position : Nat) : Nat :=
  (mem.pmem.word (address pkt position).toNat).toNat

def Stores (op : ImcOp) (mem : AbstractMemory) (pkt : Packet) (value : Int) : Prop :=
  ∃ next effects, AbstractMemory.handler op mem pkt = .ok (next, effects) ∧ operandWord next pkt (arity op) = value

theorem stores_iff (fits : Fits op mem pkt) (expected : Int) :
    Stores op mem pkt expected ↔ ∃ value, result op mem pkt = .ok value ∧ (value.toNat : Int) = expected := by
  have kept : ∀ value, operandWord (stored op mem pkt value) pkt (arity op) = value.toNat := fun value => by
    rw [operandWord, stored, Store.word_setWord_same]
  constructor
  · rintro ⟨_, _, ran, same⟩
    obtain ⟨_, value, computed, rfl, _⟩ := handler_ok ran
    exact ⟨value, computed, by rw [← same, kept]⟩
  · rintro ⟨value, computed, same⟩
    refine ⟨stored op mem pkt value, footprint op pkt, ?_, by rw [kept, same]⟩
    rw [handler_eq fits, computed, ok_bind]

end ImcGem5.Mem.Proofs

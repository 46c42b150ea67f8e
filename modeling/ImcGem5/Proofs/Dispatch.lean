import ImcGem5.Proofs.Controller

/-! Dispatch on request flags. Two of the six operations were given bits that other
flags already used, so the chain of tests is exact only for requests that set
neither SECURE nor KERNEL. -/

namespace ImcGem5.Mem.Proofs
open Lib Flags

def flagsOf (flags : List BaseFlag) : Flags := flags.foldr (fun flag rest => flag.bits ||| rest) 0

theorem isSet_or (first second mask : BitVec 64) : isSet (first ||| second) mask = (isSet first mask || isSet second mask) := by
  simp only [isSet, BitVec.and_or_distrib_right]
  rw [Bool.eq_iff_iff, Bool.or_eq_true]
  simp only [bne_iff_ne, ne_eq, BitVec.ofNat_eq_ofNat, BitVec.or_eq_zero_iff, Classical.not_and_iff_not_or_not]

theorem isSet_flagsOf (flags : List BaseFlag) (mask : BitVec 64) :
    isSet (flagsOf flags) mask = flags.any fun flag => isSet flag.bits mask := by
  induction flags with
  | nil => simp [flagsOf, isSet]
  | cons flag rest ih =>
    have step := isSet_or flag.bits (flagsOf rest) mask
    rw [ih] at step
    exact step

def shares (flag : BaseFlag) (op : ImcOp) : Bool :=
  (flag == .secure && op == .submod) || (flag == .kernel && op == .cmpimc)

theorem isSet_bits (flag : BaseFlag) (op : ImcOp) : isSet flag.bits op.flag = shares flag op := by
  cases flag <;> cases op <;> rfl

theorem isSet_flag (first second : ImcOp) : isSet first.flag second.flag = (first == second) := by
  cases first <;> cases second <;> rfl

theorem isSet_op (flags : List BaseFlag) (op : ImcOp) : isSet (flagsOf flags) op.flag = flags.any (shares · op) := by
  rw [isSet_flagsOf]
  simp only [isSet_bits]

theorem any_shares (flags : List BaseFlag) (op : ImcOp) :
    flags.any (shares · op) = ((decide (.secure ∈ flags) && op == .submod) || (decide (.kernel ∈ flags) && op == .cmpimc)) := by
  rw [Bool.eq_iff_iff]
  simp only [shares, List.any_eq_true, Bool.or_eq_true, Bool.and_eq_true, beq_iff_eq, decide_eq_true_eq]
  constructor
  · rintro ⟨_, member, ⟨rfl, same⟩ | ⟨rfl, same⟩⟩
    · exact .inl ⟨member, same⟩
    · exact .inr ⟨member, same⟩
  · rintro (⟨member, same⟩ | ⟨member, same⟩)
    · exact ⟨_, member, .inl ⟨rfl, same⟩⟩
    · exact ⟨_, member, .inr ⟨rfl, same⟩⟩

theorem dispatch_flagsOf (flags : List BaseFlag) :
    dispatch (flagsOf flags) =
      if .secure ∈ flags then some .submod else if .kernel ∈ flags then some .cmpimc else none := by
  unfold dispatch
  simp only [isSet_op, any_shares]
  by_cases secure : BaseFlag.secure ∈ flags <;> by_cases kernel : BaseFlag.kernel ∈ flags <;> simp [secure, kernel]

theorem dispatch_flagsOf_or {flags : List BaseFlag} (secure : .secure ∉ flags) (kernel : .kernel ∉ flags) (op : ImcOp) :
    dispatch (flagsOf flags ||| op.flag) = some op := by
  unfold dispatch
  simp only [isSet_or, isSet_op, any_shares, isSet_flag]
  cases op <;> simp [secure, kernel]

inductive Path where
  | ordinary
  | inMemory (op : ImcOp)

/-- A packet served on a path of one's choice: through recvAtomic with the response
queued, or by one handler and nothing else. -/
def serve (ctrl : MemCtrl) (now : Tick) (random : Nat) (pkt : Packet) (path : Path) :
    Except Abort (MemCtrl × Bool × List MemLabel) := do
  let ctrl ← ctrl.occupy now pkt
  match path with
  | .ordinary =>
    let (ctrl, effects) ← ctrl.ordinary now random pkt
    return (ctrl, true, .accepted pkt :: effects.map .effect)
  | .inMemory op =>
    let (mem, effects) ← AbstractMemory.handler op ctrl.mem pkt
    return ({ ctrl with mem }, true, [.accepted pkt, .computed op pkt.req.id] ++ effects.map .effect)

structure Accepts (ctrl : MemCtrl) (pkt : Packet) : Prop where
  fresh : ctrl.retryReq = false
  idle : ctrl.isBusy = false
  quiet : pkt.cacheResponding = false
  access : (pkt.isRead || pkt.isWrite) = true

def pathOf (flags : Flags) : Path := (dispatch flags).elim .ordinary .inMemory

theorem recvTimingReq_serve {ctrl : MemCtrl} {pkt : Packet} (accepts : Accepts ctrl pkt) (now : Tick) (random : Nat) :
    ctrl.recvTimingReq now random pkt = serve ctrl now random pkt (pathOf pkt.req.flags) := by
  obtain ⟨fresh, idle, quiet, access⟩ := accepts
  unfold MemCtrl.recvTimingReq MemCtrl.process serve pathOf
  simp only [fresh, idle, quiet, access, Bool.not_true, panicIf_false, ok_bind, Bool.false_eq_true, if_false, bind_assoc]
  cases dispatch pkt.req.flags with
  | none | some op => simp only [Option.elim, bind_assoc, pure_bind]

theorem serve_ne {ctrl next : MemCtrl} {now : Tick} {random : Nat} {pkt : Packet} {taken : Bool} {labels : List MemLabel}
    (served : serve ctrl now random pkt .ordinary = .ok (next, taken, labels)) (op : ImcOp) :
    serve ctrl now random pkt (.inMemory op) ≠ .ok (next, taken, labels) := by
  intro computed
  obtain ⟨_, _, served⟩ := of_bind served
  obtain ⟨⟨_, accesses⟩, _, served⟩ := of_bind served
  obtain ⟨_, _, computed⟩ := of_bind computed
  obtain ⟨⟨_, _⟩, _, computed⟩ := of_bind computed
  cases served
  simp only [pure, Except.pure, Except.ok.injEq, Prod.mk.injEq, List.cons_append, List.cons.injEq] at computed
  have member : MemLabel.computed op pkt.req.id ∈ accesses.map .effect := by
    rw [← computed.2.2.2]
    exact List.mem_cons_self
  obtain ⟨_, _, impossible⟩ := List.mem_map.mp member
  cases impossible

section
variable (receive : MemCtrl → Tick → Nat → Packet → Except Abort (MemCtrl × Bool × List MemLabel))

def TakesPath (flags : Flags) (path : Path) : Prop :=
  ∀ ctrl now random pkt, Accepts ctrl pkt → pkt.req.flags = flags →
    receive ctrl now random pkt = serve ctrl now random pkt path

/-- Older flags alone mean an ordinary access; with the flag of one operation they
mean that operation. -/
def ExactDispatch (flags : List BaseFlag) : Prop :=
  TakesPath receive (flagsOf flags) .ordinary ∧
    ∀ op : ImcOp, TakesPath receive (flagsOf flags ||| op.flag) (.inMemory op)

end

theorem takesPath_pathOf (flags : Flags) : TakesPath MemCtrl.recvTimingReq flags (pathOf flags) := by
  intro ctrl now random pkt accepts same
  rw [recvTimingReq_serve accepts, same]

theorem firstRead_served (flags : Flags) : ∃ next labels, serve idleMemory 0 0 (firstRead flags) .ordinary = .ok (next, true, labels) :=
  ⟨_, _, rfl⟩

theorem not_takesPath_ordinary {flags : Flags} {op : ImcOp} (dispatched : dispatch flags = some op) :
    ¬ TakesPath MemCtrl.recvTimingReq flags .ordinary := by
  intro ordinary
  have accepts : Accepts idleMemory (firstRead flags) := ⟨rfl, rfl, rfl, rfl⟩
  have computed := takesPath_pathOf flags idleMemory 0 0 (firstRead flags) accepts rfl
  rw [ordinary idleMemory 0 0 (firstRead flags) accepts rfl, pathOf, dispatched] at computed
  obtain ⟨_, _, served⟩ := firstRead_served flags
  rw [served] at computed
  exact serve_ne served op computed.symm

/-- Dispatch is exact for a set of older flags precisely when it contains neither of
the two flags whose bits were reused. -/
theorem exactDispatch_iff (flags : List BaseFlag) :
    (ExactDispatch SimpleMemory.recvTimingReq flags ∧ ExactDispatch PIMCtrl.recvTimingReq flags) ↔
      .secure ∉ flags ∧ .kernel ∉ flags := by
  have old := dispatch_flagsOf flags
  constructor
  · rintro ⟨⟨ordinary, _⟩, _⟩
    refine ⟨fun secure => ?_, fun kernel => ?_⟩
    · rw [if_pos secure] at old
      exact not_takesPath_ordinary old ordinary
    · rw [if_pos kernel, ← apply_ite some] at old
      exact not_takesPath_ordinary old ordinary
  · rintro ⟨secure, kernel⟩
    rw [if_neg secure, if_neg kernel] at old
    have exact : ExactDispatch MemCtrl.recvTimingReq flags := by
      refine ⟨?_, fun op => ?_⟩
      · have path := takesPath_pathOf (flagsOf flags)
        rwa [pathOf, old] at path
      · have path := takesPath_pathOf (flagsOf flags ||| op.flag)
        rwa [pathOf, dispatch_flagsOf_or secure kernel] at path
    exact ⟨exact, exact⟩

/-- A secure read is taken for a SUBMOD and stops at its zero modulus; a kernel
read is taken for a CMPIMC and overwrites the word it was to read. -/
theorem secure_kernel_not_exact :
    ¬ ExactDispatch SimpleMemory.recvTimingReq [.secure] ∧ ¬ ExactDispatch PIMCtrl.recvTimingReq [.kernel] ∧
      SimpleMemory.recvTimingReq idleMemory 0 0 (firstRead (flagsOf [.secure])) = .error .divideError ∧
      ((PIMCtrl.recvTimingReq idleMemory 0 0 (firstRead (flagsOf [.kernel]))).map fun result => result.1.mem.pmem 0) =
        .ok 1 := by
  refine ⟨fun exact => ?_, fun exact => ?_, rfl, rfl⟩
  · exact not_takesPath_ordinary (dispatch_flagsOf [.secure]) exact.1
  · exact not_takesPath_ordinary (dispatch_flagsOf [.kernel]) exact.1

end ImcGem5.Mem.Proofs

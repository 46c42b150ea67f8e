import ImcGem5.Proofs.Plic

/-! Claims of the platform-level interrupt controller. What a claim returns was arbitrated when the
output in force was calculated, and every change since then waits in the queue of outputs. The
pending bits are ahead of that, and keep a post from being claimed twice. -/

namespace ImcGem5.Dev
open Lib Mem Riscv List

namespace Plic
variable {params : PlicParams}

def pendingAt (plic : Plic params) (id : Nat) : Bool :=
  if inside : id / 32 < params.nSrc32 then (plic.pending ⟨id / 32, inside⟩).getLsbD (id % 32) else false

/-- A source of the highest priority among those pending and enabled for a context, or 0 if there is none. -/
def Best (plic : Plic params) (i : Fin params.nContext) (id : Word) : Prop :=
  (∃ src_id : Fin params.nSrc, id = BitVec.ofNat 32 src_id ∧ plic.isPending src_id ∧ plic.isEnabled i src_id ∧ plic.priority src_id ≠ 0 ∧
    ∀ other, plic.isPending other → plic.isEnabled i other → plic.priority other ≤ plic.priority src_id) ∨
  id = 0 ∧ ∀ src_id, plic.isPending src_id → plic.isEnabled i src_id → plic.priority src_id = 0

inductive ClaimEvent (params : PlicParams) where
  | posted (src_id : Nat)
  | claimed (context_id : Fin params.nContext) (id : Word)
  deriving DecidableEq

section Log

/-- What a reader of a register claims. A context that has not completed its last claim does not claim. -/
def registerLog (plic : Plic params) : PlicRegister params → List (ClaimEvent params)
  | .claim context_id =>
    if plic.lastID context_id = 0 ∧ plic.pendingAt (plic.output.maxID context_id).toNat then
      [.claimed context_id (plic.output.maxID context_id)]
    else []
  | _ => []

def readBankLog (plic : Plic params) : List (PlicAccess params) → List (ClaimEvent params)
  | [] => []
  | access :: accesses => plic.registerLog access.register ++
    match plic.readAccess access with
    | .ok (plic, _) => plic.readBankLog accesses
    | .error _ => []

def writeBankLog (plic : Plic params) : List (PlicAccess params) → List Word → List (ClaimEvent params)
  | [], _ => []
  | _ :: _, [] => []
  | access :: accesses, data :: rest => (if access.part.isSome then plic.registerLog access.register else []) ++
    match plic.writeAccess access data with
    | .ok plic => plic.writeBankLog accesses rest
    | .error _ => []

def readLog (plic : Plic params) (pkt : PlicPacket params) : List (ClaimEvent params) :=
  plic.readBankLog pkt.accesses ++
    match plic.readBank pkt.accesses, pkt.atomicOp with
    | .ok (plic, data), some atomicOp => plic.writeBankLog pkt.accesses (atomicOp data)
    | _, _ => []

def log (plic : Plic params) : PlicEvent params → List (ClaimEvent params)
  | .post src_id => [.posted src_id.toNat]
  | .read pkt => plic.readLog pkt
  | .write pkt => plic.writeBankLog pkt.accesses pkt.data
  | _ => []

end Log

structure Moment (params : PlicParams) where
  before : Plic params
  call : PlicCall params
  after : Plic params

def Moment.log (moment : Moment params) : List (ClaimEvent params) := Plic.log { moment.before with curTick := moment.call.now } moment.call.event

def moments (plic : Plic params) : List (PlicCall params) → List (Moment params)
  | [] => []
  | call :: calls =>
    match step plic call with
    | .ok (next, _) => ⟨plic, call, next⟩ :: moments next calls
    | .error _ => []

def timely (plic : Plic params) (call : PlicCall params) : Prop :=
  plic.curTick ≤ call.now ∧
    match call.event with
    | .update => plic.update.isSome = true
    | _ => True

instance (plic : Plic params) (call : PlicCall params) : Decidable (plic.timely call) := by
  unfold timely
  cases call.event <;> infer_instance

def stateAfter (past : List (Moment params)) : Plic params := (past.getLast?.map Moment.after).getD {}

/-- An output is that of an earlier moment, and every change since then waits for its tick. -/
def Since (past : List (Moment params)) (output : PlicOutput params) (queue : List (Tick × PlicOutput params)) : Prop :=
  ∃ earlier later, past = earlier ++ later ∧ Tracked (stateAfter earlier) ∧ output = outputs (stateAfter earlier).effPriority ∧
    ∀ moment ∈ later, moment.after.effPriority ≠ moment.before.effPriority → ∃ waits, (moment.call.now + 3 * params.period, waits) ∈ queue

def Exclusive (log : List (ClaimEvent params)) : Prop :=
  ∀ first middle last context_id other id, log = first ++ .claimed context_id id :: middle ++ .claimed other id :: last →
    .posted id.toNat ∈ middle

section Arbitration

theorem Tracked.effective {plic : Plic params} (tracked : Tracked plic) (i : Fin params.nContext) (src_id : Fin params.nSrc) :
    plic.effPriority i src_id = if plic.isPending src_id ∧ plic.isEnabled i src_id then plic.priority src_id else 0 := by
  rw [tracked.context, tracked.source]
  by_cases enabled : plic.isEnabled i src_id
  · simp [enabled]
  · simp [enabled]

theorem outputs_best {plic : Plic params} (tracked : Tracked plic) (i : Fin params.nContext) : Best plic i ((outputs plic.effPriority).maxID i) := by
  cases largest : maxElement fun src_id => (plic.effPriority i src_id).toNat with
  | none =>
    refine .inr ⟨by simp [outputs, largest], fun src_id => ?_⟩
    obtain ⟨_, present⟩ := maxElement_isSome (fun src_id => (plic.effPriority i src_id).toNat) src_id
    cases largest.symm.trans present
  | some max_id =>
    have name : (outputs plic.effPriority).maxID i = BitVec.ofNat 32 max_id := by simp [outputs, largest]
    have most : ∀ other, plic.effPriority i other ≤ plic.effPriority i max_id := fun other => maxElement_le largest other
    have wanted : ∀ other, plic.isPending other → plic.isEnabled i other → plic.priority other ≤ plic.effPriority i max_id := by
      intro other pending enabled
      have under := most other
      rwa [tracked.effective, if_pos ⟨pending, enabled⟩] at under
    by_cases none : plic.effPriority i max_id = 0
    · refine .inr ⟨?_, fun src_id pending enabled => ?_⟩
      · have first := maxElement_flat largest fun other => by simp [none]
        rw [name, first]
        rfl
      · have under := wanted src_id pending enabled
        rw [none] at under
        exact BitVec.le_zero_iff.mp under
    · have effective := tracked.effective i max_id
      split at effective
      next both =>
        rw [effective] at none wanted
        exact .inl ⟨max_id, name, both.1, both.2, none, wanted⟩
      next => exact absurd effective none

end Arbitration

section Posts

/-- No source is claimed twice unless posted anew. -/
structure Sound (log : List (ClaimEvent params)) (plic : Plic params) : Prop where
  exclusive : Exclusive log
  spent : ∀ first rest context_id id, log = first ++ .claimed context_id id :: rest → .posted id.toNat ∉ rest → plic.pendingAt id.toNat = false

variable {plic final : Plic params} {entries : List (ClaimEvent params)}

theorem snoc_eq_split {α : Type} {log first rest : List α} {last found : α} (same : log ++ [last] = first ++ found :: rest) :
    (rest = [] ∧ found = last ∧ log = first) ∨ ∃ earlier, rest = earlier ++ [last] ∧ log = first ++ found :: earlier := by
  obtain rfl | ⟨earlier, end_, rfl⟩ := rest.eq_nil_or_concat'
  · obtain ⟨whole, same⟩ := append_inj' same rfl
    cases same
    exact .inl ⟨rfl, rfl, whole⟩
  · have parts : log ++ [last] = (first ++ found :: earlier) ++ [end_] := by simpa using same
    obtain ⟨whole, same⟩ := append_inj' parts rfl
    cases same
    exact .inr ⟨earlier, rfl, whole⟩

theorem Sound.quiet {log : List (ClaimEvent params)} (sound : Sound log plic) (drops : ∀ id, final.pendingAt id → plic.pendingAt id) :
    Sound log final := by
  refine ⟨sound.exclusive, fun first rest context_id id shape unposted => ?_⟩
  have spent := sound.spent first rest context_id id shape unposted
  exact Bool.eq_false_iff.mpr fun pending => Bool.eq_false_iff.mp spent (drops _ pending)

theorem Sound.snoc {log : List (ClaimEvent params)} (sound : Sound log plic) {event : ClaimEvent params}
    (drops : ∀ id, event ≠ .posted id → final.pendingAt id → plic.pendingAt id)
    (claims : ∀ context_id id, event = .claimed context_id id → plic.pendingAt id.toNat = true ∧ final.pendingAt id.toNat = false) :
    Sound (log ++ [event]) final := by
  constructor
  · intro first middle last context_id other id shape
    obtain ⟨_, same, whole⟩ | ⟨earlier, _, whole⟩ := snoc_eq_split shape
    · by_contra unposted
      have spent := sound.spent first middle context_id id whole unposted
      rw [(claims other id same.symm).1] at spent
      cases spent
    · exact sound.exclusive first middle earlier context_id other id whole
  · intro first rest context_id id shape unposted
    obtain ⟨_, same, _⟩ | ⟨earlier, rfl, whole⟩ := snoc_eq_split shape
    · exact (claims context_id id same.symm).2
    · rw [mem_append, not_or] at unposted
      have spent := sound.spent first earlier context_id id whole unposted.1
      have other : event ≠ .posted id.toNat := fun same => unposted.2 (mem_singleton.mpr same.symm)
      exact Bool.eq_false_iff.mpr fun pending => Bool.eq_false_iff.mp spent (drops _ other pending)

variable {src_id : Fin params.nSrc}

theorem pendingAt_update {word : Word} {value : Bool} (pending : final.pending =
      Function.update plic.pending (srcIndex src_id) word) (changed : ∀ bit < 32, word.getLsbD bit =
      if srcOffset src_id = bit then value else (plic.pending (srcIndex src_id)).getLsbD bit) (id : Nat) :
    final.pendingAt id = if id = src_id then value else plic.pendingAt id := by
  unfold pendingAt
  rw [pending]
  by_cases inside : id / 32 < params.nSrc32
  · rw [dif_pos inside, dif_pos inside]
    by_cases index : (⟨id / 32, inside⟩ : Fin params.nSrc32) = srcIndex src_id
    · rw [index, Function.update_self, changed _ (Nat.mod_lt _ (by decide))]
      have quotient : id / 32 = src_id / 32 := Fin.val_eq_of_eq index
      refine if_congr ?_ rfl rfl
      unfold srcOffset
      constructor
      · intro same
        omega
      · rintro rfl
        rfl
    · have other : id ≠ src_id := by
        rintro rfl
        exact index rfl
      rw [Function.update_of_ne index, if_neg other]
  · have other : id ≠ src_id := by
      rintro rfl
      exact inside (srcIndex src_id).isLt
    rw [dif_neg inside, dif_neg inside, if_neg other]

theorem pendingAt_post (pending : final.pending =
      Function.update plic.pending (srcIndex src_id) (plic.pending (srcIndex src_id) ||| 1#32 <<< srcOffset src_id)) (id : Nat) :
    final.pendingAt id = if id = src_id then true else plic.pendingAt id := by
  refine pendingAt_update pending (fun bit inside => ?_) id
  rw [getLsbD_setBit _ _ inside]
  by_cases same : srcOffset src_id = bit
  · simp [same]
  · simp [same]

theorem pendingAt_clear (pending : final.pending =
      Function.update plic.pending (srcIndex src_id) (plic.pending (srcIndex src_id) &&& ~~~(1#32 <<< srcOffset src_id))) (id : Nat) :
    final.pendingAt id = if id = src_id then false else plic.pendingAt id := by
  refine pendingAt_update pending (fun bit inside => ?_) id
  rw [getLsbD_clearBit _ _ inside]
  by_cases same : srcOffset src_id = bit
  · simp [same]
  · simp [same]

end Posts

section Operations

/-- What the operations of one call make of the state: at most a new output, for the tick three cycles later. -/
structure Moved (entries : List (ClaimEvent params)) (before after : Plic params) : Prop where
  tracked : Tracked before → Tracked after
  sound : ∀ log, Sound log before → Sound (log ++ entries) after
  output : after.output = before.output
  curTick : after.curTick = before.curTick
  queue : after.outputQueue = before.outputQueue ∨
    ∃ output, after.outputQueue = assign (before.curTick + 3 * params.period) output before.outputQueue

def Arbitrated (before after : Plic params) : Prop :=
  (after.effPriority = before.effPriority ∧ after.outputQueue = before.outputQueue) ∨
    after.outputQueue = assign (before.curTick + 3 * params.period) (outputs after.effPriority) before.outputQueue

variable {plic middle final : Plic params} {entries others : List (ClaimEvent params)}

theorem Moved.refl (plic : Plic params) : Moved [] plic plic where
  tracked := id
  sound log sound := by rwa [append_nil]
  output := rfl
  curTick := rfl
  queue := .inl rfl

theorem Moved.trans (first : Moved entries plic middle) (second : Moved others middle final) : Moved (entries ++ others) plic final where
  tracked := second.tracked ∘ first.tracked
  sound log sound := by
    rw [← append_assoc]
    exact second.sound _ (first.sound log sound)
  output := second.output.trans first.output
  curTick := second.curTick.trans first.curTick
  queue := by
    obtain same | ⟨output, new⟩ := second.queue
    · rw [same]
      exact first.queue
    · rw [new, first.curTick]
      obtain same | ⟨older, replaced⟩ := first.queue
      · rw [same]
        exact .inr ⟨output, rfl⟩
      · rw [replaced, assign_assign]
        exact .inr ⟨output, rfl⟩

theorem Arbitrated.refl (plic : Plic params) : Arbitrated plic plic := .inl ⟨rfl, rfl⟩

theorem Arbitrated.trans (moved : Moved entries plic middle) (first : Arbitrated plic middle) (second : Arbitrated middle final) : Arbitrated plic final := by
  obtain ⟨priorities, same⟩ | new := second
  · unfold Arbitrated
    rw [priorities, same]
    exact first
  · rw [moved.curTick] at new
    obtain same | ⟨older, replaced⟩ := moved.queue
    · rw [same] at new
      exact .inr new
    · rw [replaced, assign_assign] at new
      exact .inr new

theorem propagateOutput_shape (ran : plic.propagateOutput = .ok final) : ∃ update, final = { plic with
    outputQueue := assign (plic.curTick + 3 * params.period) (outputs plic.effPriority) plic.outputQueue
    update } := by
  obtain ⟨_, computed, ran⟩ := of_bind ran
  obtain ⟨update, _, ran⟩ := of_bind ran
  cases ran
  unfold newOutput at computed
  split at computed
  · cases computed
  · cases computed
    exact ⟨update, rfl⟩

theorem propagateOutput_moved (ran : plic.propagateOutput = .ok final) : Moved [] plic final ∧
    (∀ {start : Plic params} {entries}, Moved entries start plic → Arbitrated start final) := by
  obtain ⟨_, rfl⟩ := propagateOutput_shape ran
  refine ⟨⟨fun tracked => ⟨tracked.source, tracked.context⟩, fun _ sound => ?_, rfl, rfl, .inr ⟨_, rfl⟩⟩, ?_⟩
  · rw [append_nil]
    exact sound.quiet fun _ => id
  · intro start entries moved
    right
    rw [moved.curTick]
    obtain same | ⟨older, replaced⟩ := moved.queue
    · rw [same]
    · rw [replaced, assign_assign]

theorem postSource_moved {src_id : Fin params.nSrc} (ran : plic.postSource src_id = .ok final) :
    Moved [.posted src_id] plic final ∧ Arbitrated plic final := by
  obtain ⟨moved, arbitrated⟩ := propagateOutput_moved ran
  have set : Moved [.posted src_id] plic _ := ⟨fun tracked => tracked_post tracked src_id, fun _ sound => ?_, rfl, rfl, .inl rfl⟩
  · exact ⟨set.trans moved, arbitrated set⟩
  · refine sound.snoc (fun id other pending => ?_) nofun
    have different : id ≠ src_id := fun same => other (same ▸ rfl)
    rwa [pendingAt_post rfl id, if_neg different] at pending

theorem clearSource_moved {src_id : Fin params.nSrc} (ran : plic.clearSource src_id = .ok final) (entries : List (ClaimEvent params))
    (sound : ∀ {log} {cleared : Plic params}, (∀ id, cleared.pendingAt id = if id = src_id then false else plic.pendingAt id) →
      Sound log plic → Sound (log ++ entries) cleared) :
    Moved entries plic final ∧ Arbitrated plic final ∧ final.pendingAt src_id = false := by
  obtain ⟨moved, arbitrated⟩ := propagateOutput_moved ran
  have cleared : Moved entries plic _ := ⟨fun tracked => tracked_clear tracked src_id, fun log before => sound (pendingAt_clear rfl) before, rfl, rfl, .inl rfl⟩
  refine ⟨?_, arbitrated cleared, ?_⟩
  · have whole := cleared.trans moved
    rwa [append_nil] at whole
  · obtain ⟨_, rfl⟩ := propagateOutput_shape ran
    rw [pendingAt_clear rfl, if_pos rfl]

variable {src_id : Int} {data : Word}

theorem clear_eq_ok (ran : plic.clear src_id = .ok final) :
    ∃ source : Fin params.nSrc, src_id = (source.val : Int) ∧ plic.clearSource source = .ok final := by
  unfold clear at ran
  split at ran
  next below =>
    split at ran
    next above => exact ⟨_, (Int.toNat_of_nonneg above).symm, ran⟩
    next => cases ran
  next => cases ran

theorem readClaim_spec {context_id : Fin params.nContext} (ran : plic.readClaim context_id = .ok (final, data)) :
    Moved (plic.registerLog (.claim context_id)) plic final ∧ Arbitrated plic final ∧
    (plic.lastID context_id = 0 →
      (data = if plic.pendingAt (plic.output.maxID context_id).toNat then plic.output.maxID context_id else 0) ∧
      final.pendingAt (plic.output.maxID context_id).toNat = false) := by
  unfold readClaim at ran
  unfold registerLog
  dsimp only
  by_cases free : plic.lastID context_id = 0
  · rw [if_pos free] at ran
    dsimp only at ran
    split at ran
    next inside =>
      have bit : plic.pendingAt (plic.output.maxID context_id).toNat =
          (plic.pending ⟨(plic.output.maxID context_id).toNat / 32, inside⟩).getLsbD ((plic.output.maxID context_id).toNat % 32) :=
        dif_pos inside
      rw [← bit] at ran
      cases pending : plic.pendingAt (plic.output.maxID context_id).toNat with
      | false =>
        rw [pending] at ran
        cases ran
        rw [if_neg (by simp)]
        exact ⟨.refl _, .refl _, fun _ => ⟨rfl, pending⟩⟩
      | true =>
        rw [pending] at ran
        obtain ⟨_, done, ran⟩ := of_bind ran
        cases ran
        rw [if_pos ⟨free, rfl⟩]
        obtain ⟨source, _, done⟩ := clear_eq_ok done
        have number : (plic.output.maxID context_id).toNat = source.val := by
          have signed := BitVec.toInt_eq_toNat_cond (plic.output.maxID context_id)
          split at signed
          · omega
          · omega
        obtain ⟨moved, arbitrated, gone⟩ := clearSource_moved done [.claimed context_id (plic.output.maxID context_id)] fun after before => by
          refine before.quiet (fun _ => id) |>.snoc (fun id _ pending => ?_) fun _ id same => ?_
          · rw [after] at pending
            split at pending
            · cases pending
            · exact pending
          · cases same
            exact ⟨pending, by rw [after, if_pos number]⟩
        refine ⟨⟨fun tracked => ?_, fun log sound => ?_, moved.output, moved.curTick, moved.queue⟩, arbitrated, fun _ => ⟨rfl, ?_⟩⟩
        · have kept := moved.tracked ⟨tracked.source, tracked.context⟩
          exact ⟨kept.source, kept.context⟩
        · have kept := moved.sound log (sound.quiet fun _ => id)
          exact kept.quiet fun _ => id
        · rw [number]
          exact gone
    next => cases ran
  · rw [if_neg free] at ran
    cases ran
    rw [if_neg fun both => free both.1]
    exact ⟨.refl _, .refl _, fun zero => absurd zero free⟩

variable {register : PlicRegister params}

theorem readRegister_moved (ran : plic.readRegister register = .ok (final, data)) :
    Moved (plic.registerLog register) plic final ∧ Arbitrated plic final := by
  cases register with
  | claim =>
    obtain ⟨moved, arbitrated, _⟩ := readClaim_spec ran
    exact ⟨moved, arbitrated⟩
  | priority | pending | enable | threshold | raz => cases ran; exact ⟨.refl _, .refl _⟩

theorem Moved.aside (tracked : Tracked plic → Tracked final) (pending : final.pending = plic.pending) (output : final.output = plic.output)
    (curTick : final.curTick = plic.curTick) (queue : final.outputQueue = plic.outputQueue) : Moved [] plic final := by
  refine ⟨tracked, fun _ sound => ?_, output, curTick, .inl queue⟩
  rw [append_nil]
  refine sound.quiet fun _ => ?_
  unfold pendingAt
  rw [pending]
  exact id

theorem updateInt_moved (plic : Plic params) : Moved [] plic plic.updateInt :=
  .aside (fun tracked => ⟨tracked.source, tracked.context⟩) rfl rfl rfl rfl

theorem writeRegister_moved (ran : plic.writeRegister data register = .ok final) : Moved [] plic final := by
  cases register with
  | priority src_id =>
    cases ran
    exact .aside (fun tracked => writePriority_tracked tracked data src_id) rfl rfl rfl rfl
  | pending | raz =>
    cases ran
    exact .refl _
  | enable context_id src32_id =>
    cases ran
    exact .aside (fun tracked => writeEnable_tracked tracked data src32_id context_id) rfl rfl rfl rfl
  | threshold =>
    cases ran
    exact .aside (fun tracked => ⟨tracked.source, tracked.context⟩) rfl rfl rfl rfl
  | claim =>
    obtain ⟨_, ran⟩ := of_require ran
    cases ran
    exact .aside (fun tracked => ⟨tracked.source, tracked.context⟩) rfl rfl rfl rfl

theorem readAccess_moved {access : PlicAccess params} (ran : plic.readAccess access = .ok (final, data)) :
    Moved (plic.registerLog access.register) plic final ∧ Arbitrated plic final := by
  obtain ⟨⟨_, _⟩, reached, ran⟩ := of_bind ran
  have kept := readRegister_moved reached
  dsimp only at ran
  split at ran
  · cases ran
    exact kept
  · cases ran
    exact kept

theorem writeAccess_moved {access : PlicAccess params} (ran : plic.writeAccess access data = .ok final) :
    Moved (if access.part.isSome then plic.registerLog access.register else []) plic final := by
  unfold writeAccess at ran
  split at ran
  next whole =>
    rw [whole]
    exact writeRegister_moved ran
  next first last part =>
    rw [part]
    obtain ⟨⟨_, _⟩, reached, ran⟩ := of_bind ran
    have moved := (readRegister_moved reached).1.trans (writeRegister_moved ran)
    rwa [append_nil] at moved

variable {accesses : List (PlicAccess params)}

theorem readBank_moved {data : List Word} (ran : plic.readBank accesses = .ok (final, data)) :
    Moved (plic.readBankLog accesses) plic final ∧ Arbitrated plic final := by
  induction accesses generalizing plic data with
  | nil =>
    cases ran
    exact ⟨.refl _, .refl _⟩
  | cons _ _ ih =>
    obtain ⟨⟨_, _⟩, reached, ran⟩ := of_bind ran
    obtain ⟨⟨_, _⟩, done, ran⟩ := of_bind ran
    cases ran
    obtain ⟨moved, arbitrated⟩ := readAccess_moved reached
    obtain ⟨moved', arbitrated'⟩ := ih done
    unfold readBankLog
    rw [reached]
    exact ⟨moved.trans moved', arbitrated.trans moved arbitrated'⟩

theorem writeBank_moved {data : List Word} (ran : plic.writeBank accesses data = .ok final) :
    Moved (plic.writeBankLog accesses data) plic final := by
  induction accesses generalizing plic data with
  | nil =>
    cases ran
    exact .refl _
  | cons _ _ ih =>
    cases data with
    | nil => cases ran
    | cons =>
      obtain ⟨_, reached, ran⟩ := of_bind ran
      unfold writeBankLog
      rw [reached]
      exact (writeAccess_moved reached).trans (ih ran)

theorem write_moved {pkt : PlicPacket params} (ran : plic.write pkt = .ok final) :
    Moved (plic.writeBankLog pkt.accesses pkt.data) plic final ∧
      ∀ {start : Plic params} {entries}, Moved entries start plic → Arbitrated start final := by
  obtain ⟨_, reached, ran⟩ := of_bind ran
  obtain ⟨propagated, done, ran⟩ := of_bind ran
  cases ran
  obtain ⟨moved, arbitrated⟩ := propagateOutput_moved done
  have whole := ((writeBank_moved reached).trans moved).trans (updateInt_moved propagated)
  rw [append_nil, append_nil] at whole
  exact ⟨whole, fun before => arbitrated (before.trans (writeBank_moved reached))⟩

theorem read_moved {pkt : PlicPacket params} (ran : plic.read pkt = .ok final) :
    Moved (plic.readLog pkt) plic final ∧ Arbitrated plic final := by
  obtain ⟨⟨_, _⟩, reached, ran⟩ := of_bind ran
  have kept := readBank_moved reached
  unfold readLog
  rw [reached]
  dsimp only at ran ⊢
  split at ran
  next none =>
    cases ran
    rw [none, append_nil]
    exact kept
  next atomicOp some =>
    rw [some]
    obtain ⟨moved, arbitrated⟩ := write_moved ran
    exact ⟨kept.1.trans moved, arbitrated kept.1⟩

theorem post_moved (ran : plic.post src_id = .ok final) : Moved [.posted src_id.toNat] plic final ∧ Arbitrated plic final := by
  unfold post at ran
  split at ran
  next inside => exact postSource_moved ran
  next => cases ran

theorem clear_moved (ran : plic.clear src_id = .ok final) : Moved [] plic final ∧ Arbitrated plic final := by
  obtain ⟨_, _, done⟩ := clear_eq_ok ran
  obtain ⟨moved, arbitrated, _⟩ := clearSource_moved done [] fun after before => by
    rw [append_nil]
    refine before.quiet fun _ pending => ?_
    rw [after] at pending
    split at pending
    · cases pending
    · exact pending
  exact ⟨moved, arbitrated⟩

theorem updateOutput_shape (ran : plic.updateOutput = .ok final) : ∃ tick queue, plic.outputQueue = (tick, final.output) :: queue ∧
    final.outputQueue = queue ∧ final.effPriority = plic.effPriority ∧ final.pending = plic.pending ∧ final.curTick = plic.curTick ∧
      (Tracked plic → Tracked final) := by
  unfold updateOutput at ran
  split at ran
  · cases ran
  next tick output queue shape =>
    obtain ⟨_, _, ran⟩ := of_bind ran
    cases ran
    exact ⟨tick, queue, shape, rfl, rfl, rfl, rfl, fun tracked => ⟨tracked.source, tracked.context⟩⟩

theorem handle_moved {event : PlicEvent params} (ran : plic.handle event = .ok final) :
    (event = .update ∧ plic.updateOutput = .ok final) ∨ Moved (plic.log event) plic final ∧ Arbitrated plic final := by
  cases event with
  | post => exact .inr (post_moved ran)
  | clear => exact .inr (clear_moved ran)
  | read => exact .inr (read_moved ran)
  | write =>
    obtain ⟨moved, arbitrated⟩ := write_moved ran
    exact .inr ⟨moved, arbitrated (.refl _)⟩
  | update => exact .inl ⟨rfl, ran⟩

end Operations

section Runs

variable {past : List (Moment params)} {moment : Moment params} {output : PlicOutput params} {queue rest : List (Tick × PlicOutput params)}

theorem Since.same (since : Since past output queue) (unchanged : moment.after.effPriority = moment.before.effPriority) :
    Since (past ++ [moment]) output queue := by
  obtain ⟨earlier, later, whole, tracked, shown, waits⟩ := since
  refine ⟨earlier, later ++ [moment], by rw [whole, append_assoc], tracked, shown, fun other member changed => ?_⟩
  obtain old | new := mem_concat.mp member
  · exact waits other old changed
  · rw [new] at changed
    exact absurd unchanged changed

theorem Since.later (since : Since past output queue) (kept : ∀ tick waits, (tick, waits) ∈ queue → ∃ waits, (tick, waits) ∈ rest)
    (new : ∃ waits, (moment.call.now + 3 * params.period, waits) ∈ rest) : Since (past ++ [moment]) output rest := by
  obtain ⟨earlier, later, whole, tracked, shown, waits⟩ := since
  refine ⟨earlier, later ++ [moment], by rw [whole, append_assoc], tracked, shown, fun other member changed => ?_⟩
  obtain old | last := mem_concat.mp member
  · obtain ⟨output, member⟩ := waits other old changed
    exact kept _ _ member
  · rw [last]
    exact new

theorem since_now (tracked : Tracked moment.after) : Since (past ++ [moment]) (outputs moment.after.effPriority) queue := by
  have last : stateAfter (past ++ [moment]) = moment.after := by
    rw [stateAfter, getLast?_concat]
    rfl
  exact ⟨past ++ [moment], [], (append_nil _).symm, last ▸ tracked, by rw [last], nofun⟩

/-- What a run keeps: each output, in force or waiting, is that of an earlier moment, and what has changed since waits behind it. -/
structure Claimable (past : List (Moment params)) (plic : Plic params) : Prop where
  tracked : Tracked plic
  sound : Sound (past.flatMap Moment.log) plic
  inOrder : InKeyOrder plic.outputQueue
  bounded : ∀ entry ∈ plic.outputQueue, entry.1 ≤ plic.curTick + 3 * params.period
  newest : plic.newest = outputs plic.effPriority
  inForce : Since past plic.output plic.outputQueue
  waiting : ∀ front tick output rest, plic.outputQueue = front ++ (tick, output) :: rest → Since past output rest

theorem outputs_init : outputs (fun _ _ => 0 : Fin params.nContext → Fin params.nSrc → Word) = ⟨fun _ => 0, fun _ => 0⟩ := by
  unfold outputs
  dsimp only
  cases largest : maxElement fun _ : Fin params.nSrc => (0 : Word).toNat with
  | none => rfl
  | some =>
    have first := maxElement_flat largest fun _ => le_rfl
    simp [first]

theorem claimable_init : Claimable [] ({} : Plic params) where
  tracked := cached_init.tracked
  sound := ⟨fun first _ _ _ _ _ shape => by simp at shape, fun first _ _ _ shape => by simp at shape⟩
  inOrder := .nil
  bounded := nofun
  newest := outputs_init.symm
  inForce := ⟨[], [], rfl, cached_init.tracked, outputs_init.symm, nofun⟩
  waiting front _ _ _ shape := by simp at shape

variable {plic next : Plic params} {call : PlicCall params} {labels : List Unit}

section

variable (claimable : Claimable past plic)
include claimable

theorem Claimable.update (later : plic.curTick ≤ call.now) (event : call.event = .update)
    (ran : updateOutput { plic with curTick := call.now } = .ok next) : Claimable (past ++ [⟨plic, call, next⟩]) next := by
  obtain ⟨tick, queue, shape, rest, priorities, pending, curTick, tracked⟩ := updateOutput_shape ran
  have inOrder := claimable.inOrder
  have newest := claimable.newest
  have same : next.effPriority = plic.effPriority := priorities
  refine ⟨tracked ⟨claimable.tracked.source, claimable.tracked.context⟩, ?_, ?_, ?_, ?_, ?_, ?_⟩
  · have silent : (⟨plic, call, next⟩ : Moment params).log = [] := by
      unfold Moment.log
      rw [event]
      rfl
    rw [flatMap_append, flatMap_singleton, silent, append_nil]
    refine claimable.sound.quiet fun source => ?_
    unfold pendingAt
    rw [pending]
    exact id
  · rw [shape] at inOrder
    rw [rest]
    exact (pairwise_cons.mp inOrder).2
  · rw [rest, curTick]
    intro entry member
    have bound := claimable.bounded entry (shape ▸ mem_cons_of_mem _ member)
    exact bound.trans (Nat.add_le_add_right later _)
  · unfold Plic.newest at newest ⊢
    rw [shape, getLast?_cons] at newest
    rw [rest, same, ← newest]
    cases queue.getLast? with
    | none => rfl
    | some => rfl
  · rw [rest]
    exact (claimable.waiting [] tick next.output queue shape).same same
  · intro front tick' output' rest' split
    rw [rest] at split
    refine (claimable.waiting ((tick, next.output) :: front) tick' output' rest' ?_).same same
    rw [shape, split]
    rfl

theorem Claimable.step (permitted : plic.timely call) (ran : Plic.step plic call = .ok (next, labels)) :
    Claimable (past ++ [⟨plic, call, next⟩]) next := by
  obtain ⟨_, handled, ran⟩ := of_bind ran
  cases ran
  obtain ⟨event, ran⟩ | ⟨moved, arbitrated⟩ := handle_moved handled
  · exact claimable.update permitted.1 event ran
  · have tracked := moved.tracked ⟨claimable.tracked.source, claimable.tracked.context⟩
    have sound : Sound ((past ++ [(⟨plic, call, next⟩ : Moment params)]).flatMap Moment.log) next := by
      rw [flatMap_append, flatMap_singleton]
      exact moved.sound _ (claimable.sound.quiet fun _ => id)
    have bounded : ∀ entry ∈ plic.outputQueue, entry.1 ≤ call.now + 3 * params.period := fun entry member =>
      (claimable.bounded entry member).trans (Nat.add_le_add_right permitted.1 _)
    have curTick : next.curTick = call.now := moved.curTick
    have output : next.output = plic.output := moved.output
    obtain ⟨priorities, queue⟩ | queue := arbitrated
    · refine ⟨tracked, sound, ?_, ?_, ?_, ?_, ?_⟩
      · rw [queue]
        exact claimable.inOrder
      · rw [queue, curTick]
        exact bounded
      · have newest := claimable.newest
        unfold Plic.newest at newest ⊢
        rw [queue, output, priorities]
        exact newest
      · rw [queue, output]
        exact claimable.inForce.same priorities
      · intro front tick output' rest split
        rw [queue] at split
        exact (claimable.waiting front tick output' rest split).same priorities
    · obtain ⟨front, shape, old⟩ := @assign_last _ _ (outputs next.effPriority) _ claimable.inOrder bounded
      have shape : next.outputQueue = front ++ [(call.now + 3 * params.period, outputs next.effPriority)] := queue.trans shape
      have new : ∀ {others : List (Tick × PlicOutput params)}, ∃ waits,
          ((⟨plic, call, next⟩ : Moment params).call.now + 3 * params.period, waits) ∈
            others ++ [(call.now + 3 * params.period, outputs next.effPriority)] :=
        ⟨_, mem_append_cons_self⟩
      -- only an output for the same tick is replaced
      have kept : ∀ {others entries : List (Tick × PlicOutput params)}, (entries = others ∨ ∃ old, entries = others ++ [(call.now + 3 * params.period, old)]) →
          ∀ tick waits, (tick, waits) ∈ entries →
            ∃ waits, (tick, waits) ∈ others ++ [(call.now + 3 * params.period, outputs next.effPriority)] := by
        rintro others entries (rfl | ⟨old, rfl⟩) tick waits member
        · exact ⟨waits, mem_append_left _ member⟩
        · obtain here | last := mem_concat.mp member
          · exact ⟨waits, mem_append_left _ here⟩
          · cases last
            exact new
      refine ⟨tracked, sound, ?_, ?_, ?_, ?_, ?_⟩
      · rw [queue]
        exact claimable.inOrder.assign _ _
      · rw [queue, curTick]
        intro entry member
        obtain rfl | earlier := mem_assign member
        · exact le_rfl
        · exact bounded entry earlier
      · unfold Plic.newest
        rw [shape, getLast?_concat]
        rfl
      · rw [output, shape]
        exact claimable.inForce.later (kept old) new
      · intro front' tick output' rest split
        rw [shape] at split
        obtain ⟨rfl, same, rfl⟩ | ⟨earlier, rfl, rfl⟩ := snoc_eq_split split
        · cases same
          exact since_now tracked
        · obtain same | ⟨replaced, same⟩ := old
          · exact (claimable.waiting front' tick output' earlier same).later (kept (.inl rfl)) new
          · refine (claimable.waiting front' tick output' (earlier ++ [_]) ?_).later (kept (.inr ⟨replaced, rfl⟩)) new
            rw [same, append_assoc]
            rfl

theorem run_claimable {final : Plic params} {calls : List (PlicCall params)} (each : Each Plic.step timely plic calls)
    (ran : run Plic.step plic calls = .ok (final, labels)) : Claimable (past ++ moments plic calls) final := by
  induction calls generalizing past plic labels with
  | nil =>
    cases ran
    unfold moments
    rwa [append_nil]
  | cons _ _ ih =>
    obtain ⟨_, _, _, taken, ran, _⟩ := run_cons.mp ran
    have next := ih (claimable.step each.1 taken) (each.cons taken) ran
    unfold moments
    rw [taken]
    rwa [append_assoc] at next

end

/-- A claim returns what was best when the output in force was calculated, if that is still pending, and takes its pending bit.
Every change since then has an output that waits. No post is claimed twice. -/
theorem claims {final : Plic params} {calls : List (PlicCall params)} (each : Each Plic.step timely ({} : Plic params) calls)
    (ran : run Plic.step ({} : Plic params) calls = .ok (final, labels)) :
    (∀ now context_id after data, final.lastID context_id = 0 → { final with curTick := now }.readClaim context_id = .ok (after, data) →
      (data = if final.pendingAt (final.output.maxID context_id).toNat then final.output.maxID context_id else 0) ∧
      after.pendingAt (final.output.maxID context_id).toNat = false ∧
      (∃ earlier later, moments {} calls = earlier ++ later ∧ Best (stateAfter earlier) context_id (final.output.maxID context_id) ∧
        ∀ moment ∈ later, moment.after.effPriority ≠ moment.before.effPriority →
          ∃ waits, (moment.call.now + 3 * params.period, waits) ∈ final.outputQueue) ∧
      (final.outputQueue = [] → Best final context_id (final.output.maxID context_id))) ∧
    Exclusive ((moments {} calls).flatMap Moment.log) := by
  have claimable := run_claimable claimable_init each ran
  refine ⟨fun now context_id after data free read => ?_, claimable.sound.exclusive⟩
  obtain ⟨_, _, answer⟩ := readClaim_spec read
  obtain ⟨returned, taken⟩ := answer free
  refine ⟨returned, taken, ?_, fun empty => ?_⟩
  · obtain ⟨earlier, later, whole, tracked, shown, waits⟩ := claimable.inForce
    refine ⟨earlier, later, whole, ?_, waits⟩
    rw [shown]
    exact outputs_best tracked context_id
  · have newest := claimable.newest
    unfold Plic.newest at newest
    rw [empty] at newest
    have shown : final.output = outputs final.effPriority := newest
    rw [shown]
    exact outputs_best claimable.tracked context_id

instance (plic : Plic params) (i : Fin params.nContext) (id : Word) : Decidable (Best plic i id) := inferInstanceAs (Decidable (_ ∨ _))

theorem overtaken_runs : ∃ final labels, run Plic.step ({} : Plic _) overtaken = .ok (final, labels) ∧ final.lastID 1 = 0 ∧
    final.output.maxID 1 = 1 ∧ ¬Best final 1 1 ∧ ∃ after, final.readClaim 1 = .ok (after, 1) :=
  ⟨_, _, rfl, rfl, rfl, by decide, _, rfl⟩

/-- The source of the highest priority is not yet the one that is claimed. -/
theorem claim_overtaken : Each Plic.step timely ({} : Plic _) overtaken ∧ ∃ final labels, run Plic.step {} overtaken = .ok (final, labels) ∧
    final.lastID 1 = 0 ∧ ∃ after, final.readClaim 1 = .ok (after, 1) ∧ ¬Best final 1 1 := by
  obtain ⟨final, labels, ran, free, _, better, after, read⟩ := overtaken_runs
  exact ⟨by decide, final, labels, ran, free, after, read, better⟩

theorem claims_overtaken : ∃ final labels, run Plic.step {} overtaken = .ok (final, labels) ∧
    (∃ earlier later, moments {} overtaken = earlier ++ later ∧ Best (stateAfter earlier) 1 1 ∧
      ∀ moment ∈ later, moment.after.effPriority ≠ moment.before.effPriority →
        ∃ waits, (moment.call.now + 3 * 500, waits) ∈ final.outputQueue) ∧
    Exclusive ((moments {} overtaken).flatMap Moment.log) := by
  obtain ⟨final, labels, ran, free, shown, _, after, read⟩ := overtaken_runs
  obtain ⟨best, exclusive⟩ := claims (by decide) ran
  obtain ⟨_, _, arbitrated, _⟩ := best final.curTick 1 after 1 free read
  rw [shown] at arbitrated
  exact ⟨final, labels, ran, arbitrated, exclusive⟩

end Runs

end Plic

end ImcGem5.Dev

import ImcGem5.Dev.Plic
import ImcGem5.Lib.Bits

/-! The interrupt lines of the platform-level interrupt controller. The cached priorities
are right after every write of a register, and the newest output in the queue sums them up.
So the line of a context is right as soon as no output waits in the queue. -/

namespace ImcGem5.Dev
open Lib Mem Riscv Function List

namespace Plic
variable {params : PlicParams}

def Demanded (plic : Plic params) (i : Fin params.nContext) : Prop :=
  plic.lastID i = 0 ∧ ∃ src_id, plic.isPending src_id ∧ plic.isEnabled i src_id ∧ plic.threshold i < plic.priority src_id

/-- The cached priorities agree with the registers, and source 0 has no interrupt. -/
structure Cached (plic : Plic params) : Prop where
  source : ∀ src_id, plic.pendingPriority src_id = if plic.isPending src_id then plic.priority src_id else 0
  context : ∀ i src_id, plic.effPriority i src_id = if plic.isEnabled i src_id then plic.pendingPriority src_id else 0
  zero : ∀ src_id : Fin params.nSrc, src_id.val = 0 → plic.isPending src_id = false

structure Tracked (plic : Plic params) : Prop where
  source : ∀ src_id, plic.pendingPriority src_id = if plic.isPending src_id then plic.priority src_id else 0
  context : ∀ i src_id, plic.effPriority i src_id = if plic.isEnabled i src_id then plic.pendingPriority src_id else 0

theorem Cached.tracked {plic : Plic params} (cached : Cached plic) : Tracked plic := ⟨cached.source, cached.context⟩

/-- Outputs wait in the order of their ticks, none for longer than three cycles, and the
event is scheduled for the first. -/
structure Queued (plic : Plic params) : Prop where
  inOrder : InKeyOrder plic.outputQueue
  bounded : ∀ entry ∈ plic.outputQueue, entry.1 ≤ plic.curTick + 3 * params.period
  event : plic.update = plic.outputQueue.head?.map Prod.fst

/-- The output has the largest priority, and the ID of a source that has it unless that is 0. -/
def SumsUp (effPriority : Fin params.nContext → Fin params.nSrc → Word) (output : PlicOutput params) : Prop :=
  ∀ i, (∀ src_id, effPriority i src_id ≤ output.maxPriority i) ∧
    (output.maxPriority i = 0 ∨ output.maxID i ≠ 0 ∧ ∃ src_id, effPriority i src_id = output.maxPriority i)

def newest (plic : Plic params) : PlicOutput params := (plic.outputQueue.getLast?.map Prod.snd).getD plic.output

/-- The invariant: caches up to date, outputs in order. -/
structure Coherent (plic : Plic params) : Prop where
  cached : Cached plic
  queued : Queued plic

structure Settled (plic : Plic params) : Prop extends Coherent plic where
  sumsUp : SumsUp plic.effPriority plic.newest
  shown : plic.outputQueue = [] → ∀ i, plic.posted i = plic.raises i

section Lines

theorem intId_lt (i : Nat) : intId i < NumInterruptTypes := by
  unfold intId
  split <;> decide

theorem context_of_line {i k : Nat} (thread : i / 2 = k / 2) (number : intId i = intId k) : i = k := by
  have parity : i % 2 = k % 2 := by
    by_contra different
    obtain ⟨odd, even⟩ | ⟨even, odd⟩ : (i % 2 = 1 ∧ k % 2 = 0) ∨ (i % 2 = 0 ∧ k % 2 = 1) := by omega
    · simp [intId, odd, even, INT_EXT_SUPER, INT_EXT_MACHINE] at number
    · simp [intId, odd, even, INT_EXT_SUPER, INT_EXT_MACHINE] at number
  omega

section

variable (plic : Plic params)
include plic

theorem updateLine_same (ip : Nat → BitVec NumInterruptTypes) (i : Fin params.nContext) :
    (plic.updateLine ip i (i / 2)).getLsbD (intId i) = plic.raises i := by
  unfold updateLine postInterrupt clearInterrupt
  cases plic.raises i
  · simp [getLsbD_clearBit _ _ (intId_lt i)]
  · simp [getLsbD_setBit _ _ (intId_lt i)]

theorem updateLine_other (ip : Nat → BitVec NumInterruptTypes) {i k : Fin params.nContext}
    (other : k ≠ i) : (plic.updateLine ip i (k / 2)).getLsbD (intId k) = (ip (k / 2)).getLsbD (intId k) := by
  unfold updateLine postInterrupt clearInterrupt
  by_cases thread : (k : Nat) / 2 = i / 2
  · have number : intId k ≠ intId i := fun same => other (Fin.ext (context_of_line thread same))
    cases plic.raises i
    · simp [thread, getLsbD_clearBit _ _ (intId_lt k), Ne.symm number]
    · simp [thread, getLsbD_setBit _ _ (intId_lt k), Ne.symm number]
  · cases plic.raises i
    · simp [update_of_ne thread]
    · simp [update_of_ne thread]

theorem foldl_updateLine (items : List (Fin params.nContext)) (ip : Nat → BitVec NumInterruptTypes)
    (i : Fin params.nContext) : ((items.foldl plic.updateLine ip) (i / 2)).getLsbD (intId i) =
      if i ∈ items then plic.raises i else (ip (i / 2)).getLsbD (intId i) := by
  induction items generalizing ip with
  | nil => simp
  | cons item items ih =>
    rw [foldl_cons, ih]
    by_cases later : i ∈ items
    · simp [later]
    · by_cases same : i = item
      · subst same
        simp [later, updateLine_same]
      · simp [later, same, updateLine_other plic ip same]

theorem posted_updateInt (i : Fin params.nContext) : plic.updateInt.posted i = plic.raises i := by
  have line := foldl_updateLine plic (finRange params.nContext) plic.ip i
  rw [if_pos (mem_finRange i)] at line
  exact line

end

theorem raises_iff {plic : Plic params} (i : Fin params.nContext) : plic.raises i = true ↔
    plic.threshold i < plic.output.maxPriority i ∧ plic.output.maxID i ≠ 0 ∧ plic.lastID i = 0 := by
  simp [raises, GT.gt, BitVec.pos_iff_ne_zero, and_assoc]

end Lines

section Outputs

theorem outputs_sumUp {plic : Plic params} (cached : Cached plic) : SumsUp plic.effPriority (outputs plic.effPriority) := by
  intro i
  cases largest : maxElement fun src_id => (plic.effPriority i src_id).toNat with
  | none =>
    have noSource : params.nSrc = 0 := by
      by_contra some
      obtain ⟨_, present⟩ := maxElement_isSome (fun src_id => (plic.effPriority i src_id).toNat) ⟨0, Nat.pos_of_ne_zero some⟩
      cases largest.symm.trans present
    refine ⟨fun src_id => absurd src_id.isLt (by omega), .inl ?_⟩
    simp [outputs, largest]
  | some max_id =>
    have value : (outputs plic.effPriority).maxPriority i = plic.effPriority i max_id := by simp [outputs, largest]
    refine ⟨?_, ?_⟩
    · intro src_id
      rw [value]
      exact maxElement_le largest src_id
    · rw [value]
      by_cases isZero : plic.effPriority i max_id = 0
      · exact .inl isZero
      · refine .inr ⟨?_, max_id, rfl⟩
        -- Source 0 is not pending, so its priority would be 0.
        have positive : max_id.val ≠ 0 := by
          intro first
          apply isZero
          rw [cached.context, cached.source, cached.zero max_id first]
          simp
        have small := params.isInt
        intro same
        have name : (outputs plic.effPriority).maxID i = BitVec.ofNat 32 max_id := by simp [outputs, largest]
        have asNat := congrArg BitVec.toNat (name.symm.trans same)
        rw [BitVec.toNat_ofNat, Nat.mod_eq_of_lt (by omega)] at asNat
        exact positive asNat

theorem raises_iff_demanded {plic : Plic params} (cached : Cached plic) (sumsUp : SumsUp plic.effPriority plic.output)
    (i : Fin params.nContext) : plic.raises i = true ↔ plic.Demanded i := by
  obtain ⟨largest, attained⟩ := sumsUp i
  rw [raises_iff]
  constructor
  · rintro ⟨above, _, free⟩
    refine ⟨free, ?_⟩
    rcases attained with zero | ⟨_, src_id, same⟩
    · rw [zero] at above
      exact absurd above (by simp)
    · rw [← same, cached.context, cached.source] at above
      by_cases enabled : plic.isEnabled i src_id
      · by_cases pending : plic.isPending src_id
        · rw [if_pos enabled, if_pos pending] at above
          exact ⟨src_id, pending, enabled, above⟩
        · simp [pending] at above
      · simp [enabled] at above
  · rintro ⟨free, src_id, pending, enabled, above⟩
    have effective : plic.effPriority i src_id = plic.priority src_id := by
      rw [cached.context, cached.source, if_pos enabled, if_pos pending]
    have under := largest src_id
    rw [effective] at under
    have exceeds : plic.threshold i < plic.output.maxPriority i := Nat.lt_of_lt_of_le above under
    refine ⟨exceeds, ?_, free⟩
    rcases attained with zero | ⟨named, _⟩
    · rw [zero] at exceeds
      exact absurd exceeds (by simp)
    · exact named

end Outputs

section Steps

theorem cached_init : Cached ({} : Plic params) where
  source src_id := by simp
  context i src_id := by simp
  zero src_id _ := by simp [isPending]

theorem settled_init : Settled ({} : Plic params) where
  cached := cached_init
  queued := ⟨List.Pairwise.nil, nofun, rfl⟩
  sumsUp i := ⟨fun _ => Nat.le_refl _, .inl rfl⟩
  shown _ i := by simp [posted, raises]

variable {plic final : Plic params} {src_id : Fin params.nSrc} {context_id : Fin params.nContext} {data : Word}

section

variable (coherent : Coherent plic)
include coherent

theorem Coherent.withLastID (lastID : Fin params.nContext → Word) : Coherent { plic with lastID } where
  cached := ⟨coherent.cached.source, coherent.cached.context, coherent.cached.zero⟩
  queued := ⟨coherent.queued.inOrder, coherent.queued.bounded, coherent.queued.event⟩

theorem Coherent.withClaim (claim : Fin params.nContext → Word) : Coherent { plic with claim } where
  cached := ⟨coherent.cached.source, coherent.cached.context, coherent.cached.zero⟩
  queued := ⟨coherent.queued.inOrder, coherent.queued.bounded, coherent.queued.event⟩

theorem Coherent.withThreshold (threshold : Fin params.nContext → Word) : Coherent { plic with threshold } where
  cached := ⟨coherent.cached.source, coherent.cached.context, coherent.cached.zero⟩
  queued := ⟨coherent.queued.inOrder, coherent.queued.bounded, coherent.queued.event⟩

theorem Coherent.updateInt : Coherent plic.updateInt where
  cached := ⟨coherent.cached.source, coherent.cached.context, coherent.cached.zero⟩
  queued := ⟨coherent.queued.inOrder, coherent.queued.bounded, coherent.queued.event⟩

theorem propagateOutput_settled (ran : plic.propagateOutput = .ok final) : Settled final ∧ final.outputQueue ≠ [] := by
  obtain ⟨new_output, computed, ran⟩ := of_bind ran
  obtain ⟨_, scheduled, ran⟩ := of_bind ran
  cases ran
  have found : new_output = outputs plic.effPriority := by
    unfold newOutput at computed
    split at computed
    · cases computed
    · cases computed
      rfl
  have last : (assign (plic.curTick + 3 * params.period) new_output plic.outputQueue).getLast? = some (_, new_output) :=
    assign_getLast coherent.queued.inOrder coherent.queued.bounded
  have waits := assign_ne_nil (plic.curTick + 3 * params.period) new_output plic.outputQueue
  refine ⟨⟨⟨⟨coherent.cached.source, coherent.cached.context, coherent.cached.zero⟩, ?_, ?_, ?_⟩, ?_, ?_⟩, waits⟩
  · exact coherent.queued.inOrder.assign _ _
  · intro entry member
    rcases mem_assign member with new | old
    · rw [new]
    · exact coherent.queued.bounded entry old
  · have event := coherent.queued.event
    cases queue : plic.outputQueue with
    | nil =>
      rw [queue] at event
      rw [event] at scheduled
      simp only [head?_nil, Option.map_none, Option.isNone_none, if_true, schedule, require_bind_eq_ok] at scheduled
      cases scheduled.2.2
      rfl
    | cons first =>
      rw [queue] at event
      rw [event] at scheduled
      cases scheduled
      have below := coherent.queued.bounded first (by rw [queue]; exact mem_cons_self)
      exact (assign_head below).symm
  · have summed := outputs_sumUp coherent.cached
    unfold newest
    rw [last, found]
    exact summed
  · intro empty
    exact absurd empty waits

theorem updateInt_settled (sumsUp : SumsUp plic.effPriority plic.newest) : Settled plic.updateInt where
  toCoherent := coherent.updateInt
  sumsUp := sumsUp
  shown _ i := posted_updateInt plic i

end

theorem isPending_update {other : Fin params.nSrc} {word : Word} {value : Bool} (changed : ∀ bit < 32, word.getLsbD bit =
      if srcOffset src_id = bit then value else (plic.pending (srcIndex src_id)).getLsbD bit) :
    (Function.update plic.pending (srcIndex src_id) word (srcIndex other)).getLsbD (srcOffset other) =
      if other = src_id then value else plic.isPending other := by
  have inside : srcOffset other < 32 := Nat.mod_lt _ (by decide)
  by_cases index : srcIndex other = srcIndex src_id
  · rw [index, update_self, changed _ inside]
    by_cases same : other = src_id
    · simp [same]
    · have bits : srcOffset src_id ≠ srcOffset other := by
        intro bit
        apply same
        apply Fin.ext
        have quotient := Fin.val_eq_of_eq index
        simp only [srcIndex] at quotient
        simp only [srcOffset] at bit
        omega
      rw [if_neg bits, if_neg same, ← index]
      rfl
  · have different : other ≠ src_id := fun same => index (by rw [same])
    rw [update_of_ne index, if_neg different]
    rfl

theorem tracked_source (tracked : Tracked plic) (src_id : Fin params.nSrc) (value : Word)
    (pending : Bool) (enabled : ∀ i other, final.isEnabled i other = plic.isEnabled i other)
    (pendings : ∀ other, final.isPending other = if other = src_id then pending else plic.isPending other)
    (priorities : ∀ other, other ≠ src_id → final.priority other = plic.priority other)
    (source : final.pendingPriority = Function.update plic.pendingPriority src_id value)
    (context : ∀ i, final.effPriority i = Function.update (plic.effPriority i) src_id (if plic.isEnabled i src_id then value else 0))
    (right : value = if pending then final.priority src_id else 0) : Tracked final where
  source other := by
    rw [source, pendings]
    by_cases same : other = src_id
    · subst same
      rw [update_self, if_pos rfl, right]
    · rw [update_of_ne same, if_neg same, priorities other same]
      exact tracked.source other
  context i other := by
    rw [context, source, enabled]
    by_cases same : other = src_id
    · subst same
      rw [update_self, update_self]
    · rw [update_of_ne same, update_of_ne same]
      exact tracked.context i other

theorem zero_source (cached : Cached plic) (src_id : Fin params.nSrc) (pending : Bool)
    (pendings : ∀ other, final.isPending other = if other = src_id then pending else plic.isPending other)
    (zero : src_id.val = 0 → pending = false) (other : Fin params.nSrc) (first : other.val = 0) : final.isPending other = false := by
  rw [pendings]
  by_cases same : other = src_id
  · subst same
    rw [if_pos rfl, zero first]
  · rw [if_neg same]
    exact cached.zero other first

theorem isPending_post (plic : Plic params) (src_id other : Fin params.nSrc) :
    (Function.update plic.pending (srcIndex src_id) (plic.pending (srcIndex src_id) ||| 1#32 <<< srcOffset src_id)
      (srcIndex other)).getLsbD (srcOffset other) = if other = src_id then true else plic.isPending other := by
  apply isPending_update
  intro bit inside
  rw [getLsbD_setBit _ _ inside]
  by_cases same : srcOffset src_id = bit
  · simp [same]
  · simp [same]

theorem isPending_clear (plic : Plic params) (src_id other : Fin params.nSrc) :
    (Function.update plic.pending (srcIndex src_id) (plic.pending (srcIndex src_id) &&& ~~~(1#32 <<< srcOffset src_id))
      (srcIndex other)).getLsbD (srcOffset other) = if other = src_id then false else plic.isPending other := by
  apply isPending_update
  intro bit inside
  rw [getLsbD_clearBit _ _ inside]
  by_cases same : srcOffset src_id = bit
  · simp [same]
  · simp [same]

theorem tracked_post (tracked : Tracked plic) (src_id : Fin params.nSrc) : Tracked { plic with
    pending := Function.update plic.pending (srcIndex src_id) (plic.pending (srcIndex src_id) ||| 1#32 <<< srcOffset src_id)
    pendingPriority := Function.update plic.pendingPriority src_id (plic.priority src_id)
    effPriority := fun i => Function.update (plic.effPriority i) src_id (if plic.isEnabled i src_id then plic.priority src_id else 0) } :=
  tracked_source tracked src_id (plic.priority src_id) true (fun _ _ => rfl) (isPending_post plic src_id) (fun _ _ => rfl) rfl (fun _ => rfl) rfl

theorem tracked_clear (tracked : Tracked plic) (src_id : Fin params.nSrc) : Tracked { plic with
    pending := Function.update plic.pending (srcIndex src_id) (plic.pending (srcIndex src_id) &&& ~~~(1#32 <<< srcOffset src_id))
    pendingPriority := Function.update plic.pendingPriority src_id 0
    effPriority := fun i => Function.update (plic.effPriority i) src_id 0 } :=
  tracked_source tracked src_id 0 false (fun _ _ => rfl) (isPending_clear plic src_id) (fun _ _ => rfl) rfl
    (fun i => by rw [ite_self]) rfl

section

variable (coherent : Coherent plic)
include coherent

theorem postSource_settled (positive : src_id.val ≠ 0) (ran : plic.postSource src_id = .ok final) : Settled final := by
  have tracked := tracked_post coherent.cached.tracked src_id
  refine (propagateOutput_settled ⟨⟨tracked.source, tracked.context, ?_⟩, ?_⟩ ran).1
  · exact zero_source coherent.cached src_id true (isPending_post plic src_id) fun first => absurd first positive
  · exact ⟨coherent.queued.inOrder, coherent.queued.bounded, coherent.queued.event⟩

theorem clearSource_settled (ran : plic.clearSource src_id = .ok final) : Settled final := by
  have tracked := tracked_clear coherent.cached.tracked src_id
  refine (propagateOutput_settled ⟨⟨tracked.source, tracked.context, ?_⟩, ?_⟩ ran).1
  · exact zero_source coherent.cached src_id false (isPending_clear plic src_id) fun _ => rfl
  · exact ⟨coherent.queued.inOrder, coherent.queued.bounded, coherent.queued.event⟩

theorem post_settled {src_id : Int} (positive : 1 ≤ src_id) (ran : plic.post src_id = .ok final) : Settled final := by
  unfold post at ran
  split at ran
  next inside =>
    apply postSource_settled coherent ?_ ran
    change src_id.toNat ≠ 0
    omega
  next => cases ran

theorem clear_settled {src_id : Int} (ran : plic.clear src_id = .ok final) : Settled final := by
  unfold clear at ran
  split at ran
  next =>
    split at ran
    next => exact clearSource_settled coherent ran
    next => cases ran
  next => cases ran

end

theorem writePriority_tracked (tracked : Tracked plic) (data : Word) (src_id : Fin params.nSrc) :
    Tracked (plic.writePriority data src_id) := by
  apply tracked_source tracked src_id (if plic.isPending src_id then data else 0) (plic.isPending src_id)
  · exact fun _ _ => rfl
  · intro other
    by_cases same : other = src_id
    · rw [if_pos same, same]
      rfl
    · rw [if_neg same]
      rfl
  · intro other different
    exact update_of_ne different _ _
  · rfl
  · intro i
    rfl
  · simp [writePriority]

theorem writePriority_coherent (coherent : Coherent plic) (data : Word) (src_id : Fin params.nSrc) :
    Coherent (plic.writePriority data src_id) := by
  have tracked := writePriority_tracked coherent.cached.tracked data src_id
  exact ⟨⟨tracked.source, tracked.context, coherent.cached.zero⟩, coherent.queued.inOrder, coherent.queued.bounded, coherent.queued.event⟩

theorem writeEnable_tracked (tracked : Tracked plic) (data : Word) (src32_id : Fin params.nSrc32)
    (context_id : Fin params.nContext) : Tracked (plic.writeEnable data src32_id context_id) := by
  refine ⟨tracked.source, ?_⟩
  intro i src_id
  by_cases same : i = context_id
  · subst same
    by_cases index : srcIndex src_id = src32_id
    · simp [writeEnable, isEnabled, index]
    · have enabled : (plic.writeEnable data src32_id i).isEnabled i src_id = plic.isEnabled i src_id := by
        simp [writeEnable, isEnabled, index]
      rw [enabled]
      simpa [writeEnable, index] using tracked.context i src_id
  · have enabled : (plic.writeEnable data src32_id context_id).isEnabled i src_id = plic.isEnabled i src_id := by
      simp [writeEnable, isEnabled, same]
    rw [enabled]
    simpa [writeEnable, same] using tracked.context i src_id

theorem writeEnable_coherent (coherent : Coherent plic) (data : Word) (src32_id : Fin params.nSrc32)
    (context_id : Fin params.nContext) : Coherent (plic.writeEnable data src32_id context_id) := by
  have tracked := writeEnable_tracked coherent.cached.tracked data src32_id context_id
  exact ⟨⟨tracked.source, tracked.context, coherent.cached.zero⟩, coherent.queued.inOrder, coherent.queued.bounded, coherent.queued.event⟩

theorem readClaim_cases (ran : plic.readClaim context_id = .ok (final, data)) : final = plic ∨
      ∃ max_int_id cleared, clear { plic with lastID := Function.update plic.lastID context_id max_int_id }
        (BitVec.toInt max_int_id) = .ok cleared ∧
        final = { cleared with claim := Function.update cleared.claim context_id max_int_id } := by
  unfold readClaim at ran
  split at ran
  · dsimp only at ran
    split at ran
    · split at ran
      · obtain ⟨cleared, done, ran⟩ := of_bind ran
        cases ran
        exact .inr ⟨_, cleared, done, rfl⟩
      · cases ran
        exact .inl rfl
    · cases ran
  · cases ran
    exact .inl rfl

theorem readClaim_coherent (coherent : Coherent plic) (ran : plic.readClaim context_id = .ok (final, data)) : Coherent final := by
  rcases readClaim_cases ran with rfl | ⟨max_int_id, cleared, done, rfl⟩
  · exact coherent
  · have settled := clear_settled (coherent.withLastID _) done
    exact settled.toCoherent.withClaim _

theorem readClaim_settled (settled : Settled plic) (ran : plic.readClaim context_id = .ok (final, data)) : Settled final := by
  rcases readClaim_cases ran with rfl | ⟨max_int_id, cleared, done, rfl⟩
  · exact settled
  · have middle := clear_settled (settled.toCoherent.withLastID _) done
    exact ⟨middle.toCoherent.withClaim _, middle.sumsUp, middle.shown⟩

theorem writeClaim_coherent (coherent : Coherent plic) (ran : plic.writeClaim data context_id = .ok final) : Coherent final := by
  obtain ⟨_, ran⟩ := of_require ran
  cases ran
  apply Coherent.updateInt
  exact (coherent.withClaim (Function.update plic.claim context_id data)).withLastID (Function.update plic.lastID context_id 0)

variable {register : PlicRegister params}

theorem readRegister_keeps (holds : Plic params → Prop) (claims : ∀ before after context_id data, holds before →
      before.readClaim context_id = .ok (after, data) → holds after)
    (kept : holds plic) (ran : plic.readRegister register = .ok (final, data)) : holds final := by
  cases register with
  | claim => exact claims _ _ _ _ kept ran
  | priority | pending | enable | threshold | raz => cases ran; exact kept

theorem writeRegister_coherent (coherent : Coherent plic) (ran : plic.writeRegister data register = .ok final) : Coherent final := by
  cases register with
  | priority src_id =>
    cases ran
    exact writePriority_coherent coherent data src_id
  | pending | raz =>
    cases ran
    exact coherent
  | enable context_id src32_id =>
    cases ran
    exact writeEnable_coherent coherent data src32_id context_id
  | threshold =>
    cases ran
    exact coherent.withThreshold _
  | claim => exact writeClaim_coherent coherent ran

theorem readAccess_settled (settled : Settled plic) {access : PlicAccess params}
    (ran : plic.readAccess access = .ok (final, data)) : Settled final := by
  obtain ⟨⟨_, _⟩, reached, ran⟩ := of_bind ran
  have kept := readRegister_keeps Settled (fun _ _ _ _ kept ran => readClaim_settled kept ran) settled reached
  dsimp only at ran
  split at ran
  · cases ran
    exact kept
  · cases ran
    exact kept

theorem writeAccess_coherent (coherent : Coherent plic) {access : PlicAccess params}
    (ran : plic.writeAccess access data = .ok final) : Coherent final := by
  unfold writeAccess at ran
  split at ran
  · exact writeRegister_coherent coherent ran
  · obtain ⟨⟨_, _⟩, reached, ran⟩ := of_bind ran
    exact writeRegister_coherent (readRegister_keeps Coherent (fun _ _ _ _ kept ran => readClaim_coherent kept ran) coherent reached) ran

variable {accesses : List (PlicAccess params)}

theorem readBank_settled (settled : Settled plic)
    {data : List Word} (ran : plic.readBank accesses = .ok (final, data)) : Settled final := by
  induction accesses generalizing plic data with
  | nil =>
    cases ran
    exact settled
  | cons _ _ ih =>
    obtain ⟨⟨_, _⟩, reached, ran⟩ := of_bind ran
    obtain ⟨⟨_, _⟩, done, ran⟩ := of_bind ran
    cases ran
    exact ih (readAccess_settled settled reached) done

theorem writeBank_coherent (coherent : Coherent plic)
    {data : List Word} (ran : plic.writeBank accesses data = .ok final) : Coherent final := by
  induction accesses generalizing plic data with
  | nil =>
    cases ran
    exact coherent
  | cons _ _ ih =>
    cases data with
    | nil => cases ran
    | cons =>
      obtain ⟨_, reached, ran⟩ := of_bind ran
      exact ih (writeAccess_coherent coherent reached) ran

theorem write_settled (coherent : Coherent plic) {pkt : PlicPacket params} (ran : plic.write pkt = .ok final) : Settled final := by
  obtain ⟨_, reached, ran⟩ := of_bind ran
  obtain ⟨_, done, ran⟩ := of_bind ran
  cases ran
  have settled := (propagateOutput_settled (writeBank_coherent coherent reached) done).1
  exact updateInt_settled settled.toCoherent settled.sumsUp

theorem read_settled (settled : Settled plic) {pkt : PlicPacket params} (ran : plic.read pkt = .ok final) : Settled final := by
  obtain ⟨⟨_, _⟩, reached, ran⟩ := of_bind ran
  have kept := readBank_settled settled reached
  dsimp only at ran
  split at ran
  · cases ran
    exact kept
  · exact write_settled kept.toCoherent ran

theorem updateOutput_settled (settled : Settled plic) (ran : plic.updateOutput = .ok final) : Settled final := by
  have inOrder := settled.queued.inOrder
  have bounded := settled.queued.bounded
  have sumsUp := settled.sumsUp
  unfold updateOutput at ran
  unfold newest at sumsUp
  cases queue : plic.outputQueue with
  | nil => simp [queue] at ran
  | cons _ rest =>
    rw [queue] at ran inOrder bounded sumsUp
    obtain ⟨_, scheduled, ran⟩ := of_bind ran
    cases ran
    apply updateInt_settled
    · refine ⟨⟨settled.cached.source, settled.cached.context, settled.cached.zero⟩, ?_, ?_, ?_⟩
      · exact (List.pairwise_cons.mp inOrder).2
      · exact fun entry member => bounded entry (mem_cons_of_mem _ member)
      · cases rest with
        | nil =>
          cases scheduled
          rfl
        | cons =>
          simp only [schedule, require_bind_eq_ok] at scheduled
          cases scheduled.2.2
          rfl
    · unfold newest
      cases rest with
      | nil => exact sumsUp
      | cons next others =>
        rw [getLast?_cons_cons] at sumsUp
        cases last : (next :: others).getLast? with
        | none => simp at last
        | some =>
          rw [last] at sumsUp
          exact sumsUp

theorem step_settled {call : PlicCall params} {labels : List Unit} (settled : Settled plic)
    (permitted : plic.allowed call) (ran : step plic call = .ok (final, labels)) : Settled final := by
  obtain ⟨_, handled, ran⟩ := of_bind ran
  cases ran
  -- Later, the outputs that wait are still within three cycles.
  have now : Settled { plic with curTick := call.now } := by
    refine ⟨⟨⟨settled.cached.source, settled.cached.context, settled.cached.zero⟩, settled.queued.inOrder, ?_,
      settled.queued.event⟩, settled.sumsUp, settled.shown⟩
    intro entry member
    have bound := settled.queued.bounded entry member
    exact bound.trans (Nat.add_le_add_right permitted.1 _)
  have positive := permitted.2
  cases event : call.event with
  | post =>
    rw [event] at handled positive
    exact post_settled now.toCoherent (of_decide_eq_true positive) handled
  | clear =>
    rw [event] at handled
    exact clear_settled now.toCoherent handled
  | read =>
    rw [event] at handled
    exact read_settled now handled
  | write =>
    rw [event] at handled
    exact write_settled now.toCoherent handled
  | update =>
    rw [event] at handled
    exact updateOutput_settled now handled

theorem run_settled {calls : List (PlicCall params)} {labels : List Unit}
    (each : Each step allowed ({} : Plic params) calls) (ran : run step ({} : Plic params) calls = .ok (final, labels)) :
    Settled final :=
  run_keeps allowed Settled (fun _ _ _ _ => step_settled) settled_init each ran

end Steps

/-- The lines converge: whatever the sources, the harts and the event did, the effective
priorities are those of the registers, and once no output waits a line is posted exactly
while its context has no claim outstanding and a source above its threshold. -/
theorem line_converges {final : Plic params} {calls : List (PlicCall params)} {labels : List Unit}
    (each : Each step allowed ({} : Plic params) calls) (ran : run step ({} : Plic params) calls = .ok (final, labels)) :
    (∀ i src_id, final.effPriority i src_id =
      if final.isPending src_id ∧ final.isEnabled i src_id then final.priority src_id else 0) ∧
    (final.outputQueue = [] → ∀ i, final.posted i = true ↔ final.lastID i = 0 ∧
      ∃ src_id, final.isPending src_id ∧ final.isEnabled i src_id ∧ final.threshold i < final.priority src_id) := by
  have settled := run_settled each ran
  refine ⟨?_, ?_⟩
  · intro i src_id
    rw [settled.cached.context, settled.cached.source]
    by_cases enabled : final.isEnabled i src_id
    · by_cases pending : final.isPending src_id
      · simp [enabled, pending]
      · simp [pending]
    · simp [enabled]
  · intro empty i
    have sumsUp := settled.sumsUp
    unfold newest at sumsUp
    rw [empty] at sumsUp
    rw [settled.shown empty]
    exact raises_iff_demanded settled.cached sumsUp i

def serviced : List (PlicCall ⟨3, 2, 500, by decide⟩) :=
  [⟨100, .write ⟨[⟨.priority 2, none⟩], [5], none⟩⟩, ⟨100, .write ⟨[⟨.enable (.last 1) ⟨0, by decide⟩, none⟩], [4], none⟩⟩,
    ⟨200, .post 2⟩, ⟨1600, .update⟩, ⟨1700, .update⟩]

def overtaken : List (PlicCall ⟨3, 2, 500, by decide⟩) :=
  [⟨100, .write ⟨[⟨.priority 1, none⟩], [1], none⟩⟩, ⟨100, .write ⟨[⟨.priority 2, none⟩], [7], none⟩⟩,
    ⟨100, .write ⟨[⟨.enable (.last 1) ⟨0, by decide⟩, none⟩], [6], none⟩⟩, ⟨200, .post 1⟩, ⟨1600, .update⟩, ⟨1700, .update⟩, ⟨1700, .post 2⟩]

theorem line_converges_serviced : ∃ final labels, run step {} serviced = .ok (final, labels) ∧
    final.effPriority 1 2 = (if final.isPending 2 ∧ final.isEnabled 1 2 then final.priority 2 else 0) ∧
    final.posted 1 = true ∧ final.lastID 1 = 0 ∧
    ∃ src_id, final.isPending src_id ∧ final.isEnabled 1 src_id ∧ final.threshold 1 < final.priority src_id := by
  refine ⟨_, _, rfl, ?_⟩
  have each : Each step allowed ({} : Plic _) serviced := by decide
  have converges := line_converges each rfl
  exact ⟨converges.1 1 2, rfl, (converges.2 rfl 1).mp rfl⟩

end Plic

end ImcGem5.Dev

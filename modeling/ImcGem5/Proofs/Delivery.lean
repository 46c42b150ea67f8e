import ImcGem5.Isa.Harts
import ImcGem5.Proofs.Dispatch
import Mathlib.Data.List.Nodup

/-! Delivery of in-memory operations. An instruction sends its packet once and never
learns whether it was taken, so an operation is performed exactly when the
controller happened to be ready. -/

namespace ImcGem5.Isa.Proofs
open Lib Mem Mem.Proofs List

def performed (labels : List HartLabel) : List Nat :=
  labels.filterMap fun
    | .memory (.computed _ request) => some request
    | _ => none

def completed (labels : List HartLabel) : List (HartID × Nat) :=
  labels.filterMap fun
    | .completed hart request => some (hart, request)
    | _ => none

def completedBy (hart : HartID) (labels : List HartLabel) : List Nat :=
  ((completed labels).filter (·.1 == hart)).map (·.2)

/-- Once: the effect of a completed instruction was applied once. In order: the
effects of one hart's instructions came in its program order. -/
structure Delivered (labels : List HartLabel) : Prop where
  once : ∀ done ∈ completed labels, (performed labels).count done.2 = 1
  inOrder : ∀ hart, (performed labels).filter (· ∈ completedBy hart labels) = completedBy hart labels

def ComputedFor (offered : Nat → Prop) (labels : List MemLabel) : Prop :=
  ∀ op request, .computed op request ∈ labels → offered request

variable {offered : Nat → Prop}

theorem ComputedFor.append {early late : List MemLabel} (first : ComputedFor offered early)
    (second : ComputedFor offered late) : ComputedFor offered (early ++ late) := by
  intro op request member
  rcases mem_append.mp member with before | after
  · exact first op request before
  · exact second op request after

variable {request first last : Nat} {ctrl next : MemCtrl} {labels : List HartLabel} {ready : Prop}

theorem computed_not_effect {op : ImcOp} {effects : List Effect} : MemLabel.computed op request ∉ effects.map MemLabel.effect := by
  intro member
  obtain ⟨_, _, impossible⟩ := mem_map.mp member
  cases impossible

theorem recvTimingReq_computed {now : Tick} {random : Nat} {pkt : Packet} {taken : Bool}
    {labels : List MemLabel} (ran : ctrl.recvTimingReq now random pkt = .ok (next, taken, labels))
    (own : offered pkt.req.id) : ComputedFor offered labels := by
  intro op request member
  cases recvTimingReq_cases ran with
  | refused =>
    cases mem_singleton.mp member
  | accepted _ _ processed =>
    cases processed with
    | @inMemory _ effects dispatched handled queue made =>
      rw [made] at member
      rcases mem_append.mp member with entry | effect
      · rcases mem_cons.mp entry with impossible | same
        · cases impossible
        · cases mem_singleton.mp same
          exact own
      · exact absurd effect computed_not_effect
    | @ordinary tick result effects undispatched quiet accessed queue made =>
      rw [made] at member
      rcases mem_cons.mp member with impossible | effect
      · cases impossible
      · exact absurd effect computed_not_effect

theorem computed_preserved :
    Preserved (fun _ pkt => offered pkt.req.id) fun _ past => ComputedFor offered past where
  content _ kept := kept
  received kept own ran := kept.append (recvTimingReq_computed ran own)
  responded kept _ _ _ := kept.append fun op request member => by cases mem_singleton.mp member
  retried kept := kept.append fun op request member => by cases mem_singleton.mp member

theorem renamed_computed {event : MemEvent} {labels : List MemLabel}
    (taken : ctrl.step (renamedEvent event) = .ok (next, labels)) : ComputedFor (fun request => request % 2 = 0) labels := by
  have even : ∀ pkt, (renamed pkt).req.id % 2 = 0 := fun pkt => Nat.mul_mod_right 2 pkt.req.id
  have offers : ∀ (now : Tick) (start : MemCtrl) (during : List (Nat × Packet)),
      Each (MemCtrl.offer now) (fun _ offer => offer.2.req.id % 2 = 0) start
        (during.map fun offer => (offer.1, renamed offer.2)) := by
    intro now start during
    refine each_of_forall (fun _ offer member => ?_) start
    obtain ⟨original, _, rfl⟩ := mem_map.mp member
    exact even original.2
  have offered : Offered (fun _ pkt => pkt.req.id % 2 = 0) ctrl (renamedEvent event) := by
    cases event with
    | recvTimingReq _ _ pkt => exact even pkt
    | release => trivial
    | dequeue now during => exact offers now _ during
    | recvRespRetry now during => exact offers now ctrl during
  have start : ComputedFor (fun request => request % 2 = 0) [] := fun _ _ member => by cases member
  exact computed_preserved.step start offered taken

def performedInsts (labels : List HartLabel) : List Nat := (performed labels).filter fun request => request % 2 = 1

def completedInsts (labels : List HartLabel) : List Nat := (completed labels).map (·.2)

def Ready (harts : Harts) : HartEvent → Prop
  | .memory _ => True
  | .instruction .. => harts.ctrl.retryReq = false ∧ harts.ctrl.isBusy = false

/-- A stretch of a run: the instructions that completed in it, and that those whose
handler ran are some of them in the same order, all exactly if `ready`. -/
structure Stretch (first last : Nat) (labels : List HartLabel) (ready : Prop) : Prop where
  count : first ≤ last
  completed : completedInsts labels = (List.range' first (last - first)).map instRequest
  sublist : (performedInsts labels).Sublist (completedInsts labels)
  ready_iff : performedInsts labels = completedInsts labels ↔ ready

theorem performedInsts_append (early late : List HartLabel) :
    performedInsts (early ++ late) = performedInsts early ++ performedInsts late := by
  simp [performedInsts, performed]

theorem completedInsts_append (early late : List HartLabel) :
    completedInsts (early ++ late) = completedInsts early ++ completedInsts late := by
  simp [completedInsts, completed]

theorem Stretch.append {second third : Nat} {early late : List HartLabel} {one two : Prop}
    (before : Stretch first second early one) (after : Stretch second third late two) :
    Stretch first third (early ++ late) (one ∧ two) where
  count := Nat.le_trans before.count after.count
  completed := by
    have joined : third - first = (second - first) + (third - second) := by
      have := before.count
      have := after.count
      omega
    have next : first + (second - first) = second := by
      have := before.count
      omega
    rw [completedInsts_append, before.completed, after.completed, ← map_append, joined]
    rw [← range'_append_1, next]
  sublist := by
    rw [performedInsts_append, completedInsts_append]
    exact before.sublist.append after.sublist
  ready_iff := by
    rw [performedInsts_append, completedInsts_append, ← before.ready_iff, ← after.ready_iff]
    constructor
    · intro same
      have lengths := congrArg List.length same
      simp only [length_append] at lengths
      have shorter := before.sublist.length_le
      have shorterToo := after.sublist.length_le
      exact append_inj same (by omega)
    · rintro ⟨same, sameToo⟩
      rw [same, sameToo]

theorem completed_map_memory (labels : List MemLabel) : completed (labels.map .memory) = [] := by
  simp [completed]

theorem performed_effects (effects : List Effect) : performed ((effects.map MemLabel.effect).map .memory) = [] := by
  simp [performed]

theorem memory_stretch {labels : List MemLabel} (executed : Nat) (others : ComputedFor (fun request => request % 2 = 0) labels) :
    Stretch executed executed (labels.map .memory) True := by
  have none : completedInsts (labels.map .memory) = [] := by rw [completedInsts, completed_map_memory]; rfl
  have quiet : performedInsts (labels.map .memory) = [] := by
    rw [performedInsts, filter_eq_nil_iff]
    intro request member odd
    obtain ⟨_, wrapped, made⟩ := mem_filterMap.mp member
    obtain ⟨label, present, rfl⟩ := mem_map.mp wrapped
    cases label with
    | computed op =>
      cases made
      have even := others op request present
      simp only [decide_eq_true_eq] at odd
      omega
    | _ => cases made
  refine ⟨Nat.le_refl _, ?_, ?_, ?_⟩
  · rw [none, Nat.sub_self]
    rfl
  · rw [quiet]
    exact nil_sublist _
  · rw [quiet, none]
    exact ⟨fun _ => trivial, fun _ => rfl⟩

theorem dispatch_flag (op : ImcOp) : dispatch op.flag = some op := by
  have alone := dispatch_flagsOf_or (not_mem_nil (a := BaseFlag.secure)) not_mem_nil op
  simpa [flagsOf] using alone

/-- An instruction that gets as far as its packet completes, and its operation is
performed if and only if the controller was ready. -/
theorem execute_cases {φ : Type} {mmu : Translation φ} {regs : RegFile} {inst : ImcInst}
    {now : Tick} {random : Nat} {fault : Option φ} {labels : List MemLabel}
    (ran : inst.execute mmu regs request ctrl now random = .ok (next, fault, labels)) :
    fault = none ∧ performed (labels.map .memory) =
      if ctrl.retryReq = false ∧ ctrl.isBusy = false then [request] else [] := by
  obtain ⟨_, packed, ran⟩ := of_bind ran
  obtain ⟨⟨_, _, made⟩, received, ran⟩ := of_bind ran
  cases ran
  obtain ⟨operands, _, packed⟩ := of_bind packed
  cases packed
  refine ⟨rfl, ?_⟩
  cases recvTimingReq_cases received with
  | refused waiting =>
    rw [if_neg]
    · rfl
    · rintro ⟨fresh, idle⟩
      rcases waiting with retrying | busy
      · rw [fresh] at retrying
        cases retrying
      · rw [idle] at busy
        cases busy
  | accepted idle fresh processed =>
    rw [if_pos ⟨fresh, idle⟩]
    cases processed with
    | @inMemory op effects dispatched handled queue made =>
      rw [made, map_append]
      have rest := performed_effects effects
      simp only [performed] at rest
      simp only [performed, filterMap_append, rest]
      rfl
    | ordinary undispatched =>
      have flag : (imcPacket request inst.op operands).req.flags = inst.op.flag := rfl
      rw [flag, dispatch_flag] at undispatched
      cases undispatched

variable {φ : Type} {mmu : HartID → Translation φ}

theorem step_stretch {harts next : Harts} {event : HartEvent} (taken : harts.step mmu event = .ok (next, labels)) :
    Stretch harts.executed next.executed labels (Ready harts event) := by
  cases event with
  | memory =>
    obtain ⟨⟨ctrl, made⟩, stepped, taken⟩ := of_bind taken
    cases taken
    exact memory_stretch harts.executed (renamed_computed stepped)
  | instruction hart =>
    obtain ⟨⟨ctrl, _, made⟩, executed, taken⟩ := of_bind taken
    obtain ⟨rfl, ops⟩ := execute_cases executed
    cases taken
    have mine : completedInsts (made.map .memory ++ [.completed hart (instRequest harts.executed)]) =
        [instRequest harts.executed] := by
      rw [completedInsts_append, completedInsts, completed_map_memory]
      rfl
    have ran : performedInsts (made.map .memory ++ [.completed hart (instRequest harts.executed)]) =
        if harts.ctrl.retryReq = false ∧ harts.ctrl.isBusy = false then [instRequest harts.executed] else [] := by
      have odd : instRequest harts.executed % 2 = 1 := by
        unfold instRequest
        omega
      rw [performedInsts_append, performedInsts, ops]
      split
      · simp [performedInsts, performed, odd]
      · rfl
    refine ⟨Nat.le_succ _, ?_, ?_, ?_⟩
    · rw [mine, Nat.add_sub_cancel_left]
      rfl
    · rw [ran, mine]
      split
      · exact List.Sublist.refl _
      · exact nil_sublist _
    · rw [ran, mine]
      by_cases ready : harts.ctrl.retryReq = false ∧ harts.ctrl.isBusy = false
      · rw [if_pos ready]
        exact ⟨fun _ => ready, fun _ => rfl⟩
      · rw [if_neg ready]
        exact ⟨fun lost => absurd lost (by simp), fun yes => absurd yes ready⟩

theorem run_stretch {harts final : Harts} {events : List HartEvent} (ran : run (Harts.step mmu) harts events = .ok (final, labels)) :
    Stretch harts.executed final.executed labels (Each (Harts.step mmu) Ready harts events) := by
  induction events generalizing harts labels with
  | nil =>
    cases ran
    refine ⟨Nat.le_refl _, ?_, List.Sublist.refl _, ⟨fun _ => trivial, fun _ => rfl⟩⟩
    rw [Nat.sub_self]
    rfl
  | cons _ _ ih =>
    obtain ⟨_, _, _, taken, remaining, rfl⟩ := run_cons.mp ran
    have joined := (step_stretch taken).append (ih remaining)
    simpa only [Each, taken] using joined

theorem completedInsts_nodup (stretch : Stretch first last labels ready) : (completedInsts labels).Nodup := by
  rw [stretch.completed]
  refine List.Nodup.map ?_ nodup_range'
  intro one two same
  unfold instRequest at same
  omega

theorem completedInsts_odd (stretch : Stretch first last labels ready) (member : request ∈ completedInsts labels) : request % 2 = 1 := by
  rw [stretch.completed] at member
  obtain ⟨_, _, rfl⟩ := mem_map.mp member
  unfold instRequest
  omega

theorem filter_completedBy (distinct : (completedInsts labels).Nodup) (hart : HartID) :
    (completedInsts labels).filter (· ∈ completedBy hart labels) = completedBy hart labels := by
  rw [completedInsts, filter_map, completedBy]
  congr 1
  apply filter_congr
  intro done member
  rw [Bool.eq_iff_iff]
  simp only [Function.comp_apply, decide_eq_true_eq, beq_iff_eq]
  constructor
  · intro present
    obtain ⟨_, chosen, same⟩ := mem_map.mp present
    obtain ⟨otherMember, theirs⟩ := mem_filter.mp chosen
    have equal := inj_on_of_nodup_map distinct otherMember member same
    rw [← equal]
    exact eq_of_beq theirs
  · intro mine
    exact mem_map.mpr ⟨done, mem_filter.mpr ⟨member, beq_iff_eq.mpr mine⟩, rfl⟩

theorem delivered_iff_performed (stretch : Stretch first last labels ready) :
    Delivered labels ↔ performedInsts labels = completedInsts labels := by
  have distinct := completedInsts_nodup stretch
  have counts : ∀ request ∈ completedInsts labels, (performed labels).count request = (performedInsts labels).count request := by
    intro request member
    rw [performedInsts, count_filter]
    exact decide_eq_true (completedInsts_odd stretch member)
  constructor
  · intro delivered
    have all : completedInsts labels ⊆ performedInsts labels := by
      intro request member
      obtain ⟨done, finished, rfl⟩ := mem_map.mp member
      have once := delivered.once done finished
      rw [counts _ member] at once
      exact count_pos_iff.mp (by omega)
    exact stretch.sublist.eq_of_length_le (distinct.length_le_of_subset all)
  · intro same
    refine ⟨fun done finished => ?_, fun hart => ?_⟩
    · have member : done.2 ∈ completedInsts labels := mem_map_of_mem finished
      rw [counts _ member, same]
      exact count_eq_one_of_mem distinct member
    · calc (performed labels).filter (· ∈ completedBy hart labels)
          = (performedInsts labels).filter (· ∈ completedBy hart labels) := by
            rw [performedInsts, filter_filter]
            apply filter_congr
            intro request _
            rw [Bool.eq_iff_iff]
            simp only [Bool.and_eq_true, decide_eq_true_eq]
            refine ⟨fun mine => ⟨mine, ?_⟩, fun both => both.1⟩
            obtain ⟨done, chosen, rfl⟩ := mem_map.mp mine
            exact completedInsts_odd stretch (mem_map_of_mem (mem_of_mem_filter chosen))
        _ = (completedInsts labels).filter (· ∈ completedBy hart labels) := by rw [same]
        _ = completedBy hart labels := filter_completedBy distinct hart

/-- No operation is lost, repeated or reordered in precisely the runs where every
instruction found the controller neither busy nor owing a retry. -/
theorem delivered_iff {harts final : Harts} {events : List HartEvent} {labels : List HartLabel}
    (ran : run (Harts.step mmu) harts events = .ok (final, labels)) :
    Delivered labels ↔ Each (Harts.step mmu) Ready harts events := by
  have stretch := run_stretch ran
  rw [delivered_iff_performed stretch, stretch.ready_iff]

def slowMemory : MemCtrl := { idleMemory with duration := fun size => size }

def flatMapping : HartID → Translation Unit := fun _ vaddr _ => .ok vaddr

def compareZero : HartEvent := .instruction 0 ⟨.cmpimc, 0, 0, 0, 0⟩ (fun _ => 0) 0 0

theorem released_delivered : ∃ final labels,
    run (Harts.step flatMapping) ⟨slowMemory, 0⟩ [compareZero, .memory .release, compareZero] = .ok (final, labels) ∧
      Delivered labels := by
  have ready : Each (Harts.step flatMapping) Ready ⟨slowMemory, 0⟩ [compareZero, .memory .release, compareZero] :=
    ⟨⟨rfl, rfl⟩, trivial, ⟨rfl, rfl⟩, trivial⟩
  exact ⟨_, _, rfl, (delivered_iff rfl).mpr ready⟩

/-- Of two instructions in a row the second completes and is never performed. -/
theorem busy_not_delivered : ∃ final labels,
    run (Harts.step flatMapping) ⟨slowMemory, 0⟩ [compareZero, compareZero] = .ok (final, labels) ∧
      (0, instRequest 1) ∈ completed labels ∧ instRequest 1 ∉ performed labels ∧ ¬ Delivered labels := by
  refine ⟨_, _, rfl, by decide, by decide, fun delivered => ?_⟩
  exact absurd (delivered.once (0, instRequest 1) (by decide)) (by decide)

end ImcGem5.Isa.Proofs

import Mathlib.Data.List.TakeDrop
import ImcGem5.Mem.Mshr

/-! No target of an MSHR is lost or served twice. Whatever an operation does to a target in
place, its core stays, and the operations move cores between the two lists, and out of
them, in order. -/

namespace ImcGem5.Mem.Proofs.Mshr
open Lib List MSHR TargetList

/-- A target up to what is done to it while it waits: its command may be replaced (by one
that locks no more than it did), its data allocated and its pending mark cleared. -/
def core (target : Target) : Target :=
  { target with
    pkt := { target.pkt with cmd := if target.pkt.cmd = .lockedRMWReadReq then .lockedRMWReadReq else .invalidCmd, data := [] }
    markedPending := false }

def cores (targets : List Target) : List Target := targets.map core

def own (target : Target) : Bool := target.source ≠ .fromSnoop

def locked (target : Target) : Bool := target.pkt.cmd = .lockedRMWReadReq

def addedBy : MshrLabel → List Target
  | .added target => [target]
  | _ => []

def extractedBy : MshrLabel → List Target
  | .extracted targets => targets
  | _ => []

def added (labels : List MshrLabel) : List Target := labels.flatMap addedBy
def extracted (labels : List MshrLabel) : List Target := labels.flatMap extractedBy

theorem locked_core (target : Target) : locked (core target) = locked target := by
  unfold locked core
  split
  next locks => rw [locks]
  next free => simp [free]

theorem core_marked (target : Target) (markedPending : Bool) : core { target with markedPending } = core target := rfl

@[simp] theorem cores_append (first second : List Target) : cores (first ++ second) = cores first ++ cores second := map_append

@[simp] theorem cores_cons (target : Target) (rest : List Target) : cores (target :: rest) = core target :: cores rest := rfl

@[simp] theorem cores_nil : cores [] = [] := rfl

/-- What an operation does to the cores of the targets and the deferred targets. -/
inductive Moves : List Target → List Target → List MshrLabel → List Target → List Target → Prop where
  | keep {targets deferred : List Target} {labels : List MshrLabel} (quiet : added labels = [] ∧ extracted labels = []) :
      Moves targets deferred labels targets deferred
  | arrive {targets : List Target} {target : Target} (source : target.source = .fromCPU) :
      Moves targets [] [.added target] (targets ++ [core target]) []
  | defer {targets deferred : List Target} {target : Target} (source : target.source = .fromCPU) :
      Moves targets deferred [.added target] targets (deferred ++ [core target])
  | snoop {targets deferred : List Target} {target : Target} {labels : List MshrLabel} (source : target.source = .fromSnoop)
      (quiet : added labels = [] ∧ extracted labels = []) :
      Moves targets deferred (.added target :: labels) (targets ++ [core target]) deferred
  | promote {targets promoted left : List Target} : Moves targets (promoted ++ left) [] (targets ++ promoted) left
  | extract {targets deferred taken left : List Target}
      (whole : (∀ target ∈ targets, locked target = false) →
        (cores taken ++ left).Perm targets ∧ (cores taken).filter own ++ left.filter own = targets.filter own) :
      Moves targets deferred [.extracted taken] left deferred

def moves (mshr next : MSHR) (labels : List MshrLabel) : Prop :=
  Moves (cores mshr.targets.list) (cores mshr.deferredTargets.list) labels (cores next.targets.list) (cores next.deferredTargets.list)

theorem updateWriteFlags_list (targets : TargetList) (first : Bool) (pkt : Packet) : (targets.updateWriteFlags first pkt).list = targets.list := by
  unfold updateWriteFlags
  split
  · rfl
  split
  · rfl
  split
  · rfl
  · rfl

theorem updateFlags_list (targets : TargetList) (first : Bool) (pkt : Packet) (source : Source) (allocOnFill : Bool) :
    (targets.updateFlags first pkt source allocOnFill).list = targets.list := by
  unfold updateFlags
  split
  · rfl
  split
  · rfl
  · exact updateWriteFlags_list _ first pkt

theorem populateFlags_list (targets : TargetList) : targets.populateFlags.list = targets.list := by
  unfold populateFlags
  have fold : ∀ (rest : List Target) (flags : TargetList),
      (rest.foldl (fun flags target => flags.updateFlags targets.list.isEmpty target.pkt target.source target.allocOnFill) flags).list = flags.list := by
    intro rest
    induction rest with
    | nil => exact fun _ => rfl
    | cons _ _ ih =>
      intro flags
      rw [foldl_cons, ih, updateFlags_list]
  exact fold targets.list targets.resetFlags

theorem add_eq_ok {targets next : TargetList} {above above' : PendingAbove} {target : Target}
    (ran : targets.add above target = .ok (next, above')) : cores next.list = cores targets.list ++ [core target] := by
  obtain ⟨⟨_, _⟩, _, ran⟩ := of_bind ran
  cases ran
  rw [cores_append]
  rfl

theorem replacedCmd_locked (cmd : MemCmd) : replacedCmd cmd = .lockedRMWReadReq ↔ cmd = .lockedRMWReadReq := by
  cases cmd <;> simp [replacedCmd]

variable {pkt : Packet} {targets taken left : List Target} {mshr next : MSHR} {above : Option Nat} {order : Nat} {labels : List MshrLabel}
  {curTick : Tick}

theorem replaceUpgrade_core {replaced : Packet} (ran : replaceUpgrade pkt = .ok replaced) (target : Target) :
    core { target with pkt := replaced } = core { target with pkt } := by
  unfold replaceUpgrade at ran
  have same : core { target with pkt := { pkt with cmd := replacedCmd pkt.cmd } } = core { target with pkt } := by
    unfold core
    simp only [replacedCmd_locked]
  dsimp only at ran
  split at ran
  · cases ran
    exact same
  · obtain ⟨_, ran⟩ := of_require ran
    cases ran
    rw [← same]
    split
    · rfl
    · rfl

theorem replaceEach_cores {next : List Target} (ran : replaceEach targets = .ok next) : cores next = cores targets := by
  induction targets generalizing next with
  | nil =>
    cases ran
    rfl
  | cons target _ ih =>
    obtain ⟨_, replaced, ran⟩ := of_bind ran
    obtain ⟨_, rested, ran⟩ := of_bind ran
    cases ran
    rw [cores_cons, cores_cons, ih rested, replaceUpgrade_core replaced target]

theorem replaceUpgrades_cores {targets next : TargetList} (ran : targets.replaceUpgrades = .ok next) : cores next.list = cores targets.list := by
  unfold replaceUpgrades at ran
  split at ran
  · cases ran
    rfl
  · obtain ⟨list, replaced, ran⟩ := of_bind ran
    cases ran
    exact replaceEach_cores replaced

theorem clearEach_cores {above above' : PendingAbove} {next : List Target} (ran : clearEach above targets = .ok (next, above')) :
    cores next = cores targets := by
  induction targets generalizing above next with
  | nil =>
    cases ran
    rfl
  | cons _ _ ih =>
    obtain ⟨_, _, ran⟩ := of_bind ran
    obtain ⟨⟨_, _⟩, rested, ran⟩ := of_bind ran
    cases ran
    rw [cores_cons, cores_cons, ih rested, core_marked]

theorem takeSnoops_eq_ok (ran : takeSnoops targets = .ok (taken, left)) :
    (taken ++ left).Perm targets ∧ (∀ target ∈ taken, own target = false) ∧ left.filter own = targets.filter own := by
  induction targets generalizing taken left with
  | nil =>
    cases ran
    exact ⟨.refl [], forall_mem_nil _, rfl⟩
  | cons target _ ih =>
    unfold takeSnoops at ran
    split at ran
    next source =>
      obtain ⟨⟨snoops, others⟩, rested, ran⟩ := of_bind ran
      cases ran
      obtain ⟨whole, none_, order⟩ := ih rested
      have mine : own target = true := by simp [own, source]
      refine ⟨perm_middle.trans (whole.cons target), none_, ?_⟩
      rw [filter_cons_of_pos mine, filter_cons_of_pos mine, order]
    next =>
      obtain ⟨source, ran⟩ := of_require ran
      obtain ⟨⟨snoops, others⟩, rested, ran⟩ := of_bind ran
      cases ran
      obtain ⟨whole, none_, order⟩ := ih rested
      have foreign : own target = false := by simpa [own] using source
      refine ⟨whole.cons target, ?_, ?_⟩
      · intro other member
        obtain rfl | member := mem_cons.mp member
        · exact foreign
        · exact none_ other member
      · rw [filter_cons_of_neg (by rw [foreign]; exact Bool.false_ne_true), order]

/-- Targets that leave a list, and the ones that stay: nothing is lost, and what is owned
leaves from the front. -/
def Splits (targets taken left : List Target) : Prop :=
  (taken ++ left).Perm targets ∧ taken.filter own ++ left.filter own = targets.filter own

theorem takeFirst_eq_ok (free : ∀ target ∈ targets, locked target = false)
    (ran : takeFirst targets = .ok (taken, left)) : Splits targets taken left := by
  cases targets with
  | nil => cases ran
  | cons target =>
    obtain ⟨source, ran⟩ := of_require ran
    have unlocked : ¬target.pkt.cmd = .lockedRMWReadReq := by simpa [locked] using free target mem_cons_self
    rw [if_neg unlocked] at ran
    obtain ⟨⟨snoops, _⟩, rested, ran⟩ := of_bind ran
    cases ran
    obtain ⟨whole, none_, order⟩ := takeSnoops_eq_ok rested
    have mine : own target = true := by
      rw [decide_eq_true_eq] at source
      obtain cpu | prefetcher := source
      · simp [own, cpu]
      · simp [own, prefetcher]
    refine ⟨whole.cons target, ?_⟩
    have snoopsNone : snoops.filter own = [] := by
      apply filter_eq_nil_iff.mpr
      intro other member
      rw [none_ other member]
      exact Bool.false_ne_true
    rw [filter_cons_of_pos mine, filter_cons_of_pos mine, snoopsNone, order]
    rfl

theorem takeUnlocked_eq (free : ∀ target ∈ targets, locked target = false) : takeUnlocked targets = (targets, []) := by
  induction targets with
  | nil => rfl
  | cons target _ ih =>
    have unlocked : ¬target.pkt.cmd = .lockedRMWReadReq := by simpa [locked] using free target mem_cons_self
    unfold takeUnlocked
    rw [if_neg unlocked, ih fun other member => free other (mem_cons_of_mem _ member)]

theorem spanCPU_eq_ok {pred : Target → Bool} (ran : spanCPU pred targets = .ok (taken, left)) : targets = taken ++ left := by
  induction targets generalizing taken left with
  | nil =>
    cases ran
    rfl
  | cons _ _ ih =>
    obtain ⟨_, ran⟩ := of_require ran
    split at ran
    · obtain ⟨⟨_, _⟩, rested, ran⟩ := of_bind ran
      cases ran
      rw [ih rested]
      rfl
    · cases ran
      rfl

theorem promotable_append (targets deferred : List Target) :
    deferred = (promotable targets deferred).1 ++ (promotable targets deferred).2 := by
  unfold promotable
  split
  · rfl
  split
  · split
    · rfl
    · rfl
  · rw [span_eq_takeWhile_dropWhile]
    rw [takeWhile_append_dropWhile]

theorem allocateTarget_moves {whenReady : Tick} {allocOnFill : Bool}
    (ran : mshr.allocateTarget pkt above whenReady order allocOnFill = .ok (next, labels)) : moves mshr next labels := by
  obtain ⟨_, ran⟩ := of_require ran
  obtain ⟨_, _, ran⟩ := of_bind ran
  split at ran
  · obtain ⟨pkt, _, ran⟩ := of_bind ran
    obtain ⟨⟨_, _⟩, added, ran⟩ := of_bind ran
    cases ran
    unfold moves
    rw [add_eq_ok added]
    exact .defer rfl
  next immediate =>
    have empty : mshr.deferredTargets.list = [] := by
      by_contra waiting
      apply immediate
      rw [defers, isEmpty_eq_false_iff.mpr waiting]
      simp
    obtain ⟨⟨_, _⟩, added, ran⟩ := of_bind ran
    cases ran
    unfold moves
    rw [add_eq_ok added, empty]
    exact .arrive rfl

theorem saveSnoop_moves {willRespond : Bool}
    (ran : mshr.saveSnoop pkt above order curTick willRespond = .ok (next, labels)) (quiet : List MshrLabel)
    (silent : added quiet = [] ∧ extracted quiet = []) : moves mshr next (labels ++ quiet) := by
  obtain ⟨⟨_, _⟩, added, ran⟩ := of_bind ran
  cases ran
  unfold moves
  rw [add_eq_ok added]
  exact .snoop rfl silent

theorem snoopLater_moves (ran : mshr.snoopLater pkt above order curTick = .ok (next, labels)) : moves mshr next labels := by
  obtain ⟨⟨_, _⟩, saved, ran⟩ := of_bind ran
  cases ran
  split at saved
  · have saves := saveSnoop_moves saved
    exact saves _ ⟨rfl, rfl⟩
  · cases saved
    exact .keep ⟨rfl, rfl⟩

theorem moves_after {middle : MSHR} (targets : cores middle.targets.list = cores mshr.targets.list)
    (deferred : cores middle.deferredTargets.list = cores mshr.deferredTargets.list) (later : moves middle next labels) :
    moves mshr next labels := by
  unfold moves at later ⊢
  rw [← targets, ← deferred]
  exact later

theorem replaceDeferred_cores (ran : mshr.replaceDeferred = .ok next) :
    cores next.targets.list = cores mshr.targets.list ∧ cores next.deferredTargets.list = cores mshr.deferredTargets.list := by
  obtain ⟨_, replaced, ran⟩ := of_bind ran
  cases ran
  exact ⟨rfl, replaceUpgrades_cores replaced⟩

theorem replaceAll_cores (ran : mshr.replaceAll = .ok next) :
    cores next.targets.list = cores mshr.targets.list ∧ cores next.deferredTargets.list = cores mshr.deferredTargets.list := by
  obtain ⟨targets, replaced, ran⟩ := of_bind ran
  obtain ⟨same, deferred⟩ := replaceDeferred_cores ran
  exact ⟨same.trans (replaceUpgrades_cores replaced), deferred⟩

theorem moves_of_same (targets : cores next.targets.list = cores mshr.targets.list)
    (deferred : cores next.deferredTargets.list = cores mshr.deferredTargets.list) (quiet : added labels = [] ∧ extracted labels = []) :
    moves mshr next labels := by
  unfold moves
  rw [targets, deferred]
  exact .keep quiet

theorem handleSnoop_moves (ran : mshr.handleSnoop pkt above order curTick = .ok (next, labels)) : moves mshr next labels := by
  obtain ⟨_, ran⟩ := of_panicIf ran
  split at ran
  · obtain ⟨middle, replaced, ran⟩ := of_bind ran
    cases ran
    split at replaced
    · obtain ⟨targets, deferred⟩ := replaceAll_cores replaced
      exact moves_of_same targets deferred ⟨rfl, rfl⟩
    · cases replaced
      exact moves_of_same rfl rfl ⟨rfl, rfl⟩
  · obtain ⟨middle, replaced, ran⟩ := of_bind ran
    obtain ⟨_, _, ran⟩ := of_bind ran
    have same : cores middle.targets.list = cores mshr.targets.list ∧ cores middle.deferredTargets.list = cores mshr.deferredTargets.list := by
      split at replaced
      · exact replaceDeferred_cores replaced
      · cases replaced
        exact ⟨rfl, rfl⟩
    split at ran
    · cases ran
      exact moves_of_same same.1 same.2 ⟨rfl, rfl⟩
    · exact moves_after same.1 same.2 (snoopLater_moves ran)

theorem clearTargets_moves (ran : mshr.clearTargets = .ok next) : moves mshr next [] := by
  obtain ⟨⟨_, _⟩, cleared, ran⟩ := of_bind ran
  cases ran
  exact moves_of_same (clearEach_cores cleared) rfl ⟨rfl, rfl⟩

theorem markInService_moves {pendingModifiedResp : Bool} (ran : mshr.markInService pendingModifiedResp = .ok next) :
    moves mshr next [] := by
  obtain ⟨_, ran⟩ := of_require ran
  obtain ⟨_, cleared, ran⟩ := of_bind ran
  cases ran
  split at cleared
  · cases cleared
    exact moves_of_same rfl rfl ⟨rfl, rfl⟩
  · have clears := clearTargets_moves cleared
    exact clears

theorem promoteIf_moves {pred : Target → Bool} (ran : mshr.promoteIf pred = .ok next) : moves mshr next [] := by
  obtain ⟨_, ran⟩ := of_require ran
  obtain ⟨⟨_, _⟩, spanned, ran⟩ := of_bind ran
  obtain ⟨⟨_, _⟩, cleared, ran⟩ := of_bind ran
  cases ran
  unfold moves
  rw [populateFlags_list, spanCPU_eq_ok spanned, cores_append, cores_append, clearEach_cores cleared]
  exact .promote

theorem promoteReadable_moves (ran : mshr.promoteReadable = .ok next) : moves mshr next [] := by
  unfold promoteReadable at ran
  split at ran
  · cases ran
    exact moves_of_same rfl rfl ⟨rfl, rfl⟩
  · obtain ⟨_, ran⟩ := of_require ran
    split at ran
    · cases ran
      exact moves_of_same rfl rfl ⟨rfl, rfl⟩
    · exact promoteIf_moves ran

theorem promoteWritable_moves (ran : mshr.promoteWritable = .ok next) : moves mshr next [] := by
  unfold promoteWritable at ran
  split at ran
  · cases ran
    exact moves_of_same rfl rfl ⟨rfl, rfl⟩
  split at ran
  · cases ran
    exact moves_of_same rfl rfl ⟨rfl, rfl⟩
  · obtain ⟨_, ran⟩ := of_require ran
    split at ran
    · cases ran
      exact moves_of_same rfl rfl ⟨rfl, rfl⟩
    · obtain ⟨_, ran⟩ := of_require ran
      have promotes := promoteIf_moves ran
      exact promotes

theorem promoteDeferredTargets_moves {promoted : Bool}
    (ran : mshr.promoteDeferredTargets curTick = .ok (next, promoted)) : moves mshr next [] := by
  unfold promoteDeferredTargets at ran
  split at ran
  · cases ran
    exact moves_of_same rfl rfl ⟨rfl, rfl⟩
  · have whole := promotable_append mshr.targets.list mshr.deferredTargets.list
    generalize promotable mshr.targets.list mshr.deferredTargets.list = split at whole ran
    obtain ⟨_, _, ran⟩ := of_bind ran
    cases ran
    unfold moves
    rw [populateFlags_list, populateFlags_list, whole, cores_append, cores_append]
    exact .promote

theorem promoteOrDeallocate_moves (ran : mshr.promoteOrDeallocate curTick = .ok (next, labels)) : moves mshr next labels := by
  obtain ⟨⟨_, _⟩, promotes, ran⟩ := of_bind ran
  dsimp only at ran
  split at ran
  · obtain ⟨last, marked, ran⟩ := of_bind ran
    cases ran
    obtain ⟨_, marked⟩ := of_require marked
    cases marked
    have promotes := promoteDeferredTargets_moves promotes
    exact promotes
  next none_ =>
    obtain ⟨last, deallocated, ran⟩ := of_bind ran
    cases ran
    obtain ⟨_, deallocated⟩ := of_require deallocated
    obtain ⟨_, deallocated⟩ := of_require deallocated
    cases deallocated
    unfold promoteDeferredTargets at promotes
    split at promotes
    · cases promotes
      exact moves_of_same rfl rfl ⟨rfl, rfl⟩
    · obtain ⟨_, _, promotes⟩ := of_bind promotes
      cases promotes
      exact absurd rfl none_

theorem filter_cores (targets : List Target) : (cores targets).filter own = cores (targets.filter own) := by
  unfold cores
  rw [filter_map]
  rfl

theorem extract_moves {cmd : MemCmd} (ran : mshr.extractServiceableTargets cmd = .ok (next, labels)) : moves mshr next labels := by
  obtain ⟨⟨ready, left⟩, taken, ran⟩ := of_bind ran
  cases ran
  unfold moves
  rw [populateFlags_list]
  apply Moves.extract
  intro free
  have unlocked : ∀ target ∈ mshr.targets.list, locked target = false := by
    intro target member
    rw [← locked_core]
    exact free (core target) (mem_map_of_mem member)
  have splits : Splits mshr.targets.list ready left := by
    split at taken
    · exact takeFirst_eq_ok unlocked taken
    · rw [takeUnlocked_eq unlocked] at taken
      cases taken
      exact ⟨by rw [append_nil], by rw [filter_nil, append_nil]⟩
  constructor
  · rw [← cores_append]
    exact splits.1.map core
  · rw [filter_cores, filter_cores, filter_cores, ← cores_append, splits.2]

theorem step_moves {op : MshrOp} (ran : MSHR.step mshr op = .ok (next, labels)) : moves mshr next labels := by
  have unlabelled : ∀ {result : Except Abort MSHR}, unlabelled result = .ok (next, labels) → result = .ok next ∧ labels = [] := by
    intro result ran
    obtain ⟨mshr, returned, ran⟩ := of_bind ran
    cases ran
    exact ⟨returned, rfl⟩
  cases op with
  | allocateTarget => exact allocateTarget_moves ran
  | forward | pendingBelow =>
    cases ran
    exact moves_of_same rfl rfl ⟨rfl, rfl⟩
  | markInService =>
    obtain ⟨marked, rfl⟩ := unlabelled ran
    exact markInService_moves marked
  | clearDownstreamPending =>
    obtain ⟨cleared, rfl⟩ := unlabelled ran
    obtain ⟨_, cleared⟩ := of_require cleared
    have clears := clearTargets_moves cleared
    exact clears
  | handleSnoop => exact handleSnoop_moves ran
  | promoteReadable =>
    obtain ⟨promoted, rfl⟩ := unlabelled ran
    exact promoteReadable_moves promoted
  | promoteWritable =>
    obtain ⟨promoted, rfl⟩ := unlabelled ran
    exact promoteWritable_moves promoted
  | extractServiceableTargets => exact extract_moves ran
  | promoteDeferredTargets => exact promoteOrDeallocate_moves ran

/-- No target is lost or made; own targets keep their order. -/
structure Conserved (mshr : MSHR) (past : List MshrLabel) : Prop where
  whole : (cores (extracted past) ++ cores mshr.targets.list ++ cores mshr.deferredTargets.list).Perm (cores (added past))
  ordered : (cores (extracted past) ++ cores mshr.targets.list ++ cores mshr.deferredTargets.list).filter own = (cores (added past)).filter own

def Unlocked (labels : List MshrLabel) : Prop := ∀ target ∈ added labels, locked target = false

theorem added_append (first second : List MshrLabel) : added (first ++ second) = added first ++ added second := flatMap_append

theorem extracted_append (first second : List MshrLabel) : extracted (first ++ second) = extracted first ++ extracted second :=
  flatMap_append

structure Ledger (returned targets deferred entered : List Target) : Prop where
  whole : (returned ++ targets ++ deferred).Perm entered
  ordered : (returned ++ targets ++ deferred).filter own = entered.filter own
  unlocked : ∀ target ∈ targets ++ deferred, locked target = false

theorem unlocked_core (unlocked : Unlocked labels) {target : Target} (member : target ∈ added labels) : locked (core target) = false := by
  rw [locked_core]
  exact unlocked target member

theorem Moves.ledger {deferred targets' deferred' returned entered : List Target}
    (moved : Moves targets deferred labels targets' deferred') (unlocked : Unlocked labels) (ledger : Ledger returned targets deferred entered) :
    Ledger (returned ++ cores (extracted labels)) targets' deferred' (entered ++ cores (added labels)) := by
  obtain ⟨whole, ordered, waiting⟩ := ledger
  cases moved with
  | keep quiet =>
    rw [quiet.1, quiet.2, cores_nil, append_nil, append_nil]
    exact ⟨whole, ordered, waiting⟩
  | @arrive target source =>
    have free : locked (core target) = false := unlocked_core unlocked mem_cons_self
    rw [append_nil] at whole ordered waiting
    change Ledger (returned ++ []) _ [] (entered ++ [core target])
    rw [append_nil]
    refine ⟨?_, ?_, ?_⟩
    · rw [append_nil, ← append_assoc]
      exact whole.append_right [core target]
    · rw [append_nil, ← append_assoc, filter_append, ordered, filter_append]
    · intro other member
      rw [append_nil] at member
      obtain old | new := mem_concat.mp member
      · exact waiting other old
      · rw [new]
        exact free
  | @defer _ target source =>
    have free : locked (core target) = false := unlocked_core unlocked mem_cons_self
    change Ledger (returned ++ []) targets _ (entered ++ [core target])
    rw [append_nil]
    refine ⟨?_, ?_, ?_⟩
    · rw [← append_assoc]
      exact whole.append_right [core target]
    · rw [← append_assoc, filter_append, ordered, filter_append]
    · intro other member
      rw [← append_assoc] at member
      obtain old | new := mem_concat.mp member
      · exact waiting other old
      · rw [new]
        exact free
  | @snoop _ target rest source quiet =>
    have free : locked (core target) = false := unlocked_core unlocked mem_cons_self
    have foreign : [core target].filter own = [] := by simp [own, core, source]
    have enters : cores (added (.added target :: rest)) = [core target] := by
      change cores (target :: added rest) = _
      rw [quiet.1]
      rfl
    have leaves : cores (extracted (.added target :: rest)) = [] := by
      change cores (extracted rest) = _
      rw [quiet.2]
      rfl
    rw [enters, leaves, append_nil]
    refine ⟨?_, ?_, ?_⟩
    · have swap : (returned ++ (targets ++ [core target]) ++ deferred).Perm (returned ++ targets ++ deferred ++ [core target]) := by
        rw [← append_assoc, append_assoc (returned ++ targets), append_assoc (returned ++ targets)]
        exact perm_append_comm.append_left _
      exact swap.trans (whole.append_right [core target])
    · rw [filter_append, filter_append, filter_append, foreign, append_nil, filter_append entered, foreign,
        append_nil, ← ordered, filter_append, filter_append]
    · intro other member
      rw [append_assoc, mem_append, mem_append] at member
      obtain old | new | old := member
      · exact waiting other (mem_append_left _ old)
      · rw [mem_singleton.mp new]
        exact free
      · exact waiting other (mem_append_right _ old)
  | @promote promoted left =>
    change Ledger (returned ++ []) _ deferred' (entered ++ [])
    rw [append_nil, append_nil]
    rw [← append_assoc, append_assoc returned] at whole ordered
    rw [← append_assoc] at waiting
    exact ⟨whole, ordered, waiting⟩
  | @extract _ taken _ splits =>
    obtain ⟨parts, order⟩ := splits fun target member => waiting target (mem_append_left _ member)
    have leaves : cores (extracted [.extracted taken]) = cores taken := by
      change cores (taken ++ []) = _
      rw [append_nil]
    have enters : cores (added [.extracted taken]) = [] := rfl
    rw [leaves, enters, append_nil]
    refine ⟨?_, ?_, ?_⟩
    · rw [append_assoc returned]
      exact ((parts.append_left returned).append_right deferred).trans whole
    · rw [append_assoc returned, filter_append, filter_append, filter_append, order, ← ordered, filter_append, filter_append]
    · intro other member
      obtain left | late := mem_append.mp member
      · exact waiting other (mem_append_left _ (parts.mem_iff.mp (mem_append_right _ left)))
      · exact waiting other (mem_append_right _ late)

/-- Every target ever added is returned once or waits once, and what processors and the
prefetcher ask for is returned in the order in which it was added. -/
theorem targets_conserved {mshr allocated final : MSHR} {blkSize : Nat} {pkt : Packet} {above : Option Nat} {whenReady : Tick} {order : Nat}
    {allocOnFill : Bool} {first labels : List MshrLabel} {ops : List MshrOp}
    (unused : mshr.targets.list = [] ∧ mshr.deferredTargets.list = [])
    (allocates : mshr.allocate blkSize pkt above whenReady order allocOnFill = .ok (allocated, first))
    (ran : run MSHR.step allocated ops = .ok (final, labels)) (unlocked : Unlocked (first ++ labels)) :
    Conserved final (first ++ labels) := by
  have start : Unlocked first → Ledger (cores (extracted first)) (cores allocated.targets.list) (cores allocated.deferredTargets.list)
      (cores (added first)) := by
    obtain ⟨⟨targets, _⟩, added, allocates⟩ := of_bind allocates
    cases allocates
    intro free
    have here := add_eq_ok added
    change cores targets.list = cores mshr.targets.list ++ _ at here
    change Ledger [] (cores targets.list) (cores mshr.deferredTargets.list) _
    rw [here, unused.1, unused.2]
    refine ⟨?_, rfl, ?_⟩
    · exact .refl _
    · intro target member
      rw [mem_singleton.mp member]
      exact unlocked_core free mem_cons_self
  have reached : Unlocked (first ++ labels) → Ledger (cores (extracted (first ++ labels))) (cores final.targets.list)
      (cores final.deferredTargets.list) (cores (added (first ++ labels))) := by
    refine run_preserves (fun _ _ => True)
      (fun state past => Unlocked past → Ledger (cores (extracted past)) (cores state.targets.list) (cores state.deferredTargets.list)
        (cores (added past))) ?_ start (each_of_forall (fun _ _ _ => trivial) allocated) ran
    intro state past op next made kept _ taken free
    rw [extracted_append, added_append, cores_append, cores_append]
    unfold Unlocked at free
    rw [added_append] at free
    exact (step_moves taken).ledger (fun target member => free target (mem_append_right _ member))
      (kept fun target member => free target (mem_append_left _ member))
  obtain ⟨whole, ordered, _⟩ := reached unlocked
  exact ⟨whole, ordered⟩

def missPacket (cmd : MemCmd) (id : Nat) : Packet :=
  .ofRequest { id, paddr := 0x1000, size := 8, flags := 0 } cmd []

def missOps : List MshrOp :=
  [.markInService false, .allocateTarget (missPacket .readReq 2) none 0 1 true, .allocateTarget (missPacket .writeReq 3) none 0 2 true,
    .handleSnoop (missPacket .readExReq 4) none 3 10, .extractServiceableTargets .readRespWithInvalidate, .promoteDeferredTargets 20,
    .markInService false, .extractServiceableTargets .readExResp, .promoteDeferredTargets 30]

theorem targets_conserved_miss : ∃ allocated first final labels,
    MSHR.allocate {} 64 (missPacket .readReq 1) none 0 0 true = .ok (allocated, first) ∧ run MSHR.step allocated missOps = .ok (final, labels) ∧
      Conserved final (first ++ labels) ∧ (extracted (first ++ labels)).map (·.order) = [0, 3, 1, 2] := by
  have evaluated : (MSHR.allocate {} 64 (missPacket .readReq 1) none 0 0 true >>= fun allocation => run MSHR.step allocation.1 missOps >>= fun ended =>
      .ok ((added (allocation.2 ++ ended.2)).map locked, (extracted (allocation.2 ++ ended.2)).map (·.order))) =
      .ok ([false, false, false, false], [0, 3, 1, 2]) := by rfl
  obtain ⟨⟨allocated, first⟩, allocates, evaluated⟩ := of_bind evaluated
  obtain ⟨⟨final, labels⟩, ran, evaluated⟩ := of_bind evaluated
  rw [Except.ok.injEq, Prod.mk.injEq] at evaluated
  obtain ⟨locks, orders⟩ := evaluated
  have unlocked : Unlocked (first ++ labels) := by
    intro target member
    have found := mem_map_of_mem (f := locked) member
    rw [locks] at found
    simpa using found
  exact ⟨allocated, first, final, labels, allocates, ran, targets_conserved ⟨rfl, rfl⟩ allocates ran unlocked, orders⟩

end ImcGem5.Mem.Proofs.Mshr

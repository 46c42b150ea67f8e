import ImcGem5.Mem.CommandBus
import Mathlib.Algebra.Order.Group.Multiset

/-! How many commands a window of the command bus is granted. A search ends at windows that the
record has room for, but the record forgets a window as soon as its start has passed. -/

namespace ImcGem5.Mem.Proofs.CommandBus
open Lib List Multiset

inductive BusEvent where
  | prune
  | single (cmdTick : Tick)
  | multi (cmdTick maxMultiCmdSplit : Tick)
  deriving DecidableEq, Repr

structure BusCall where
  now : Tick
  event : BusEvent
  deriving DecidableEq, Repr

def BusEvent.requested : BusEvent → Option Tick
  | .prune => none
  | .single cmdTick => some cmdTick
  | .multi cmdTick _ => some cmdTick

def Timely (now : Tick) : List BusCall → Prop
  | [] => True
  | call :: rest => now ≤ call.now ∧ (∀ cmdTick ∈ call.event.requested, call.now ≤ cmdTick) ∧ Timely call.now rest

instance Timely.decidable : ∀ now history, Decidable (Timely now history)
  | _, [] => .isTrue trivial
  | now, call :: rest =>
    have := Timely.decidable call.now rest
    inferInstanceAs (Decidable (now ≤ call.now ∧ _ ∧ _))

structure BusRun where
  burstTicks : BurstTicks := 0
  granted : Multiset Tick := 0

section Windows

variable (bus : CommandBus)

theorem window_dvd (cmdTick : Tick) : bus.commandWindow ∣ bus.getBurstWindow cmdTick := Nat.dvd_sub_mod cmdTick

theorem window_of_dvd {tick : Tick} (aligned : bus.commandWindow ∣ tick) : bus.getBurstWindow tick = tick := by
  unfold CommandBus.getBurstWindow
  rw [Nat.mod_eq_zero_of_dvd aligned]
  rfl

theorem lt_window_add (cmdTick : Tick) : cmdTick < bus.getBurstWindow cmdTick + bus.commandWindow := by
  have whole : bus.getBurstWindow cmdTick + cmdTick % bus.commandWindow = cmdTick := Nat.sub_add_cancel (Nat.mod_le _ _)
  calc cmdTick = bus.getBurstWindow cmdTick + cmdTick % bus.commandWindow := whole.symm
    _ < _ := Nat.add_lt_add_left (Nat.mod_lt _ bus.window_pos) _

theorem add_window_le {tick later : Tick} (aligned : bus.commandWindow ∣ tick) (aligned' : bus.commandWindow ∣ later) (less : tick < later) :
    tick + bus.commandWindow ≤ later :=
  Nat.add_le_of_le_sub' less.le (Nat.le_of_dvd (Nat.sub_pos_of_lt less) (Nat.dvd_sub aligned' aligned))

theorem lt_of_window_lt {cmdTick tick : Tick} (aligned : bus.commandWindow ∣ tick) (later : bus.getBurstWindow cmdTick < tick) : cmdTick < tick :=
  (lt_window_add bus cmdTick).trans_le (add_window_le bus (window_dvd bus cmdTick) aligned later)

theorem splitOffset_dvd (maxMultiCmdSplit firstCmdOffset burstOffset : Tick) (aligned : bus.commandWindow ∣ burstOffset) :
    bus.commandWindow ∣ bus.splitOffset maxMultiCmdSplit firstCmdOffset burstOffset := by
  fun_induction CommandBus.splitOffset with
  | case1 _ _ ih => exact ih (Nat.dvd_add aligned (Nat.dvd_refl _))
  | case2 => exact aligned

theorem firstWindow_dvd (cmdTick maxMultiCmdSplit : Tick) : bus.commandWindow ∣ bus.firstWindow cmdTick maxMultiCmdSplit := by
  have offset := splitOffset_dvd bus maxMultiCmdSplit (cmdTick % bus.commandWindow) 0 (Nat.dvd_zero _)
  have window := window_dvd bus cmdTick
  refine Nat.dvd_sub window ?_
  obtain less | less := le_total (bus.splitOffset maxMultiCmdSplit (cmdTick % bus.commandWindow) 0) (bus.getBurstWindow cmdTick)
  · rw [min_eq_left less]
    exact offset
  · rw [min_eq_right less]
    exact window

theorem firstWindow_le (cmdTick maxMultiCmdSplit : Tick) : bus.firstWindow cmdTick maxMultiCmdSplit ≤ bus.getBurstWindow cmdTick := Nat.sub_le _ _

/-- A command that is asked for at a tick is granted one in a window of its own or of a later tick. -/
structure Served (requested cmdAt burstTick : Tick) : Prop where
  aligned : bus.commandWindow ∣ burstTick
  least : bus.getBurstWindow requested ≤ burstTick
  requested_le : requested ≤ cmdAt
  inside : bus.getBurstWindow cmdAt = burstTick

variable {bus} {burstTicks : BurstTicks} {requested cmdAt burstTick : Tick}

theorem served_window : Served bus requested requested (bus.getBurstWindow requested) :=
  ⟨window_dvd bus requested, le_rfl, le_rfl, rfl⟩

theorem Served.next (served : Served bus requested cmdAt burstTick) :
    Served bus requested (burstTick + bus.commandWindow) (burstTick + bus.commandWindow) := by
  have aligned := Nat.dvd_add served.aligned (Nat.dvd_refl _)
  refine ⟨aligned, served.least.trans (Nat.le_add_right _ _), ?_, window_of_dvd bus aligned⟩
  exact (lt_window_add bus requested).le.trans (Nat.add_le_add_right served.least _)

theorem pair_entered (burstTicks : BurstTicks) (cmdAt burstTick firstCmdTick : Tick) :
    firstCmdTick ::ₘ burstTick ::ₘ burstTicks = ↑(BusGrant.mk cmdAt burstTick (some firstCmdTick)).windows + burstTicks :=
  calc firstCmdTick ::ₘ burstTick ::ₘ burstTicks = burstTick ::ₘ firstCmdTick ::ₘ burstTicks := cons_swap _ _ _
    _ = ↑[burstTick, firstCmdTick] + burstTicks := by rw [← cons_coe, coe_singleton, cons_add, singleton_add]

theorem searchSingle_spec (served : Served bus requested cmdAt burstTick) :
    let grant := bus.searchSingle burstTicks cmdAt burstTick
    Served bus requested grant.cmdAt grant.burstTick ∧ grant.firstCmdTick = none ∧
      burstTicks.count grant.burstTick < bus.maxCmdsPerBurst := by
  fun_induction CommandBus.searchSingle with
  | case1 _ _ _ ih => exact ih served.next
  | case2 _ _ room => exact ⟨served, rfl, not_le.mp room⟩

theorem verifySingleCmd_windows (cmdTick : Tick) :
    (bus.verifySingleCmd burstTicks cmdTick).2.windows = [(bus.verifySingleCmd burstTicks cmdTick).2.burstTick] := by
  obtain ⟨_, alone, _⟩ := @searchSingle_spec bus burstTicks cmdTick _ _ served_window
  unfold BusGrant.windows
  rw [show (bus.verifySingleCmd burstTicks cmdTick).2.firstCmdTick = none from alone]
  rfl

/-- Where the search for a pair is, that began at the window of the tick asked for and at
`firstLeast`. -/
structure Paired (bus : CommandBus) (requested firstLeast : Tick) (search : PairSearch) : Prop where
  served : Served bus requested search.cmdAt search.burstTick
  aligned : bus.commandWindow ∣ search.firstCmdTick
  least : firstLeast ≤ search.firstCmdTick
  first_le : search.firstCmdTick ≤ search.burstTick

variable {maxMultiCmdSplit firstLeast : Tick} {search : PairSearch}

theorem paired_windows : Paired bus requested (bus.firstWindow requested maxMultiCmdSplit)
    ⟨requested, bus.getBurstWindow requested, bus.firstWindow requested maxMultiCmdSplit⟩ :=
  ⟨served_window, firstWindow_dvd bus requested maxMultiCmdSplit, le_rfl, firstWindow_le bus requested maxMultiCmdSplit⟩

theorem Paired.advance (paired : Paired bus requested firstLeast search)
    (blocked : ¬(bus.firstCanIssue burstTicks search ∧ bus.secondCanIssue burstTicks search)) :
    Paired bus requested firstLeast (bus.advance burstTicks maxMultiCmdSplit search) := by
  have next := paired.served.next
  have aligned := Nat.dvd_add paired.aligned (Nat.dvd_refl bus.commandWindow)
  have least := paired.least.trans (Nat.le_add_right _ bus.commandWindow)
  have together := Nat.add_le_add_right paired.first_le bus.commandWindow
  have parted := paired.first_le.trans (Nat.le_add_right _ bus.commandWindow)
  obtain ⟨same, shape⟩ | ⟨same, full, shape⟩ | ⟨apart, full, shape | shape⟩ | ⟨apart, full, shape⟩ :=
    bus.advance_cases maxMultiCmdSplit blocked
  · rw [shape]
    exact ⟨next, paired.aligned, paired.least, parted⟩
  · rw [shape]
    exact ⟨next, aligned, least, together⟩
  · rw [shape]
    exact ⟨next, paired.aligned, paired.least, parted⟩
  · rw [shape]
    exact ⟨next, aligned, least, together⟩
  · rw [shape]
    -- both are starts of windows, so the first command has a whole window to the second
    have before := lt_of_le_of_ne paired.first_le (Ne.symm apart)
    exact ⟨paired.served, aligned, least, add_window_le bus paired.aligned paired.served.aligned before⟩

theorem searchPair_spec (paired : Paired bus requested firstLeast search) :
    let found := bus.searchPair burstTicks maxMultiCmdSplit search
    Paired bus requested firstLeast found ∧ bus.firstCanIssue burstTicks found ∧ bus.secondCanIssue burstTicks found := by
  fun_induction CommandBus.searchPair with
  | case1 _ issue => exact ⟨paired, issue⟩
  | case2 _ blocked ih => exact ih (paired.advance blocked)

end Windows

section Runs

variable (bus : CommandBus) {cmdTick : Tick}

def step : Step BusRun BusCall (Tick × BusGrant) Empty := fun run call =>
  match call.event with
  | .prune => .ok ({ run with burstTicks := pruneBurstTick run.burstTicks call.now }, [])
  | .single cmdTick =>
    let (burstTicks, grant) := bus.verifySingleCmd run.burstTicks cmdTick
    .ok (⟨burstTicks, run.granted + grant.windows⟩, [(cmdTick, grant)])
  | .multi cmdTick maxMultiCmdSplit =>
    let (burstTicks, grant) := bus.verifyMultiCmd run.burstTicks cmdTick maxMultiCmdSplit
    .ok (⟨burstTicks, run.granted + grant.windows⟩, [(cmdTick, grant)])

/-- What every grant is, however full the windows are. -/
structure Proper (requested : Tick) (grant : BusGrant) : Prop where
  served : Served bus requested grant.cmdAt grant.burstTick
  first_le : ∀ first ∈ grant.firstCmdTick, bus.commandWindow ∣ first ∧ first ≤ grant.burstTick

/-- A window that looks as though it had room for one more, next to some others, has it. -/
def Room (run : BusRun) (others : Nat) (window : Tick) : Prop :=
  run.burstTicks.count window + others < bus.maxCmdsPerBurst → run.granted.count window + others < bus.maxCmdsPerBurst

/-- The windows up to the tick asked for have the room that they seem to have. -/
def Roomy (run : BusRun) (call : BusCall) : Prop :=
  match call.event with
  | .prune => True
  | .single cmdTick => Room bus run 0 (bus.getBurstWindow cmdTick)
  | .multi cmdTick maxMultiCmdSplit =>
    (∀ window, bus.firstWindow cmdTick maxMultiCmdSplit ≤ window → window ≤ bus.getBurstWindow cmdTick → Room bus run 0 window) ∧
      Room bus run 1 (bus.getBurstWindow cmdTick)

/-- The record has all grants in the windows from a tick on. -/
def Recorded (run : BusRun) (now : Tick) : Prop :=
  ∀ window, now ≤ window → run.burstTicks.count window = run.granted.count window

structure Kept (run : BusRun) (now : Tick) : Prop where
  recorded : Recorded run now
  bounded : ∀ window, run.granted.count window ≤ bus.maxCmdsPerBurst

variable {bus} {run : BusRun} {now : Tick} {call : BusCall}

theorem Recorded.prune (recorded : Recorded run now) (later : now ≤ call.now) :
    Recorded { run with burstTicks := pruneBurstTick run.burstTicks call.now } call.now := by
  intro window ahead
  have stays : ¬call.now > window := not_lt.mpr ahead
  rw [← recorded window (later.trans ahead)]
  exact count_filter_of_pos stays

theorem Recorded.room (recorded : Recorded run now) {others : Nat} {window : Tick} (ahead : now ≤ window) : Room bus run others window := by
  intro room
  rw [← recorded window ahead]
  exact room

theorem Recorded.grant (recorded : Recorded run now) {windows : List Tick} {burstTicks : BurstTicks}
    (entered : burstTicks = windows + run.burstTicks) : Recorded ⟨burstTicks, run.granted + windows⟩ now := by
  intro window ahead
  rw [entered, count_add, count_add, recorded window ahead]
  exact Nat.add_comm _ _

theorem Kept.grant (kept : Kept bus run now) (later : now ≤ call.now) {windows : List Tick} {burstTicks : BurstTicks}
    (entered : burstTicks = windows + run.burstTicks) (fits : ∀ window ∈ windows, run.granted.count window + windows.count window ≤ bus.maxCmdsPerBurst) :
    Kept bus ⟨burstTicks, run.granted + windows⟩ call.now := by
  refine ⟨fun window ahead => kept.recorded.grant entered window (later.trans ahead), fun window => ?_⟩
  rw [count_add, coe_count]
  by_cases member : window ∈ windows
  · exact fits window member
  · rw [count_eq_zero_of_not_mem member]
    exact kept.bounded window

theorem Served.ahead {cmdAt burstTick : Tick} (served : Served bus cmdTick cmdAt burstTick) (due : now ≤ cmdTick)
    (moved : burstTick ≠ bus.getBurstWindow cmdTick) : now ≤ burstTick :=
  due.trans (lt_of_window_lt bus served.aligned (lt_of_le_of_ne served.least (Ne.symm moved))).le

theorem Kept.single (kept : Kept bus run now) (later : now ≤ call.now) (due : call.now ≤ cmdTick)
    (roomy : Room bus run 0 (bus.getBurstWindow cmdTick)) :
    Kept bus ⟨(bus.verifySingleCmd run.burstTicks cmdTick).1, run.granted + (bus.verifySingleCmd run.burstTicks cmdTick).2.windows⟩ call.now := by
  obtain ⟨served, _, room⟩ := @searchSingle_spec bus run.burstTicks cmdTick _ _ (served_window)
  rw [verifySingleCmd_windows]
  refine kept.grant later rfl fun _ member => ?_
  obtain rfl := List.mem_singleton.mp member
  rw [List.count_singleton_self]
  by_cases here : (bus.verifySingleCmd run.burstTicks cmdTick).2.burstTick = bus.getBurstWindow cmdTick
  · rw [here]
    refine roomy ?_
    rw [← here]
    exact room
  · have seems : Room bus run 0 _ := kept.recorded.room (served.ahead (later.trans due) here)
    exact seems room

theorem Kept.multi (kept : Kept bus run now) (later : now ≤ call.now) {maxMultiCmdSplit : Tick} (due : call.now ≤ cmdTick)
    (roomy : ∀ window, bus.firstWindow cmdTick maxMultiCmdSplit ≤ window → window ≤ bus.getBurstWindow cmdTick → Room bus run 0 window)
    (roomy' : Room bus run 1 (bus.getBurstWindow cmdTick)) :
    Kept bus ⟨(bus.verifyMultiCmd run.burstTicks cmdTick maxMultiCmdSplit).1,
      run.granted + (bus.verifyMultiCmd run.burstTicks cmdTick maxMultiCmdSplit).2.windows⟩ call.now := by
  obtain ⟨paired, first, second⟩ := @searchPair_spec bus run.burstTicks cmdTick maxMultiCmdSplit _ _ (paired_windows)
  unfold CommandBus.verifyMultiCmd
  generalize bus.searchPair run.burstTicks maxMultiCmdSplit
    ⟨cmdTick, bus.getBurstWindow cmdTick, bus.firstWindow cmdTick maxMultiCmdSplit⟩ = search at paired first second ⊢
  have passed : now ≤ cmdTick := later.trans due
  have firstRoom : Room bus run 0 search.firstCmdTick := by
    by_cases inside : search.firstCmdTick ≤ bus.getBurstWindow cmdTick
    · exact roomy _ paired.least inside
    · exact kept.recorded.room (passed.trans (lt_of_window_lt bus paired.aligned (not_le.mp inside)).le)
  have secondRoom : Room bus run 0 search.burstTick ∧ Room bus run 1 search.burstTick := by
    by_cases here : search.burstTick = bus.getBurstWindow cmdTick
    · rw [here]
      exact ⟨roomy _ (firstWindow_le bus cmdTick maxMultiCmdSplit) le_rfl, roomy'⟩
    · have ahead := paired.served.ahead passed here
      exact ⟨kept.recorded.room ahead, kept.recorded.room ahead⟩
  have first : run.granted.count search.firstCmdTick < bus.maxCmdsPerBurst := firstRoom (of_decide_eq_true first)
  refine kept.grant later (pair_entered _ _ _ _) fun window member => ?_
  change run.granted.count window + [search.burstTick, search.firstCmdTick].count window ≤ bus.maxCmdsPerBurst
  have either : window = search.burstTick ∨ window = search.firstCmdTick := by simpa [BusGrant.windows] using member
  by_cases same : search.burstTick = search.firstCmdTick
  · have second : run.granted.count search.firstCmdTick + 1 < bus.maxCmdsPerBurst := by
      rw [← same]
      refine secondRoom.2 ?_
      simpa [CommandBus.secondCanIssue, same] using second
    obtain rfl : window = search.firstCmdTick := either.elim (·.trans same) id
    rw [same, List.count_cons_self, List.count_singleton_self]
    exact second
  · have second : run.granted.count search.burstTick < bus.maxCmdsPerBurst := by
      refine secondRoom.1 ?_
      simpa [CommandBus.secondCanIssue, same] using second
    obtain rfl | rfl := either
    · rw [List.count_cons_self, List.count_singleton, if_neg (by simpa using Ne.symm same)]
      exact second
    · rw [List.count_cons_of_ne same, List.count_singleton_self]
      exact first

theorem step_spec (later : now ≤ call.now) (due : ∀ cmdTick ∈ call.event.requested, call.now ≤ cmdTick) :
    ∃ next grants, step bus run call = .ok (next, grants) ∧ (∀ grant ∈ grants, Proper bus grant.1 grant.2) ∧
      next.granted = run.granted + grants.flatMap (·.2.windows) ∧
      (Kept bus run now → Roomy bus run call → Kept bus next call.now) := by
  obtain ⟨_, event⟩ := call
  cases event with
  | prune => exact ⟨_, [], rfl, nofun, (add_zero _).symm, fun kept _ => ⟨kept.recorded.prune later, kept.bounded⟩⟩
  | single cmdTick =>
    obtain ⟨served, alone, _⟩ := @searchSingle_spec bus run.burstTicks cmdTick _ _ (served_window)
    refine ⟨_, [_], rfl, ?_, ?_, fun kept roomy => kept.single later (due cmdTick rfl) roomy⟩
    · intro grant member
      rw [List.mem_singleton.mp member]
      refine ⟨served, fun first given => ?_⟩
      rw [alone] at given
      cases given
    · simp
  | multi cmdTick maxMultiCmdSplit =>
    obtain ⟨paired, _⟩ := @searchPair_spec bus run.burstTicks cmdTick maxMultiCmdSplit _ _ (paired_windows)
    refine ⟨_, [_], rfl, ?_, ?_, fun kept roomy => kept.multi later (due cmdTick rfl) roomy.1 roomy.2⟩
    · intro grant member
      rw [List.mem_singleton.mp member]
      refine ⟨paired.served, fun first given => ?_⟩
      cases given
      exact ⟨paired.aligned, paired.first_le⟩
    · simp

theorem run_spec {history : List BusCall} (timely : Timely now history) :
    ∃ final grants, Lib.run (step bus) run history = .ok (final, grants) ∧ (∀ grant ∈ grants, Proper bus grant.1 grant.2) ∧
      final.granted = run.granted + grants.flatMap (·.2.windows) ∧
      (Kept bus run now → Each (step bus) (Roomy bus) run history → ∀ window, final.granted.count window ≤ bus.maxCmdsPerBurst) := by
  induction history generalizing run now with
  | nil => exact ⟨run, [], rfl, nofun, (add_zero _).symm, fun kept _ => kept.bounded⟩
  | cons call _ ih =>
    obtain ⟨later, due, timely⟩ := timely
    obtain ⟨next, grants, ran, proper, counted, keeps⟩ := @step_spec bus run now call later due
    obtain ⟨final, others, finishes, propers, counted', bounded⟩ := @ih next call.now timely
    refine ⟨final, grants ++ others, run_cons.mpr ⟨next, grants, others, ran, finishes, rfl⟩, ?_, ?_, fun kept each => ?_⟩
    · intro grant member
      obtain here | there := mem_append.mp member
      · exact proper grant here
      · exact propers grant there
    · rw [counted', counted, flatMap_append, ← coe_add, add_assoc]
    · exact bounded (keeps kept each.1) (each.cons ran)

/-- Every request is granted windows, and no window is granted more commands than it may hold, as long as no request is made while a
window before it seems to have room that is gone. -/
theorem bandwidth (bus : CommandBus) (history : List BusCall) (timely : Timely 0 history) :
    ∃ final grants, Lib.run (step bus) {} history = .ok (final, grants) ∧ (∀ grant ∈ grants, Proper bus grant.1 grant.2) ∧
      (Each (step bus) (Roomy bus) {} history → ∀ window, (grants.flatMap (·.2.windows)).count window ≤ bus.maxCmdsPerBurst) := by
  obtain ⟨final, grants, ran, proper, counted, bounded⟩ := @run_spec bus {} 0 history timely
  refine ⟨final, grants, ran, proper, fun each window => ?_⟩
  have kept : Kept bus {} 0 := ⟨fun _ _ => rfl, fun _ => Nat.zero_le _⟩
  have count := bounded kept each window
  rw [counted, zero_add, coe_count] at count
  exact count

def BusCall.pruned (call : BusCall) (before : Tick) : Tick :=
  match call.event with
  | .prune => call.now
  | _ => before

/-- The earliest window that a request may be granted. -/
def earliest (bus : CommandBus) : BusEvent → Option Tick
  | .prune => none
  | .single cmdTick => some (bus.getBurstWindow cmdTick)
  | .multi cmdTick maxMultiCmdSplit => some (bus.firstWindow cmdTick maxMultiCmdSplit)

/-- No request may be granted a window that starts before the latest prune. -/
def Spared (bus : CommandBus) : Tick → List BusCall → Prop
  | _, [] => True
  | pruned, call :: rest => (∀ window ∈ earliest bus call.event, pruned ≤ window) ∧ Spared bus (call.pruned pruned) rest

section Spared
variable {pruned : Tick}

theorem Recorded.step (recorded : Recorded run pruned) (later : pruned ≤ call.now) {next : BusRun} {grants : List (Tick × BusGrant)}
    (ran : step bus run call = .ok (next, grants)) : Recorded next (call.pruned pruned) := by
  obtain ⟨tick, event⟩ := call
  cases event with
  | prune =>
    cases ran
    exact recorded.prune later
  | single cmdTick =>
    cases ran
    have entered : (bus.verifySingleCmd run.burstTicks cmdTick).1 = (bus.verifySingleCmd run.burstTicks cmdTick).2.windows + run.burstTicks := by
      rw [verifySingleCmd_windows]
      rfl
    exact recorded.grant entered
  | multi =>
    cases ran
    exact recorded.grant (pair_entered _ _ _ _)

theorem Recorded.roomy (recorded : Recorded run pruned) (spared : ∀ window ∈ earliest bus call.event, pruned ≤ window) :
    Roomy bus run call := by
  obtain ⟨_, event⟩ := call
  cases event with
  | prune => trivial
  | single => exact recorded.room (spared _ rfl)
  | multi cmdTick maxMultiCmdSplit =>
    have first := spared _ rfl
    exact ⟨fun window least _ => recorded.room (first.trans least), recorded.room (first.trans (firstWindow_le bus _ _))⟩

theorem Spared.roomy {history : List BusCall} (timely : Timely now history) (passed : pruned ≤ now) (recorded : Recorded run pruned)
    (spared : Spared bus pruned history) : Each (step bus) (Roomy bus) run history := by
  induction history generalizing run now pruned with
  | nil => trivial
  | cons call rest ih =>
    obtain ⟨later, due, timely⟩ := timely
    obtain ⟨next, grants, ran, _⟩ := @step_spec bus run now call later due
    refine ⟨recorded.roomy spared.1, ?_⟩
    rw [ran]
    refine ih timely ?_ (recorded.step (passed.trans later) ran) spared.2
    unfold BusCall.pruned
    split
    · exact le_rfl
    · exact passed.trans later

end Spared

/-- Whether the windows hold is decided by the calls alone: they do while every prune comes before the
windows that later requests may be granted. -/
theorem bandwidth_of_spared (history : List BusCall) (timely : Timely 0 history) (spared : Spared bus 0 history) :
    ∃ final grants, Lib.run (step bus) {} history = .ok (final, grants) ∧
      ∀ window, (grants.flatMap (·.2.windows)).count window ≤ bus.maxCmdsPerBurst := by
  obtain ⟨final, grants, ran, _, counted, bounded⟩ := @run_spec bus {} 0 history timely
  have recorded : Recorded {} 0 := fun _ _ => rfl
  refine ⟨final, grants, ran, fun window => ?_⟩
  have count := bounded ⟨recorded, fun _ => Nat.zero_le _⟩ (spared.roomy timely le_rfl recorded) window
  rw [counted, zero_add, coe_count] at count
  exact count

def narrow : CommandBus := ⟨10, 1, by decide, by decide⟩

def asked (between : List BusCall) : List BusCall := ⟨0, .single 5⟩ :: between ++ [⟨5, .single 5⟩]

theorem step_single (room : run.burstTicks.count (bus.getBurstWindow cmdTick) < bus.maxCmdsPerBurst) : step bus run ⟨now, .single cmdTick⟩ =
      .ok (⟨bus.getBurstWindow cmdTick ::ₘ run.burstTicks, run.granted + [bus.getBurstWindow cmdTick]⟩,
        [(cmdTick, { cmdAt := cmdTick, burstTick := bus.getBurstWindow cmdTick })]) := by
  have found : bus.searchSingle run.burstTicks cmdTick (bus.getBurstWindow cmdTick) =
      { cmdAt := cmdTick, burstTick := bus.getBurstWindow cmdTick } := by
    rw [CommandBus.searchSingle, if_neg (not_le.mpr room)]
  unfold step CommandBus.verifySingleCmd
  dsimp only
  rw [found]
  rfl

/-- The window from tick 0 is forgotten at tick 5 and granted a second command. -/
theorem bandwidth_exceeded : Timely 0 (asked [⟨5, .prune⟩]) ∧
    ∃ final grants, Lib.run (step narrow) {} (asked [⟨5, .prune⟩]) = .ok (final, grants) ∧
      narrow.maxCmdsPerBurst < (grants.flatMap (·.2.windows)).count 0 := by
  have first : step narrow {} ⟨0, .single 5⟩ = .ok (⟨{0}, {0}⟩, [(5, ⟨5, 0, none⟩)]) := step_single (by decide)
  have forgets : step narrow ⟨{0}, {0}⟩ ⟨5, .prune⟩ = .ok (⟨0, {0}⟩, []) := rfl
  have second : step narrow ⟨0, {0}⟩ ⟨5, .single 5⟩ = .ok (⟨{0}, {0, 0}⟩, [(5, ⟨5, 0, none⟩)]) := step_single (by decide)
  refine ⟨by decide, ⟨{0}, {0, 0}⟩, [(5, ⟨5, 0, none⟩), (5, ⟨5, 0, none⟩)], ?_, by decide⟩
  exact run_cons.mpr ⟨_, _, _, first, run_cons.mpr ⟨_, _, _, forgets, run_cons.mpr ⟨_, _, _, second, rfl, rfl⟩, rfl⟩, rfl⟩

theorem bandwidth_asked : ∃ final grants, Lib.run (step narrow) {} (asked []) = .ok (final, grants) ∧
    (∀ grant ∈ grants, Proper narrow grant.1 grant.2) ∧ ∀ window, (grants.flatMap (·.2.windows)).count window ≤ 1 := by
  obtain ⟨final, grants, ran, proper, bounded⟩ := bandwidth narrow (asked []) (by decide)
  refine ⟨final, grants, ran, proper, bounded ⟨id, ?_⟩⟩
  have first : step narrow {} ⟨0, .single 5⟩ = .ok (⟨{0}, {0}⟩, [(5, ⟨5, 0, none⟩)]) := step_single (by decide)
  rw [first]
  refine ⟨fun room => absurd room (by decide), ?_⟩
  split
  · trivial
  · trivial

end Runs

end ImcGem5.Mem.Proofs.CommandBus

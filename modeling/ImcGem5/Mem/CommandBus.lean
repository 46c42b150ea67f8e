import ImcGem5.Lib.Runs
import ImcGem5.Mem.Packet
import Mathlib.Data.Multiset.Count
import Mathlib.Data.Multiset.Filter

/-! The command bus of the memory controller: commands are recorded by the window they are issued
in, and go to a later one when theirs is full. Ticks do not wrap around. -/

namespace ImcGem5.Mem
open Lib

/-- The commands issued, each as the start of its window. -/
abbrev BurstTicks := Multiset Tick

/-- The entries that a search for a later window may still meet. -/
def BurstTicks.ahead (burstTicks : BurstTicks) (tick : Tick) : Nat := (burstTicks.filter (tick ≤ ·)).card

theorem BurstTicks.ahead_anti (burstTicks : BurstTicks) {tick later : Tick} (least : tick ≤ later) :
    burstTicks.ahead later ≤ burstTicks.ahead tick :=
  Multiset.card_le_card (Multiset.monotone_filter_right _ fun _ above => least.trans above)

theorem BurstTicks.ahead_lt {burstTicks : BurstTicks} {tick later : Tick} (less : tick < later) (recorded : 0 < burstTicks.count tick) :
    burstTicks.ahead later < burstTicks.ahead tick := by
  have member : tick ∈ burstTicks := Multiset.count_pos.mp recorded
  refine Multiset.card_lt_card (lt_of_le_of_ne (Multiset.monotone_filter_right _ fun _ above => less.le.trans above) fun same => ?_)
  have found : tick ∈ burstTicks.filter (later ≤ ·) := by
    rw [same]
    exact Multiset.mem_filter.mpr ⟨member, le_rfl⟩
  exact less.not_ge (Multiset.mem_filter.mp found).2

def pruneBurstTick (burstTicks : BurstTicks) (curTick : Tick) : BurstTicks := burstTicks.filter fun tick => ¬curTick > tick

/-- The controller's command_window and the max_cmds_per_burst of its interface. -/
structure CommandBus where
  commandWindow : Tick
  maxCmdsPerBurst : Nat
  window_pos : 0 < commandWindow
  cmds_pos : 0 < maxCmdsPerBurst

/-- The tick a command is issued at, and the window it takes, or the windows of both commands. -/
structure BusGrant where
  cmdAt : Tick
  burstTick : Tick
  firstCmdTick : Option Tick := none
  deriving DecidableEq, Repr

def BusGrant.windows (grant : BusGrant) : List Tick := grant.burstTick :: grant.firstCmdTick.toList

/-- Where the loop of verifyMultiCmd is. -/
structure PairSearch where
  cmdAt : Tick
  burstTick : Tick
  firstCmdTick : Tick
  deriving DecidableEq, Repr

namespace CommandBus

variable (bus : CommandBus)

def getBurstWindow (cmdTick : Tick) : Tick :=
  let burstOffset := cmdTick % bus.commandWindow
  cmdTick - burstOffset

def searchSingle (burstTicks : BurstTicks) (cmdAt burstTick : Tick) : BusGrant :=
  if bus.maxCmdsPerBurst ≤ burstTicks.count burstTick then
    searchSingle burstTicks (burstTick + bus.commandWindow) (burstTick + bus.commandWindow)
  else { cmdAt, burstTick }
termination_by burstTicks.ahead burstTick
decreasing_by
  next full => exact BurstTicks.ahead_lt (Nat.lt_add_of_pos_right bus.window_pos) (bus.cmds_pos.trans_le full)

def verifySingleCmd (burstTicks : BurstTicks) (cmdTick : Tick) : BurstTicks × BusGrant :=
  let grant := bus.searchSingle burstTicks cmdTick (bus.getBurstWindow cmdTick)
  (grant.burstTick ::ₘ burstTicks, grant)

def splitOffset (maxMultiCmdSplit firstCmdOffset burstOffset : Tick) : Tick :=
  if maxMultiCmdSplit > firstCmdOffset + burstOffset then
    splitOffset maxMultiCmdSplit firstCmdOffset (burstOffset + bus.commandWindow)
  else burstOffset
termination_by maxMultiCmdSplit - (firstCmdOffset + burstOffset)
decreasing_by
  next short => exact Nat.sub_lt_sub_left short (Nat.add_lt_add_left (Nat.lt_add_of_pos_right bus.window_pos) _)

def firstCanIssue (burstTicks : BurstTicks) (search : PairSearch) : Bool :=
  burstTicks.count search.firstCmdTick < bus.maxCmdsPerBurst

def secondCanIssue (burstTicks : BurstTicks) (search : PairSearch) : Bool :=
  let secondCmdCount := if search.burstTick = search.firstCmdTick then burstTicks.count search.firstCmdTick + 1
    else burstTicks.count search.burstTick
  secondCmdCount < bus.maxCmdsPerBurst

/-- The body of the second loop of verifyMultiCmd, for commands that cannot both issue. -/
def advance (burstTicks : BurstTicks) (maxMultiCmdSplit : Tick) (search : PairSearch) : PairSearch :=
  let sameBurst := search.burstTick == search.firstCmdTick
  let secondCanIssue := bus.secondCanIssue burstTicks search
  let cmdAt := if secondCanIssue then search.cmdAt else search.burstTick + bus.commandWindow
  let burstTick := if secondCanIssue then search.burstTick else search.burstTick + bus.commandWindow
  let gapViolated := !sameBurst && decide (burstTick - search.firstCmdTick > maxMultiCmdSplit)
  let firstCmdTick := if !bus.firstCanIssue burstTicks search || (!secondCanIssue && gapViolated)
    then search.firstCmdTick + bus.commandWindow else search.firstCmdTick
  { cmdAt, burstTick, firstCmdTick }

/-- How far a search can still go. Two commands in one window may part once more. -/
def rank (burstTicks : BurstTicks) (search : PairSearch) : Nat :=
  2 * (burstTicks.ahead search.burstTick + burstTicks.ahead search.firstCmdTick) +
    if search.burstTick = search.firstCmdTick then 1 else 0

/-- Either the commands part, or they leave a full window together, or the one of them that has a full window moves. The first
follows the second when it would be left too far behind. -/
theorem advance_cases {burstTicks : BurstTicks} (maxMultiCmdSplit : Tick) {search : PairSearch}
    (blocked : ¬(bus.firstCanIssue burstTicks search ∧ bus.secondCanIssue burstTicks search)) :
    let next := bus.advance burstTicks maxMultiCmdSplit search
    let burstTick := search.burstTick + bus.commandWindow
    let firstCmdTick := search.firstCmdTick + bus.commandWindow
    (search.burstTick = search.firstCmdTick ∧ next = ⟨burstTick, burstTick, search.firstCmdTick⟩) ∨
    (search.burstTick = search.firstCmdTick ∧ bus.maxCmdsPerBurst ≤ burstTicks.count search.firstCmdTick ∧
      next = ⟨burstTick, burstTick, firstCmdTick⟩) ∨
    (search.burstTick ≠ search.firstCmdTick ∧ bus.maxCmdsPerBurst ≤ burstTicks.count search.burstTick ∧
      (next = ⟨burstTick, burstTick, search.firstCmdTick⟩ ∨ next = ⟨burstTick, burstTick, firstCmdTick⟩)) ∨
    (search.burstTick ≠ search.firstCmdTick ∧ bus.maxCmdsPerBurst ≤ burstTicks.count search.firstCmdTick ∧
      next = ⟨search.cmdAt, search.burstTick, firstCmdTick⟩) := by
  intro next burstTick firstCmdTick
  have shape : next = bus.advance burstTicks maxMultiCmdSplit search := rfl
  unfold advance at shape
  by_cases same : search.burstTick = search.firstCmdTick
  · by_cases first : bus.firstCanIssue burstTicks search
    · have second : bus.secondCanIssue burstTicks search = false := Bool.eq_false_iff.mpr fun second => blocked ⟨first, second⟩
      left
      refine ⟨same, ?_⟩
      rw [shape]
      simp [same, first, second, burstTick]
    · have full : bus.maxCmdsPerBurst ≤ burstTicks.count search.firstCmdTick := by
        simpa [firstCanIssue] using first
      have second : bus.secondCanIssue burstTicks search = false := by
        simp only [secondCanIssue, if_pos same, decide_eq_false_iff_not, not_lt]
        exact full.trans (Nat.le_succ _)
      refine .inr (.inl ⟨same, full, ?_⟩)
      rw [shape]
      simp [same, first, second, burstTick, firstCmdTick]
  · by_cases second : bus.secondCanIssue burstTicks search
    · have first : bus.firstCanIssue burstTicks search = false := Bool.eq_false_iff.mpr fun first => blocked ⟨first, second⟩
      refine .inr (.inr (.inr ⟨same, by simpa [firstCanIssue] using first, ?_⟩))
      rw [shape]
      simp [first, second, firstCmdTick]
    · refine .inr (.inr (.inl ⟨same, by simpa [secondCanIssue, same] using second, ?_⟩))
      rw [shape]
      simp only [second, Bool.false_eq_true, if_false]
      split
      · exact .inr rfl
      · exact .inl rfl

theorem rank_advance {burstTicks : BurstTicks} {maxMultiCmdSplit : Tick} {search : PairSearch}
    (blocked : ¬(bus.firstCanIssue burstTicks search ∧ bus.secondCanIssue burstTicks search)) :
    rank burstTicks (bus.advance burstTicks maxMultiCmdSplit search) < rank burstTicks search := by
  have moves : ∀ tick : Tick, tick < tick + bus.commandWindow := fun tick => Nat.lt_add_of_pos_right bus.window_pos
  have anti : ∀ tick, burstTicks.ahead (tick + bus.commandWindow) ≤ burstTicks.ahead tick := fun tick => burstTicks.ahead_anti (moves tick).le
  have leaves : ∀ {tick}, bus.maxCmdsPerBurst ≤ burstTicks.count tick → burstTicks.ahead (tick + bus.commandWindow) < burstTicks.ahead tick :=
    fun full => BurstTicks.ahead_lt (moves _) (bus.cmds_pos.trans_le full)
  have second := anti search.burstTick
  have first := anti search.firstCmdTick
  unfold rank
  obtain ⟨same, shape⟩ | ⟨same, full, shape⟩ | ⟨apart, full, shape | shape⟩ | ⟨apart, full, shape⟩ :=
    bus.advance_cases maxMultiCmdSplit blocked
  · have parted : search.burstTick + bus.commandWindow ≠ search.firstCmdTick := same ▸ (moves _).ne'
    rw [shape, if_pos same, if_neg parted]
    dsimp only
    omega
  · have less := leaves full
    rw [shape, if_pos same, if_pos (by rw [same])]
    dsimp only
    omega
  · have less := leaves full
    rw [shape, if_neg apart]
    dsimp only
    split <;> omega
  · have less := leaves full
    rw [shape, if_neg apart]
    dsimp only
    split <;> omega
  · have less := leaves full
    rw [shape, if_neg apart]
    dsimp only
    split <;> omega

/-- The second loop of verifyMultiCmd. -/
def searchPair (burstTicks : BurstTicks) (maxMultiCmdSplit : Tick) (search : PairSearch) : PairSearch :=
  if bus.firstCanIssue burstTicks search ∧ bus.secondCanIssue burstTicks search then search
  else searchPair burstTicks maxMultiCmdSplit (bus.advance burstTicks maxMultiCmdSplit search)
termination_by rank burstTicks search
decreasing_by
  next blocked => exact bus.rank_advance blocked

/-- The earliest window that verifyMultiCmd considers for the first command. -/
def firstWindow (cmdTick maxMultiCmdSplit : Tick) : Tick :=
  let burstTick := bus.getBurstWindow cmdTick
  let firstCmdOffset := cmdTick % bus.commandWindow
  let burstOffset := bus.splitOffset maxMultiCmdSplit firstCmdOffset 0
  burstTick - min burstOffset burstTick

def verifyMultiCmd (burstTicks : BurstTicks) (cmdTick maxMultiCmdSplit : Tick) : BurstTicks × BusGrant :=
  let search := bus.searchPair burstTicks maxMultiCmdSplit
    ⟨cmdTick, bus.getBurstWindow cmdTick, bus.firstWindow cmdTick maxMultiCmdSplit⟩
  (search.firstCmdTick ::ₘ search.burstTick ::ₘ burstTicks, ⟨search.cmdAt, search.burstTick, some search.firstCmdTick⟩)

end CommandBus

end ImcGem5.Mem

import ImcGem5.Mem.MemChecker
import Mathlib.Order.Monotone.Basic

/-! The memory checker raises no false alarm. If the completed reads and writes of a byte can
be given points in time at which they seem to happen at once, every read is told to be right:
each write that the checker no longer considers is followed by another one before the read. -/

namespace ImcGem5.Mem.Proofs.MemChecker
open Lib List ByteTracker

abbrev History := List CheckCall

section Histories

def readStart : CheckEvent → Option Serial
  | .startRead serial => some serial
  | _ => none

def writeStart : CheckEvent → Option Serial
  | .startWrite serial _ => some serial
  | _ => none

def started (event : CheckEvent) : Option Serial := (readStart event).or (writeStart event)

def ended : CheckEvent → Option Serial
  | .completeRead serial _ => some serial
  | .completeWrite serial => some serial
  | .abortWrite serial => some serial
  | _ => none

section Events
variable {event : CheckEvent} {serial : Serial}

theorem readStart_eq (starts : readStart event = some serial) : event = .startRead serial := by
  cases event with
  | startRead =>
    cases starts
    rfl
  | startWrite | completeRead | completeWrite | abortWrite => cases starts

theorem writeStart_eq (starts : writeStart event = some serial) : ∃ data, event = .startWrite serial data := by
  cases event with
  | startWrite _ data =>
    cases starts
    exact ⟨data, rfl⟩
  | startRead | completeRead | completeWrite | abortWrite => cases starts

theorem started_read (starts : readStart event = some serial) : started event = some serial := by
  rw [readStart_eq starts]
  rfl

theorem started_write (starts : writeStart event = some serial) : started event = some serial := by
  obtain ⟨_, rfl⟩ := writeStart_eq starts
  rfl

end Events

def Legal (past : History) (call : CheckCall) : Prop :=
  (∀ earlier ∈ past, earlier.now < call.now) ∧ call.now ≤ TICK_FUTURE ∧
  match call.event with
  | .startRead serial => ∀ earlier ∈ past, ∀ other ∈ started earlier.event, other < serial
  | .startWrite serial _ => ∀ earlier ∈ past, ∀ other ∈ started earlier.event, other < serial
  | .completeRead serial _ =>
    (∃ earlier ∈ past, readStart earlier.event = some serial) ∧ ∀ earlier ∈ past, ended earlier.event ≠ some serial
  | .completeWrite serial =>
    (∃ earlier ∈ past, writeStart earlier.event = some serial) ∧ ∀ earlier ∈ past, ended earlier.event ≠ some serial
  | .abortWrite serial =>
    (∃ earlier ∈ past, writeStart earlier.event = some serial) ∧ ∀ earlier ∈ past, ended earlier.event ≠ some serial

instance (past : History) (call : CheckCall) : Decidable (Legal past call) := by
  unfold Legal
  cases call.event <;> infer_instance

def Formed (past : History) : History → Prop
  | [] => True
  | call :: rest => Legal past call ∧ Formed (past ++ [call]) rest

instance Formed.decidable : ∀ past rest : History, Decidable (Formed past rest)
  | _, [] => .isTrue trivial
  | past, call :: rest =>
    have := Formed.decidable (past ++ [call]) rest
    inferInstanceAs (Decidable (_ ∧ _))

def Before (earlier later : CheckCall) : Prop :=
  earlier.now < later.now ∧ ∀ first second, started earlier.event = some first → started later.event = some second → first < second

def Numbered (past : History) : CheckEvent → Prop
  | .startRead serial => ∀ earlier ∈ past, ∀ other ∈ started earlier.event, other < serial
  | .startWrite serial _ => ∀ earlier ∈ past, ∀ other ∈ started earlier.event, other < serial
  | .completeRead serial _ =>
    (∃ earlier ∈ past, readStart earlier.event = some serial) ∧ ∀ earlier ∈ past, ended earlier.event ≠ some serial
  | .completeWrite serial =>
    (∃ earlier ∈ past, writeStart earlier.event = some serial) ∧ ∀ earlier ∈ past, ended earlier.event ≠ some serial
  | .abortWrite serial =>
    (∃ earlier ∈ past, writeStart earlier.event = some serial) ∧ ∀ earlier ∈ past, ended earlier.event ≠ some serial

variable {past : History} {serial : Serial}

theorem Numbered.fresh {event : CheckEvent} (numbered : Numbered past event)
    (starts : started event = some serial) : ∀ earlier ∈ past, ∀ other, started earlier.event = some other → other < serial := by
  cases event with
  | startRead | startWrite =>
    cases starts
    exact numbered
  | completeRead | completeWrite | abortWrite => cases starts

theorem Numbered.paired {event : CheckEvent} (numbered : Numbered past event) (ends : ended event = some serial) :
    (∃ earlier ∈ past, started earlier.event = some serial) ∧ ∀ earlier ∈ past, ended earlier.event ≠ some serial := by
  cases event with
  | startRead => cases ends
  | startWrite => cases ends
  | completeRead =>
    cases ends
    exact numbered.imp_left fun ⟨earlier, member, starts⟩ => ⟨earlier, member, started_read starts⟩
  | completeWrite | abortWrite =>
    cases ends
    exact numbered.imp_left fun ⟨earlier, member, starts⟩ => ⟨earlier, member, started_write starts⟩

theorem Legal.before {call earlier : CheckCall} (legal : Legal past call) (member : earlier ∈ past) : Before earlier call := by
  refine ⟨legal.1 earlier member, ?_⟩
  intro first second one two
  exact Numbered.fresh legal.2.2 two earlier member first one

theorem Formed.pairwise {rest : History} (formed : Formed past rest) (ordered : past.Pairwise Before) :
    (past ++ rest).Pairwise Before := by
  induction rest generalizing past with
  | nil => rwa [append_nil]
  | cons call _ ih =>
    have longer : (past ++ [call]).Pairwise Before := by
      refine pairwise_concat.mpr ⟨ordered, ?_⟩
      intro earlier member
      exact formed.1.before member
    have all := ih formed.2 longer
    rwa [append_assoc] at all

variable {history : History} {first second : CheckCall}

section

variable (ordered : history.Pairwise Before)
include ordered

theorem order_of_mem (one : first ∈ history) (two : second ∈ history) : first = second ∨ Before first second ∨ Before second first := by
  induction history with
  | nil => cases one
  | cons _ _ ih =>
    obtain ⟨head, tail⟩ := pairwise_cons.mp ordered
    rcases mem_cons.mp one with rfl | later
    · rcases mem_cons.mp two with rfl | other
      · exact .inl rfl
      · exact .inr (.inl (head second other))
    · rcases mem_cons.mp two with rfl | other
      · exact .inr (.inr (head first later))
      · exact ih tail later other

theorem eq_of_now (one : first ∈ history) (two : second ∈ history) (same : first.now = second.now) : first = second := by
  rcases order_of_mem ordered one two with equal | before | before
  · exact equal
  · exact absurd same before.1.ne
  · exact absurd same before.1.ne'

theorem eq_of_started (one : first ∈ history) (two : second ∈ history)
    (starts : started first.event = some serial) (other : started second.event = some serial) : first = second := by
  rcases order_of_mem ordered one two with equal | before | before
  · exact equal
  · exact absurd (before.2 _ _ starts other) (lt_irrefl serial)
  · exact absurd (before.2 _ _ other starts) (lt_irrefl serial)

end

end Histories

section Points

variable {τ : Type} [LinearOrder τ]

/-- The completed reads and writes, and some writes that are pending, seem to happen at points
between their start and their completion: a read has the value of the latest write before it,
or an initial one. The points may lie between ticks, and no two writes have the same one. -/
structure Linearization (time : Tick → τ) (history : History) where
  writePoint : Serial → Option τ
  readPoint : Serial → τ
  initial : Byte
  written : ∀ serial point, writePoint serial = some point → ∃ now data, ⟨now, .startWrite serial data⟩ ∈ history
  afterStart : ∀ now serial data point, ⟨now, .startWrite serial data⟩ ∈ history → writePoint serial = some point → time now ≤ point
  completed : ∀ now serial, ⟨now, .completeWrite serial⟩ ∈ history → ∃ point, writePoint serial = some point ∧ point ≤ time now
  aborted : ∀ now serial, ⟨now, .abortWrite serial⟩ ∈ history → writePoint serial = none
  distinct : ∀ one two point, writePoint one = some point → writePoint two = some point → one = two
  readAfter : ∀ now serial later data, ⟨now, .startRead serial⟩ ∈ history → ⟨later, .completeRead serial data⟩ ∈ history →
    time now ≤ readPoint serial
  readBefore : ∀ now serial data, ⟨now, .completeRead serial data⟩ ∈ history → readPoint serial ≤ time now
  value : ∀ now serial data, ⟨now, .completeRead serial data⟩ ∈ history →
    (∃ write point start, writePoint write = some point ∧ ⟨start, .startWrite write data⟩ ∈ history ∧ point < readPoint serial ∧
      ∀ other later, writePoint other = some later → later < readPoint serial → later ≤ point) ∨
    data = initial ∧ ∀ other later, writePoint other = some later → ¬later < readPoint serial

end Points

section Scans

theorem lastCompleted_spec {α : Type} (complete : α → Tick) (before : Tick) (reversed later : List α) (some : reversed ≠ []) :
    ∃ earlier found rest, lastCompletedTransaction complete before reversed later = found :: rest ∧
      reversed.reverse ++ later = earlier ++ found :: rest ∧ (earlier = [] ∨ complete found < before) := by
  induction reversed generalizing later with
  | nil => exact absurd rfl some
  | cons entry others ih =>
    cases others with
    | nil => exact ⟨[], entry, later, rfl, rfl, .inl rfl⟩
    | cons next others =>
      by_cases late : before ≤ complete entry
      · obtain ⟨earlier, found, rest, same, split, fits⟩ := ih (entry :: later) (by simp)
        refine ⟨earlier, found, rest, ?_, ?_, fits⟩
        · rw [lastCompletedTransaction, if_pos late, same]
          simp
        · rw [← split]
          simp
      · refine ⟨(next :: others).reverse, entry, later, ?_, ?_, .inr (not_le.mp late)⟩
        · rw [lastCompletedTransaction, if_neg late]
          simp
        · simp

/-- What a scan of `writes` has ruled out. -/
structure Scanned (lastObs : Transaction) (start : Tick) (data : Byte) (writes : List Transaction) (scan final : Scan) : Prop where
  differs : ∀ write ∈ writes, write.complete < lastObs.start ∨ write.data ≠ data
  overlaps : final.wcOverlap = true → ∀ write ∈ writes, write.complete < lastObs.start ∨ start < write.complete
  ends : final.wcOverlap = false → scan.wcOverlap = false ∨ ∃ write ∈ writes, write.complete ≤ start
  outdates : final.lastObsValid = false → scan.lastObsValid = false ∨
    final.expected ≠ [] ∧ final.wcOverlap = false ∧ ∃ write ∈ writes, write.complete ≤ start ∧ lastObs.complete < write.start
  grows : scan.expected ≠ [] → final.expected ≠ []
  stays : scan.wcOverlap = false → final.wcOverlap = false
  keeps : final.lastObsValid = true → scan.lastObsValid = true

variable {lastObs : Transaction} {start : Tick} {data : Byte} {scan middle final : Scan} {writes others : List Transaction}

theorem Scanned.nil : Scanned lastObs start data [] scan scan where
  differs := nofun
  overlaps _ := nofun
  ends := .inl
  outdates := .inl
  grows := id
  stays := id
  keeps := id

theorem Scanned.append (one : Scanned lastObs start data writes scan middle) (two : Scanned lastObs start data others middle final) :
    Scanned lastObs start data (writes ++ others) scan final where
  differs write member := by
    rcases mem_append.mp member with first | second
    · exact one.differs write first
    · exact two.differs write second
  overlaps overlap write member := by
    have before : middle.wcOverlap = true := by
      by_contra ended
      rw [two.stays (by simpa using ended)] at overlap
      cases overlap
    rcases mem_append.mp member with first | second
    · exact one.overlaps before write first
    · exact two.overlaps overlap write second
  ends ended := by
    rcases two.ends ended with before | ⟨write, member, early⟩
    · rcases one.ends before with start | ⟨write, member, early⟩
      · exact .inl start
      · exact .inr ⟨write, mem_append_left _ member, early⟩
    · exact .inr ⟨write, mem_append_right _ member, early⟩
  outdates outdated := by
    rcases two.outdates outdated with before | ⟨some, ended, write, member, early⟩
    · rcases one.outdates before with start | ⟨some, ended, write, member, early⟩
      · exact .inl start
      · exact .inr ⟨two.grows some, two.stays ended, write, mem_append_left _ member, early⟩
    · exact .inr ⟨some, ended, write, mem_append_right _ member, early⟩
  grows some := two.grows (one.grows some)
  stays ended := two.stays (one.stays ended)
  keeps valid := one.keeps (two.keeps valid)

theorem scanWrites_ok (ran : scanWrites lastObs start data writes scan = .ok final) : Scanned lastObs start data writes scan final := by
  induction writes generalizing scan with
  | nil =>
    cases ran
    exact .nil
  | cons write writes ih =>
    have single : ∃ middle, Scanned lastObs start data [write] scan middle ∧
        scanWrites lastObs start data writes middle = .ok final := by
      unfold scanWrites at ran
      split at ran
      next old =>
        refine ⟨scan, ⟨?_, ?_, .inl, .inl, id, id, id⟩, ran⟩
        · simp [old]
        · simp [old]
      next recent =>
        split at ran
        next => cases ran
        next differs =>
          split at ran
          next late =>
            refine ⟨{ scan with expected := scan.expected ++ [write.data] }, ⟨?_, ?_, .inl, .inl, ?_, id, id⟩, ran⟩
            · simp [differs]
            · simp [late]
            · simp
          next early =>
            refine ⟨{ expected := scan.expected ++ [write.data], wcOverlap := false, lastObsValid :=
              if lastObs.complete < write.start then false else scan.lastObsValid }, ⟨?_, ?_, ?_, ?_, ?_, fun _ => rfl, ?_⟩, ran⟩
            · simp [differs]
            · intro overlap
              cases overlap
            · exact fun _ => .inr ⟨write, mem_singleton_self _, not_lt.mp early⟩
            · intro outdated
              by_cases after : lastObs.complete < write.start
              · exact .inr ⟨by simp, rfl, write, mem_singleton_self _, not_lt.mp early, after⟩
              · rw [if_neg after] at outdated
                exact .inl outdated
            · simp
            · intro valid
              by_cases after : lastObs.complete < write.start
              · rw [if_pos after] at valid
                cases valid
              · rwa [if_neg after] at valid
    obtain ⟨middle, one, rest⟩ := single
    exact one.append (ih rest)

theorem scanClusters_ok {clusters : List WriteCluster} (ran : scanClusters lastObs start data clusters scan = .ok final) :
    ∃ scanned rest, clusters = scanned ++ rest ∧ Scanned lastObs start data (scanned.flatMap WriteCluster.writes) scan final ∧
      (rest = [] ∨ final.wcOverlap = false) := by
  induction clusters generalizing scan with
  | nil =>
    cases ran
    exact ⟨[], [], rfl, .nil, .inl rfl⟩
  | cons cluster clusters ih =>
    unfold scanClusters at ran
    split at ran
    next overlap =>
      obtain ⟨_, first, ran⟩ := of_bind ran
      obtain ⟨scanned, rest, split, all, stopped⟩ := ih ran
      refine ⟨cluster :: scanned, rest, by rw [split]; rfl, ?_, stopped⟩
      rw [flatMap_cons]
      exact (scanWrites_ok first).append all
    next ended =>
      cases ran
      exact ⟨[], cluster :: clusters, rfl, .nil, .inr (by simpa using ended)⟩

end Scans

section Invariant

def Recorded (past : History) (write : Transaction) : Prop :=
  ⟨write.start, .startWrite write.serial write.data⟩ ∈ past ∧
    (⟨write.complete, .completeWrite write.serial⟩ ∈ past ∨
      write.complete = TICK_FUTURE ∧ ∀ call ∈ past, ended call.event ≠ some write.serial)

def incomplete (writes : List Transaction) : Nat := writes.countP (·.complete == TICK_FUTURE)

/-- A cluster counts its open writes and closes with the last. -/
structure Clustered (past : History) (cluster : WriteCluster) : Prop where
  recorded : ∀ write ∈ cluster.writes, Recorded past write
  serials : (cluster.writes.map Transaction.serial).Nodup
  counted : cluster.numIncomplete = incomplete cluster.writes
  max : ∀ write ∈ cluster.writes, write.complete ≠ TICK_FUTURE → write.complete ≤ cluster.completeMax
  attained : cluster.completeMax = TICK_INITIAL ∨
    ∃ write ∈ cluster.writes, write.complete = cluster.completeMax ∧ write.complete ≠ TICK_FUTURE
  closed : cluster.complete ≠ TICK_FUTURE →
    cluster.complete = cluster.completeMax ∧ cluster.writes ≠ [] ∧ incomplete cluster.writes = 0
  begun : ∃ call ∈ past, cluster.start ≤ call.now

def Observed (past : History) (obs : Transaction) : Prop :=
  obs.start = TICK_INITIAL ∧ obs.complete = TICK_INITIAL ∨
    ⟨obs.start, .startRead obs.serial⟩ ∈ past ∧ ⟨obs.complete, .completeRead obs.serial obs.data⟩ ∈ past

/-- A write that no later read can have the value of: another one has started after it and
completed before every read that is outstanding. -/
def Superseded (past : History) (reads : List (Serial × Transaction)) (serial : Serial) : Prop :=
  ∃ done other start data completed, ⟨done, .completeWrite serial⟩ ∈ past ∧ ⟨start, .startWrite other data⟩ ∈ past ∧
    ⟨completed, .completeWrite other⟩ ∈ past ∧ done < start ∧ ∀ read ∈ reads, completed < read.2.start

def Apart (earlier later : WriteCluster) : Prop :=
  earlier.isComplete = true ∧ ∀ write ∈ earlier.writes, ∀ other ∈ later.writes, write.complete < other.start

/-- The invariant: all that is tracked is of the history, and old enough. -/
structure Tracks (past : History) (tracker : ByteTracker) : Prop where
  ordered : past.Pairwise Before
  passed : ∀ call ∈ past, call.now < TICK_FUTURE
  paired : ∀ call ∈ past, ∀ serial, ended call.event = some serial → ∃ earlier ∈ past, started earlier.event = some serial
  reads : ∀ read ∈ tracker.outstandingReads, ⟨read.2.start, .startRead read.1⟩ ∈ past
  readOrder : tracker.outstandingReads.Pairwise fun first second => first.2.start < second.2.start
  observed : ∀ obs ∈ tracker.readObservations, Observed past obs
  oldest : ∃ first rest, tracker.readObservations = first :: rest ∧
    (first.complete = TICK_INITIAL ∨ ∀ read ∈ tracker.outstandingReads, first.complete < read.2.start)
  clusters : ∀ cluster ∈ tracker.writeClusters, Clustered past cluster
  apart : tracker.writeClusters.Pairwise Apart
  covered : ∀ now serial data, ⟨now, .startWrite serial data⟩ ∈ past → (∀ stop, ⟨stop, .abortWrite serial⟩ ∉ past) →
    (∃ cluster ∈ tracker.writeClusters, ∃ write ∈ cluster.writes, write.serial = serial) ∨
      Superseded past tracker.outstandingReads serial

variable {past : History} {tracker : ByteTracker} {cluster : WriteCluster}

theorem tracks_init : Tracks [] {} where
  ordered := .nil
  passed := nofun
  paired := nofun
  reads := nofun
  readOrder := .nil
  observed obs member := by
    cases mem_singleton.mp member
    exact .inl ⟨rfl, rfl⟩
  oldest := ⟨_, _, rfl, .inl rfl⟩
  clusters := nofun
  apart := .nil
  covered _ _ _ impossible := by cases impossible

theorem incomplete_eq_zero {writes : List Transaction} (zero : incomplete writes = 0) :
    ∀ write ∈ writes, write.complete ≠ TICK_FUTURE := by
  intro write member
  have none := countP_eq_zero.mp zero write member
  simpa using none

theorem Recorded.completed {write : Transaction} (recorded : Recorded past write) (complete : write.complete ≠ TICK_FUTURE) :
    ⟨write.complete, .completeWrite write.serial⟩ ∈ past := by
  rcases recorded.2 with done | ⟨pending, _⟩
  · exact done
  · exact absurd pending complete

theorem Clustered.last (clustered : Clustered past cluster) (complete : cluster.complete ≠ TICK_FUTURE) :
    ∃ write ∈ cluster.writes, write.complete = cluster.complete := by
  obtain ⟨same, some, none⟩ := clustered.closed complete
  rcases clustered.attained with zero | ⟨write, member, last, _⟩
  · obtain ⟨write, member⟩ := exists_mem_of_ne_nil _ some
    have le := clustered.max write member (incomplete_eq_zero none write member)
    rw [zero] at le
    refine ⟨write, member, ?_⟩
    rw [same, zero]
    exact Nat.le_zero.mp le
  · exact ⟨write, member, by rw [last, same]⟩

end Invariant

section Soundness

variable {τ : Type} [LinearOrder τ] {time : Tick → τ} {past rest : History} {call : CheckCall} {tracker : ByteTracker} {now start : Tick}

theorem mem_past (ordered : (past ++ call :: rest).Pairwise Before) {other : CheckCall} (member : other ∈ past ++ call :: rest)
    (early : other.now < call.now) : other ∈ past := by
  rcases mem_append.mp member with before | after
  · exact before
  · rcases mem_cons.mp after with rfl | later
    · exact absurd early (lt_irrefl _)
    · have follows := (pairwise_cons.mp (pairwise_append.mp ordered).2.1).1 other later
      exact absurd follows.1 (not_lt.mpr early.le)

variable {serial : Serial} {data : Byte} {read : Transaction}

theorem point_before (increasing : StrictMono time) (points : Linearization time (past ++ call :: rest))
    (ordered : (past ++ call :: rest).Pairwise Before) {later : Tick}
    (starts : ⟨now, .startRead serial⟩ ∈ past ++ call :: rest) (completes : ⟨later, .completeRead serial data⟩ ∈ past ++ call :: rest)
    {write : Serial} {done : Tick} (completed : ⟨done, .completeWrite write⟩ ∈ past ++ call :: rest) (early : done ≤ now) :
    ∃ point, points.writePoint write = some point ∧ point < points.readPoint serial := by
  obtain ⟨point, given, before⟩ := points.completed done write completed
  refine ⟨point, given, ?_⟩
  have apart : done ≠ now := by
    intro same
    have equal := eq_of_now ordered completed starts same
    cases equal
  exact (before.trans_lt (increasing (lt_of_le_of_ne early apart))).trans_le (points.readAfter now serial later data starts completes)

/-- What a read that completes now knows: when it started, and that all of the past lies in the
whole history. -/
structure Reading (time : Tick → τ) (past rest : History) (now : Tick) (serial : Serial) (data : Byte) (start : Tick) where
  increasing : StrictMono time
  points : Linearization time (past ++ ⟨now, .completeRead serial data⟩ :: rest)
  ordered : (past ++ ⟨now, .completeRead serial data⟩ :: rest).Pairwise Before
  starts : ⟨start, .startRead serial⟩ ∈ past
  passed : ∀ call ∈ past, call.now < TICK_FUTURE

namespace Reading
variable {now start : Tick} (reading : Reading time past rest now serial data start)
include reading

def point : τ := reading.points.readPoint serial

theorem whole {call : CheckCall} (member : call ∈ past) : call ∈ past ++ ⟨now, .completeRead serial data⟩ :: rest :=
  mem_append_left _ member

theorem present : ⟨now, .completeRead serial data⟩ ∈ past ++ ⟨now, .completeRead serial data⟩ :: rest := by simp

theorem start_lt : start < TICK_FUTURE := reading.passed _ reading.starts

theorem early_point {write : Transaction} (recorded : Recorded past write) (early : write.complete ≤ start) :
    ∃ point, reading.points.writePoint write.serial = some point ∧ point < reading.point ∧ time write.start ≤ point := by
  have complete : write.complete ≠ TICK_FUTURE := (early.trans_lt reading.start_lt).ne
  obtain ⟨point, given, before⟩ := point_before reading.increasing reading.points reading.ordered (reading.whole reading.starts)
    reading.present (reading.whole (recorded.completed complete)) early
  exact ⟨point, given, before, reading.points.afterStart _ _ _ _ (reading.whole recorded.1) given⟩

theorem data_eq {one two : Tick} {write : Serial} {first second : Byte}
    (wrote : ⟨one, .startWrite write first⟩ ∈ past ++ ⟨now, .completeRead serial data⟩ :: rest)
    (again : ⟨two, .startWrite write second⟩ ∈ past ++ ⟨now, .completeRead serial data⟩ :: rest) : first = second := by
  have same := eq_of_started reading.ordered wrote again rfl rfl
  cases same
  rfl

variable {obs : Transaction}

theorem observed_before (before : obs.complete < start) (completes : ⟨obs.complete, .completeRead obs.serial obs.data⟩ ∈ past) :
    reading.points.readPoint obs.serial < reading.point :=
  ((reading.points.readBefore _ _ _ (reading.whole completes)).trans_lt (reading.increasing before)).trans_le
    (reading.points.readAfter _ _ _ _ (reading.whole reading.starts) reading.present)

/-- Where a write that happens before the read is: in a cluster, for otherwise a later one would
happen before the read. -/
theorem find_write (tracks : Tracks past tracker) {read : Transaction} (member : (serial, read) ∈ tracker.outstandingReads)
    (same : read.start = start) {write : Serial} {point : τ} {began : Tick} {value : Byte}
    (given : reading.points.writePoint write = some point)
    (wrote : ⟨began, .startWrite write value⟩ ∈ past ++ ⟨now, .completeRead serial data⟩ :: rest) (before : point < reading.point)
    (latest : ∀ other later, reading.points.writePoint other = some later → later < reading.point → later ≤ point) :
    ∃ cluster ∈ tracker.writeClusters, ∃ found ∈ cluster.writes, found.serial = write ∧ found.data = value := by
  have early : began < now := by
    have low := reading.points.afterStart _ _ _ _ wrote given
    have high := reading.points.readBefore _ _ _ reading.present
    exact reading.increasing.lt_iff_lt.mp ((low.trans_lt before).trans_le high)
  have inPast := mem_past reading.ordered wrote early
  have live : ∀ stop, ⟨stop, .abortWrite write⟩ ∉ past := by
    intro stop aborts
    rw [reading.points.aborted stop write (reading.whole aborts)] at given
    cases given
  rcases tracks.covered began write value inPast live with ⟨cluster, inside, found, held, named⟩ |
      ⟨done, other, otherStart, otherData, completed, ends, begins, completes, after, outstanding⟩
  · have recorded := ((tracks.clusters cluster inside).recorded found held).1
    rw [named] at recorded
    exact ⟨cluster, inside, found, held, named, reading.data_eq (reading.whole recorded) wrote⟩
  · have soon := outstanding _ member
    rw [same] at soon
    obtain ⟨_, given', bound⟩ := reading.points.completed done write (reading.whole ends)
    cases given.symm.trans given'
    obtain ⟨next, taken, first⟩ := point_before reading.increasing reading.points reading.ordered (reading.whole reading.starts)
      reading.present (reading.whole completes) soon.le
    have later := reading.points.afterStart _ _ _ _ (reading.whole begins) taken
    have reordered := (bound.trans_lt (reading.increasing after)).trans_le later
    exact absurd (latest other next taken first) (not_le.mpr reordered)

variable {lastObs : Transaction}

theorem last_observation (tracks : Tracks past tracker) {read : Transaction} (member : (serial, read) ∈ tracker.outstandingReads)
    (same : read.start = start) {write : Serial} {point : τ} {began : Tick} (given : reading.points.writePoint write = some point)
    (wrote : ⟨began, .startWrite write data⟩ ∈ past ++ ⟨now, .completeRead serial data⟩ :: rest) (before : point < reading.point)
    (latest : ∀ other later, reading.points.writePoint other = some later → later < reading.point → later ≤ point)
    {scan : Scan} {scanned left : List WriteCluster} (split : tracker.writeClusters.reverse = scanned ++ left)
    (all : Scanned lastObs start data (scanned.flatMap WriteCluster.writes) { lastObsValid := lastObs.complete != TICK_INITIAL } scan)
    (stopped : left = [] ∨ scan.wcOverlap = false) (observed : Observed past lastObs)
    (recent : lastObs.complete = TICK_INITIAL ∨ lastObs.complete < start) : scan.lastObsValid = true ∧ lastObs.data = data := by
  obtain ⟨cluster, inside, found, held, named, valued⟩ := reading.find_write tracks member same given wrote before latest
  have recorded : ∀ cluster ∈ tracker.writeClusters, ∀ other ∈ cluster.writes, Recorded past other :=
    fun cluster member => (tracks.clusters cluster member).recorded
  have scannedIn : ∀ other ∈ scanned.flatMap WriteCluster.writes, ∃ later ∈ scanned, later ∈ tracker.writeClusters ∧ other ∈ later.writes := by
    intro other member
    obtain ⟨later, inScanned, holds⟩ := mem_flatMap.mp member
    refine ⟨later, inScanned, ?_, holds⟩
    rw [← mem_reverse, split]
    exact mem_append_left _ inScanned
  have finished : found.complete ≠ TICK_FUTURE → point ≤ time found.complete := by
    intro complete
    have ends := (recorded cluster inside found held).completed complete
    rw [named] at ends
    obtain ⟨point', given', bound⟩ := reading.points.completed _ _ (reading.whole ends)
    cases given.symm.trans given'
    exact bound
  rw [← mem_reverse, split, mem_append] at inside
  have skipped : found.complete < lastObs.start := by
    rcases inside with near | far
    · rcases all.differs found (mem_flatMap.mpr ⟨cluster, near, held⟩) with skip | differs
      · exact skip
      · exact absurd valued differs
    · -- A write of a later cluster ended the scan, so it happens in between.
      have ended : scan.wcOverlap = false := by
        rcases stopped with none | ended
        · rw [none] at far
          cases far
        · exact ended
      rcases all.ends ended with impossible | ⟨other, otherIn, early⟩
      · cases impossible
      · obtain ⟨later, inScanned, inTracker, holds⟩ := scannedIn other otherIn
        obtain ⟨next, taken, first, follows⟩ := reading.early_point (recorded later inTracker other holds) early
        have ordered : tracker.writeClusters = left.reverse ++ scanned.reverse := by
          rw [← reverse_append, ← split, reverse_reverse]
        have apart := tracks.apart
        rw [ordered] at apart
        have between := ((pairwise_append.mp apart).2.2 cluster (mem_reverse.mpr far) later
          (mem_reverse.mpr inScanned)).2 found held other holds
        have otherEarly : other.start < TICK_FUTURE := reading.passed _ (recorded later inTracker other holds).1
        have reordered := ((finished (between.trans otherEarly).ne).trans_lt (reading.increasing between)).trans_le follows
        exact absurd (latest _ next taken first) (not_le.mpr reordered)
  rcases observed with ⟨zero, _⟩ | ⟨begins, completes⟩
  · rw [zero] at skipped
    exact absurd skipped (Nat.not_lt_zero _)
  · have whole := reading.whole completes
    have low := reading.points.readAfter _ _ _ _ (reading.whole begins) whole
    have high := reading.points.readBefore _ _ _ whole
    have obsStart : lastObs.start < TICK_FUTURE := reading.passed _ begins
    have seen : point < reading.points.readPoint lastObs.serial :=
      ((finished (skipped.trans obsStart).ne).trans_lt (reading.increasing skipped)).trans_le low
    have real : lastObs.complete < start := by
      rcases recent with zero | before
      · have le := reading.increasing.le_iff_le.mp (low.trans high)
        rw [zero] at le
        exact absurd (skipped.trans_le le) (Nat.not_lt_zero _)
      · exact before
    have earlier := reading.observed_before real completes
    constructor
    · by_contra outdated
      rcases all.outdates (by simpa using outdated) with initial | ⟨_, _, other, otherIn, early, after⟩
      · have zero : lastObs.complete = TICK_INITIAL := by simpa using initial
        have le := reading.increasing.le_iff_le.mp (low.trans high)
        rw [zero] at le
        exact absurd (skipped.trans_le le) (Nat.not_lt_zero _)
      · obtain ⟨later, _, inTracker, holds⟩ := scannedIn other otherIn
        obtain ⟨next, taken, first, follows⟩ := reading.early_point (recorded later inTracker other holds) early
        have reordered := ((seen.trans_le high).trans (reading.increasing after)).trans_le follows
        exact absurd (latest _ next taken first) (not_le.mpr reordered)
    · rcases reading.points.value _ _ _ whole with ⟨other, point', otherStart, given', wrote', before', latest'⟩ | ⟨_, none⟩
      · have same : point' = point :=
          le_antisymm (latest other point' given' (before'.trans earlier)) (latest' write point given seen)
        rw [same] at given'
        cases reading.points.distinct other write point given' given
        exact reading.data_eq wrote' wrote
      · exact absurd seen (none write point given)

end Reading

theorem otherSources_valid {scan : Scan} (valid : scan.lastObsValid = true)
    (equal : lastObs.data = data) (bound : lastObs.complete ≤ start) :
    ∃ expected, tracker.otherSources lastObs start now data scan = .ok (expected, true) := by
  refine ⟨scan.expected, ?_⟩
  unfold otherSources
  rw [if_pos valid, decide_eq_true bound, require_true, ok_bind, if_pos equal]
  rfl

theorem otherSources_initial (reading : Reading time past rest now serial data start) (tracks : Tracks past tracker)
    (equal : data = reading.points.initial)
    (none : ∀ other later, reading.points.writePoint other = some later → ¬later < reading.point)
    {scan : Scan} {scanned left : List WriteCluster} (split : tracker.writeClusters.reverse = scanned ++ left)
    (all : Scanned lastObs start data (scanned.flatMap WriteCluster.writes) { lastObsValid := lastObs.complete != TICK_INITIAL } scan)
    (observed : Observed past lastObs)
    (recent : lastObs.complete = TICK_INITIAL ∨ lastObs.complete < start) (bound : lastObs.complete ≤ start)
    (untouched : tracker.writeClusters = [] → scan.expected = []) :
    ∃ expected, tracker.otherSources lastObs start now data scan = .ok (expected, true) := by
  have late : ∀ cluster ∈ tracker.writeClusters, ∀ write ∈ cluster.writes, ¬write.complete ≤ start := by
    intro cluster member write holds early
    obtain ⟨point, given, before, _⟩ := reading.early_point ((tracks.clusters cluster member).recorded write holds) early
    exact none write.serial point given before
  have lateScanned : ∀ write ∈ scanned.flatMap WriteCluster.writes, ¬write.complete ≤ start := by
    intro write member
    obtain ⟨cluster, inScanned, holds⟩ := mem_flatMap.mp member
    apply late cluster ?_ write holds
    rw [← mem_reverse, split]
    exact mem_append_left _ inScanned
  have overlap : scan.wcOverlap = true := by
    by_contra ended
    rcases all.ends (by simpa using ended) with impossible | ⟨write, member, early⟩
    · cases impossible
    · exact lateScanned write member early
  cases valid : scan.lastObsValid with
  | true =>
    have kept := all.keeps valid
    have real : lastObs.complete ≠ TICK_INITIAL := by simpa using kept
    apply otherSources_valid valid ?_ bound
    rcases observed with ⟨_, zero⟩ | ⟨begins, completes⟩
    · exact absurd zero real
    · have before := reading.observed_before (recent.resolve_left real) completes
      rcases reading.points.value _ _ _ (reading.whole completes) with ⟨write, point, _, given, _, soon, _⟩ | ⟨initial, _⟩
      · exact absurd (soon.trans before) (none write point given)
      · exact initial.trans equal.symm
  | false =>
    have initial : lastObs.complete = TICK_INITIAL := by
      rcases all.outdates valid with initial | ⟨_, _, write, member, early, _⟩
      · simpa using initial
      · exact absurd early (lateScanned write member)
    refine ⟨scan.expected, ?_⟩
    unfold otherSources
    rw [valid, if_neg (by simp)]
    cases shape : tracker.writeClusters with
    | nil =>
      rw [untouched shape, initial]
      rfl
    | cons first others =>
      have firstIn : first ∈ tracker.writeClusters := by rw [shape]; exact mem_cons_self
      obtain ⟨call, member, begun⟩ := (tracks.clusters first firstIn).begun
      have started : first.start < now := by
        have order := (pairwise_append.mp reading.ordered).2.2 call member _ mem_cons_self
        exact begun.trans_lt order.1
      cases last : (first :: others).getLast? with
      | none => simp at last
      | some last' =>
        have lastIn : last' ∈ tracker.writeClusters := by rw [shape]; exact mem_of_getLast? last
        have unfinished : start < last'.complete := by
          by_cases complete : last'.complete = TICK_FUTURE
          · rw [complete]
            exact reading.start_lt
          · obtain ⟨write, holds, same⟩ := (tracks.clusters last' lastIn).last complete
            rw [← same]
            exact not_le.mp (late last' lastIn write holds)
        rw [overlap]
        simp only [head?_cons, decide_eq_true started, decide_eq_true unfinished, Bool.and_true, require_true, ok_bind]
        rfl

theorem inExpectedData_ok (reading : Reading time past rest now serial data start) (tracks : Tracks past tracker)
    (member : (serial, read) ∈ tracker.outstandingReads) (same : read.start = start) :
    ∃ expected, tracker.inExpectedData start now data = .ok (expected, true) := by
  have some : tracker.readObservations.reverse ≠ [] := by
    obtain ⟨first, later, shape, _⟩ := tracks.oldest
    simp [shape]
  obtain ⟨_, lastObs, later, found, shape, early⟩ := lastCompleted_spec Transaction.complete start _ [] some
  rw [reverse_reverse, append_nil] at shape
  have observed : Observed past lastObs := tracks.observed lastObs (by rw [shape]; simp)
  have recent : lastObs.complete = TICK_INITIAL ∨ lastObs.complete < start := by
    rcases early with none | before
    · obtain ⟨first, _, shape', old⟩ := tracks.oldest
      rw [shape, none] at shape'
      cases shape'
      rcases old with zero | outstanding
      · exact .inl zero
      · exact .inr (same ▸ outstanding _ member)
    · exact .inr before
  have bound : lastObs.complete ≤ start := by
    rcases recent with zero | before
    · rw [zero]
      exact Nat.zero_le _
    · exact before.le
  unfold inExpectedData
  rw [found]
  dsimp only
  cases ran : scanClusters lastObs start data tracker.writeClusters.reverse
      { lastObsValid := lastObs.complete != TICK_INITIAL } with
  | error expected => exact ⟨expected, rfl⟩
  | ok scan =>
    obtain ⟨_, _, split, all, stopped⟩ := scanClusters_ok ran
    rcases reading.points.value _ _ _ reading.present with ⟨write, point, began, given, wrote, before, latest⟩ | ⟨equal, none⟩
    · obtain ⟨valid, sees⟩ := reading.last_observation tracks member same given wrote before latest split all stopped observed recent
      exact otherSources_valid valid sees bound
    · refine otherSources_initial reading tracks equal none split all observed recent bound ?_
      intro empty
      rw [empty] at ran
      cases ran
      rfl

end Soundness

section Steps

variable {past : History} {call : CheckCall} {tracker : ByteTracker} {cluster : WriteCluster} {write : Transaction} {serial : Serial}
  {now : Tick} {data : Byte}

theorem Observed.extend (observed : Observed past obs) : Observed (past ++ [call]) obs := by
  rcases observed with initial | ⟨begins, completes⟩
  · exact .inl initial
  · exact .inr ⟨mem_append_left _ begins, mem_append_left _ completes⟩

theorem Recorded.extend (recorded : Recorded past write) (other : ended call.event ≠ some write.serial) :
    Recorded (past ++ [call]) write := by
  refine ⟨mem_append_left _ recorded.1, ?_⟩
  rcases recorded.2 with done | ⟨pending, open'⟩
  · exact .inl (mem_append_left _ done)
  · refine .inr ⟨pending, ?_⟩
    intro earlier member
    rcases mem_concat.mp member with before | last
    · exact open' earlier before
    · rw [last]
      exact other

theorem Clustered.extend (clustered : Clustered past cluster)
    (other : ∀ write ∈ cluster.writes, ended call.event ≠ some write.serial) : Clustered (past ++ [call]) cluster where
  recorded write member := (clustered.recorded write member).extend (other write member)
  serials := clustered.serials
  counted := clustered.counted
  max := clustered.max
  attained := clustered.attained
  closed := clustered.closed
  begun := by
    obtain ⟨earlier, member, le⟩ := clustered.begun
    exact ⟨earlier, mem_append_left _ member, le⟩

theorem Superseded.extend {reads more : List (Serial × Transaction)} (superseded : Superseded past reads serial)
    (legal : Legal past call) (fewer : ∀ read ∈ more, read ∈ reads ∨ read.2.start = call.now) :
    Superseded (past ++ [call]) more serial := by
  obtain ⟨done, other, start, data, completed, ends, begins, completes, after, outstanding⟩ := superseded
  refine ⟨done, other, start, data, completed, mem_append_left _ ends, mem_append_left _ begins,
    mem_append_left _ completes, after, ?_⟩
  intro read member
  rcases fewer read member with old | new
  · exact outstanding read old
  · rw [new]
    exact legal.1 _ completes

section

variable (tracks : Tracks past tracker)
include tracks

theorem ordered_extend (legal : Legal past call) : (past ++ [call]).Pairwise Before := by
  refine pairwise_concat.mpr ⟨tracks.ordered, ?_⟩
  intro earlier member
  exact legal.before member

theorem passed_extend (early : call.now < TICK_FUTURE) : ∀ earlier ∈ past ++ [call], earlier.now < TICK_FUTURE := by
  intro earlier member
  rcases mem_concat.mp member with before | last
  · exact tracks.passed earlier before
  · rw [last]
    exact early

theorem paired_extend (legal : Legal past call) : ∀ later ∈ past ++ [call], ∀ serial,
    ended later.event = some serial → ∃ earlier ∈ past ++ [call], started earlier.event = some serial := by
  intro later member serial ends
  have found : ∃ earlier ∈ past, started earlier.event = some serial := by
    rcases mem_concat.mp member with before | last
    · exact tracks.paired later before serial ends
    · rw [last] at ends
      exact (Numbered.paired legal.2.2 ends).1
  obtain ⟨earlier, member, starts⟩ := found
  exact ⟨earlier, mem_append_left _ member, starts⟩

end

theorem Observed.complete_lt (observed : Observed past obs) (legal : Legal past call) :
    obs.complete = TICK_INITIAL ∨ obs.complete < call.now := by
  rcases observed with ⟨_, zero⟩ | ⟨_, completes⟩
  · exact .inl zero
  · exact .inr (legal.1 _ completes)

theorem write_ne_read (tracks : Tracks past tracker) (recorded : Recorded past write) {earlier : CheckCall}
    (member : earlier ∈ past) (starts : readStart earlier.event = some serial) : serial ≠ write.serial := by
  intro same
  have equal := eq_of_started tracks.ordered member recorded.1 (same ▸ started_read starts) rfl
  rw [equal] at starts
  cases starts

theorem keptClusters (before : Tick) (clusters : List WriteCluster) : ∃ removed,
    clusters = removed ++ lastCompletedTransaction WriteCluster.complete before clusters.reverse [] ∧
      (removed = [] ∨ ∃ head tail, lastCompletedTransaction WriteCluster.complete before clusters.reverse [] = head :: tail ∧
        head.complete < before) := by
  by_cases empty : clusters = []
  · subst empty
    exact ⟨[], rfl, .inl rfl⟩
  · obtain ⟨removed, head, tail, kept, split, early⟩ := lastCompleted_spec WriteCluster.complete before clusters.reverse []
      (by simpa using empty)
    rw [reverse_reverse, append_nil] at split
    rw [kept]
    refine ⟨removed, split, ?_⟩
    rcases early with none | less
    · exact .inl none
    · exact .inr ⟨head, tail, rfl, less⟩

theorem pruneTransactions_total {tracker : ByteTracker} {first : Transaction} {rest : List Transaction}
    (shape : tracker.readObservations = first :: rest) (now : Tick) : ∃ next, tracker.pruneTransactions now = .ok next := by
  unfold pruneTransactions
  rw [shape]
  exact ⟨_, rfl⟩

section

variable (tracks : Tracks past tracker)
include tracks

theorem pruneTransactions_ok (present : ∀ call ∈ past, call.now ≤ now)
    (late : now ≤ TICK_FUTURE) {next : ByteTracker} (ran : tracker.pruneTransactions now = .ok next) : Tracks past next := by
  obtain ⟨first, _, shape, old⟩ := tracks.oldest
  obtain ⟨_, _, ran⟩ := of_bind ran
  cases ran
  have bounds : ∀ read ∈ tracker.outstandingReads,
      (tracker.outstandingReads.head?.map fun first => first.2.start).getD now ≤ read.2.start := by
    intro read member
    cases outstanding : tracker.outstandingReads with
    | nil =>
      rw [outstanding] at member
      cases member
    | cons =>
      have order := tracks.readOrder
      rw [outstanding] at order member
      rcases mem_cons.mp member with rfl | after
      · exact le_rfl
      · exact ((pairwise_cons.mp order).1 read after).le
  have reached : (tracker.outstandingReads.head?.map fun first => first.2.start).getD now ≤ TICK_FUTURE := by
    cases outstanding : tracker.outstandingReads with
    | nil => exact late
    | cons head =>
      have inPast := tracks.reads head (by rw [outstanding]; exact mem_cons_self)
      exact (present _ inPast).trans late
  generalize (tracker.outstandingReads.head?.map fun first => first.2.start).getD now = before at bounds reached ⊢
  obtain ⟨_, found, rest, kept, split, fits⟩ := lastCompleted_spec Transaction.complete before
    tracker.readObservations.reverse [] (by simp [shape])
  rw [reverse_reverse, append_nil] at split
  refine ⟨tracks.ordered, tracks.passed, tracks.paired, tracks.reads, tracks.readOrder, ?_, ?_, ?_, ?_, ?_⟩
  · intro obs member
    rw [kept] at member
    apply tracks.observed
    rw [split]
    exact mem_append_right _ member
  · refine ⟨found, rest, kept, ?_⟩
    rcases fits with none | early
    · rw [none, shape] at split
      cases split
      exact old
    · exact .inr fun read member => early.trans_le (bounds read member)
  all_goals obtain ⟨_, clusters, dropped⟩ := keptClusters before tracker.writeClusters
  · intro cluster member
    apply tracks.clusters
    rw [clusters]
    exact mem_append_right _ member
  · have apart := tracks.apart
    rw [clusters] at apart
    exact (pairwise_append.mp apart).2.1
  · intro start serial data begins live
    rcases tracks.covered start serial data begins live with ⟨cluster, member, write, holds, named⟩ | superseded
    · rw [clusters, mem_append] at member
      rcases member with gone | stays
      · -- The write goes with its cluster, and the last write of the first one kept supersedes it.
        rcases dropped with none | ⟨head, tail, keeps, early⟩
        · rw [none] at gone
          cases gone
        · have apart := tracks.apart
          rw [clusters] at apart
          have headKept : head ∈ lastCompletedTransaction WriteCluster.complete before tracker.writeClusters.reverse [] := by
            rw [keeps]
            exact mem_cons_self
          have between := ((pairwise_append.mp apart).2.2 cluster gone head headKept).2 write holds
          have headIn : head ∈ tracker.writeClusters := by
            rw [clusters]
            exact mem_append_right _ headKept
          have clusterIn : cluster ∈ tracker.writeClusters := by
            rw [clusters]
            exact mem_append_left _ gone
          obtain ⟨last, lastHolds, same⟩ := (tracks.clusters head headIn).last (early.trans_le reached).ne
          have lastRecorded := (tracks.clusters head headIn).recorded last lastHolds
          have lastComplete : last.complete ≠ TICK_FUTURE := by
            rw [same]
            exact (early.trans_le reached).ne
          have after := between last lastHolds
          have writeComplete := (after.trans (tracks.passed _ lastRecorded.1)).ne
          have ends := ((tracks.clusters cluster clusterIn).recorded write holds).completed writeComplete
          rw [named] at ends
          refine .inr ⟨_, _, _, _, _, ends, lastRecorded.1, lastRecorded.completed lastComplete, after, ?_⟩
          intro read outstanding
          rw [same]
          exact early.trans_le (bounds read outstanding)
      · exact .inl ⟨cluster, stays, write, holds, named⟩
    · exact .inr superseded

theorem clusters_extend (other : ∀ write, Recorded past write → ended call.event ≠ some write.serial) :
    ∀ cluster ∈ tracker.writeClusters, Clustered (past ++ [call]) cluster := by
  intro cluster member
  have clustered := tracks.clusters cluster member
  exact clustered.extend fun write holds => other write (clustered.recorded write holds)

theorem covered_extend (legal : Legal past call) (starts : writeStart call.event = none)
    {reads : List (Serial × Transaction)} (fewer : ∀ read ∈ reads, read ∈ tracker.outstandingReads ∨ read.2.start = call.now) :
    ∀ now serial data, ⟨now, .startWrite serial data⟩ ∈ past ++ [call] → (∀ stop, ⟨stop, .abortWrite serial⟩ ∉ past ++ [call]) →
      (∃ cluster ∈ tracker.writeClusters, ∃ write ∈ cluster.writes, write.serial = serial) ∨ Superseded (past ++ [call]) reads serial := by
  intro now serial data begins live
  rcases mem_concat.mp begins with before | last
  · rcases tracks.covered now serial data before (fun stop aborts => live stop (mem_append_left _ aborts)) with kept | superseded
    · exact .inl kept
    · exact .inr (superseded.extend legal fewer)
  · rw [← last] at starts
    cases starts

theorem startRead_ok (legal : Legal past ⟨now, .startRead serial⟩)
    (early : now < TICK_FUTURE) : Tracks (past ++ [⟨now, .startRead serial⟩]) (tracker.startRead serial now) := by
  have above : ∀ read ∈ tracker.outstandingReads, read.1 < serial := by
    intro read member
    exact legal.2.2 _ (tracks.reads read member) read.1 rfl
  have new : (tracker.startRead serial now).outstandingReads = tracker.outstandingReads ++ [(serial, ⟨serial, now, TICK_FUTURE, 0⟩)] := by
    have absent : tracker.outstandingReads.any (·.1 == serial) = false := by
      apply any_eq_false.mpr
      intro read member same
      exact (above read member).ne (beq_iff_eq.mp same)
    simp only [startRead, absent, Bool.false_eq_true, if_false]
    exact assign_append above
  refine ⟨ordered_extend tracks legal, passed_extend tracks early, paired_extend tracks legal, ?_, ?_, ?_, ?_, ?_, tracks.apart, ?_⟩
  · intro read member
    rw [new] at member
    rcases mem_concat.mp member with old | last
    · exact mem_append_left _ (tracks.reads read old)
    · cases last
      exact mem_append_cons_self
  · rw [new]
    refine pairwise_concat.mpr ⟨tracks.readOrder, ?_⟩
    intro read member
    exact legal.1 _ (tracks.reads read member)
  · exact fun obs member => (tracks.observed obs member).extend
  · obtain ⟨first, later, shape, old⟩ := tracks.oldest
    refine ⟨first, later, shape, ?_⟩
    rcases old with zero | before
    · exact .inl zero
    · rcases (tracks.observed first (by rw [shape]; exact mem_cons_self)).complete_lt legal with zero | now
      · exact .inl zero
      · refine .inr ?_
        intro read member
        rw [new] at member
        rcases mem_concat.mp member with old | last
        · exact before read old
        · cases last
          exact now
  · change ∀ cluster ∈ tracker.writeClusters, Clustered _ cluster
    exact clusters_extend tracks fun _ _ => nofun
  · have fewer : ∀ read ∈ (tracker.startRead serial now).outstandingReads, read ∈ tracker.outstandingReads ∨ read.2.start = now := by
      intro read member
      rw [new] at member
      rcases mem_concat.mp member with old | last
      · exact .inl old
      · cases last
        exact .inr rfl
    exact covered_extend tracks legal rfl fewer

theorem observe_ok {read : Transaction} (legal : Legal past ⟨now, .completeRead serial data⟩) (early : now < TICK_FUTURE)
    (member : (serial, read) ∈ tracker.outstandingReads) (expected : List Byte) :
    Tracks (past ++ [⟨now, .completeRead serial data⟩]) { tracker with
      outstandingReads := tracker.outstandingReads.filter (·.1 != serial)
      lastExpectedData := expected
      readObservations := tracker.readObservations ++ [⟨serial, read.start, now, data⟩] } := by
  have fewer : ∀ other ∈ tracker.outstandingReads.filter (·.1 != serial), other ∈ tracker.outstandingReads :=
    fun other member => (mem_filter.mp member).1
  refine ⟨ordered_extend tracks legal, passed_extend tracks early, paired_extend tracks legal, ?_, tracks.readOrder.filter _, ?_, ?_, ?_, tracks.apart, ?_⟩
  · exact fun other member => mem_append_left _ (tracks.reads other (fewer other member))
  · intro obs member'
    rcases mem_concat.mp member' with old | last
    · exact (tracks.observed obs old).extend
    · cases last
      exact .inr ⟨mem_append_left _ (tracks.reads _ member), mem_append_cons_self⟩
  · obtain ⟨first, later, shape, old⟩ := tracks.oldest
    refine ⟨first, later ++ [⟨serial, read.start, now, data⟩], by simp [shape], ?_⟩
    exact old.imp_right fun before other member => before other (fewer other member)
  · apply clusters_extend tracks
    intro write recorded same
    exact write_ne_read tracks recorded (tracks.reads _ member) rfl (Option.some.inj same)
  · exact covered_extend tracks legal rfl fun other member => .inl (fewer other member)

theorem unknown_ok (legal : Legal past ⟨now, .completeRead serial data⟩) (early : now < TICK_FUTURE) :
    Tracks (past ++ [⟨now, .completeRead serial data⟩]) tracker := by
  obtain ⟨_, begun, starts⟩ := legal.2.2.1
  refine ⟨ordered_extend tracks legal, passed_extend tracks early, paired_extend tracks legal, ?_, tracks.readOrder, ?_, tracks.oldest, ?_, tracks.apart, ?_⟩
  · exact fun read member => mem_append_left _ (tracks.reads read member)
  · exact fun obs member => (tracks.observed obs member).extend
  · apply clusters_extend tracks
    intro write recorded same
    exact write_ne_read tracks recorded begun starts (Option.some.inj same)
  · exact covered_extend tracks legal rfl fun _ member => .inl member

end

theorem Clustered.completed (clustered : Clustered past cluster) (complete : cluster.isComplete = true)
    (member : write ∈ cluster.writes) : ⟨write.complete, .completeWrite write.serial⟩ ∈ past := by
  have none := (clustered.closed (by simpa [WriteCluster.isComplete] using complete)).2.2
  exact (clustered.recorded write member).completed (incomplete_eq_zero none write member)

theorem tracks_clusters (tracks : Tracks past tracker) (legal : Legal past call) (early : call.now < TICK_FUTURE)
    {clusters : List WriteCluster} (clustered : ∀ cluster ∈ clusters, Clustered (past ++ [call]) cluster)
    (apart : clusters.Pairwise Apart)
    (covered : ∀ now serial data, ⟨now, .startWrite serial data⟩ ∈ past ++ [call] →
      (∀ stop, ⟨stop, .abortWrite serial⟩ ∉ past ++ [call]) → (∃ cluster ∈ clusters, ∃ write ∈ cluster.writes, write.serial = serial) ∨
        Superseded (past ++ [call]) tracker.outstandingReads serial) :
    Tracks (past ++ [call]) { tracker with writeClusters := clusters } := by
  refine ⟨ordered_extend tracks legal, passed_extend tracks early, paired_extend tracks legal, ?_, tracks.readOrder, ?_,
    tracks.oldest, clustered, apart, covered⟩
  · exact fun read member => mem_append_left _ (tracks.reads read member)
  · exact fun obs member => (tracks.observed obs member).extend

theorem getIncompleteWriteCluster_spec {tracker : ByteTracker}
    (order : tracker.writeClusters.Pairwise fun earlier _ => earlier.isComplete = true) : ∃ earlier cluster,
    tracker.getIncompleteWriteCluster = (earlier, cluster) ∧ cluster.complete = TICK_FUTURE ∧
      (∀ other ∈ earlier, other.isComplete = true) ∧
      (tracker.writeClusters = earlier ∧ cluster = {} ∨ tracker.writeClusters = earlier ++ [cluster]) := by
  unfold getIncompleteWriteCluster
  cases shape : tracker.writeClusters.getLast? with
  | none => exact ⟨[], {}, rfl, rfl, nofun, .inl ⟨getLast?_eq_none_iff.mp shape, rfl⟩⟩
  | some last =>
    have split : tracker.writeClusters = tracker.writeClusters.dropLast ++ [last] := by
      obtain ⟨_, same⟩ := getLast?_eq_some_iff.mp shape
      rw [same, dropLast_concat]
    rw [split] at order
    have closed : ∀ other ∈ tracker.writeClusters.dropLast, other.isComplete = true := by
      intro other member
      exact (pairwise_concat.mp order).2 other member
    by_cases complete : last.isComplete = true
    · refine ⟨tracker.writeClusters, {}, by dsimp only; rw [if_pos complete], rfl, ?_, .inl ⟨rfl, rfl⟩⟩
      intro other member
      rw [split] at member
      rcases mem_concat.mp member with before | same
      · exact closed other before
      · rw [same]
        exact complete
    · refine ⟨tracker.writeClusters.dropLast, last, by dsimp only; rw [if_neg complete], ?_, closed, .inr split⟩
      simpa [WriteCluster.isComplete] using complete

theorem startWrite_eq (incomplete : cluster.complete = TICK_FUTURE)
    (begun : cluster.start = TICK_FUTURE ∨ cluster.start ≤ now) (fresh : ∀ write ∈ cluster.writes, write.serial ≠ serial) :
    cluster.startWrite serial now data = .ok { cluster with
      start := if cluster.start = TICK_FUTURE then now else cluster.start
      numIncomplete := cluster.numIncomplete + 1
      writes := cluster.writes ++ [⟨serial, now, TICK_FUTURE, data⟩] } := by
  have ordered : (if cluster.start = TICK_FUTURE then now else cluster.start) ≤ now := by
    split
    · exact le_rfl
    next begins => exact begun.resolve_left begins
  have absent : cluster.writes.any (·.serial == serial) = false := by
    apply any_eq_false.mpr
    intro write member same
    exact fresh write member (beq_iff_eq.mp same)
  unfold WriteCluster.startWrite
  simp only [WriteCluster.isComplete, incomplete, bne_self_eq_false, Bool.not_false, require_true, ok_bind, decide_eq_true ordered,
    ne_eq, not_true_eq_false, if_false, absent, Bool.false_eq_true]
  rfl

section

variable (tracks : Tracks past tracker)
include tracks

theorem clustered_start (legal : Legal past ⟨now, .startWrite serial data⟩) (incomplete : cluster.complete = TICK_FUTURE)
    (known : cluster = {} ∨ Clustered past cluster) : Clustered (past ++ [⟨now, .startWrite serial data⟩]) { cluster with
      start := if cluster.start = TICK_FUTURE then now else cluster.start
      numIncomplete := cluster.numIncomplete + 1
      writes := cluster.writes ++ [⟨serial, now, TICK_FUTURE, data⟩] } := by
  have recorded : ∀ write ∈ cluster.writes, Recorded past write := by
    rcases known with rfl | clustered
    · exact nofun
    · exact clustered.recorded
  have fresh : ∀ call ∈ past, ended call.event ≠ some serial := by
    intro call member ends
    obtain ⟨earlier, before, starts⟩ := tracks.paired call member serial ends
    exact lt_irrefl _ (legal.2.2 earlier before serial starts)
  have below : ∀ write ∈ cluster.writes, write.serial < serial := by
    intro write member
    exact legal.2.2 _ (recorded write member).1 write.serial rfl
  refine ⟨?_, ?_, ?_, ?_, ?_, fun closed => absurd incomplete closed, ⟨_, mem_append_cons_self, ?_⟩⟩
  · intro write member
    rcases mem_concat.mp member with old | last
    · exact (recorded write old).extend nofun
    · cases last
      refine ⟨mem_append_cons_self, .inr ⟨rfl, ?_⟩⟩
      intro call member
      rcases mem_concat.mp member with before | now
      · exact fresh call before
      · rw [now]
        exact nofun
  · rw [map_append]
    apply nodup_append.mpr
    refine ⟨?_, nodup_singleton _, ?_⟩
    · rcases known with rfl | clustered
      · exact nodup_nil
      · exact clustered.serials
    · intro one first two second
      obtain ⟨write, member, rfl⟩ := mem_map.mp first
      rw [mem_singleton.mp second]
      exact (below write member).ne
  · have counted : cluster.numIncomplete = MemChecker.incomplete cluster.writes := by
      rcases known with rfl | clustered
      · rfl
      · exact clustered.counted
    simp [MemChecker.incomplete, counted]
  · intro write member complete
    rcases mem_concat.mp member with old | last
    · rcases known with rfl | clustered
      · cases old
      · exact clustered.max write old complete
    · cases last
      exact absurd rfl complete
  · rcases known with rfl | clustered
    · exact .inl rfl
    · apply clustered.attained.imp_right
      rintro ⟨write, member, last, complete⟩
      exact ⟨write, mem_append_left _ member, last, complete⟩
  · change (if cluster.start = TICK_FUTURE then now else cluster.start) ≤ now
    split
    · exact le_rfl
    next begins =>
      rcases known with rfl | clustered
      · exact absurd rfl begins
      · obtain ⟨call, member, le⟩ := clustered.begun
        exact le.trans (legal.1 call member).le

theorem startWrite_total (legal : Legal past ⟨now, .startWrite serial data⟩) :
    ∃ (earlier : List WriteCluster) (cluster : WriteCluster), cluster.complete = TICK_FUTURE ∧
      (∀ other ∈ earlier, other.isComplete = true) ∧
      (tracker.writeClusters = earlier ∧ cluster = {} ∨ tracker.writeClusters = earlier ++ [cluster]) ∧
      tracker.startWrite serial now data = .ok { tracker with writeClusters := earlier ++ [{ cluster with
        start := if cluster.start = TICK_FUTURE then now else cluster.start
        numIncomplete := cluster.numIncomplete + 1
        writes := cluster.writes ++ [⟨serial, now, TICK_FUTURE, data⟩] }] } := by
  obtain ⟨earlier, cluster, found, incomplete, closed, split⟩ := getIncompleteWriteCluster_spec (tracks.apart.imp And.left)
  refine ⟨earlier, cluster, incomplete, closed, split, ?_⟩
  have known : cluster = {} ∨ Clustered past cluster := by
    apply split.imp And.right
    intro whole
    exact tracks.clusters cluster (by rw [whole]; simp)
  have begun : cluster.start = TICK_FUTURE ∨ cluster.start ≤ now := by
    rcases known with rfl | clustered
    · exact .inl rfl
    · obtain ⟨call, member, le⟩ := clustered.begun
      exact .inr (le.trans (legal.1 call member).le)
  have fresh : ∀ write ∈ cluster.writes, write.serial ≠ serial := by
    intro write member
    rcases known with rfl | clustered
    · cases member
    · exact (legal.2.2 _ (clustered.recorded write member).1 write.serial rfl).ne
  unfold startWrite
  rw [found]
  dsimp only
  rw [startWrite_eq incomplete begun fresh, ok_bind]
  rfl

theorem startWrite_ok (legal : Legal past ⟨now, .startWrite serial data⟩) (early : now < TICK_FUTURE) {next : ByteTracker}
    (ran : tracker.startWrite serial now data = .ok next) : Tracks (past ++ [⟨now, .startWrite serial data⟩]) next := by
  obtain ⟨earlier, cluster, incomplete, closed, split, total⟩ := startWrite_total tracks legal
  rw [total] at ran
  cases ran
  have known : cluster = {} ∨ Clustered past cluster := by
    apply split.imp And.right
    intro whole
    exact tracks.clusters cluster (by rw [whole]; simp)
  have inside : ∀ other ∈ earlier, other ∈ tracker.writeClusters := by
    intro other member
    rcases split with ⟨whole, _⟩ | whole
    · rwa [whole]
    · rw [whole]
      exact mem_append_left _ member
  apply tracks_clusters tracks legal early
  · intro other member
    rcases mem_concat.mp member with before | last
    · exact (tracks.clusters other (inside other before)).extend fun _ _ => nofun
    · rw [last]
      exact clustered_start tracks legal incomplete known
  · have apart := tracks.apart
    refine pairwise_concat.mpr ⟨?_, ?_⟩
    · rcases split with ⟨whole, _⟩ | whole
      · rwa [whole] at apart
      · rw [whole] at apart
        exact (pairwise_concat.mp apart).1
    · intro other member
      refine ⟨closed other member, ?_⟩
      intro write holds next after
      rcases mem_concat.mp after with old | new
      · rcases split with ⟨_, rfl⟩ | whole
        · cases old
        · rw [whole] at apart
          exact ((pairwise_concat.mp apart).2 other member).2 write holds next old
      · cases new
        exact legal.1 _ ((tracks.clusters other (inside other member)).completed (closed other member) holds)
  · intro start other value begins live
    rcases mem_append.mp begins with before | last
    · rcases tracks.covered start other value before (fun stop aborts => live stop (mem_append_left _ aborts)) with
        ⟨holder, member, write, holds, named⟩ | superseded
      · refine .inl ?_
        rcases split with ⟨whole, _⟩ | whole
        · exact ⟨holder, mem_append_left _ (whole ▸ member), write, holds, named⟩
        · rw [whole] at member
          rcases mem_concat.mp member with first | last
          · exact ⟨holder, mem_append_left _ first, write, holds, named⟩
          · rw [last] at holds
            exact ⟨_, mem_append_cons_self, write, mem_append_left _ holds, named⟩
      · exact .inr (superseded.extend legal fun _ member => .inl member)
    · cases mem_singleton.mp last
      exact .inl ⟨_, mem_append_cons_self, _, mem_append_cons_self, rfl⟩

theorem pending_write (starts : ∃ earlier ∈ past, writeStart earlier.event = some serial)
    (fresh : ∀ call ∈ past, ended call.event ≠ some serial) : ∃ (earlier : List WriteCluster) (cluster : WriteCluster) (write : Transaction),
      tracker.getIncompleteWriteCluster = (earlier, cluster) ∧ tracker.writeClusters = earlier ++ [cluster] ∧
        Clustered past cluster ∧ cluster.complete = TICK_FUTURE ∧ cluster.writes.find? (·.serial == serial) = some write ∧
          write ∈ cluster.writes ∧ write.serial = serial ∧ write.complete = TICK_FUTURE := by
  obtain ⟨⟨now, event⟩, before, starts⟩ := starts
  obtain ⟨data, rfl⟩ := writeStart_eq starts
  have waits : ∀ write, Recorded past write → write.serial = serial → write.complete = TICK_FUTURE := by
    rintro write recorded rfl
    by_contra complete
    exact fresh _ (recorded.completed complete) rfl
  rcases tracks.covered now serial data before (fun _ aborts => fresh _ aborts rfl) with
    ⟨holder, member, write, holds, named⟩ | ⟨done, _, _, _, _, ends, _⟩
  · obtain ⟨earlier, cluster, found, last, closed, split⟩ := getIncompleteWriteCluster_spec (tracks.apart.imp And.left)
    have unfinished : holder ∉ earlier := by
      intro complete
      have ends := (tracks.clusters holder member).completed (closed holder complete) holds
      rw [named] at ends
      exact fresh _ ends rfl
    have whole : tracker.writeClusters = earlier ++ [cluster] := by
      rcases split with ⟨whole, _⟩ | whole
      · rw [whole] at member
        exact absurd member unfinished
      · exact whole
    have same : holder = cluster := by
      rw [whole] at member
      exact mem_singleton.mp ((mem_append.mp member).resolve_left unfinished)
    subst same
    cases search : holder.writes.find? (·.serial == serial) with
    | none =>
      have absent := find?_eq_none.mp search write holds
      exact absurd (beq_iff_eq.mpr named) absent
    | some first =>
      have inside := mem_of_find?_eq_some search
      have equal : first.serial = serial := beq_iff_eq.mp (find?_some search :)
      exact ⟨earlier, holder, first, found, whole, tracks.clusters holder member, last, search, inside, equal,
        waits first ((tracks.clusters holder member).recorded first inside) equal⟩
  · exact absurd rfl (fresh _ ends)

end

theorem split_serials {writes : List Transaction} (serials : (writes.map Transaction.serial).Nodup) (member : write ∈ writes) :
    ∃ before after, writes = before ++ write :: after ∧ ∀ other ∈ before ++ after, other.serial ≠ write.serial := by
  obtain ⟨before, after, split⟩ := append_of_mem member
  refine ⟨before, after, split, ?_⟩
  rw [split, map_append, map_cons] at serials
  have apart := (nodup_middle.mp serials)
  rw [← map_append] at apart
  intro other inside same
  exact (nodup_cons.mp apart).1 (mem_map.mpr ⟨other, inside, same⟩)

variable {before after : List Transaction}

theorem mem_middle {other : Transaction} : other ∈ before ++ write :: after ↔ other = write ∨ other ∈ before ++ after := by
  simp only [mem_append, mem_cons]
  tauto

section

variable (differ : ∀ other ∈ before ++ after, other.serial ≠ serial)
include differ

theorem map_split (same : write.serial = serial) :
    ((before ++ write :: after).map fun other => if other.serial = serial then { other with complete := now } else other) =
      before ++ { write with complete := now } :: after := by
  have kept : ∀ others : List Transaction, (∀ other ∈ others, other.serial ≠ serial) →
      (others.map fun other => if other.serial = serial then { other with complete := now } else other) = others := by
    intro others differ
    apply (map_congr_left fun other member => if_neg (differ other member)).trans
    exact map_id' others
  rw [map_append, map_cons, kept before, kept after, if_pos same]
  · exact fun other member => differ other (mem_append_right _ member)
  · exact fun other member => differ other (mem_append_left _ member)

theorem filter_split (same : write.serial = serial) : (before ++ write :: after).filter (·.serial != serial) = before ++ after := by
  rw [filter_append, filter_cons_of_neg (by simp [same]), ← filter_append]
  apply filter_eq_self.mpr
  intro other member
  exact bne_iff_ne.mpr (differ other member)

end

theorem abortWrite_eq {earlier : List WriteCluster} (found : tracker.getIncompleteWriteCluster = (earlier, cluster))
    (split : cluster.writes = before ++ write :: after) (differ : ∀ other ∈ before ++ after, other.serial ≠ serial)
    (same : write.serial = serial) : tracker.abortWrite serial = { tracker with writeClusters := earlier ++ [{ cluster with
      writes := before ++ after
      numIncomplete := cluster.numIncomplete - 1
      complete := if cluster.numIncomplete - 1 = 0 ∧ before ++ after ≠ [] then cluster.completeMax else cluster.complete }] } := by
  have named : cluster.writes.any (·.serial == serial) = true := by
    rw [split]
    exact any_eq_true.mpr ⟨write, mem_append_cons_self, beq_iff_eq.mpr same⟩
  unfold abortWrite
  rw [found]
  dsimp only
  rw [WriteCluster.abortWrite, if_pos named]
  simp only [split, filter_split differ same]

theorem nodup_drop (split : cluster.writes = before ++ write :: after) (serials : (cluster.writes.map Transaction.serial).Nodup) :
    ((before ++ after).map Transaction.serial).Nodup := by
  rw [split, map_append, map_cons] at serials
  rw [map_append]
  exact (nodup_cons.mp (nodup_middle.mp serials)).2

theorem incomplete_split (complete : write.complete = TICK_FUTURE) :
    incomplete (before ++ write :: after) = incomplete (before ++ after) + 1 := by
  simp only [incomplete, countP_append, countP_cons, complete, beq_self_eq_true, if_true]
  omega

theorem Clustered.drop (clustered : Clustered past cluster)
    (split : cluster.writes = before ++ write :: after) (differ : ∀ other ∈ before ++ after, other.serial ≠ serial)
    (pending : write.complete = TICK_FUTURE) (incomplete : cluster.complete = TICK_FUTURE)
    (ends : ended call.event = some serial) : Clustered (past ++ [call]) { cluster with
      writes := before ++ after
      numIncomplete := cluster.numIncomplete - 1
      complete := if cluster.numIncomplete - 1 = 0 ∧ before ++ after ≠ [] then cluster.completeMax else cluster.complete } := by
  have inside : ∀ other ∈ before ++ after, other ∈ cluster.writes := by
    intro other member
    rw [split]
    exact mem_append.mpr ((mem_append.mp member).imp_right (mem_cons_of_mem _))
  have counted : cluster.numIncomplete - 1 = MemChecker.incomplete (before ++ after) := by
    rw [clustered.counted, split, incomplete_split pending]
    omega
  refine ⟨?_, ?_, counted, ?_, ?_, ?_, ?_⟩
  · intro other member
    apply (clustered.recorded other (inside other member)).extend
    rw [ends]
    exact fun same => differ other member (Option.some.inj same).symm
  · exact nodup_drop split clustered.serials
  · exact fun other member => clustered.max other (inside other member)
  · apply clustered.attained.imp_right
    rintro ⟨other, member, last, complete⟩
    refine ⟨other, ?_, last, complete⟩
    rw [split] at member
    rcases mem_append.mp member with first | rest
    · exact mem_append_left _ first
    · rcases mem_cons.mp rest with rfl | second
      · exact absurd pending complete
      · exact mem_append_right _ second
  · intro complete
    by_cases closes : cluster.numIncomplete - 1 = 0 ∧ before ++ after ≠ []
    · refine ⟨if_pos closes, closes.2, ?_⟩
      have zero := counted.symm.trans closes.1
      exact Int.ofNat_eq_zero.mp zero
    · exact absurd ((if_neg closes).trans incomplete) complete
  · obtain ⟨earlier, member, le⟩ := clustered.begun
    exact ⟨earlier, mem_append_left _ member, le⟩

theorem Clustered.finish (clustered : Clustered past cluster) (early : now < TICK_FUTURE)
    (split : cluster.writes = before ++ write :: after) (differ : ∀ other ∈ before ++ after, other.serial ≠ serial)
    (same : write.serial = serial) (pending : write.complete = TICK_FUTURE) (incomplete : cluster.complete = TICK_FUTURE) :
    Clustered (past ++ [⟨now, .completeWrite serial⟩]) { cluster with
      writes := before ++ { write with complete := now } :: after
      completeMax := if cluster.completeMax < now then now else cluster.completeMax
      numIncomplete := cluster.numIncomplete - 1
      complete := if cluster.numIncomplete - 1 = 0 then (if cluster.completeMax < now then now else cluster.completeMax)
        else cluster.complete } := by
  have dropped : Clustered (past ++ [⟨now, .completeWrite serial⟩]) _ := clustered.drop split differ pending incomplete rfl
  have higher : cluster.completeMax ≤ (if cluster.completeMax < now then now else cluster.completeMax) := by
    split_ifs with less
    · exact less.le
    · exact le_rfl
  have counted : MemChecker.incomplete (before ++ { write with complete := now } :: after) = MemChecker.incomplete (before ++ after) := by
    simp [MemChecker.incomplete, countP_append, early.ne]
  refine ⟨?_, ?_, ?_, ?_, ?_, ?_, dropped.begun⟩
  · intro other member
    rcases mem_middle.mp member with rfl | old
    · have recorded := clustered.recorded write (by rw [split]; simp)
      rw [← same]
      exact ⟨mem_append_left _ recorded.1, .inl (mem_append_cons_self)⟩
    · exact dropped.recorded other old
  · have serials := clustered.serials
    rw [split, map_append, map_cons] at serials
    rwa [map_append, map_cons]
  · exact dropped.counted.trans (congrArg Int.ofNat counted.symm)
  · intro other member complete
    rcases mem_middle.mp member with rfl | old
    · change now ≤ (if cluster.completeMax < now then now else cluster.completeMax)
      split_ifs with less
      · exact le_rfl
      · exact not_lt.mp less
    · exact (dropped.max other old complete).trans higher
  · by_cases less : cluster.completeMax < now
    · refine .inr ⟨{ write with complete := now }, mem_middle.mpr (.inl rfl), ?_, early.ne⟩
      exact (if_pos less).symm
    · simp only [if_neg less]
      apply dropped.attained.imp_right
      rintro ⟨other, member, last, complete⟩
      exact ⟨other, mem_middle.mpr (.inr member), last, complete⟩
  · intro complete
    by_cases closes : cluster.numIncomplete - 1 = 0
    · refine ⟨if_pos closes, by simp, ?_⟩
      apply counted.trans
      exact Int.ofNat_eq_zero.mp (dropped.counted.symm.trans closes)
    · exact absurd ((if_neg closes).trans incomplete) complete

section

variable (tracks : Tracks past tracker)
include tracks

theorem tracks_last (legal : Legal past call) (early : call.now < TICK_FUTURE)
    (starts : writeStart call.event = none) {earlier : List WriteCluster} (whole : tracker.writeClusters = earlier ++ [cluster])
    (untouched : ∀ other ∈ earlier, ∀ write ∈ other.writes, ended call.event ≠ some write.serial) {next : WriteCluster}
    (clustered : Clustered (past ++ [call]) next) (fewer : ∀ write ∈ next.writes, ∃ old ∈ cluster.writes, old.start = write.start)
    (same : ∀ write ∈ cluster.writes, (∃ new ∈ next.writes, new.serial = write.serial) ∨ call.event = .abortWrite write.serial) :
    Tracks (past ++ [call]) { tracker with writeClusters := earlier ++ [next] } := by
  have apart := tracks.apart
  rw [whole] at apart
  apply tracks_clusters tracks legal early
  · intro other member
    rcases mem_concat.mp member with before | last
    · exact (tracks.clusters other (by rw [whole]; exact mem_append_left _ before)).extend (untouched other before)
    · rw [last]
      exact clustered
  · obtain ⟨closed, apart⟩ := pairwise_concat.mp apart
    refine pairwise_concat.mpr ⟨closed, fun other member => ?_⟩
    have between := apart other member
    refine ⟨between.1, ?_⟩
    intro write holds new inside
    obtain ⟨old, inside, start⟩ := fewer new inside
    rw [← start]
    exact between.2 write holds old inside
  · intro start serial data begins live
    rcases mem_append.mp begins with before | last
    · rcases tracks.covered start serial data before (fun stop aborts => live stop (mem_append_left _ aborts)) with
        ⟨holder, member, write, holds, named⟩ | superseded
      · rw [whole] at member
        refine .inl ?_
        rcases mem_concat.mp member with first | last
        · exact ⟨holder, mem_append_left _ first, write, holds, named⟩
        · rw [last] at holds
          rcases same write holds with ⟨new, inside, equal⟩ | aborts
          · exact ⟨next, mem_append_cons_self, new, inside, equal.trans named⟩
          · rw [named] at aborts
            have present : ⟨call.now, .abortWrite serial⟩ ∈ past ++ [call] := by
              rw [← aborts]
              exact mem_append_cons_self
            exact absurd present (live call.now)
      · exact .inr (superseded.extend legal fun _ member => .inl member)
    · rw [← mem_singleton.mp last] at starts
      cases starts

theorem untouched {earlier : List WriteCluster}
    (whole : tracker.writeClusters = earlier ++ [cluster]) (fresh : ∀ call ∈ past, ended call.event ≠ some serial) :
    ∀ other ∈ earlier, ∀ write ∈ other.writes, some serial ≠ some write.serial := by
  intro other member write holds same
  have apart := tracks.apart
  rw [whole] at apart
  have closed := ((pairwise_concat.mp apart).2 other member).1
  have ends := (tracks.clusters other (by rw [whole]; exact mem_append_left _ member)).completed closed holds
  exact fresh _ ends same.symm

theorem completeWrite_total (legal : Legal past ⟨now, .completeWrite serial⟩) : ∃ between, tracker.completeWrite serial now = between.pruneTransactions now ∧
      between.readObservations = tracker.readObservations ∧
        (now < TICK_FUTURE → Tracks (past ++ [⟨now, .completeWrite serial⟩]) between) := by
  obtain ⟨earlier, cluster, write, found, whole, clustered, incomplete, search, holds, same, pending⟩ :=
    pending_write tracks legal.2.2.1 legal.2.2.2
  obtain ⟨before, after, split, differ⟩ := split_serials clustered.serials holds
  rw [same] at differ
  obtain ⟨next, step, writes, finished⟩ : ∃ next, cluster.completeWrite serial now = .ok next ∧
      next.writes = before ++ { write with complete := now } :: after ∧
        (now < TICK_FUTURE → Clustered (past ++ [⟨now, .completeWrite serial⟩]) next) := by
    refine ⟨_, ?_, ?_, fun early => clustered.finish early split differ same pending incomplete⟩
    · unfold WriteCluster.completeWrite
      rw [search]
      simp only [pending, beq_self_eq_true, require_true, ok_bind, split, map_split differ same]
      rfl
    · rfl
  refine ⟨{ tracker with writeClusters := earlier ++ [next] }, ?_, rfl, ?_⟩
  · unfold completeWrite
    rw [found]
    dsimp only
    rw [step, ok_bind]
  · intro early
    apply tracks_last tracks legal early rfl whole ?_ (finished early)
    · intro new member
      rw [writes] at member
      rcases mem_middle.mp member with rfl | old
      · exact ⟨write, holds, rfl⟩
      · exact ⟨new, by rw [split]; exact mem_middle.mpr (.inr old), rfl⟩
    · intro old member
      rw [split] at member
      rw [writes]
      rcases mem_middle.mp member with rfl | other
      · exact .inl ⟨_, mem_middle.mpr (.inl rfl), rfl⟩
      · exact .inl ⟨old, mem_middle.mpr (.inr other), rfl⟩
    · exact untouched tracks whole legal.2.2.2

theorem abortWrite_ok (legal : Legal past ⟨now, .abortWrite serial⟩)
    (early : now < TICK_FUTURE) : Tracks (past ++ [⟨now, .abortWrite serial⟩]) (tracker.abortWrite serial) := by
  obtain ⟨_, _, _, found, whole, clustered, incomplete, _, holds, same, pending⟩ :=
    pending_write tracks legal.2.2.1 legal.2.2.2
  obtain ⟨_, _, split, differ⟩ := split_serials clustered.serials holds
  rw [same] at differ
  rw [abortWrite_eq found split differ same]
  apply tracks_last tracks legal early rfl whole ?_ (clustered.drop split differ pending incomplete rfl)
  · intro new member
    exact ⟨new, by rw [split]; exact mem_middle.mpr (.inr member), rfl⟩
  · intro old member
    rw [split] at member
    rcases mem_middle.mp member with rfl | other
    · exact .inr (by rw [same])
    · exact .inl ⟨old, other, rfl⟩
  · exact untouched tracks whole legal.2.2.2

end

end Steps

section Runs

variable {τ : Type} [LinearOrder τ] {time : Tick → τ} {past rest : History} {call : CheckCall} {tracker : ByteTracker}

theorem present_le (legal : Legal past call) : ∀ earlier ∈ past ++ [call], earlier.now ≤ call.now := by
  intro earlier member
  rcases mem_concat.mp member with before | last
  · exact (legal.1 earlier before).le
  · rw [last]

theorem completeRead_ok {now : Tick} {data : Byte} (increasing : StrictMono time)
    (points : Linearization time (past ++ ⟨now, .completeRead serial data⟩ :: rest))
    (ordered : (past ++ ⟨now, .completeRead serial data⟩ :: rest).Pairwise Before) (tracks : Tracks past tracker)
    (legal : Legal past ⟨now, .completeRead serial data⟩) : ∃ next, tracker.completeRead serial now data = .ok (next, true) ∧
      (now < TICK_FUTURE → Tracks (past ++ [⟨now, .completeRead serial data⟩]) next) := by
  unfold completeRead
  cases search : tracker.outstandingReads.find? (·.1 == serial) with
  | none => exact ⟨tracker, rfl, unknown_ok tracks legal⟩
  | some entry =>
    obtain ⟨key, read⟩ := entry
    have key_eq : key = serial := beq_iff_eq.mp (find?_some search :)
    subst key_eq
    have member := mem_of_find?_eq_some search
    have reading : Reading time past rest now key data read.start :=
      ⟨increasing, points, ordered, tracks.reads _ member, tracks.passed⟩
    obtain ⟨expected, told⟩ := inExpectedData_ok reading tracks member rfl
    obtain ⟨first, later, shape, _⟩ := tracks.oldest
    have known : ({ tracker with
        outstandingReads := tracker.outstandingReads.filter (·.1 != key)
        lastExpectedData := expected
        readObservations := tracker.readObservations ++ [⟨key, read.start, now, data⟩] } : ByteTracker).readObservations =
          first :: (later ++ [⟨key, read.start, now, data⟩]) := by
      simp [shape]
    obtain ⟨next, pruned⟩ := pruneTransactions_total known now
    refine ⟨next, ?_, ?_⟩
    · have told' : ({ tracker with outstandingReads := tracker.outstandingReads.filter (·.1 != key) } : ByteTracker).inExpectedData
          read.start now data = .ok (expected, true) := told
      dsimp only
      rw [told', ok_bind]
      rw [pruned, ok_bind]
      rfl
    · intro early
      exact pruneTransactions_ok (observe_ok tracks legal early member expected) (present_le legal) legal.2.1 pruned

theorem step_ok (increasing : StrictMono time) (points : Linearization time (past ++ call :: rest))
    (ordered : (past ++ call :: rest).Pairwise Before) (tracks : Tracks past tracker) (legal : Legal past call) :
    ∃ next results, step tracker call = .ok (next, results) ∧ (∀ result ∈ results, result = true) ∧
      (call.now < TICK_FUTURE → Tracks (past ++ [call]) next) := by
  obtain ⟨now, event⟩ := call
  cases event with
  | startRead => exact ⟨_, [], rfl, nofun, startRead_ok tracks legal⟩
  | completeRead =>
    obtain ⟨next, ran, kept⟩ := completeRead_ok increasing points ordered tracks legal
    refine ⟨next, [true], ?_, by simp, kept⟩
    unfold step
    dsimp only
    rw [ran]
    rfl
  | startWrite =>
    obtain ⟨_, _, _, _, _, total⟩ := startWrite_total tracks legal
    refine ⟨_, [], ?_, nofun, fun early => startWrite_ok tracks legal early total⟩
    unfold step
    dsimp only
    rw [total]
    rfl
  | completeWrite =>
    obtain ⟨_, same, observations, kept⟩ := completeWrite_total tracks legal
    obtain ⟨_, _, shape, _⟩ := tracks.oldest
    obtain ⟨next, pruned⟩ := pruneTransactions_total (observations.trans shape) now
    refine ⟨next, [], ?_, nofun, ?_⟩
    · unfold step
      dsimp only
      rw [same, pruned]
      rfl
    · intro early
      exact pruneTransactions_ok (kept early) (present_le legal) legal.2.1 pruned
  | abortWrite => exact ⟨_, [], rfl, nofun, abortWrite_ok tracks legal⟩

/-- By induction on the calls to come: the past is what the tracker tracks. -/
theorem run_ok (increasing : StrictMono time) (points : Linearization time (past ++ rest)) (ordered : (past ++ rest).Pairwise Before)
    (tracks : Tracks past tracker) (formed : Formed past rest) :
    ∃ final results, run step tracker rest = .ok (final, results) ∧ ∀ result ∈ results, result = true := by
  induction rest generalizing past tracker with
  | nil => exact ⟨tracker, [], rfl, nofun⟩
  | cons call rest ih =>
    obtain ⟨legal, formed⟩ := formed
    obtain ⟨next, results, ran, right, kept⟩ := step_ok increasing points ordered tracks legal
    have continues : ∃ final others, run step next rest = .ok (final, others) ∧ ∀ result ∈ others, result = true := by
      by_cases early : call.now < TICK_FUTURE
      · have same : past ++ [call] ++ rest = past ++ call :: rest := by simp
        exact ih (same ▸ points) (by rwa [same]) (kept early) formed
      · -- No tick comes after the last one.
        cases rest with
        | nil => exact ⟨next, [], rfl, nofun⟩
        | cons =>
          have after := formed.1.1 call (mem_append_cons_self)
          exact absurd (after.trans_le formed.1.2.1) early
    obtain ⟨final, others, finishes, rights⟩ := continues
    refine ⟨final, results ++ others, ?_, ?_⟩
    · rw [run_cons, ran]
      simp [finishes]
    · intro result member
      rcases mem_append.mp member with now | later
      · exact right result now
      · exact rights result later

/-- The memory checker raises no false alarm. -/
theorem no_false_alarm {τ : Type} [LinearOrder τ] (time : Tick → τ) (increasing : StrictMono time) (history : History)
    (formed : Formed [] history) (points : Linearization time history) :
    ∃ final results, run ByteTracker.step {} history = .ok (final, results) ∧ ∀ result ∈ results, result = true :=
  @run_ok _ _ _ [] history {} increasing points (formed.pairwise .nil) tracks_init formed

def overlapping : History :=
  [⟨1, .startWrite 1 5⟩, ⟨2, .startRead 2⟩, ⟨3, .completeRead 2 0⟩, ⟨4, .completeWrite 1⟩, ⟨5, .startRead 3⟩, ⟨6, .completeRead 3 5⟩]

def overlappingPoints : Linearization (fun tick => 10 * tick) overlapping where
  writePoint serial := if serial = 1 then some 35 else none
  readPoint serial := if serial = 2 then 25 else 55
  initial := 0
  written serial point given := ⟨1, 5, by simp_all [overlapping]⟩
  afterStart now serial data point begins given := by
    simp [overlapping] at begins given
    obtain ⟨rfl, _⟩ := begins
    obtain ⟨_, rfl⟩ := given
    decide
  completed now serial completes := by
    simp [overlapping] at completes
    obtain ⟨rfl, rfl⟩ := completes
    exact ⟨35, rfl, by decide⟩
  aborted now serial := by simp [overlapping]
  distinct one two point first second := by
    simp at first second
    exact first.1.trans second.1.symm
  readAfter now serial later data begins _ := by
    simp [overlapping] at begins
    rcases begins with ⟨rfl, rfl⟩ | ⟨rfl, rfl⟩ <;> decide
  readBefore now serial data completes := by
    simp [overlapping] at completes
    rcases completes with ⟨rfl, rfl, _⟩ | ⟨rfl, rfl, _⟩ <;> decide
  value now serial data completes := by
    simp only [overlapping, List.mem_cons, CheckCall.mk.injEq, reduceCtorEq, CheckEvent.completeRead.injEq, and_false, false_or,
      List.not_mem_nil, or_false] at completes
    rcases completes with ⟨_, rfl, rfl⟩ | ⟨_, rfl, rfl⟩
    · exact .inr ⟨rfl, by simp⟩
    · refine .inl ⟨1, 35, 1, rfl, by simp [overlapping], by simp, ?_⟩
      intro other later given _
      simp only [Option.ite_none_right_eq_some, Option.some.injEq] at given
      exact given.2.symm.le

theorem no_false_alarm_overlapping : ∃ final results, run ByteTracker.step {} overlapping = .ok (final, results) ∧
    ∀ result ∈ results, result = true :=
  no_false_alarm _ (fun _ _ less => Nat.mul_lt_mul_of_pos_left less (by decide)) _ (by decide) overlappingPoints

end Runs

end ImcGem5.Mem.Proofs.MemChecker

import ImcGem5.Proofs.MemChecker

/-! The assertions of the memory checker. When calls may share a tick, one of them fails: the one
that the writes of a byte all overlap a read, which asks for more than that. -/

namespace ImcGem5.Mem.Proofs.CheckerAsserts
open Lib MemChecker List ByteTracker

section Histories

/-- Ticks do not go down, a transaction gets the next serial number or a later one, and it ends once. -/
def Proper (past : History) (call : CheckCall) : Prop :=
  (∀ earlier ∈ past, earlier.now ≤ call.now) ∧ call.now ≤ TICK_FUTURE ∧
  match call.event with
  | .startRead serial => ∀ earlier ∈ past, ∀ other ∈ started earlier.event, other < serial
  | .startWrite serial _ => ∀ earlier ∈ past, ∀ other ∈ started earlier.event, other < serial
  | .completeRead serial _ =>
    (∃ earlier ∈ past, readStart earlier.event = some serial) ∧ ∀ earlier ∈ past, ended earlier.event ≠ some serial
  | .completeWrite serial =>
    (∃ earlier ∈ past, writeStart earlier.event = some serial) ∧ ∀ earlier ∈ past, ended earlier.event ≠ some serial
  | .abortWrite serial =>
    (∃ earlier ∈ past, writeStart earlier.event = some serial) ∧ ∀ earlier ∈ past, ended earlier.event ≠ some serial

instance (past : History) (call : CheckCall) : Decidable (Proper past call) := by
  obtain ⟨_, _ | _ | _ | _ | _⟩ := call <;> (dsimp only [Proper]; infer_instance)

def Follow (past : History) : History → Prop
  | [] => True
  | call :: rest => Proper past call ∧ Follow (past ++ [call]) rest

instance Follow.decidable : ∀ past rest : History, Decidable (Follow past rest)
  | _, [] => .isTrue trivial
  | past, call :: rest =>
    have := Follow.decidable (past ++ [call]) rest
    inferInstanceAs (Decidable (_ ∧ _))

def Open (past : History) (serial : Serial) : Prop := ∀ call ∈ past, ended call.event ≠ some serial

instance (past : History) : DecidablePred (Open past) := fun _ => inferInstanceAs (Decidable (∀ call ∈ past, _))

def Aborted (past : History) (serial : Serial) : Prop := ∃ stop, ⟨stop, .abortWrite serial⟩ ∈ past

/-- The read that completes overlaps all writes there have been, none of which it agrees with, and
nothing was read before it. All these writes were started at the tick it completes at. -/
structure Clashes (past : History) (now start : Tick) (data : Byte) : Prop where
  written : ∃ call ∈ past, ∃ serial, writeStart call.event = some serial
  unseen : ∀ call ∈ past, ∀ serial value, call.event = .completeRead serial value → call.now = TICK_INITIAL ∨ start ≤ call.now
  differs : ∀ begun serial value, ⟨begun, .startWrite serial value⟩ ∈ past → ¬Aborted past serial → value ≠ data
  overlaps : ∀ begun serial value, ⟨begun, .startWrite serial value⟩ ∈ past → ¬Aborted past serial →
    (∀ stop, ⟨stop, .completeWrite serial⟩ ∈ past → start < stop) ∧ (Open past serial → start < TICK_FUTURE)
  together : (∀ call ∈ past, ∀ serial, writeStart call.event = some serial → call.now = now) ∨ start = TICK_FUTURE

structure Calls (past : History) (now : Tick) : Prop where
  early : ∀ call ∈ past, call.now ≤ now
  bounded : now ≤ TICK_FUTURE
  serials : past.Pairwise fun first second => ∀ one other, started first.event = some one → started second.event = some other → one < other
  paired : ∀ call ∈ past, ∀ serial, ended call.event = some serial → ∃ earlier ∈ past, started earlier.event = some serial
  once : past.Pairwise fun first second => ∀ serial, ended first.event = some serial → ended second.event ≠ some serial

variable {past : History} {call : CheckCall} {now : Tick}

variable {serial : Serial}

theorem Proper.fresh (proper : Proper past call) (starts : started call.event = some serial) :
    ∀ earlier ∈ past, ∀ other, started earlier.event = some other → other < serial :=
  Numbered.fresh proper.2.2 starts

theorem Proper.paired (proper : Proper past call) (ends : ended call.event = some serial) :
    (∃ earlier ∈ past, started earlier.event = some serial) ∧ Open past serial :=
  Numbered.paired proper.2.2 ends

section

variable (calls : Calls past now)
include calls

theorem Calls.extend (proper : Proper past call) : Calls (past ++ [call]) call.now where
  early earlier member := by
    obtain before | last := mem_concat.mp member
    · exact proper.1 earlier before
    · rw [last]
  bounded := proper.2.1
  serials := by
    refine pairwise_concat.mpr ⟨calls.serials, ?_⟩
    intro earlier member one other first second
    exact proper.fresh second earlier member one first
  paired other member serial ends := by
    obtain before | last := mem_concat.mp member
    · obtain ⟨earlier, member, starts⟩ := calls.paired other before serial ends
      exact ⟨earlier, mem_append_left _ member, starts⟩
    · rw [last] at ends
      obtain ⟨earlier, member, starts⟩ := (proper.paired ends).1
      exact ⟨earlier, mem_append_left _ member, starts⟩
  once := by
    refine pairwise_concat.mpr ⟨calls.once, ?_⟩
    intro earlier member serial ends ends'
    exact (proper.paired ends').2 earlier member ends

theorem Calls.unique {first second : CheckCall} (one : first ∈ past) (two : second ∈ past)
    (starts : started first.event = some serial) (starts' : started second.event = some serial) : first = second := by
  have apart : past.Pairwise fun first second =>
      started first.event = some serial → started second.event = some serial → first = second :=
    calls.serials.imp fun less starts starts' => absurd (less _ _ starts starts') (lt_irrefl serial)
  refine List.Pairwise.forall_of_forall_of_flip (fun _ _ _ _ => rfl) apart ?_ one two starts starts'
  exact apart.imp fun same starts starts' => (same starts' starts).symm

theorem Calls.ended_unique {first second : CheckCall} (one : first ∈ past) (two : second ∈ past)
    (ends : ended first.event = some serial) (ends' : ended second.event = some serial) : first = second := by
  have apart : past.Pairwise fun first second =>
      ended first.event = some serial → ended second.event = some serial → first = second :=
    calls.once.imp fun other ends ends' => absurd ends' (other serial ends)
  refine List.Pairwise.forall_of_forall_of_flip (fun _ _ _ _ => rfl) apart ?_ one two ends ends'
  exact apart.imp fun same ends ends' => (same ends' ends).symm

theorem Calls.new_open (proper : Proper past call) (starts : started call.event = some serial) : Open past serial := by
  intro other member ends
  obtain ⟨earlier, before, starts'⟩ := calls.paired other member serial ends
  exact lt_irrefl _ (proper.fresh starts earlier before serial starts')

end

end Histories

section Scans

theorem lastCompleted_after {α : Type} (complete : α → Tick) (before : Tick) (reversed later : List α)
    (late : ∀ entry ∈ later, before ≤ complete entry) {found : α} {rest : List α}
    (same : lastCompletedTransaction complete before reversed later = found :: rest) (some : reversed ≠ []) :
    ∀ entry ∈ rest, before ≤ complete entry := by
  induction reversed generalizing later with
  | nil => exact absurd rfl some
  | cons entry others ih =>
    cases others with
    | nil =>
      cases same
      exact late
    | cons next =>
      rw [lastCompletedTransaction] at same
      split at same
      next notBefore => exact ih (entry :: later) (forall_mem_cons.mpr ⟨notBefore, late⟩) same (by simp)
      next =>
        cases same
        exact late
      · simp

variable {lastObs : Transaction} {start : Tick} {data : Byte}

theorem scanWrites_overlap {writes : List Transaction} (differs : ∀ write ∈ writes, write.data ≠ data ∧ start < write.complete) (scan : Scan) :
    ∃ expected, scanWrites lastObs start data writes scan = .ok { scan with expected } := by
  induction writes generalizing scan with
  | nil => exact ⟨scan.expected, rfl⟩
  | cons write _ ih =>
    obtain ⟨⟨other, late⟩, rest⟩ := forall_mem_cons.mp differs
    rw [scanWrites]
    by_cases old : write.complete < lastObs.start
    · rw [if_pos old]
      exact ih rest scan
    · rw [if_neg old, if_neg other]
      rw [if_pos late]
      exact ih rest { scan with expected := scan.expected ++ [write.data] }

theorem scanClusters_overlap {clusters : List WriteCluster}
    (differs : ∀ cluster ∈ clusters, ∀ write ∈ cluster.writes, write.data ≠ data ∧ start < write.complete) {scan : Scan}
    (overlap : scan.wcOverlap = true) : ∃ expected, scanClusters lastObs start data clusters scan = .ok { scan with expected } := by
  induction clusters generalizing scan with
  | nil => exact ⟨scan.expected, rfl⟩
  | cons cluster _ ih =>
    obtain ⟨first, rest⟩ := forall_mem_cons.mp differs
    obtain ⟨expected, ran⟩ := @scanWrites_overlap lastObs start data cluster.writes first scan
    have overlap' : { scan with expected }.wcOverlap = true := overlap
    obtain ⟨expected', ran'⟩ := ih rest overlap'
    refine ⟨expected', ?_⟩
    rw [scanClusters, if_pos overlap, ran, ok_bind]
    exact ran'

end Scans

section Reads

structure Reads (past : History) (now : Tick) (reads : List (Serial × Transaction)) (observations : List Transaction) : Prop where
  began : ∀ read ∈ reads, ⟨read.2.start, .startRead read.1⟩ ∈ past
  waiting : ∀ start serial, ⟨start, .startRead serial⟩ ∈ past → Open past serial → ∃ read ∈ reads, read.1 = serial
  readOrder : reads.Pairwise fun first second => first.2.start ≤ second.2.start
  observed : ∀ obs ∈ observations, obs.complete = TICK_INITIAL ∨ ∃ serial data, ⟨obs.complete, .completeRead serial data⟩ ∈ past
  lasted : ∀ obs ∈ observations, obs.start ≤ obs.complete
  order : observations.Pairwise fun first second => first.complete ≤ second.complete
  oldest : ∃ first rest, observations = first :: rest ∧
    (first.complete = TICK_INITIAL ∨ first.complete < now ∧ ∀ read ∈ reads, first.complete < read.2.start)
  noted : ∀ seen serial data, ⟨seen, .completeRead serial data⟩ ∈ past →
    (∃ first, observations.head? = some first ∧ seen ≤ first.complete) ∨ ∃ obs ∈ observations, obs.complete = seen

variable {past : History} {call : CheckCall} {now : Tick} {reads : List (Serial × Transaction)} {observations : List Transaction}

theorem reads_init : Reads [] 0 [] [⟨0, TICK_INITIAL, TICK_INITIAL, 0⟩] where
  began := nofun
  waiting _ _ := nofun
  readOrder := .nil
  observed obs member := by
    rw [mem_singleton.mp member]
    exact .inl rfl
  lasted obs member := by rw [mem_singleton.mp member]
  order := pairwise_singleton _ _
  oldest := ⟨_, _, rfl, .inl rfl⟩
  noted _ _ _ := nofun

theorem Reads.observed_le (kept : Reads past now reads observations) (calls : Calls past now) {obs : Transaction} (member : obs ∈ observations) :
    obs.complete ≤ now := by
  obtain zero | ⟨serial, data, before⟩ := kept.observed obs member
  · rw [zero]
    exact Nat.zero_le _
  · exact calls.early _ before

variable {serial : Serial}

theorem Open.extend (open_ : Open past serial) (other : ended call.event ≠ some serial) : Open (past ++ [call]) serial := by
  intro earlier member
  obtain before | last := mem_concat.mp member
  · exact open_ earlier before
  · rw [last]
    exact other

theorem Open.earlier (open_ : Open (past ++ [call]) serial) : Open past serial :=
  fun earlier member => open_ earlier (mem_append_left _ member)

section

variable (kept : Reads past now reads observations)
include kept

theorem Reads.other (now_le : now ≤ call.now) (starts : readStart call.event = none) (ends : ∀ serial data, call.event ≠ .completeRead serial data) :
    Reads (past ++ [call]) call.now reads observations where
  began read member := mem_append_left _ (kept.began read member)
  waiting start serial begun open_ := by
    obtain before | last := mem_concat.mp begun
    · exact kept.waiting start serial before open_.earlier
    · rw [← last] at starts
      cases starts
  readOrder := kept.readOrder
  observed obs member := (kept.observed obs member).imp_right fun ⟨serial, data, before⟩ => ⟨serial, data, mem_append_left _ before⟩
  lasted := kept.lasted
  order := kept.order
  oldest := by
    obtain ⟨first, rest, shape, old⟩ := kept.oldest
    exact ⟨first, rest, shape, old.imp_right fun ⟨before, outstanding⟩ => ⟨before.trans_le now_le, outstanding⟩⟩
  noted seen serial data completes := by
    obtain before | last := mem_concat.mp completes
    · exact kept.noted seen serial data before
    · exact absurd (congrArg CheckCall.event last).symm (ends serial data)

theorem Reads.start {begin_ : Tick}
    (proper : Proper past ⟨begin_, .startRead serial⟩) (now_le : now ≤ begin_) :
    Reads (past ++ [⟨begin_, .startRead serial⟩]) begin_ (reads ++ [(serial, ⟨serial, begin_, TICK_FUTURE, 0⟩)]) observations where
  began read member := by
    obtain old | last := mem_concat.mp member
    · exact mem_append_left _ (kept.began read old)
    · rw [last]
      exact mem_append_cons_self
  waiting start other begun open_ := by
    obtain before | last := mem_concat.mp begun
    · obtain ⟨read, member, same⟩ := kept.waiting start other before open_.earlier
      exact ⟨read, mem_append_left _ member, same⟩
    · cases last
      exact ⟨_, mem_append_cons_self, rfl⟩
  readOrder := by
    refine pairwise_concat.mpr ⟨kept.readOrder, ?_⟩
    intro read member
    exact proper.1 _ (kept.began read member)
  observed obs member := (kept.observed obs member).imp_right fun ⟨serial, data, before⟩ => ⟨serial, data, mem_append_left _ before⟩
  lasted := kept.lasted
  order := kept.order
  oldest := by
    obtain ⟨first, rest, shape, old⟩ := kept.oldest
    refine ⟨first, rest, shape, old.imp_right fun ⟨before, outstanding⟩ => ⟨before.trans_le now_le, fun read member => ?_⟩⟩
    obtain old | last := mem_concat.mp member
    · exact outstanding read old
    · rw [last]
      exact before.trans_le now_le
  noted seen other data completes := by
    obtain before | last := mem_concat.mp completes
    · exact kept.noted seen other data before
    · cases last

theorem Reads.complete (calls : Calls past now) {done : Tick} {data : Byte}
    (now_le : now ≤ done) {start : Tick} (start_le : start ≤ done) :
    Reads (past ++ [⟨done, .completeRead serial data⟩]) done (reads.filter (·.1 != serial)) (observations ++ [⟨serial, start, done, data⟩]) where
  began read member := mem_append_left _ (kept.began read (mem_filter.mp member).1)
  waiting start other begun open_ := by
    obtain before | last := mem_concat.mp begun
    · obtain ⟨read, member, same⟩ := kept.waiting start other before open_.earlier
      refine ⟨read, mem_filter.mpr ⟨member, bne_iff_ne.mpr fun equal => ?_⟩, same⟩
      refine open_ _ mem_append_cons_self ?_
      rw [← same, equal]
      rfl
    · cases last
  readOrder := kept.readOrder.filter _
  observed obs member := by
    obtain old | last := mem_concat.mp member
    · exact (kept.observed obs old).imp_right fun ⟨serial, data, before⟩ => ⟨serial, data, mem_append_left _ before⟩
    · rw [last]
      exact .inr ⟨serial, data, mem_append_cons_self⟩
  lasted obs member := by
    obtain old | last := mem_concat.mp member
    · exact kept.lasted obs old
    · rw [last]
      exact start_le
  order := by
    refine pairwise_concat.mpr ⟨kept.order, ?_⟩
    intro obs member
    exact (kept.observed_le calls member).trans now_le
  oldest := by
    obtain ⟨first, rest, shape, old⟩ := kept.oldest
    refine ⟨first, rest ++ [⟨serial, start, done, data⟩], by rw [shape]; rfl, ?_⟩
    exact old.imp_right fun ⟨before, outstanding⟩ => ⟨before.trans_le now_le, fun read member => outstanding read (mem_filter.mp member).1⟩
  noted seen other value completes := by
    obtain ⟨first, rest, shape, _⟩ := kept.oldest
    obtain before | last := mem_concat.mp completes
    · refine (kept.noted seen other value before).imp ?_ ?_
      · rintro ⟨found, head, le⟩
        refine ⟨found, ?_, le⟩
        rw [shape] at head ⊢
        exact head
      · rintro ⟨obs, member, same⟩
        exact ⟨obs, mem_append_left _ member, same⟩
    · cases last
      exact .inr ⟨_, mem_append_cons_self, rfl⟩

end

/-- The tick that things are pruned before: the one of the first read that is outstanding. -/
def pruneTick (reads : List (Serial × Transaction)) (curTick : Tick) : Tick := (reads.head?.map fun first => first.2.start).getD curTick

section

variable (kept : Reads past now reads observations)
include kept

theorem Reads.pruneTick_le : ∀ read ∈ reads, pruneTick reads now ≤ read.2.start := by
  intro read member
  have order := kept.readOrder
  unfold pruneTick
  cases reads with
  | nil => cases member
  | cons =>
    obtain rfl | after := mem_cons.mp member
    · exact le_rfl
    · exact (pairwise_cons.mp order).1 read after

theorem Reads.pruneTick_now (calls : Calls past now) : pruneTick reads now ≤ now := by
  unfold pruneTick
  cases reads with
  | nil => exact le_rfl
  | cons head => exact calls.early _ (kept.began head mem_cons_self)

theorem Reads.prune (calls : Calls past now) :
    Reads past now reads (lastCompletedTransaction Transaction.complete (pruneTick reads now) observations.reverse []) := by
  obtain ⟨_, _, shape, old⟩ := kept.oldest
  have some : observations.reverse ≠ [] := by simp [shape]
  obtain ⟨earlier, found, rest, kept_, split, fits⟩ := lastCompleted_spec Transaction.complete (pruneTick reads now) _ [] some
  rw [reverse_reverse, append_nil] at split
  rw [kept_]
  have inside : ∀ obs ∈ found :: rest, obs ∈ observations := by
    intro obs member
    rw [split]
    exact mem_append_right _ member
  have order := kept.order
  rw [split] at order
  obtain ⟨_, ordered, between⟩ := pairwise_append.mp order
  refine ⟨kept.began, kept.waiting, kept.readOrder, fun obs member => kept.observed obs (inside obs member),
    fun obs member => kept.lasted obs (inside obs member), ordered, ⟨found, rest, rfl, ?_⟩, ?_⟩
  · obtain none_ | early := fits
    · rw [none_, shape] at split
      cases split
      exact old
    · exact .inr ⟨early.trans_le (kept.pruneTick_now calls), fun read member => early.trans_le (kept.pruneTick_le read member)⟩
  · intro seen serial data completes
    obtain ⟨_, at_, le⟩ | ⟨obs, member, same⟩ := kept.noted seen serial data completes
    · refine .inl ⟨found, rfl, le.trans ?_⟩
      rw [split] at at_
      cases earlier with
      | nil =>
        cases at_
        exact le_rfl
      | cons =>
        cases at_
        exact between _ mem_cons_self found mem_cons_self
    · rw [split] at member
      obtain gone | stays := mem_append.mp member
      · refine .inl ⟨found, rfl, ?_⟩
        rw [← same]
        exact between obs gone found mem_cons_self
      · exact .inr ⟨obs, stays, same⟩

end

end Reads

section Writes

def pending (past : History) (writes : List Transaction) : Nat := writes.countP fun write => decide (Open past write.serial)

structure Filled (past : History) (cluster : WriteCluster) : Prop where
  recorded : ∀ write ∈ cluster.writes, Recorded past write
  serials : (cluster.writes.map Transaction.serial).Nodup
  counted : cluster.numIncomplete = pending past cluster.writes
  max : ∀ write ∈ cluster.writes, ¬Open past write.serial → write.complete ≤ cluster.completeMax
  closed : cluster.complete ≠ TICK_FUTURE →
    cluster.complete = cluster.completeMax ∧ cluster.writes ≠ [] ∧ pending past cluster.writes = 0
  begun : ∃ serial data, ⟨cluster.start, .startWrite serial data⟩ ∈ past
  inside : ∀ write ∈ cluster.writes, cluster.start ≤ write.start ∧ write.start ≤ write.complete

/-- What the clusters of a tracker have to do with the past. What was pruned was followed by a cluster
that was complete by then. -/
structure Writes (past : History) (now : Tick) (clusters : List WriteCluster) : Prop where
  filled : ∀ cluster ∈ clusters, Filled past cluster
  closed : clusters.Pairwise fun earlier _ => earlier.isComplete = true
  covered : ∀ start serial data, ⟨start, .startWrite serial data⟩ ∈ past → ∃ first, clusters.head? = some first ∧
    (first.start ≤ start ∨ first.complete < now) ∧ (Aborted past serial ∨
      (∃ cluster ∈ clusters, ∃ write ∈ cluster.writes, write.serial = serial) ∨ ¬Open past serial ∧ first.complete < now)

variable {past : History} {call : CheckCall} {now : Tick} {clusters earlier : List WriteCluster} {cluster : WriteCluster}
  {write : Transaction} {before after : List Transaction}

theorem writes_init : Writes [] 0 [] where
  filled := nofun
  closed := .nil
  covered _ _ _ := nofun

theorem recorded_ended (recorded : Recorded past write) (ended_ : ¬Open past write.serial) :
    ⟨write.complete, .completeWrite write.serial⟩ ∈ past := by
  obtain done | ⟨_, open_⟩ := recorded.2
  · exact done
  · exact absurd open_ ended_

theorem recorded_open (recorded : Recorded past write) (open_ : Open past write.serial) : write.complete = TICK_FUTURE := by
  obtain done | ⟨complete, _⟩ := recorded.2
  · exact absurd rfl (open_ _ done)
  · exact complete

section

variable (filled : Filled past cluster)
include filled

theorem Filled.open_of (member : write ∈ cluster.writes) (open_ : Open past write.serial) : cluster.isComplete = false := by
  by_contra complete
  have none_ := (filled.closed (by simpa [WriteCluster.isComplete] using complete)).2.2
  have ended_ := countP_eq_zero.mp none_ write member
  exact ended_ (decide_eq_true open_)

theorem Filled.complete_le (complete : cluster.complete ≠ TICK_FUTURE) (member : write ∈ cluster.writes) :
    ¬Open past write.serial ∧ write.complete ≤ cluster.complete := by
  obtain ⟨same, _, none_⟩ := filled.closed complete
  have ended_ : ¬Open past write.serial := fun open_ => countP_eq_zero.mp none_ write member (decide_eq_true open_)
  exact ⟨ended_, same ▸ filled.max write member ended_⟩

theorem Filled.start_le (complete : cluster.complete ≠ TICK_FUTURE) : cluster.start ≤ cluster.complete := by
  obtain ⟨write, member⟩ := exists_mem_of_ne_nil _ (filled.closed complete).2.1
  have inside := filled.inside write member
  exact inside.1.trans (inside.2.trans (filled.complete_le complete member).2)

end

theorem pending_congr {past later : History} {writes : List Transaction}
    (same : ∀ write ∈ writes, Open later write.serial ↔ Open past write.serial) : pending later writes = pending past writes := by
  apply countP_congr
  intro write member
  simp only [decide_eq_true_eq]
  exact same write member

variable {serial : Serial}

theorem Open.extend_iff (other : ended call.event ≠ some serial) : Open (past ++ [call]) serial ↔ Open past serial :=
  ⟨Open.earlier, fun open_ => open_.extend other⟩

theorem Filled.extend (filled : Filled past cluster) (other : ∀ write ∈ cluster.writes, ended call.event ≠ some write.serial) :
    Filled (past ++ [call]) cluster := by
  have opens : ∀ write ∈ cluster.writes, Open (past ++ [call]) write.serial ↔ Open past write.serial :=
    fun write member => Open.extend_iff (other write member)
  have same := pending_congr opens
  refine ⟨fun write member => (filled.recorded write member).extend (other write member), filled.serials, same.symm ▸ filled.counted,
    fun write member ended_ => filled.max write member fun open_ => ended_ ((opens write member).mpr open_), ?_, ?_, filled.inside⟩
  · intro complete
    rw [same]
    exact filled.closed complete
  · obtain ⟨serial, data, begun⟩ := filled.begun
    exact ⟨serial, data, mem_append_left _ begun⟩

theorem Writes.open_last (kept : Writes past now (earlier ++ [cluster])) {other : WriteCluster} (member : other ∈ earlier) :
    ∀ write ∈ other.writes, ¬Open past write.serial := by
  intro write holds open_
  have complete := (pairwise_concat.mp kept.closed).2 other member
  rw [(kept.filled other (mem_append_left _ member)).open_of holds open_] at complete
  cases complete

theorem Writes.other (kept : Writes past now clusters) (later : now ≤ call.now) (starts : writeStart call.event = none)
    (other : ∀ write, Recorded past write → ended call.event ≠ some write.serial) : Writes (past ++ [call]) call.now clusters where
  filled cluster member := (kept.filled cluster member).extend fun write holds => other write ((kept.filled cluster member).recorded write holds)
  closed := kept.closed
  covered start serial data begun := by
    obtain before | last := mem_concat.mp begun
    · obtain ⟨first, head, starts, covered⟩ := kept.covered start serial data before
      refine ⟨first, head, starts.imp_right fun less => less.trans_le later, ?_⟩
      obtain ⟨stop, aborted⟩ | held | ⟨ended_, less⟩ := covered
      · exact .inl ⟨stop, mem_append_left _ aborted⟩
      · exact .inr (.inl held)
      · exact .inr (.inr ⟨fun open_ => ended_ open_.earlier, less.trans_le later⟩)
    · rw [← last] at starts
      cases starts

theorem Writes.prune (kept : Writes past now clusters) {before : Tick} (small : before ≤ now) :
    Writes past now (lastCompletedTransaction WriteCluster.complete before clusters.reverse []) := by
  obtain ⟨_, split, dropped⟩ := keptClusters before clusters
  generalize lastCompletedTransaction WriteCluster.complete before clusters.reverse [] = left at split dropped ⊢
  obtain rfl | ⟨head, tail, rfl, early⟩ := dropped
  · rw [← show clusters = left from split]
    exact kept
  · have closed := kept.closed
    rw [split] at closed
    obtain ⟨_, closed', before_⟩ := pairwise_append.mp closed
    refine ⟨fun cluster member => kept.filled cluster (split ▸ mem_append_right _ member), closed', ?_⟩
    intro start serial data begun
    obtain ⟨_, _, _, covered⟩ := kept.covered start serial data begun
    refine ⟨head, rfl, .inr (early.trans_le small), ?_⟩
    obtain aborted | ⟨cluster, member, write, holds, same⟩ | ⟨ended_, _⟩ := covered
    · exact .inl aborted
    · rw [split] at member
      obtain gone | stays := mem_append.mp member
      · have complete := before_ cluster gone head mem_cons_self
        have filled := kept.filled cluster (split ▸ mem_append_left _ gone)
        have ended_ := (filled.complete_le (by simpa [WriteCluster.isComplete] using complete) holds).1
        rw [same] at ended_
        exact .inr (.inr ⟨ended_, early.trans_le small⟩)
      · exact .inr (.inl ⟨cluster, stays, write, holds, same⟩)
    · exact .inr (.inr ⟨ended_, early.trans_le small⟩)

theorem Filled.take {begin_ : Tick} {data : Byte} (calls : Calls past now)
    (proper : Proper past ⟨begin_, .startWrite serial data⟩) (incomplete : cluster.complete = TICK_FUTURE)
    (known : cluster = {} ∨ Filled past cluster) : Filled (past ++ [⟨begin_, .startWrite serial data⟩]) { cluster with
      start := if cluster.start = TICK_FUTURE then begin_ else cluster.start
      numIncomplete := cluster.numIncomplete + 1
      writes := cluster.writes ++ [⟨serial, begin_, TICK_FUTURE, data⟩] } := by
  have open_ := calls.new_open proper (show started (.startWrite serial data) = some serial from rfl)
  have new_open : Open (past ++ [⟨begin_, .startWrite serial data⟩]) serial := open_.extend nofun
  have extended : cluster = {} ∨ Filled (past ++ [⟨begin_, .startWrite serial data⟩]) cluster :=
    known.imp_right fun filled => filled.extend fun _ _ => nofun
  have below : ∀ write ∈ cluster.writes, write.serial < serial := by
    intro write member
    obtain rfl | filled := known
    · cases member
    · exact proper.2.2 _ (filled.recorded write member).1 write.serial rfl
  refine ⟨?_, ?_, ?_, ?_, fun complete => absurd incomplete complete, ?_, ?_⟩
  · intro write member
    obtain old | last := mem_concat.mp member
    · obtain rfl | filled := extended
      · cases old
      · exact filled.recorded write old
    · rw [last]
      exact ⟨mem_append_cons_self, .inr ⟨rfl, new_open⟩⟩
  · rw [map_append]
    refine nodup_append.mpr ⟨?_, nodup_singleton _, ?_⟩
    · obtain rfl | filled := known
      · exact nodup_nil
      · exact filled.serials
    · intro one first two second
      obtain ⟨write, member, rfl⟩ := mem_map.mp first
      rw [mem_singleton.mp second]
      exact (below write member).ne
  · have counted : cluster.numIncomplete = pending (past ++ [⟨begin_, .startWrite serial data⟩]) cluster.writes := by
      obtain rfl | filled := extended
      · rfl
      · exact filled.counted
    have more : pending (past ++ [⟨begin_, .startWrite serial data⟩]) (cluster.writes ++ [⟨serial, begin_, TICK_FUTURE, data⟩]) =
        pending (past ++ [⟨begin_, .startWrite serial data⟩]) cluster.writes + 1 := by
      simp [pending, countP_append, new_open]
    rw [more, counted]
    rfl
  · intro write member ended_
    obtain old | last := mem_concat.mp member
    · obtain rfl | filled := extended
      · cases old
      · exact filled.max write old ended_
    · rw [last] at ended_
      exact absurd new_open ended_
  · by_cases future : cluster.start = TICK_FUTURE
    · rw [if_pos future]
      exact ⟨serial, data, mem_append_cons_self⟩
    · rw [if_neg future]
      obtain rfl | filled := extended
      · exact absurd rfl future
      · exact filled.begun
  · have start_le : (if cluster.start = TICK_FUTURE then begin_ else cluster.start) ≤ cluster.start := by
      split
      next future =>
        rw [future]
        exact proper.2.1
      next => exact le_rfl
    intro write member
    obtain old | last := mem_concat.mp member
    · obtain rfl | filled := known
      · cases old
      · exact (filled.inside write old).imp_left start_le.trans
    · rw [last]
      refine ⟨?_, proper.2.1⟩
      change (if cluster.start = TICK_FUTURE then begin_ else cluster.start) ≤ begin_
      split
      next => exact le_rfl
      next future =>
        obtain rfl | filled := known
        · exact absurd rfl future
        · obtain ⟨_, _, begun⟩ := filled.begun
          exact proper.1 _ begun

theorem pending_split (open_ : Open past write.serial) : pending past (before ++ write :: after) = pending past (before ++ after) + 1 := by
  simp only [pending, countP_append, countP_cons, decide_eq_true open_, if_true]
  omega

theorem Filled.drop (filled : Filled past cluster) (split : cluster.writes = before ++ write :: after)
    (differ : ∀ other ∈ before ++ after, other.serial ≠ serial) (same : write.serial = serial) (open_ : Open past serial)
    (incomplete : cluster.complete = TICK_FUTURE) (ends : ended call.event = some serial) : Filled (past ++ [call]) { cluster with
      writes := before ++ after
      numIncomplete := cluster.numIncomplete - 1
      complete := if cluster.numIncomplete - 1 = 0 ∧ before ++ after ≠ [] then cluster.completeMax else cluster.complete } := by
  have inside : ∀ other ∈ before ++ after, other ∈ cluster.writes := by
    intro other member
    rw [split]
    exact mem_middle.mpr (.inr member)
  have others : ∀ other ∈ before ++ after, ended call.event ≠ some other.serial := by
    intro other member equal
    rw [ends] at equal
    exact differ other member (Option.some.inj equal).symm
  have opens : ∀ other ∈ before ++ after, Open (past ++ [call]) other.serial ↔ Open past other.serial :=
    fun other member => Open.extend_iff (others other member)
  have counted : cluster.numIncomplete - 1 = pending (past ++ [call]) (before ++ after) := by
    rw [filled.counted, split, pending_split (same ▸ open_), pending_congr opens]
    omega
  refine ⟨fun other member => (filled.recorded other (inside other member)).extend (others other member), ?_, counted, ?_, ?_, ?_,
    fun other member => filled.inside other (inside other member)⟩
  · exact nodup_drop split filled.serials
  · exact fun other member ended_ => filled.max other (inside other member) fun open_ => ended_ ((opens other member).mpr open_)
  · intro complete
    by_cases closes : cluster.numIncomplete - 1 = 0 ∧ before ++ after ≠ []
    · exact ⟨if_pos closes, closes.2, Int.ofNat_eq_zero.mp (counted.symm.trans closes.1)⟩
    · exact absurd ((if_neg closes).trans incomplete) complete
  · obtain ⟨other, data, begun⟩ := filled.begun
    exact ⟨other, data, mem_append_left _ begun⟩

theorem Filled.finish {done : Tick} (calls : Calls past now) (later : now ≤ done) (filled : Filled past cluster)
    (split : cluster.writes = before ++ write :: after) (differ : ∀ other ∈ before ++ after, other.serial ≠ serial)
    (same : write.serial = serial) (open_ : Open past serial) (incomplete : cluster.complete = TICK_FUTURE) :
    Filled (past ++ [⟨done, .completeWrite serial⟩]) { cluster with
      writes := before ++ { write with complete := done } :: after
      completeMax := if cluster.completeMax < done then done else cluster.completeMax
      numIncomplete := cluster.numIncomplete - 1
      complete := if cluster.numIncomplete - 1 = 0 then (if cluster.completeMax < done then done else cluster.completeMax)
        else cluster.complete } := by
  have dropped : Filled (past ++ [⟨done, .completeWrite serial⟩]) _ := filled.drop split differ same open_ incomplete rfl
  have ended_ : ¬Open (past ++ [⟨done, .completeWrite serial⟩]) write.serial := by
    rw [same]
    exact fun still => still _ mem_append_cons_self rfl
  have holds : write ∈ cluster.writes := by
    rw [split]
    exact mem_middle.mpr (.inl rfl)
  have higher : cluster.completeMax ≤ (if cluster.completeMax < done then done else cluster.completeMax) := by
    split_ifs with less
    · exact less.le
    · exact le_rfl
  have counted : pending (past ++ [⟨done, .completeWrite serial⟩]) (before ++ { write with complete := done } :: after) =
      pending (past ++ [⟨done, .completeWrite serial⟩]) (before ++ after) := by
    simp [pending, countP_append, ended_]
  refine ⟨?_, ?_, dropped.counted.trans (congrArg Int.ofNat counted.symm), ?_, ?_, dropped.begun, ?_⟩
  · intro other member
    obtain rfl | old := mem_middle.mp member
    · rw [← same]
      exact ⟨mem_append_left _ (filled.recorded write holds).1, .inl mem_append_cons_self⟩
    · exact dropped.recorded other old
  · have serials := filled.serials
    rw [split, map_append, map_cons] at serials
    rwa [map_append, map_cons]
  · intro other member ended'
    obtain rfl | old := mem_middle.mp member
    · change done ≤ (if cluster.completeMax < done then done else cluster.completeMax)
      split_ifs with less
      · exact le_rfl
      · exact not_lt.mp less
    · exact (dropped.max other old ended').trans higher
  · intro complete
    by_cases closes : cluster.numIncomplete - 1 = 0
    · exact ⟨if_pos closes, by simp, counted.trans (Int.ofNat_eq_zero.mp (dropped.counted.symm.trans closes))⟩
    · exact absurd ((if_neg closes).trans incomplete) complete
  · intro other member
    obtain rfl | old := mem_middle.mp member
    · exact ⟨(filled.inside write holds).1, (calls.early _ (filled.recorded write holds).1).trans later⟩
    · exact dropped.inside other old

theorem Writes.replace (kept : Writes past now (earlier ++ [cluster])) (calls : Calls past now) (later : now ≤ call.now)
    (starts : writeStart call.event = none) (untouched : ∀ other ∈ earlier, ∀ write ∈ other.writes, ended call.event ≠ some write.serial)
    {next : WriteCluster} (filled : Filled (past ++ [call]) next) (start : next.start = cluster.start)
    (incomplete : cluster.complete = TICK_FUTURE)
    (holds : ∀ old ∈ cluster.writes, (∃ new ∈ next.writes, new.serial = old.serial) ∨ Aborted (past ++ [call]) old.serial) :
    Writes (past ++ [call]) call.now (earlier ++ [next]) where
  filled other member := by
    obtain before | last := mem_concat.mp member
    · exact (kept.filled other (mem_append_left _ before)).extend (untouched other before)
    · rw [last]
      exact filled
  closed := by
    exact pairwise_concat.mpr (pairwise_concat.mp kept.closed)
  covered begun serial data begins := by
    obtain before | last := mem_append.mp begins
    · obtain ⟨first, head, starts, covered⟩ := kept.covered begun serial data before
      have never : ¬cluster.complete < now := by
        rw [incomplete]
        exact not_lt.mpr calls.bounded
      have covered : Aborted (past ++ [call]) serial ∨
          (∃ other ∈ earlier ++ [next], ∃ write ∈ other.writes, write.serial = serial) ∨ ¬Open past serial ∧ first.complete < now := by
        obtain ⟨stop, aborted⟩ | ⟨other, member, write, held, same⟩ | gone := covered
        · exact .inl ⟨stop, mem_append_left _ aborted⟩
        · obtain before | last := mem_concat.mp member
          · exact .inr (.inl ⟨other, mem_append_left _ before, write, held, same⟩)
          · rw [last] at held
            obtain ⟨new, inside, equal⟩ | aborted := holds write held
            · exact .inr (.inl ⟨next, mem_append_cons_self, new, inside, equal.trans same⟩)
            · exact .inl (same ▸ aborted)
        · exact .inr (.inr gone)
      cases earlier with
      | nil =>
        cases head
        refine ⟨next, rfl, .inl ?_, covered.imp_right fun held => .inl (held.resolve_right fun gone => never gone.2)⟩
        rw [start]
        exact starts.resolve_right never
      | cons oldest earlier =>
        obtain rfl : oldest = first := Option.some.inj head
        refine ⟨oldest, rfl, starts.imp_right fun less => less.trans_le later, ?_⟩
        exact covered.imp_right fun held => held.imp_right fun ⟨ended_, less⟩ => ⟨fun open_ => ended_ open_.earlier, less.trans_le later⟩
    · rw [← mem_singleton.mp last] at starts
      cases starts

theorem Writes.start {begin_ : Tick} {data : Byte} (kept : Writes past now clusters) (calls : Calls past now)
    (proper : Proper past ⟨begin_, .startWrite serial data⟩) (later : now ≤ begin_) (incomplete : cluster.complete = TICK_FUTURE)
    (closed : ∀ other ∈ earlier, other.isComplete = true) (split : clusters = earlier ∧ cluster = {} ∨ clusters = earlier ++ [cluster])
    {next : WriteCluster} (filled : Filled (past ++ [⟨begin_, .startWrite serial data⟩]) next) (lower : next.start ≤ cluster.start)
    (begins_le : next.start ≤ begin_) (more : ∀ write ∈ cluster.writes, write ∈ next.writes)
    (new : ⟨serial, begin_, TICK_FUTURE, data⟩ ∈ next.writes) :
    Writes (past ++ [⟨begin_, .startWrite serial data⟩]) begin_ (earlier ++ [next]) := by
  have inside : ∀ other ∈ earlier, other ∈ clusters := by
    intro other member
    obtain ⟨rfl, _⟩ | rfl := split
    · exact member
    · exact mem_append_left _ member
  have never : ¬cluster.complete < now := by
    rw [incomplete]
    exact not_lt.mpr calls.bounded
  refine ⟨?_, ?_, ?_⟩
  · intro other member
    obtain before | last := mem_concat.mp member
    · exact (kept.filled other (inside other before)).extend fun _ _ => nofun
    · rw [last]
      exact filled
  · refine pairwise_concat.mpr ⟨?_, closed⟩
    obtain ⟨rfl, _⟩ | rfl := split
    · exact kept.closed
    · exact (pairwise_concat.mp kept.closed).1
  · intro start other value begins
    obtain before | last := mem_append.mp begins
    · obtain ⟨first, head, starts, covered⟩ := kept.covered start other value before
      have covers : Aborted (past ++ [⟨begin_, .startWrite serial data⟩]) other ∨
          (∃ holder ∈ earlier ++ [next], ∃ write ∈ holder.writes, write.serial = other) ∨ ¬Open past other ∧ first.complete < now := by
        obtain ⟨stop, aborted⟩ | ⟨holder, member, write, held, same⟩ | gone := covered
        · exact .inl ⟨stop, mem_append_left _ aborted⟩
        · refine .inr (.inl ?_)
          obtain ⟨rfl, _⟩ | rfl := split
          · exact ⟨holder, mem_append_left _ member, write, held, same⟩
          · obtain before | last := mem_concat.mp member
            · exact ⟨holder, mem_append_left _ before, write, held, same⟩
            · rw [last] at held
              exact ⟨next, mem_append_cons_self, write, more write held, same⟩
        · exact .inr (.inr gone)
      cases earlier with
      | nil =>
        obtain ⟨rfl, _⟩ | rfl := split
        · cases head
        · obtain rfl : cluster = first := Option.some.inj head
          refine ⟨next, rfl, .inl (lower.trans (starts.resolve_right never)), ?_⟩
          exact covers.imp_right fun held => .inl (held.resolve_right fun gone => never gone.2)
      | cons oldest earlier =>
        have same : clusters.head? = some oldest := by
          obtain ⟨rfl, _⟩ | rfl := split
          · rfl
          · rfl
        obtain rfl : oldest = first := Option.some.inj (same.symm.trans head)
        refine ⟨oldest, rfl, starts.imp_right fun less => less.trans_le later, ?_⟩
        exact covers.imp_right fun held => held.imp_right fun ⟨ended_, less⟩ => ⟨fun open_ => ended_ open_.earlier, less.trans_le later⟩
    · cases mem_singleton.mp last
      have held : ∃ holder ∈ earlier ++ [next], ∃ write ∈ holder.writes, write.serial = serial :=
        ⟨next, mem_append_cons_self, _, new, rfl⟩
      cases earlier with
      | nil => exact ⟨next, rfl, .inl begins_le, .inr (.inl held)⟩
      | cons oldest =>
        refine ⟨oldest, rfl, .inl ?_, .inr (.inl held)⟩
        obtain ⟨_, _, begun⟩ := (kept.filled oldest (inside oldest mem_cons_self)).begun
        exact proper.1 _ begun

end Writes

section Steps

/-- The invariant under which the history decides the assertions. -/
structure Marks (past : History) (now : Tick) (tracker : ByteTracker) : Prop where
  calls : Calls past now
  reads : Reads past now tracker.outstandingReads tracker.readObservations
  writes : Writes past now tracker.writeClusters

theorem marks_init : Marks [] 0 {} := ⟨⟨nofun, Nat.zero_le _, .nil, nofun, .nil⟩, reads_init, writes_init⟩

variable {past : History} {call : CheckCall} {now begin_ done : Tick} {serial : Serial} {data : Byte} {tracker : ByteTracker}

theorem Marks.prune (marks : Marks past now tracker) : ∃ next, tracker.pruneTransactions now = .ok next ∧ Marks past now next := by
  obtain ⟨_, _, shape, _⟩ := marks.reads.oldest
  refine ⟨{ tracker with
    readObservations := lastCompletedTransaction Transaction.complete (pruneTick tracker.outstandingReads now) tracker.readObservations.reverse []
    writeClusters := lastCompletedTransaction WriteCluster.complete (pruneTick tracker.outstandingReads now) tracker.writeClusters.reverse [] },
    ?_, marks.calls, marks.reads.prune marks.calls, marks.writes.prune (marks.reads.pruneTick_now marks.calls)⟩
  unfold pruneTransactions
  rw [show tracker.readObservations.isEmpty = false by rw [shape]; rfl]
  rfl

theorem Marks.put (marks : Marks past now tracker) (proper : Proper past call) (later : now ≤ call.now) (starts : readStart call.event = none)
    (ends : ∀ serial data, call.event ≠ .completeRead serial data) {clusters : List WriteCluster}
    (writes : Writes (past ++ [call]) call.now clusters) : Marks (past ++ [call]) call.now { tracker with writeClusters := clusters } :=
  ⟨marks.calls.extend proper, marks.reads.other later starts ends, writes⟩

variable {write : Transaction}

theorem read_ne_write (calls : Calls past now) (recorded : Recorded past write)
    (starts : ∃ earlier ∈ past, readStart earlier.event = some serial) : serial ≠ write.serial := by
  rintro rfl
  obtain ⟨earlier, member, begun⟩ := starts
  have same := calls.unique member recorded.1 (started_read begun) rfl
  rw [same] at begun
  cases begun

section

variable (marks : Marks past now tracker)
include marks

theorem Marks.startRead (proper : Proper past ⟨begin_, .startRead serial⟩) (later : now ≤ begin_) :
    Marks (past ++ [⟨begin_, .startRead serial⟩]) begin_ (tracker.startRead serial begin_) := by
  have above : ∀ read ∈ tracker.outstandingReads, read.1 < serial := by
    intro read member
    exact proper.2.2 _ (marks.reads.began read member) read.1 rfl
  have absent : tracker.outstandingReads.any (·.1 == serial) = false := by
    apply any_eq_false.mpr
    intro read member same
    exact (above read member).ne (beq_iff_eq.mp same)
  have reads := marks.reads.start proper later
  rw [← assign_append above] at reads
  refine ⟨marks.calls.extend proper, ?_, marks.writes.other later rfl fun _ _ => nofun⟩
  simp only [ByteTracker.startRead, absent, Bool.false_eq_true, if_false]
  exact reads

theorem Marks.startWrite (proper : Proper past ⟨begin_, .startWrite serial data⟩) (later : now ≤ begin_) :
    ∃ next, tracker.startWrite serial begin_ data = .ok next ∧ Marks (past ++ [⟨begin_, .startWrite serial data⟩]) begin_ next := by
  obtain ⟨_, cluster, found, incomplete, closed, split⟩ := getIncompleteWriteCluster_spec marks.writes.closed
  have known : cluster = {} ∨ Filled past cluster := by
    refine split.imp And.right fun whole => marks.writes.filled cluster ?_
    rw [whole]
    exact mem_append_cons_self
  have begun : cluster.start = TICK_FUTURE ∨ cluster.start ≤ begin_ := by
    obtain rfl | filled := known
    · exact .inl rfl
    · obtain ⟨_, _, begun⟩ := filled.begun
      exact .inr (proper.1 _ begun)
  have fresh : ∀ write ∈ cluster.writes, write.serial ≠ serial := by
    intro write member
    obtain rfl | filled := known
    · cases member
    · exact (proper.2.2 _ (filled.recorded write member).1 write.serial rfl).ne
  have start_le : (if cluster.start = TICK_FUTURE then begin_ else cluster.start) ≤ cluster.start ∧
      (if cluster.start = TICK_FUTURE then begin_ else cluster.start) ≤ begin_ := by
    split
    next future =>
      rw [future]
      exact ⟨proper.2.1, le_rfl⟩
    next future => exact ⟨le_rfl, begun.resolve_left future⟩
  have filled := Filled.take marks.calls proper incomplete known
  have writes := marks.writes.start marks.calls proper later incomplete closed split filled start_le.1 start_le.2
    (fun write member => mem_append_left _ member) mem_append_cons_self
  refine ⟨_, ?_, marks.put proper later rfl nofun writes⟩
  unfold ByteTracker.startWrite
  rw [found]
  dsimp only
  rw [startWrite_eq incomplete begun fresh, ok_bind]
  rfl

theorem Marks.open_write (starts : ∃ earlier ∈ past, writeStart earlier.event = some serial)
    (open_ : Open past serial) : ∃ (earlier : List WriteCluster) (cluster : WriteCluster) (write : Transaction) (before after : List Transaction),
      tracker.getIncompleteWriteCluster = (earlier, cluster) ∧ Writes past now (earlier ++ [cluster]) ∧ Filled past cluster ∧
        cluster.complete = TICK_FUTURE ∧ cluster.writes.find? (·.serial == serial) = some write ∧ write ∈ cluster.writes ∧
          write.serial = serial ∧ cluster.writes = before ++ write :: after ∧ ∀ other ∈ before ++ after, other.serial ≠ serial := by
  obtain ⟨⟨start, event⟩, before, starts⟩ := starts
  obtain ⟨data, rfl⟩ := writeStart_eq starts
  obtain ⟨_, _, _, covered⟩ := marks.writes.covered start serial data before
  obtain ⟨_, aborted⟩ | ⟨holder, member, write, holds, same⟩ | ⟨ended_, _⟩ := covered
  · exact absurd rfl (open_ _ aborted)
  · have unfinished := (marks.writes.filled holder member).open_of holds (same ▸ open_)
    obtain ⟨earlier, cluster, found, incomplete, closed, split⟩ := getIncompleteWriteCluster_spec marks.writes.closed
    have outside : holder ∉ earlier := by
      intro complete
      rw [closed holder complete] at unfinished
      cases unfinished
    have whole : tracker.writeClusters = earlier ++ [cluster] := by
      obtain ⟨whole, _⟩ | whole := split
      · rw [whole] at member
        exact absurd member outside
      · exact whole
    obtain rfl : holder = cluster := by
      rw [whole] at member
      exact mem_singleton.mp ((mem_append.mp member).resolve_left outside)
    cases search : holder.writes.find? (·.serial == serial) with
    | none => exact absurd (beq_iff_eq.mpr same) (find?_eq_none.mp search write holds)
    | some first =>
      have kept := marks.writes
      rw [whole] at kept
      have filled := kept.filled holder mem_append_cons_self
      have holds := mem_of_find?_eq_some search
      have named : first.serial = serial := beq_iff_eq.mp (find?_some search :)
      obtain ⟨before, after, split, differ⟩ := split_serials filled.serials holds
      exact ⟨earlier, holder, first, before, after, found, kept, filled, incomplete, search, holds, named, split, named ▸ differ⟩
  · exact absurd open_ ended_

end

theorem untouched {earlier : List WriteCluster} {cluster : WriteCluster} (kept : Writes past now (earlier ++ [cluster]))
    (open_ : Open past serial) (ends : ended call.event = some serial) :
    ∀ other ∈ earlier, ∀ write ∈ other.writes, ended call.event ≠ some write.serial := by
  intro other member write holds same
  rw [ends, Option.some.injEq] at same
  exact kept.open_last member write holds (same ▸ open_)

theorem Marks.completeWrite (marks : Marks past now tracker) (proper : Proper past ⟨done, .completeWrite serial⟩) (later : now ≤ done) :
    ∃ next, tracker.completeWrite serial done = .ok next ∧ Marks (past ++ [⟨done, .completeWrite serial⟩]) done next := by
  obtain ⟨starts, open_⟩ := proper.2.2
  obtain ⟨_, cluster, write, before, after, found, kept, filled, incomplete, search, holds, same, split, differ⟩ :=
    marks.open_write starts open_
  have pends := recorded_open (filled.recorded write holds) (same ▸ open_)
  have finished := Filled.finish marks.calls later filled split differ same open_ incomplete
  have named : ∀ old ∈ cluster.writes, (∃ new ∈ before ++ { write with complete := done } :: after, new.serial = old.serial) ∨
      Aborted (past ++ [⟨done, .completeWrite serial⟩]) old.serial := by
    intro old member
    rw [split] at member
    obtain rfl | other := mem_middle.mp member
    · exact .inl ⟨_, mem_middle.mpr (.inl rfl), rfl⟩
    · exact .inl ⟨old, mem_middle.mpr (.inr other), rfl⟩
  have writes : Writes (past ++ [⟨done, .completeWrite serial⟩]) done _ :=
    kept.replace marks.calls later rfl (untouched kept open_ rfl) finished rfl incomplete named
  obtain ⟨next, pruned, marks'⟩ := (marks.put proper later rfl nofun writes).prune
  refine ⟨next, ?_, marks'⟩
  unfold ByteTracker.completeWrite WriteCluster.completeWrite
  rw [found]
  dsimp only
  rw [search]
  simp only [pends, beq_self_eq_true, require_true, ok_bind, split, map_split differ same]
  exact pruned

theorem Marks.abortWrite (marks : Marks past now tracker) (proper : Proper past ⟨done, .abortWrite serial⟩) (later : now ≤ done) :
    Marks (past ++ [⟨done, .abortWrite serial⟩]) done (tracker.abortWrite serial) := by
  obtain ⟨starts, open_⟩ := proper.2.2
  obtain ⟨_, _, _, _, _, found, kept, filled, incomplete, _, _, same, split, differ⟩ :=
    marks.open_write starts open_
  have dropped : Filled (past ++ [⟨done, .abortWrite serial⟩]) _ := filled.drop split differ same open_ incomplete rfl
  rw [abortWrite_eq found split differ same]
  refine ⟨marks.calls.extend proper, marks.reads.other later rfl nofun,
    kept.replace marks.calls later rfl (untouched kept open_ rfl) dropped rfl incomplete ?_⟩
  intro old member
  rw [split] at member
  obtain rfl | other := mem_middle.mp member
  · exact .inr ⟨done, mem_append_right _ (by rw [same]; exact mem_cons_self)⟩
  · exact .inl ⟨old, other, rfl⟩

end Steps

section Check

variable {past : History} {now start done : Tick} {serial : Serial} {data : Byte} {tracker : ByteTracker} {lastObs : Transaction}

theorem Reads.last {reads : List (Serial × Transaction)} {observations : List Transaction} (kept : Reads past now reads observations)
    {read : Transaction} (member : (serial, read) ∈ reads) : ∃ lastObs later,
      lastCompletedTransaction Transaction.complete read.start observations.reverse [] = lastObs :: later ∧ lastObs ∈ observations ∧
        (lastObs.complete = TICK_INITIAL ∨ lastObs.complete < read.start) ∧ (lastObs.complete = TICK_INITIAL ↔
          ∀ call ∈ past, ∀ serial value, call.event = .completeRead serial value → call.now = TICK_INITIAL ∨ read.start ≤ call.now) := by
  obtain ⟨_, _, shape, old⟩ := kept.oldest
  have some : observations.reverse ≠ [] := by simp [shape]
  obtain ⟨earlier, lastObs, later, found, split, early⟩ := lastCompleted_spec Transaction.complete read.start _ [] some
  have after := lastCompleted_after Transaction.complete read.start _ [] nofun found some
  rw [reverse_reverse, append_nil] at split
  have inside : lastObs ∈ observations := by
    rw [split]
    exact mem_append_cons_self
  have recent : lastObs.complete = TICK_INITIAL ∨ lastObs.complete < read.start := by
    obtain none_ | before := early
    · rw [none_, shape] at split
      cases split
      exact old.imp_right fun ⟨_, outstanding⟩ => outstanding _ member
    · exact .inr before
  refine ⟨lastObs, later, found, inside, recent, fun zero => ?_, fun unseen => ?_⟩
  · have order := kept.order
    rw [split] at order
    obtain ⟨_, _, between⟩ := pairwise_append.mp order
    rintro ⟨seen, event⟩ before other value rfl
    obtain ⟨head, at_, le⟩ | ⟨obs, holds, same⟩ := kept.noted seen other value before
    · left
      have head_le : head.complete ≤ lastObs.complete := by
        rw [split] at at_
        cases earlier with
        | nil =>
          cases at_
          exact le_rfl
        | cons =>
          cases at_
          exact between _ mem_cons_self lastObs mem_cons_self
      exact Nat.le_zero.mp (le.trans (head_le.trans zero.le))
    · rw [split] at holds
      obtain old | new := mem_append.mp holds
      · left
        exact same ▸ Nat.le_zero.mp ((between obs old lastObs mem_cons_self).trans zero.le)
      · obtain rfl | new := mem_cons.mp new
        · exact .inl (same ▸ zero)
        · exact .inr (same ▸ after obs new)
  · by_contra nonzero
    obtain zero | ⟨other, value, before⟩ := kept.observed lastObs inside
    · exact nonzero zero
    · obtain zero | late := unseen _ before other value rfl
      · exact nonzero zero
      · exact absurd (recent.resolve_left nonzero) (not_lt.mpr late)

/-- What the assertion fails on: no write matches, all of them overlap, and the clusters do not. -/
structure Stuck (tracker : ByteTracker) (lastObs : Transaction) (start done : Tick) (data : Byte) : Prop where
  zero : lastObs.complete = TICK_INITIAL
  written : tracker.writeClusters ≠ []
  differs : ∀ cluster ∈ tracker.writeClusters, ∀ write ∈ cluster.writes, write.data ≠ data ∧ start < write.complete
  bound : ∀ first last, tracker.writeClusters.head? = some first → tracker.writeClusters.getLast? = some last →
    ¬(first.start < done ∧ start < last.complete)

theorem ends_of_ne_nil {α : Type} {list : List α} (some_ : list ≠ []) : ∃ first last, list.head? = some first ∧ list.getLast? = some last := by
  cases head : list.head? with
  | none => exact absurd (head?_eq_none_iff.mp head) some_
  | some first =>
    cases tail : list.getLast? with
    | none => exact absurd (getLast?_eq_none_iff.mp tail) some_
    | some last => exact ⟨first, last, rfl, rfl⟩

theorem Stuck.fails {later : List Transaction} (stuck : Stuck tracker lastObs start done data)
    (found : lastCompletedTransaction Transaction.complete start tracker.readObservations.reverse [] = lastObs :: later) :
    ∃ failure, tracker.inExpectedData start done data = .error failure := by
  have invalid : (lastObs.complete != TICK_INITIAL) = false := by rw [stuck.zero]; rfl
  have differs : ∀ cluster ∈ tracker.writeClusters.reverse, ∀ write ∈ cluster.writes, write.data ≠ data ∧ start < write.complete :=
    fun cluster member => stuck.differs cluster (mem_reverse.mp member)
  obtain ⟨_, ran⟩ := @scanClusters_overlap lastObs start data _ differs { lastObsValid := false } rfl
  obtain ⟨first, last, head, tail⟩ := ends_of_ne_nil stuck.written
  have bound := stuck.bound first last head tail
  have fails : (decide (first.start < done) && decide (start < last.complete)) = false := by
    rw [← Bool.decide_and]
    exact decide_eq_false bound
  unfold inExpectedData
  rw [found]
  dsimp only
  rw [invalid, ran]
  unfold otherSources
  simp only [Bool.false_eq_true, if_false, head, tail, fails]
  exact ⟨_, rfl⟩

theorem expects_of_not_stuck {later : List Transaction} (stuck : ¬Stuck tracker lastObs start done data)
    (found : lastCompletedTransaction Transaction.complete start tracker.readObservations.reverse [] = lastObs :: later)
    (recent : lastObs.complete = TICK_INITIAL ∨ lastObs.complete < start) (lasted : lastObs.start ≤ lastObs.complete) :
    ∃ answer, tracker.inExpectedData start done data = .ok answer := by
  have bound : lastObs.complete ≤ start := by
    obtain zero | before := recent
    · rw [zero]
      exact Nat.zero_le _
    · exact before.le
  unfold inExpectedData
  rw [found]
  dsimp only
  cases ran : scanClusters lastObs start data tracker.writeClusters.reverse { lastObsValid := lastObs.complete != TICK_INITIAL } with
  | error => exact ⟨_, rfl⟩
  | ok scan =>
    obtain ⟨scanned, _, split, all, stopped⟩ := scanClusters_ok ran
    dsimp only
    unfold otherSources
    cases valid : scan.lastObsValid with
    | true =>
      simp only [if_true, decide_eq_true bound, require_true, ok_bind]
      split
      · exact ⟨_, rfl⟩
      · exact ⟨_, rfl⟩
    | false =>
      have zero_or : lastObs.complete = TICK_INITIAL ∨ scan.expected ≠ [] ∧ scan.wcOverlap = false := by
        obtain initial | ⟨some_, ended_, _⟩ := all.outdates valid
        · exact .inl (by simpa using initial)
        · exact .inr ⟨some_, ended_⟩
      have fallback : ∃ answer, (if scan.expected = [] then do
            require (lastObs.complete == TICK_INITIAL) "last_obs.complete == TICK_INITIAL"
            return (scan.expected, true)
          else return (scan.expected, false) : Except Abort (List Byte × Bool)) = .ok answer := by
        split
        next empty =>
          obtain zero | ⟨some_, _⟩ := zero_or
          · rw [zero]
            exact ⟨_, rfl⟩
          · exact absurd empty some_
        next => exact ⟨_, rfl⟩
      rw [if_neg Bool.false_ne_true]
      by_cases empty : tracker.writeClusters = []
      · rw [empty]
        exact fallback
      · obtain ⟨first, last, head, tail⟩ := ends_of_ne_nil empty
        rw [head, tail]
        cases overlap : scan.wcOverlap with
        | false => exact fallback
        | true =>
          have zero : lastObs.complete = TICK_INITIAL := by
            obtain zero | ⟨_, ended_⟩ := zero_or
            · exact zero
            · rw [overlap] at ended_
              cases ended_
          have whole : tracker.writeClusters.reverse = scanned := by
            obtain none_ | ended_ := stopped
            · rw [split, none_, append_nil]
            · rw [overlap] at ended_
              cases ended_
          have spans : first.start < done ∧ start < last.complete := by
            by_contra apart
            refine stuck ⟨zero, empty, fun cluster member write holds => ?_, fun _ _ head' tail' => ?_⟩
            · have inside : write ∈ scanned.flatMap WriteCluster.writes :=
                mem_flatMap.mpr ⟨cluster, whole ▸ mem_reverse.mpr member, holds⟩
              have old : ¬write.complete < lastObs.start := by
                rw [zero] at lasted
                rw [Nat.le_zero.mp lasted]
                exact Nat.not_lt_zero _
              exact ⟨(all.differs write inside).resolve_left old, (all.overlaps overlap write inside).resolve_left old⟩
            · rw [head] at head'
              rw [tail] at tail'
              cases head'
              cases tail'
              exact apart
          dsimp only
          rw [decide_eq_true spans.1, decide_eq_true spans.2]
          exact ⟨_, rfl⟩

theorem recorded_same (calls : Calls past now) (recorded : Recorded past write) {begun : Tick} {value : Byte}
    (starts : ⟨begun, .startWrite write.serial value⟩ ∈ past) : write.start = begun ∧ write.data = value := by
  have same := calls.unique recorded.1 starts rfl rfl
  cases same
  exact ⟨rfl, rfl⟩

theorem recorded_live (calls : Calls past now) (recorded : Recorded past write) : ¬Aborted past write.serial := by
  rintro ⟨_, aborted⟩
  obtain completed | ⟨_, open_⟩ := recorded.2
  · cases calls.ended_unique completed aborted rfl rfl
  · exact open_ _ aborted rfl

section

variable (marks : Marks past now tracker)
include marks

theorem Stuck.unpruned (later : now ≤ done) (stuck : Stuck tracker lastObs start done data)
    {first : WriteCluster} (head : tracker.writeClusters.head? = some first) : ¬first.complete < now := by
  intro pruned
  have bounded := marks.calls.bounded
  have complete : first.complete ≠ TICK_FUTURE := (pruned.trans_le bounded).ne
  have member : first ∈ tracker.writeClusters := mem_of_head? head
  have filled := marks.writes.filled first member
  obtain ⟨write, holds⟩ := exists_mem_of_ne_nil _ (filled.closed complete).2.1
  have overlaps := (stuck.differs first member write holds).2.trans_le (filled.complete_le complete holds).2
  obtain ⟨other, last, head', tail⟩ := ends_of_ne_nil stuck.written
  refine stuck.bound first last head tail ⟨(filled.start_le complete).trans_lt (pruned.trans_le later), ?_⟩
  have lastIn : last ∈ tracker.writeClusters := mem_of_getLast? tail
  by_cases future : last.complete = TICK_FUTURE
  · rw [future]
    exact overlaps.trans (pruned.trans_le bounded)
  · have filled := marks.writes.filled last lastIn
    obtain ⟨write, holds⟩ := exists_mem_of_ne_nil _ (filled.closed future).2.1
    exact (stuck.differs last lastIn write holds).2.trans_le (filled.complete_le future holds).2

theorem Stuck.clashes (later : now ≤ done) (before : start ≤ now) (stuck : Stuck tracker lastObs start done data)
    (unseen : ∀ call ∈ past, ∀ serial value, call.event = .completeRead serial value → call.now = TICK_INITIAL ∨ start ≤ call.now) :
    Clashes past done start data := by
  obtain ⟨first, last, head, tail⟩ := ends_of_ne_nil stuck.written
  have firstIn : first ∈ tracker.writeClusters := mem_of_head? head
  have lastIn : last ∈ tracker.writeClusters := mem_of_getLast? tail
  have unpruned := stuck.unpruned marks later head
  have held : ∀ begun serial value, ⟨begun, .startWrite serial value⟩ ∈ past → ¬Aborted past serial →
      ∃ cluster ∈ tracker.writeClusters, ∃ write ∈ cluster.writes, write.serial = serial := by
    intro begun serial value starts live
    obtain ⟨first', head', _, covered⟩ := marks.writes.covered begun serial value starts
    rw [head] at head'
    cases head'
    obtain aborted | held | ⟨_, pruned⟩ := covered
    · exact absurd aborted live
    · exact held
    · exact absurd pruned unpruned
  refine ⟨?_, unseen, ?_, ?_, ?_⟩
  · obtain ⟨serial, value, begun⟩ := (marks.writes.filled first firstIn).begun
    exact ⟨_, begun, serial, rfl⟩
  · intro begun serial value starts live
    obtain ⟨cluster, member, write, holds, rfl⟩ := held begun serial value starts live
    have recorded := (marks.writes.filled cluster member).recorded write holds
    rw [← (recorded_same marks.calls recorded starts).2]
    exact (stuck.differs cluster member write holds).1
  · intro begun serial value starts live
    obtain ⟨cluster, member, write, holds, rfl⟩ := held begun serial value starts live
    have recorded := (marks.writes.filled cluster member).recorded write holds
    have overlaps := (stuck.differs cluster member write holds).2
    refine ⟨fun _ completes => ?_, fun open_ => ?_⟩
    · have ended_ : ¬Open past write.serial := fun open_ => open_ _ completes rfl
      have same := marks.calls.ended_unique (recorded_ended recorded ended_) completes rfl rfl
      rw [CheckCall.mk.injEq] at same
      rw [← same.1]
      exact overlaps
    · rw [← recorded_open recorded open_]
      exact overlaps
  · by_cases future : start = TICK_FUTURE
    · exact .inr future
    · left
      have unfinished : start < last.complete := by
        by_cases complete : last.complete = TICK_FUTURE
        · rw [complete]
          exact lt_of_le_of_ne (before.trans marks.calls.bounded) future
        · have filled := marks.writes.filled last lastIn
          obtain ⟨write, holds⟩ := exists_mem_of_ne_nil _ (filled.closed complete).2.1
          exact (stuck.differs last lastIn write holds).2.trans_le (filled.complete_le complete holds).2
      have late : done ≤ first.start := not_lt.mp fun begins => stuck.bound first last head tail ⟨begins, unfinished⟩
      rintro ⟨begun, event⟩ member serial starts
      obtain ⟨value, rfl⟩ := writeStart_eq starts
      obtain ⟨first', head', starts_le, _⟩ := marks.writes.covered begun serial value member
      rw [head] at head'
      cases head'
      exact le_antisymm ((marks.calls.early _ member).trans later) (late.trans (starts_le.resolve_right unpruned))

theorem Clashes.stuck (clashes : Clashes past done start data) (zero : lastObs.complete = TICK_INITIAL) :
    Stuck tracker lastObs start done data := by
  have differs : ∀ cluster ∈ tracker.writeClusters, ∀ write ∈ cluster.writes, write.data ≠ data ∧ start < write.complete := by
    intro cluster member write holds
    have recorded := (marks.writes.filled cluster member).recorded write holds
    have live := recorded_live marks.calls recorded
    refine ⟨clashes.differs _ _ _ recorded.1 live, ?_⟩
    obtain ⟨completed, waits⟩ := clashes.overlaps _ _ _ recorded.1 live
    obtain done_ | ⟨future, open_⟩ := recorded.2
    · exact completed _ done_
    · rw [future]
      exact waits open_
  refine ⟨zero, ?_, differs, ?_⟩
  · obtain ⟨⟨begun, _⟩, member, serial, starts⟩ := clashes.written
    obtain ⟨value, rfl⟩ := writeStart_eq starts
    obtain ⟨first, head, _⟩ := marks.writes.covered begun serial value member
    intro empty
    rw [empty] at head
    cases head
  · rintro first last head tail ⟨begins, unfinished⟩
    have filled := marks.writes.filled first (mem_of_head? head)
    obtain together | future := clashes.together
    · obtain ⟨serial, value, begun⟩ := filled.begun
      exact begins.ne (together _ begun serial rfl)
    · have lastFilled := marks.writes.filled last (mem_of_getLast? tail)
      have capped : ∀ write ∈ last.writes, write.complete ≤ TICK_FUTURE := by
        intro write holds
        obtain done_ | ⟨same, _⟩ := (lastFilled.recorded write holds).2
        · exact (marks.calls.early _ done_).trans marks.calls.bounded
        · exact same.le
      by_cases complete : last.complete = TICK_FUTURE
      · rw [future, complete] at unfinished
        exact lt_irrefl _ unfinished
      · obtain ⟨write, holds⟩ := exists_mem_of_ne_nil _ (lastFilled.closed complete).2.1
        have overlaps := (differs last (mem_of_getLast? tail) write holds).2
        rw [future] at overlaps
        exact absurd (capped write holds) (not_le.mpr overlaps)

/-- The check of a read that completes stops at an assertion exactly when the read clashes with the writes. -/
theorem expects_iff (later : now ≤ done) {read : Transaction} (member : (serial, read) ∈ tracker.outstandingReads) :
    (∃ answer, tracker.inExpectedData read.start done data = .ok answer) ↔ ¬Clashes past done read.start data := by
  obtain ⟨lastObs, _, found, inside, recent, zero_iff⟩ := marks.reads.last member
  constructor
  · rintro ⟨answer, ran⟩ clashes
    obtain ⟨_, fails⟩ := (clashes.stuck marks (zero_iff.mpr clashes.unseen)).fails found
    rw [fails] at ran
    cases ran
  · intro fits
    refine expects_of_not_stuck (fun stuck => fits ?_) found recent (marks.reads.lasted lastObs inside)
    exact stuck.clashes marks later (marks.calls.early _ (marks.reads.began _ member)) (zero_iff.mp stuck.zero)

end

end Check

section Runs

variable {past rest : History} {call : CheckCall} {now done : Tick} {serial : Serial} {data : Byte} {tracker : ByteTracker}

def Clashing (past : History) (call : CheckCall) : Prop :=
  ∃ serial data start, call.event = .completeRead serial data ∧ ⟨start, .startRead serial⟩ ∈ past ∧ Clashes past call.now start data

theorem Marks.completeRead (marks : Marks past now tracker) (proper : Proper past ⟨done, .completeRead serial data⟩) (later : now ≤ done) :
    (∃ next result, tracker.completeRead serial done data = .ok (next, result) ∧
      Marks (past ++ [⟨done, .completeRead serial data⟩]) done next ∧ ¬Clashing past ⟨done, .completeRead serial data⟩) ∨
    (∃ failure, tracker.completeRead serial done data = .error failure) ∧ Clashing past ⟨done, .completeRead serial data⟩ := by
  obtain ⟨⟨⟨start, _⟩, begun, starts⟩, open_⟩ := proper.2.2
  obtain rfl := readStart_eq starts
  obtain ⟨_, waits, same⟩ := marks.reads.waiting start serial begun open_
  cases search : tracker.outstandingReads.find? (·.1 == serial) with
  | none => exact absurd (beq_iff_eq.mpr same) (find?_eq_none.mp search _ waits)
  | some entry =>
    obtain ⟨key, read⟩ := entry
    have same : key = serial := beq_iff_eq.mp (find?_some search :)
    subst same
    have member := mem_of_find?_eq_some search
    have began := marks.reads.began _ member
    have expects : (∃ answer, tracker.inExpectedData read.start done data = .ok answer) ↔ ¬Clashes past done read.start data :=
      expects_iff marks later member
    have clashing : Clashing past ⟨done, .completeRead key data⟩ ↔ Clashes past done read.start data := by
      constructor
      · rintro ⟨other, _, start, same, begun, clashes⟩
        cases same
        have same := marks.calls.unique begun began rfl rfl
        cases same
        exact clashes
      · exact fun clashes => ⟨key, data, read.start, rfl, began, clashes⟩
    rw [clashing]
    unfold ByteTracker.completeRead
    rw [search]
    dsimp only
    by_cases clashes : Clashes past done read.start data
    · refine .inr ⟨?_, clashes⟩
      cases ran : tracker.inExpectedData read.start done data with
      | ok answer => exact absurd clashes (expects.mp ⟨answer, ran⟩)
      | error failure => exact ⟨failure, congrArg (· >>= _) ran⟩
    · obtain ⟨⟨expected, result⟩, ran⟩ := expects.mpr clashes
      have start_le : read.start ≤ done := proper.1 _ began
      have unwritten : Writes (past ++ [⟨done, .completeRead key data⟩]) done tracker.writeClusters :=
        marks.writes.other later rfl fun _ recorded same =>
          read_ne_write marks.calls recorded proper.2.2.1 (Option.some.inj same)
      have marked : Marks (past ++ [⟨done, .completeRead key data⟩]) done { tracker with
          outstandingReads := tracker.outstandingReads.filter (·.1 != key)
          lastExpectedData := expected
          readObservations := tracker.readObservations ++ [⟨key, read.start, done, data⟩] } :=
        ⟨marks.calls.extend proper, marks.reads.complete marks.calls later start_le, unwritten⟩
      obtain ⟨next, pruned, marks'⟩ := marked.prune
      refine .inl ⟨next, result, ?_, marks', clashes⟩
      have ran' : ({ tracker with outstandingReads := tracker.outstandingReads.filter (·.1 != key) } : ByteTracker).inExpectedData
          read.start done data = .ok (expected, result) := ran
      rw [ran', ok_bind]
      rw [pruned, ok_bind]
      rfl

theorem not_clashing (completes : ∀ serial data, call.event ≠ .completeRead serial data) : ¬Clashing past call :=
  fun ⟨serial, data, _, same, _⟩ => completes serial data same

theorem Marks.step (marks : Marks past now tracker) (proper : Proper past call) (later : now ≤ call.now) :
    (∃ next results, ByteTracker.step tracker call = .ok (next, results) ∧ Marks (past ++ [call]) call.now next ∧ ¬Clashing past call) ∨
    (∃ failure, ByteTracker.step tracker call = .error failure) ∧ Clashing past call := by
  obtain ⟨_, event⟩ := call
  cases event with
  | startRead =>
    exact .inl ⟨_, [], rfl, marks.startRead proper later, not_clashing nofun⟩
  | startWrite =>
    obtain ⟨next, ran, marks'⟩ := marks.startWrite proper later
    refine .inl ⟨next, [], ?_, marks', not_clashing nofun⟩
    unfold ByteTracker.step
    dsimp only
    rw [ran]
    rfl
  | completeWrite =>
    obtain ⟨next, ran, marks'⟩ := marks.completeWrite proper later
    refine .inl ⟨next, [], ?_, marks', not_clashing nofun⟩
    unfold ByteTracker.step
    dsimp only
    rw [ran]
    rfl
  | abortWrite =>
    exact .inl ⟨_, [], rfl, marks.abortWrite proper later, not_clashing nofun⟩
  | completeRead =>
    obtain ⟨next, result, ran, marks', fits⟩ | ⟨⟨failure, ran⟩, clashing⟩ := marks.completeRead proper later
    · refine .inl ⟨next, [result], ?_, marks', fits⟩
      unfold ByteTracker.step
      dsimp only
      rw [ran]
      rfl
    · refine .inr ⟨⟨failure, ?_⟩, clashing⟩
      unfold ByteTracker.step
      dsimp only
      rw [ran]
      rfl

def ClashesIn (past : History) (history : History) : Prop :=
  ∃ before call after, history = before ++ call :: after ∧ Clashing (past ++ before) call

theorem clashesIn_cons : ClashesIn past (call :: rest) ↔ Clashing past call ∨ ClashesIn (past ++ [call]) rest := by
  constructor
  · rintro ⟨before, other, after, whole, clashing⟩
    cases before with
    | nil =>
      cases whole
      rw [append_nil] at clashing
      exact .inl clashing
    | cons _ before =>
      cases whole
      refine .inr ⟨before, other, after, rfl, ?_⟩
      rw [append_assoc]
      exact clashing
  · rintro (clashing | ⟨before, other, after, rfl, clashing⟩)
    · refine ⟨[], call, rest, rfl, ?_⟩
      rw [append_nil]
      exact clashing
    · refine ⟨call :: before, other, after, rfl, ?_⟩
      rw [append_assoc] at clashing
      exact clashing

theorem Marks.run (marks : Marks past now tracker) (follows : Follow past rest) (later : ∀ call ∈ rest.head?, now ≤ call.now) :
    (∃ final results, run ByteTracker.step tracker rest = .ok (final, results)) ↔ ¬ClashesIn past rest := by
  induction rest generalizing past now tracker with
  | nil => exact ⟨fun _ ⟨before, _, _, whole, _⟩ => append_ne_nil_of_right_ne_nil before (cons_ne_nil _ _) whole.symm,
      fun _ => ⟨tracker, [], rfl⟩⟩
  | cons call rest ih =>
    obtain ⟨proper, follows⟩ := follows
    rw [clashesIn_cons, not_or]
    obtain ⟨next, results, ran, marks', fits⟩ | ⟨⟨_, ran⟩, clashing⟩ := marks.step proper (later call rfl)
    · have later' : ∀ other ∈ rest.head?, call.now ≤ other.now := by
        intro other first
        cases rest with
        | nil => cases first
        | cons =>
          cases first
          exact follows.1.1 call mem_append_cons_self
      have continues := ih marks' follows later'
      constructor
      · rintro ⟨final, all, finishes⟩
        obtain ⟨middle, first, others, one, finishes, _⟩ := run_cons.mp finishes
        rw [ran] at one
        cases one
        exact ⟨fits, continues.mp ⟨final, others, finishes⟩⟩
      · rintro ⟨_, free⟩
        obtain ⟨final, others, finishes⟩ := continues.mpr free
        exact ⟨final, results ++ others, run_cons.mpr ⟨next, results, others, ran, finishes, rfl⟩⟩
    · constructor
      · rintro ⟨final, all, finishes⟩
        obtain ⟨middle, first, others, one, _⟩ := run_cons.mp finishes
        rw [ran] at one
        cases one
      · rintro ⟨free, _⟩
        exact absurd clashing free

/-- No assertion of the memory checker fails in a run unless a read clashes with the writes. -/
theorem assertions_hold (history : History) (follows : Follow [] history) :
    (∃ final results, run ByteTracker.step {} history = .ok (final, results)) ↔
      ∀ past call rest, history = past ++ call :: rest → ¬Clashing past call := by
  refine (marks_init.run follows fun _ _ => Nat.zero_le _).trans ⟨fun free past call rest whole clashing => ?_, fun free => ?_⟩
  · exact free ⟨past, call, rest, whole, clashing⟩
  · rintro ⟨past, call, rest, whole, clashing⟩
    exact free past call rest whole clashing

def readAtSeven (tick : Tick) : History := [⟨5, .startRead 1⟩, ⟨tick, .startWrite 2 1⟩, ⟨7, .completeRead 1 0⟩]

theorem assertions_hold_readAtSeven : (∃ final results, run ByteTracker.step {} (readAtSeven 6) = .ok (final, results)) ∧
    ∀ past call rest, readAtSeven 6 = past ++ call :: rest → ¬Clashing past call :=
  have ran := ⟨_, _, rfl⟩
  ⟨ran, (assertions_hold (readAtSeven 6) (by decide)).mp ran⟩

/-- The assertion that the writes overlap the read fails at a write that is only just started. -/
theorem assertions_fail : Follow [] (readAtSeven 7) ∧
    run ByteTracker.step {} (readAtSeven 7) =
      .error (.assertion "writeClusters.begin()->start < complete && writeClusters.rbegin()->complete > start") :=
  ⟨by decide, rfl⟩

end Runs

end ImcGem5.Mem.Proofs.CheckerAsserts

import ImcGem5.Mem.PacketQueue
import ImcGem5.Mem.Mshr
import ImcGem5.Proofs.Gather

/-! Functional reads of buffered packets. The packets are asked from the oldest on, and the
first that completes the read ends the search: of the packets that were asked the newest one
shows, but packets behind them and masked writes are not seen. -/

namespace ImcGem5.Mem.Proofs.Newest
open Lib Overlay Gather List

def carries (pkt other : Packet) (address : Nat) : Bool :=
  other.hasData && (other.isSecure == pkt.isSecure && inBlock other.addr other.size address) &&
    (!other.isMaskedWrite || other.req.byteEnable.getD (address - other.addr.toNat) false)

def supplies (pkt other : Packet) (address : Nat) : Bool := !other.isMaskedWrite && carries pkt other address

def byteAt (other : Packet) (address : Nat) : Byte := other.data.getD (address - other.addr.toNat) 0

structure Buffered (other : Packet) : Prop where
  block : other.hasData = true → Block other.addr other.size
  small : other.hasData = true → other.size < 2 ^ 31
  filled : other.hasData = true → other.size ≤ other.data.length

instance (pkt : Packet) (holds : Packet → Nat → Bool) (seen : List Packet) (piece : Packet) :
    Decidable (Completes pkt holds seen piece) := by
  unfold Completes Covered
  infer_instance

/-- The packets that are asked until one completes the read, and those behind it. -/
def answering (pkt : Packet) (seen : List Packet) : List Packet → Option (List Packet × List Packet)
  | [] => none
  | other :: rest =>
    if Completes pkt (supplies pkt) seen other then some (seen ++ [other], rest) else answering pkt (seen ++ [other]) rest

def answer (pkt : Packet) (asked : List Packet) (i : Nat) : Byte :=
  shown (supplies pkt) byteAt (fun _ => pkt.data.getD i 0) asked (pkt.addr.toNat + i)

/-- If the read is satisfied, each byte is that of the newest packet that has it. -/
def SeesNewest (pkt : Packet) (others : List Packet) (found : Bool) (now : Packet) : Prop :=
  found = true → ∀ i < pkt.size, ∀ last, newest (carries pkt) others (pkt.addr.toNat + i) = some last →
    now.data.getD i 0 = byteAt last (pkt.addr.toNat + i)

/-- Where packets complete the read, the newest packet behind them that has a byte agrees with
them, and so does a masked write among them that is the newest. -/
structure Agree (pkt : Packet) (asked behind : List Packet) : Prop where
  later : ∀ i < pkt.size, ∀ last, newest (carries pkt) behind (pkt.addr.toNat + i) = some last →
    byteAt last (pkt.addr.toNat + i) = answer pkt asked i
  masked : ∀ i < pkt.size, newest (carries pkt) behind (pkt.addr.toNat + i) = none →
    ∀ last, newest (carries pkt) asked (pkt.addr.toNat + i) = some last → last.isMaskedWrite = true →
      byteAt last (pkt.addr.toNat + i) = answer pkt asked i

def Current (pkt : Packet) (others : List Packet) : Prop :=
  ∀ asked behind, answering pkt [] others = some (asked, behind) → Agree pkt asked behind

def Outcome (pkt : Packet) (seen others : List Packet) (found : Bool) (data : List Byte) (marks : List Bool) : Prop :=
  match answering pkt seen others with
  | some (asked, _) => found = true ∧ Gathered pkt (supplies pkt) byteAt asked data marks
  | none => found = false ∧ Gathered pkt (supplies pkt) byteAt (seen ++ others) data marks

section
variable {pkt other : Packet} {seen others asked behind : List Packet} {data : List Byte} {marks : List Bool}

theorem answering_split (found : answering pkt seen others = some (asked, behind)) : seen ++ others = asked ++ behind := by
  induction others generalizing seen with
  | nil => cases found
  | cons _ _ ih =>
    rw [answering] at found
    split at found
    next =>
      cases found
      rw [append_assoc, singleton_append]
    next =>
      rw [← ih found, append_assoc, singleton_append]

theorem trySatisfyFunctional_supply (reader : Reader pkt) (buffered : Buffered other) :
    ∃ done data marks, pkt.trySatisfyFunctional other = .ok (done, { pkt with data, bytesValid := marks }, other) ∧
      Supply pkt (supplies pkt other) (byteAt other) done data marks := by
  unfold Packet.trySatisfyFunctional
  cases masked : other.isMaskedWrite with
  | true =>
    refine ⟨false, pkt.data, pkt.bytesValid, rfl, .nothing reader fun i _ => ?_⟩
    rw [supplies, masked, Bool.not_true, Bool.false_and]
  | false =>
    cases carried : other.hasData with
    | false =>
      refine ⟨false, pkt.data, pkt.bytesValid, ?_, .nothing reader fun i _ => ?_⟩
      · rw [if_neg Bool.false_ne_true, if_neg Bool.false_ne_true, trySatisfyData_none _ _ _ reader.visible]
        rfl
      · rw [supplies, carries, carried, Bool.false_and, Bool.false_and, Bool.and_false]
    | true =>
      obtain ⟨done, data, marks, call, supply⟩ := satisfy_read reader (buffered.block carried) (buffered.small carried)
        other.isSecure (buffered.filled carried)
      refine ⟨done, data, marks, ?_, ?_⟩
      · rw [if_neg Bool.false_ne_true, if_pos rfl, call]
        rfl
      · have held : supplies pkt other = fun address => other.isSecure == pkt.isSecure && inBlock other.addr other.size address := by
          funext address
          rw [supplies, carries, masked, carried, Bool.not_false, Bool.true_and, Bool.true_and, Bool.true_or, Bool.and_true]
        rw [held]
        exact supply

theorem satisfyFrom_read {α : Type} (packet : α → Packet) (update : α → Packet → α)
    (same : ∀ entry, update entry (packet entry) = entry) (reader : Reader pkt)
    (gathered : Gathered pkt (supplies pkt) byteAt seen data marks) {entries : List α}
    (buffered : ∀ entry ∈ entries, Buffered (packet entry)) :
    ∃ found newData newMarks, Packet.satisfyFrom packet update { pkt with data, bytesValid := marks } entries =
        .ok (found, { pkt with data := newData, bytesValid := newMarks }, entries) ∧
      Outcome pkt seen (entries.map packet) found newData newMarks := by
  induction entries generalizing seen data marks with
  | nil =>
    refine ⟨false, data, marks, rfl, rfl, ?_⟩
    rwa [map_nil, append_nil]
  | cons entry _ ih =>
    obtain ⟨first, buffered⟩ := forall_mem_cons.mp buffered
    obtain ⟨done, newData, newMarks, call, supply⟩ := trySatisfyFunctional_supply (gathered.reader reader) first
    obtain ⟨next, complete⟩ := gathered.supply supply
    rw [Packet.satisfyFrom, call]
    by_cases completes : Completes pkt (supplies pkt) seen (packet entry)
    · refine ⟨true, newData, newMarks, ?_, ?_⟩
      · rw [complete.mpr completes]
        simp only [bind, Except.bind, if_true, same]
        rfl
      · rw [map_cons, Outcome, answering, if_pos completes]
        exact ⟨rfl, next⟩
    · obtain ⟨found, lastData, lastMarks, ran, last⟩ := ih next buffered
      refine ⟨found, lastData, lastMarks, ?_, ?_⟩
      · have notDone : done = false := by
          cases step : done with
          | false => rfl
          | true => exact absurd (complete.mp step) completes
        rw [notDone]
        simp only [bind, Except.bind, Bool.false_eq_true, if_false, ran, same]
        rfl
      · rw [map_cons, Outcome, answering, if_neg completes]
        rw [Outcome, append_assoc, singleton_append] at last
        exact last

theorem answering_append (seen others more : List Packet) : answering pkt seen (others ++ more) =
    match answering pkt seen others with
    | some (asked, behind) => some (asked, behind ++ more)
    | none => answering pkt (seen ++ others) more := by
  induction others generalizing seen with
  | nil => rw [nil_append, append_nil, answering]
  | cons _ _ ih =>
    rw [cons_append, answering, answering]
    split
    next => rfl
    next => rw [ih, append_assoc, singleton_append]

theorem Outcome.append {more : List Packet} (outcome : Outcome pkt seen others true data marks) :
    Outcome pkt seen (others ++ more) true data marks := by
  rw [Outcome] at outcome ⊢
  rw [answering_append]
  cases answers : answering pkt seen others with
  | none =>
    rw [answers] at outcome
    cases outcome.1
  | some =>
    rw [answers] at outcome
    exact outcome

theorem Outcome.next {more : List Packet} {found : Bool} {newData : List Byte} {newMarks : List Bool}
    (outcome : Outcome pkt seen others false data marks) (later : Outcome pkt (seen ++ others) more found newData newMarks) :
    Outcome pkt seen (others ++ more) found newData newMarks := by
  rw [Outcome] at outcome ⊢
  rw [answering_append]
  cases answers : answering pkt seen others with
  | some =>
    rw [answers] at outcome
    cases outcome.1
  | none =>
    rw [Outcome, append_assoc] at later
    exact later

theorem Outcome.gathered (outcome : Outcome pkt seen others false data marks) :
    Gathered pkt (supplies pkt) byteAt (seen ++ others) data marks := by
  rw [Outcome] at outcome
  cases answers : answering pkt seen others with
  | some =>
    rw [answers] at outcome
    cases outcome.1
  | none =>
    rw [answers] at outcome
    exact outcome.2

theorem newest_supplies {address : Nat} {last : Packet} (found : newest (carries pkt) asked address = some last)
    (plain : last.isMaskedWrite = false) : newest (supplies pkt) asked address = some last := by
  apply newest_of_sub (fun _ supplied => ?_) found
  · rw [supplies, plain, (newest_mem found).2]
    rfl
  · rw [supplies, Bool.and_eq_true] at supplied
    exact supplied.2

theorem seesNewest_iff {found : Bool} (outcome : Outcome pkt [] others found data marks) :
    SeesNewest pkt others found { pkt with data, bytesValid := marks } ↔ Current pkt others := by
  rw [Outcome] at outcome
  cases answers : answering pkt [] others with
  | none =>
    rw [answers] at outcome
    refine ⟨fun _ asked behind some => ?_, fun _ satisfied => ?_⟩
    · rw [answers] at some
      cases some
    · rw [outcome.1] at satisfied
      cases satisfied
  | some split =>
    obtain ⟨asked, behind⟩ := split
    rw [answers] at outcome
    obtain ⟨satisfied, gathered⟩ := outcome
    have parts : others = asked ++ behind := answering_split answers
    have now : ∀ i < pkt.size, data.getD i 0 = answer pkt asked i := gathered.inside
    constructor
    · intro sees asked' behind' some
      rw [answers, Option.some.injEq, Prod.mk.injEq] at some
      obtain ⟨rfl, rfl⟩ := some
      refine ⟨fun i inside last newest => ?_, fun i inside none last newest _ => ?_⟩
      · rw [← now i inside]
        refine (sees satisfied i inside last ?_).symm
        rw [parts, newest_append, newest]
        rfl
      · rw [← now i inside]
        refine (sees satisfied i inside last ?_).symm
        rw [parts, newest_append, none, newest]
        rfl
    · intro current _ i inside last found
      have agree := current asked behind answers
      rw [parts, newest_append] at found
      change data.getD i 0 = _
      rw [now i inside]
      cases later : newest (carries pkt) behind (pkt.addr.toNat + i) with
      | some last' =>
        rw [later, Option.some_or, Option.some.injEq] at found
        rw [← found]
        exact (agree.later i inside last' later).symm
      | none =>
        rw [later, Option.none_or] at found
        cases masked : last.isMaskedWrite with
        | true => exact (agree.masked i inside later last found masked).symm
        | false =>
          rw [answer, shown, newest_supplies found masked]
          rfl

/-- A functional read sees the newest buffered byte, in a packet queue and in an MSHR, exactly
where no packet that is passed over has another byte. -/
theorem functional_read_newest (pkt : Packet) (read : pkt.isRead = true) (block : Block pkt.addr pkt.size)
    (filled : pkt.size ≤ pkt.data.length) (marks : pkt.bytesValid = [] ∨ pkt.bytesValid.length = pkt.size) :
    (∀ queue : PacketQueue, (∀ deferred ∈ queue.transmitList, Buffered deferred.pkt) →
      ∃ found now, queue.trySatisfyFunctional pkt = .ok (found, now, queue) ∧
        (SeesNewest pkt (queue.transmitList.map (·.pkt)) found now ↔ Current pkt (queue.transmitList.map (·.pkt)))) ∧
    (∀ (mshr : MSHR) (blkAddr : Addr) (isSecure : Bool),
      (∀ target ∈ mshr.targets.list ++ mshr.deferredTargets.list, Buffered target.pkt) →
      ∃ found now, mshr.trySatisfyFunctional blkAddr isSecure pkt = .ok (found, now, mshr) ∧
        (SeesNewest pkt ((mshr.targets.list ++ mshr.deferredTargets.list).map (·.pkt)) found now ↔
          Current pkt ((mshr.targets.list ++ mshr.deferredTargets.list).map (·.pkt)))) := by
  have reader : Reader pkt := ⟨read, block, filled, marks⟩
  refine ⟨fun queue buffered => ?_, fun mshr blkAddr isSecure buffered => ?_⟩
  · obtain ⟨found, data, newMarks, ran, outcome⟩ :=
      satisfyFrom_read DeferredPacket.pkt (fun deferred pkt => { deferred with pkt }) (fun _ => rfl) reader
        (gathered_nothing reader _ _) buffered
    refine ⟨found, _, ?_, seesNewest_iff outcome⟩
    rw [PacketQueue.trySatisfyFunctional, ran]
    rfl
  · have first : ∀ target ∈ mshr.targets.list, Buffered target.pkt :=
      fun target member => buffered target (mem_append_left _ member)
    have second : ∀ target ∈ mshr.deferredTargets.list, Buffered target.pkt :=
      fun target member => buffered target (mem_append_right _ member)
    obtain ⟨found, data, newMarks, ran, outcome⟩ :=
      satisfyFrom_read Target.pkt (fun target pkt => { target with pkt }) (fun _ => rfl) reader
        (gathered_nothing reader _ _) first
    have printed : ¬pkt.cmd.isPrint = true := by
      rw [reader.visible]
      exact Bool.false_ne_true
    have scanned : mshr.targets.trySatisfyFunctional pkt =
        .ok (found, { pkt with data, bytesValid := newMarks }, mshr.targets) := by
      rw [TargetList.trySatisfyFunctional, ran]
      rfl
    rw [MSHR.trySatisfyFunctional, if_neg printed, scanned, map_append]
    cases found with
    | true => exact ⟨true, _, rfl, seesNewest_iff outcome.append⟩
    | false =>
      obtain ⟨found, _, _, ran', later⟩ :=
        satisfyFrom_read Target.pkt (fun target pkt => { target with pkt }) (fun _ => rfl) reader outcome.gathered second
      refine ⟨found, _, ?_, seesNewest_iff (outcome.next later)⟩
      simp only [bind, Except.bind, Bool.false_eq_true, if_false, TargetList.trySatisfyFunctional, ran']
      rfl

end

def store (value : Byte) : Packet := .ofRequest { id := 0, paddr := 0x40, size := 1, flags := 0 } .writeReq [value]

def load : Packet := .ofRequest { id := 1, paddr := 0x40, size := 1, flags := 0 } .readReq [0]

def target (pkt : Packet) (order : Nat) : Target :=
  { pkt, above := none, readyTime := 0, order, source := .fromCPU, markedPending := true, allocOnFill := true }

/-- Two stores wait for their block, and the read is answered by the older one. -/
theorem functional_read_stale_store :
    let mshr : MSHR := { blkSize := 64, targets := { list := [target (store 1) 0, target (store 2) 1] } }
    ∃ now, mshr.trySatisfyFunctional 0x40 false load = .ok (true, now, mshr) ∧ now.data = [1] ∧
      newest (carries load) [store 1, store 2] 0x40 = some (store 2) ∧ byteAt (store 2) 0x40 = 2 ∧
      ¬SeesNewest load [store 1, store 2] true now := by
  refine ⟨{ load with data := [1], bytesValid := [true] }, rfl, rfl, rfl, rfl, fun sees => ?_⟩
  have newer := sees rfl 0 (by decide) (store 2) rfl
  exact absurd newer (by decide)

def storeAt (paddr : Addr) (data : List Byte) : Packet := .ofRequest { id := 0, paddr, size := data.length, flags := 0 } .writeReq data

def loadThree : Packet := .ofRequest { id := 1, paddr := 0x40, size := 3, flags := 0 } .readReq [0, 0, 0]

def overlapping : PacketQueue where
  transmitList := [⟨5, storeAt 0x40 [1, 2]⟩, ⟨6, storeAt 0x41 [3, 4]⟩]
  forceOrder := false
  disableSanityCheck := false

/-- Of the byte that both stores have the read gets that of the newer one. -/
theorem functional_read_newest_store : ∃ now, overlapping.trySatisfyFunctional loadThree = .ok (true, now, overlapping) ∧
    now.data = [1, 3, 4] ∧ (SeesNewest loadThree (overlapping.transmitList.map (·.pkt)) true now ↔
      Current loadThree (overlapping.transmitList.map (·.pkt))) := by
  have buffered : ∀ deferred ∈ overlapping.transmitList, Buffered deferred.pkt := by
    intro deferred member
    obtain rfl | rfl : deferred = ⟨5, storeAt 0x40 [1, 2]⟩ ∨ deferred = ⟨6, storeAt 0x41 [3, 4]⟩ := by simpa [overlapping] using member
    · exact ⟨fun _ => ⟨by decide, by decide⟩, fun _ => by decide, fun _ => by decide⟩
    · exact ⟨fun _ => ⟨by decide, by decide⟩, fun _ => by decide, fun _ => by decide⟩
  obtain ⟨found, now, ran, sees⟩ :=
    (functional_read_newest loadThree rfl ⟨by decide, by decide⟩ (by decide) (.inl rfl)).1 overlapping buffered
  have read : overlapping.trySatisfyFunctional loadThree =
    .ok (true, { loadThree with data := [1, 3, 4], bytesValid := [true, true, true] }, overlapping) := rfl
  cases read.symm.trans ran
  exact ⟨_, read, rfl, sees⟩

end ImcGem5.Mem.Proofs.Newest

import ImcGem5.Isa.Instruction
import ImcGem5.Proofs.InMemory
import Mathlib.Data.List.Induction

/-! Load-reserved and store-conditional. The abstract machine has one reservation per
context, which a write to its granule breaks; the memory's records stay below it as
long as every write to a reserved granule is shown to writeOK under its own address. -/

namespace ImcGem5.Mem.Proofs
open Lib List AbstractMemory

def granule (byte : Nat) : Addr := LockedAddr.mask (BitVec.ofNat 64 byte)

def breaks (reserved : Addr) : Effect → Bool
  | .wrote addresses => addresses.any fun byte => granule byte == reserved
  | _ => false

def track (context : ContextID) (held : Option Addr) : Effect → Option Addr
  | .loadLocked other reserved => if other = context then some reserved else held
  | effect => held.filter fun reserved => !breaks reserved effect

def reservation (context : ContextID) (effects : List Effect) : Option Addr := effects.foldl (track context) none

theorem reservation_append (context : ContextID) (early late : List Effect) :
    reservation context (early ++ late) = late.foldl (track context) (reservation context early) :=
  foldl_append

/-- The latest load-reserved of a context was to this granule, and no byte of it has
been written since. -/
def Reserved (context : ContextID) (reserved : Addr) (effects : List Effect) : Prop :=
  ∃ early late, effects = early ++ .loadLocked context reserved :: late ∧
    (∀ other, .loadLocked context other ∉ late) ∧ ∀ effect ∈ late, breaks reserved effect = false

variable {context : ContextID} {reserved : Addr} {past effects : List Effect} {mem next : AbstractMemory} {pkt result : Packet}
  {records : List LockedAddr}

theorem Reserved.append (held : Reserved context reserved past) (alone : ∀ other, .loadLocked context other ∉ effects)
    (unbroken : ∀ effect ∈ effects, breaks reserved effect = false) : Reserved context reserved (past ++ effects) := by
  obtain ⟨early, late, rfl, before, quiet⟩ := held
  refine ⟨early, late ++ effects, by simp, fun other member => ?_, fun effect member => ?_⟩
  · rcases mem_append.mp member with first | last
    · exact before other first
    · exact alone other last
  · rcases mem_append.mp member with first | last
    · exact quiet effect first
    · exact unbroken effect last

theorem track_eq_some {held : Option Addr} {effect : Effect} :
    track context held effect = some reserved ↔ effect = .loadLocked context reserved ∨
      held = some reserved ∧ (∀ other, effect ≠ .loadLocked context other) ∧ breaks reserved effect = false := by
  cases effect with
  | loadLocked other =>
    by_cases same : other = context
    · simp [track, same]
    · simp [track, same, breaks]
  | read | storeConditional => simp [track, breaks, Option.filter_eq_some_iff]
  | wrote => simp [track, Option.filter_eq_some_iff]

theorem reservation_eq_some (effects : List Effect) : reservation context effects = some reserved ↔ Reserved context reserved effects := by
  induction effects using List.reverseRecOn with
  | nil =>
    refine ⟨fun held => (by cases held), ?_⟩
    rintro ⟨early, late, impossible, _⟩
    exact absurd impossible (by simp)
  | append_singleton earlier effect ih =>
    rw [reservation_append, foldl_cons, foldl_nil, track_eq_some, ih]
    constructor
    · rintro (rfl | ⟨held, different, kept⟩)
      · exact ⟨earlier, [], rfl, fun _ => not_mem_nil, fun _ member => (by cases member)⟩
      · refine held.append (fun other member => ?_) (fun later member => ?_)
        · exact different other (mem_singleton.mp member).symm
        · rw [mem_singleton.mp member]
          exact kept
    · rintro ⟨early, late, same, alone, unbroken⟩
      induction late using List.reverseRecOn with
      | nil =>
        obtain ⟨_, last⟩ := append_inj' same rfl
        cases last
        exact .inl rfl
      | append_singleton before last =>
        have split : earlier ++ [effect] = (early ++ .loadLocked context reserved :: before) ++ [last] := by
          simpa using same
        obtain ⟨rfl, final⟩ := append_inj' split rfl
        cases final
        refine .inr ⟨⟨early, before, rfl, fun other member => ?_, fun later member => ?_⟩, fun other equal => ?_, ?_⟩
        · exact alone other (mem_append_left _ member)
        · exact unbroken later (mem_append_left _ member)
        · exact alone other (mem_append_right _ (mem_singleton.mpr equal.symm))
        · exact unbroken effect (mem_append_cons_self)

def written (pkt : Packet) : List Nat := if pkt.isWrite then pkt.touched else []

inductive Accessed (mem next : AbstractMemory) (pkt : Packet) (effects : List Effect) : Prop where
  | unchecked (same : next.lockedAddrList = mem.lockedAddrList)
      (made : ∀ effect ∈ effects, (∃ addresses, effect = .read addresses) ∨
        pkt.cmd = .swapReq ∧ effect = .wrote (written pkt))
  | reserved {context : ContextID} (own : pkt.req.contextId = some context)
      (records : next.lockedAddrList = (AbstractMemory.moveRecord (LockedAddr.mask pkt.req.paddr) context
        mem.lockedAddrList).getD (⟨LockedAddr.mask pkt.req.paddr, context⟩ :: mem.lockedAddrList))
      (made : effects = [.loadLocked context (LockedAddr.mask pkt.req.paddr), .read pkt.touched])
  | checked {check : AbstractMemory.WriteCheck} (decided : mem.writeOK pkt = .ok check)
      (records : next.lockedAddrList = check.locked)
      (made : effects = pkt.decided check.allowStore ++ if check.allowStore then [.wrote (written pkt)] else [])

theorem swap_accessed (swap : pkt.cmd = .swapReq) (ran : mem.swap pkt = .ok (next, result, effects)) : Accessed mem next pkt effects := by
  have touched : written pkt = pkt.touched := by
    simp only [written, Packet.isWrite, swap]
    rfl
  have both : ∀ effect ∈ [Effect.read pkt.touched, .wrote pkt.touched],
      (∃ addresses, effect = .read addresses) ∨ pkt.cmd = .swapReq ∧ effect = .wrote (written pkt) := by
    intro effect member
    rcases mem_cons.mp member with rfl | last
    · exact .inl ⟨_, rfl⟩
    · rw [mem_singleton.mp last, touched]
      exact .inr ⟨swap, rfl⟩
  obtain ⟨_, _, ran⟩ := of_bind ran
  split at ran
  · obtain ⟨_, write, ran⟩ := of_bind ran
    obtain ⟨_, rfl⟩ := hostWrite_ok write
    cases ran
    exact .unchecked rfl both
  · obtain ⟨_, _, ran⟩ := of_bind ran
    obtain ⟨_, _, ran⟩ := of_bind ran
    split at ran
    · obtain ⟨_, write, ran⟩ := of_bind ran
      obtain ⟨_, ran⟩ := of_require ran
      obtain ⟨_, rfl⟩ := hostWrite_ok write
      cases ran
      exact .unchecked rfl both
    · obtain ⟨_, ran⟩ := of_require ran
      cases ran
      exact .unchecked rfl fun effect member => .inl ⟨_, mem_singleton.mp member⟩

theorem readAccess_accessed (ran : mem.readAccess pkt = .ok (next, result, effects)) : Accessed mem next pkt effects := by
  obtain ⟨_, ran⟩ := of_require ran
  obtain ⟨_, _, ran⟩ := of_bind ran
  split at ran
  · obtain ⟨_, ran⟩ := of_require ran
    obtain ⟨⟨_, _⟩, tracking, ran⟩ := of_bind ran
    unfold trackLoadLocked at tracking
    split at tracking
    · cases tracking
    next context own =>
      cases tracking
      cases ran
      exact .reserved own rfl rfl
  · cases ran
    exact .unchecked rfl fun _ member => .inl ⟨_, mem_singleton.mp member⟩

theorem writeData_ok (ran : mem.writeData pkt = .ok (next, effects)) :
    next.lockedAddrList = mem.lockedAddrList ∧ effects = [.wrote pkt.touched] := by
  obtain ⟨_, _, ran⟩ := of_bind ran
  split at ran
  · obtain ⟨_, ran⟩ := of_require ran
    obtain ⟨_, _, ran⟩ := of_bind ran
    obtain ⟨_, write, ran⟩ := of_bind ran
    obtain ⟨_, rfl⟩ := hostWrite_ok write
    cases ran
    exact ⟨rfl, rfl⟩
  · obtain ⟨_, write, ran⟩ := of_bind ran
    obtain ⟨_, rfl⟩ := hostWrite_ok write
    cases ran
    exact ⟨rfl, rfl⟩

theorem writeAccess_accessed (write : pkt.isWrite = true) (ran : mem.writeAccess pkt = .ok (next, result, effects)) :
    Accessed mem next pkt effects := by
  have touched : written pkt = pkt.touched := if_pos write
  obtain ⟨_, decided, ran⟩ := of_bind ran
  split at ran
  next allowed =>
    obtain ⟨⟨_, _⟩, writing, ran⟩ := of_bind ran
    obtain ⟨_, ran⟩ := of_require ran
    obtain ⟨same, rfl⟩ := writeData_ok writing
    cases ran
    refine .checked decided same ?_
    rw [if_pos allowed, touched]
  next refused =>
    cases ran
    refine .checked decided rfl ?_
    rw [if_neg refused, append_nil]

theorem access_cases (ran : mem.access pkt = .ok (next, result, effects)) : Accessed mem next pkt effects := by
  have silent : Accessed mem mem pkt [] := .unchecked rfl fun _ member => by cases member
  unfold AbstractMemory.access at ran
  split at ran
  · cases ran
    exact silent
  split at ran
  · cases ran
    exact silent
  obtain ⟨_, ran⟩ := of_require ran
  obtain ⟨⟨middle, _, made⟩, performed, ran⟩ := of_bind ran
  have done : Accessed mem middle pkt made := by
    unfold AbstractMemory.perform at performed
    split at performed
    next swap => exact swap_accessed (eq_of_beq swap) performed
    split at performed
    · exact readAccess_accessed performed
    split at performed
    · obtain ⟨_, performed⟩ := of_require performed
      cases performed
      exact silent
    split at performed
    next write => exact writeAccess_accessed write performed
    · cases performed
  dsimp only at ran
  split at ran
  · obtain ⟨_, _, ran⟩ := of_bind ran
    cases ran
    exact done
  · cases ran
    exact done

theorem moveRecord_none {paddr : Addr}
    (missing : moveRecord paddr context records = none) : ∀ record ∈ records, record.contextId ≠ context := by
  induction records with
  | nil =>
    intro record member
    cases member
  | cons _ _ ih =>
    rw [moveRecord] at missing
    split at missing
    · cases missing
    next different =>
      intro record member
      rcases mem_cons.mp member with rfl | later
      · exact different
      · exact ih (Option.map_eq_none_iff.mp missing) record later

theorem moveRecord_some {paddr : Addr} {moved : List LockedAddr} (found : moveRecord paddr context records = some moved)
    (unique : (records.map (·.contextId)).Nodup) :
    moved.map (·.contextId) = records.map (·.contextId) ∧
      ∀ record ∈ moved, record = ⟨paddr, context⟩ ∨ record ∈ records ∧ record.contextId ≠ context := by
  induction records generalizing moved with
  | nil => cases found
  | cons _ _ ih =>
    obtain ⟨absent, others⟩ := nodup_cons.mp unique
    rw [moveRecord] at found
    split at found
    next same =>
      cases found
      refine ⟨rfl, fun record member => ?_⟩
      rcases mem_cons.mp member with rfl | later
      · exact .inl (by rw [same])
      · refine .inr ⟨mem_cons_of_mem _ later, fun equal => absent ?_⟩
        exact mem_map.mpr ⟨record, later, equal.trans same.symm⟩
    next different =>
      obtain ⟨_, movedTail, rfl⟩ := Option.map_eq_some_iff.mp found
      obtain ⟨contexts, kept⟩ := ih movedTail others
      refine ⟨by rw [map_cons, map_cons, contexts], fun record member => ?_⟩
      rcases mem_cons.mp member with rfl | later
      · exact .inr ⟨mem_cons_self, different⟩
      · rcases kept record later with fresh | ⟨old, apart⟩
        · exact .inl fresh
        · exact .inr ⟨mem_cons_of_mem _ old, apart⟩

theorem relocated (paddr : Addr) (context : ContextID) (unique : (records.map (·.contextId)).Nodup) :
    let moved := (moveRecord paddr context records).getD (⟨paddr, context⟩ :: records)
    (moved.map (·.contextId)).Nodup ∧
      ∀ record ∈ moved, record = ⟨paddr, context⟩ ∨ record ∈ records ∧ record.contextId ≠ context := by
  cases found : moveRecord paddr context records with
  | none =>
    have absent := moveRecord_none found
    refine ⟨nodup_cons.mpr ⟨fun present => ?_, unique⟩, fun record member => ?_⟩
    · obtain ⟨record, member, same⟩ := mem_map.mp present
      exact absent record member same
    · rcases mem_cons.mp member with rfl | old
      · exact .inl rfl
      · exact .inr ⟨old, absent record old⟩
  | some =>
    obtain ⟨contexts, kept⟩ := moveRecord_some found unique
    exact ⟨contexts ▸ unique, kept⟩

/-- A store goes ahead only after the records of its granule are gone, and a
store-conditional only on a record of its own context. -/
def Checked (mem : AbstractMemory) (pkt : Packet) (check : AbstractMemory.WriteCheck) : Prop :=
    check.allowStore = false ∧ check.locked = mem.lockedAddrList ∨
    check.allowStore = true ∧
      check.locked = mem.lockedAddrList.filter (fun record => record.addr != LockedAddr.mask pkt.req.paddr) ∧
      ∀ context, pkt.isLLSC = true → pkt.req.contextId = some context →
        ⟨LockedAddr.mask pkt.req.paddr, context⟩ ∈ mem.lockedAddrList

variable {check : AbstractMemory.WriteCheck}

theorem checkLockedAddrList_cases (ran : mem.checkLockedAddrList pkt = .ok check) : Checked mem pkt check := by
  unfold checkLockedAddrList at ran
  dsimp only at ran
  split at ran
  · split at ran
    · split at ran
      · cases ran
      · cases ran
        exact .inl ⟨rfl, rfl⟩
    next context own =>
      split at ran
      next found =>
        cases ran
        refine .inr ⟨rfl, rfl, fun _ _ same => ?_⟩
        rw [own] at same
        cases same
        obtain ⟨record, member, equal⟩ := any_eq_true.mp found
        simp only [Bool.and_eq_true, beq_iff_eq] at equal
        rw [← equal.1, ← equal.2]
        exact member
      · cases ran
        exact .inl ⟨rfl, rfl⟩
  next plain =>
    cases ran
    exact .inr ⟨rfl, rfl, fun context conditional => absurd conditional plain⟩

theorem writeOK_cases (ran : mem.writeOK pkt = .ok check) : Checked mem pkt check := by
  unfold writeOK at ran
  split at ran
  · cases ran
    exact .inl ⟨rfl, rfl⟩
  split at ran
  next empty =>
    have none : mem.lockedAddrList = [] := List.isEmpty_iff.mp empty
    split at ran
    · cases ran
      exact .inl ⟨rfl, none.symm⟩
    next plain =>
      cases ran
      exact .inr ⟨rfl, by rw [none]; rfl, fun context conditional => absurd conditional plain⟩
  · exact checkLockedAddrList_cases ran

def Sound (effects : List Effect) : Prop :=
  ∀ before context reserved after, effects = before ++ .storeConditional context reserved true :: after →
    Reserved context reserved before

/-- Each lock record is a reservation of the past. -/
structure Justified (mem : AbstractMemory) (past : List Effect) : Prop where
  unique : (mem.lockedAddrList.map (·.contextId)).Nodup
  held : ∀ record ∈ mem.lockedAddrList, reservation record.contextId past = some record.addr
  sound : Sound past

/-- A step whose writes to reserved granules all go through writeOK under the address
of that granule. -/
def Guarded (mem : AbstractMemory) : MemoryUse → Prop
  | .access pkt => ∀ record ∈ mem.lockedAddrList, ∀ byte ∈ written pkt, granule byte = record.addr →
      pkt.cmd ≠ .swapReq ∧ LockedAddr.mask pkt.req.paddr = record.addr
  | .inMemory op pkt => ∀ record ∈ mem.lockedAddrList, ∀ byte ∈ span (address pkt (arity op)) 8,
      granule byte ≠ record.addr

theorem breaks_eq_false {addresses : List Nat} (apart : ∀ byte ∈ addresses, granule byte ≠ reserved) :
    breaks reserved (.wrote addresses) = false := by
  rw [breaks, any_eq_false]
  intro byte member same
  exact apart byte member (eq_of_beq same)

theorem reservation_kept (held : reservation context past = some reserved) (alone : ∀ other, .loadLocked context other ∉ effects)
    (unbroken : ∀ effect ∈ effects, breaks reserved effect = false) :
    reservation context (past ++ effects) = some reserved :=
  (reservation_eq_some _).mpr (((reservation_eq_some _).mp held).append alone unbroken)

theorem Sound.append (sound : Sound past)
    (fresh : ∀ before context reserved after, effects = before ++ .storeConditional context reserved true :: after →
      Reserved context reserved (past ++ before)) : Sound (past ++ effects) := by
  intro before context reserved after split
  rcases append_eq_append_iff.mp split with ⟨middle, rfl, rest⟩ | ⟨middle, rfl, rest⟩
  · exact fresh middle context reserved after rest
  · cases middle with
    | nil =>
      have first := fresh [] context reserved after rest.symm
      simpa using first
    | cons _ tail =>
      cases rest
      exact sound before context reserved tail rfl

theorem Sound.append_quiet (sound : Sound past)
    (quiet : ∀ context reserved, .storeConditional context reserved true ∉ effects) : Sound (past ++ effects) := by
  apply sound.append
  rintro _ context reserved _ rfl
  exact absurd (mem_append_cons_self) (quiet context reserved)

section

variable (justified : Justified mem past)
include justified

theorem Justified.stay {record : LockedAddr} (member : record ∈ mem.lockedAddrList)
    (alone : ∀ other, .loadLocked record.contextId other ∉ effects) (unbroken : ∀ effect ∈ effects, breaks record.addr effect = false) :
    reservation record.contextId (past ++ effects) = some record.addr :=
  reservation_kept (justified.held record member) alone unbroken

theorem inMemory_justified {op : ImcOp} (guarded : Guarded mem (.inMemory op pkt))
    (ran : handler op mem pkt = .ok (next, effects)) : Justified next (past ++ effects) := by
  obtain ⟨_, _, _, rfl, rfl⟩ := handler_ok ran
  have shape : ∀ effect ∈ footprint op pkt, (∃ addresses, effect = .read addresses) ∨
      effect = .wrote (span (address pkt (arity op)) 8) := by
    intro effect member
    rcases mem_concat.mp member with reads | write
    · obtain ⟨_, _, rfl⟩ := mem_map.mp reads
      exact .inl ⟨_, rfl⟩
    · exact .inr write
  refine ⟨justified.unique, fun record member => ?_, ?_⟩
  · refine justified.stay member (fun _ present => ?_) (fun effect present => ?_)
    · rcases shape _ present with ⟨_, impossible⟩ | impossible <;> cases impossible
    · rcases shape _ present with ⟨addresses, rfl⟩ | rfl
      · rfl
      · exact breaks_eq_false (guarded record member)
  · apply justified.sound.append_quiet
    intro context reserved present
    rcases shape _ present with ⟨_, impossible⟩ | impossible <;> cases impossible

theorem unchecked_justified (guarded : Guarded mem (.access pkt)) (same : next.lockedAddrList = mem.lockedAddrList)
    (made : ∀ effect ∈ effects, (∃ addresses, effect = .read addresses) ∨
      pkt.cmd = .swapReq ∧ effect = .wrote (written pkt)) : Justified next (past ++ effects) := by
  refine ⟨same ▸ justified.unique, fun record member => ?_, ?_⟩
  · rw [same] at member
    refine justified.stay member (fun _ present => ?_) (fun effect present => ?_)
    · rcases made _ present with ⟨_, impossible⟩ | ⟨_, impossible⟩ <;> cases impossible
    · rcases made _ present with ⟨addresses, rfl⟩ | ⟨swap, rfl⟩
      · rfl
      · apply breaks_eq_false
        intro byte touched hit
        exact (guarded record member byte touched hit).1 swap
  · apply justified.sound.append_quiet
    intro context reserved present
    rcases made _ present with ⟨_, impossible⟩ | ⟨_, impossible⟩ <;> cases impossible

theorem reserved_justified {addresses : List Nat} (records : next.lockedAddrList = (moveRecord reserved context mem.lockedAddrList).getD
      (⟨reserved, context⟩ :: mem.lockedAddrList)) :
    Justified next (past ++ [.loadLocked context reserved, .read addresses]) := by
  have moved := relocated reserved context justified.unique
  rw [← records] at moved
  refine ⟨moved.1, fun record member => ?_, ?_⟩
  · rcases moved.2 record member with rfl | ⟨old, different⟩
    · apply (reservation_eq_some _).mpr
      exact ⟨past, [.read addresses], rfl, by simp, by simp [breaks]⟩
    · refine justified.stay old (fun other present => ?_) (fun _ present => ?_)
      · simp only [mem_cons, Effect.loadLocked.injEq, not_mem_nil, or_false] at present
        rcases present with same | impossible
        · exact different same.1
        · cases impossible
      · simp only [mem_cons, not_mem_nil, or_false] at present
        rcases present with rfl | rfl <;> rfl
  · exact justified.sound.append_quiet fun other _ present => by simp at present

end

theorem decided_cases (pkt : Packet) (allowed : Bool) : pkt.decided allowed = [] ∨
    ∃ context, pkt.isLLSC = true ∧ pkt.req.contextId = some context ∧
      pkt.decided allowed = [.storeConditional context (LockedAddr.mask pkt.req.paddr) allowed] := by
  cases conditional : pkt.isLLSC with
  | false => exact .inl (by rw [Packet.decided, conditional])
  | true =>
    cases own : pkt.req.contextId with
    | none => exact .inl (by rw [Packet.decided, conditional, own])
    | some context => exact .inr ⟨context, rfl, rfl, by rw [Packet.decided, conditional, own]⟩

section

variable (justified : Justified mem past)
include justified

theorem refused_justified (same : next.lockedAddrList = mem.lockedAddrList) : Justified next (past ++ pkt.decided false) := by
  have shape : ∀ effect ∈ pkt.decided false, ∃ context reserved, effect = .storeConditional context reserved false := by
    intro effect member
    rcases decided_cases pkt false with none | ⟨context, _, _, one⟩
    · rw [none] at member
      cases member
    · rw [one] at member
      exact ⟨context, _, mem_singleton.mp member⟩
  refine ⟨same ▸ justified.unique, fun _ member => ?_, ?_⟩
  · rw [same] at member
    refine justified.stay member (fun _ present => ?_) (fun effect present => ?_)
    · obtain ⟨_, _, impossible⟩ := shape _ present
      cases impossible
    · obtain ⟨_, _, rfl⟩ := shape _ present
      rfl
  · apply justified.sound.append_quiet
    intro context reserved present
    obtain ⟨_, _, impossible⟩ := shape _ present
    cases impossible

theorem allowed_justified (guarded : Guarded mem (.access pkt))
    (records : next.lockedAddrList = mem.lockedAddrList.filter fun record => record.addr != LockedAddr.mask pkt.req.paddr)
    (own : ∀ context, pkt.isLLSC = true → pkt.req.contextId = some context →
      ⟨LockedAddr.mask pkt.req.paddr, context⟩ ∈ mem.lockedAddrList) :
    Justified next (past ++ (pkt.decided true ++ [.wrote (written pkt)])) := by
  refine ⟨?_, fun record member => ?_, ?_⟩
  · rw [records]
    exact justified.unique.sublist (filter_sublist.map _)
  · rw [records] at member
    obtain ⟨old, different⟩ := mem_filter.mp member
    have apart : ∀ byte ∈ written pkt, granule byte ≠ record.addr := by
      intro byte touched hit
      exact absurd (guarded record old byte touched hit).2.symm (by simpa using different)
    refine justified.stay old (fun other present => ?_) (fun _ present => ?_)
    · rcases decided_cases pkt true with none | ⟨context, _, _, one⟩
      · rw [none] at present
        cases mem_singleton.mp present
      · rw [one] at present
        simp at present
    · rcases mem_concat.mp present with decision | write
      · rcases decided_cases pkt true with none | ⟨context, _, _, one⟩
        · rw [none] at decision
          cases decision
        · rw [one] at decision
          rw [mem_singleton.mp decision]
          rfl
      · rw [write]
        exact breaks_eq_false apart
  · apply justified.sound.append
    intro before context reserved after split
    rcases decided_cases pkt true with none | ⟨other, conditional, named, one⟩
    · rw [none, nil_append] at split
      have present : Effect.storeConditional context reserved true ∈ [Effect.wrote (written pkt)] := by
        rw [split]
        exact mem_append_cons_self
      cases mem_singleton.mp present
    · rw [one] at split
      cases before with
      | nil =>
        cases split
        have record := justified.held _ (own context conditional named)
        simpa using (reservation_eq_some _).mp record
      | cons _ tail =>
        have present : Effect.storeConditional context reserved true ∈ [Effect.wrote (written pkt)] := by
          have rest := congrArg List.tail split
          simp only [cons_append, tail_cons, nil_append] at rest
          rw [rest]
          exact mem_append_cons_self
        cases mem_singleton.mp present

theorem step_justified {use : MemoryUse} (guarded : Guarded mem use) (taken : mem.step use = .ok (next, effects)) :
    Justified next (past ++ effects) := by
  cases use with
  | inMemory => exact inMemory_justified justified guarded taken
  | access =>
    obtain ⟨⟨_, _, made⟩, ran, taken⟩ := of_bind taken
    cases taken
    cases access_cases ran with
    | unchecked same made => exact unchecked_justified justified guarded same made
    | reserved _ records made =>
      rw [made]
      exact reserved_justified justified records
    | checked decided records made =>
      rw [made]
      rcases writeOK_cases decided with ⟨refused, same⟩ | ⟨allowed, filtered, own⟩
      · rw [refused, if_neg (by decide), append_nil]
        exact refused_justified justified (records.trans same)
      · rw [allowed, if_pos rfl]
        exact allowed_justified justified guarded (records.trans filtered) own

end

/-- From a memory without reservations, and as long as every write to a reserved granule
is checked under that granule's address, no store-conditional is allowed that its
context's latest load-reserved does not cover. -/
theorem storeConditional_sound {mem final : AbstractMemory} {uses : List MemoryUse} {effects : List Effect}
    (empty : mem.lockedAddrList = []) (guarded : Each AbstractMemory.step Guarded mem uses)
    (ran : run AbstractMemory.step mem uses = .ok (final, effects)) : Sound effects := by
  have start : Justified mem [] := by
    refine ⟨by simp [empty], fun _ member => ?_, fun before _ _ after split => ?_⟩
    · rw [empty] at member
      cases member
    · exact absurd split (by simp)
  have reached := run_preserves Guarded Justified ?_ start guarded ran
  · simpa using reached.sound
  · intro before past use after made justified allowed taken
    exact step_justified justified allowed taken

instance (mem : AbstractMemory) (use : MemoryUse) : Decidable (Guarded mem use) :=
  match use with
  | .access pkt => inferInstanceAs (Decidable (∀ record ∈ mem.lockedAddrList, ∀ byte ∈ written pkt,
      granule byte = record.addr → pkt.cmd ≠ .swapReq ∧ LockedAddr.mask pkt.req.paddr = record.addr))
  | .inMemory op pkt => inferInstanceAs (Decidable (∀ record ∈ mem.lockedAddrList,
      ∀ byte ∈ span (address pkt (arity op)) 8, granule byte ≠ record.addr))

def accessBy (context : ContextID) (cmd : MemCmd) (paddr : Addr) (data : List Byte) : MemoryUse :=
  .access (.ofRequest { id := 0, paddr, size := 8, flags := 0, contextId := some context } cmd data)

theorem distant_store_sound : ∃ final effects,
    run AbstractMemory.step idleMemory.mem
      [accessBy 0 .loadLockedReq 0 (leBytes 8 0), accessBy 1 .writeReq 16 (leBytes 8 1),
        accessBy 0 .storeCondReq 0 (leBytes 8 2)] = .ok (final, effects) ∧
      .storeConditional 0 0 true ∈ effects ∧ Sound effects := by
  have guarded : Each AbstractMemory.step Guarded idleMemory.mem
      [accessBy 0 .loadLockedReq 0 (leBytes 8 0), accessBy 1 .writeReq 16 (leBytes 8 1),
        accessBy 0 .storeCondReq 0 (leBytes 8 2)] :=
    ⟨by decide, by decide, by decide, trivial⟩
  exact ⟨_, _, rfl, by decide, storeConditional_sound rfl guarded rfl⟩

def swapHistory : List Effect :=
  [.loadLocked 0 0, .read (span 0 8), .read (span 0 8), .wrote (span 0 8), .storeConditional 0 0 true, .wrote (span 0 8)]

def cmpimcHistory : List Effect :=
  [.loadLocked 0 0, .read (span 0 8), .read (span 0 8), .read (span 8 8), .wrote (span 0 8), .storeConditional 0 0 true,
    .wrote (span 0 8)]

/-- A swap, or an in-memory operation, of another context changes the reserved word, and
the store-conditional is allowed all the same. -/
theorem swap_and_inMemory_unsound :
    ((run AbstractMemory.step idleMemory.mem
      [accessBy 0 .loadLockedReq 0 (leBytes 8 0), accessBy 1 .swapReq 0 (leBytes 8 1),
        accessBy 0 .storeCondReq 0 (leBytes 8 2)]).map (·.2) = .ok swapHistory ∧ ¬ Sound swapHistory) ∧
    (run AbstractMemory.step idleMemory.mem
      [accessBy 0 .loadLockedReq 0 (leBytes 8 0), .inMemory .cmpimc (Isa.imcPacket 1 .cmpimc [0, 8, 0]),
        accessBy 0 .storeCondReq 0 (leBytes 8 2)]).map (·.2) = .ok cmpimcHistory ∧ ¬ Sound cmpimcHistory := by
  refine ⟨⟨rfl, fun sound => ?_⟩, rfl, fun sound => ?_⟩
  · have reserved := (reservation_eq_some _).mpr (sound (swapHistory.take 4) 0 0 [.wrote (span 0 8)] rfl)
    exact absurd reserved (by decide)
  · have reserved := (reservation_eq_some _).mpr (sound (cmpimcHistory.take 5) 0 0 [.wrote (span 0 8)] rfl)
    exact absurd reserved (by decide)

end ImcGem5.Mem.Proofs

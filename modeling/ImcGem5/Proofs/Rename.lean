import ImcGem5.Lib.UndoLog
import ImcGem5.Cpu.Rename
import Mathlib.Algebra.BigOperators.Fin
import Mathlib.Algebra.Order.BigOperators.Group.Finset
import Mathlib.Data.Multiset.Fintype
import Mathlib.Tactic.Abel

/-! Register renaming loses and duplicates nothing. The registers of a class are counted over
the maps, the history entries that changed a mapping and the free list, and every operation
leaves the count as it is. The history of a thread is the log that takes its map back. -/

namespace ImcGem5.Cpu.O3.Proofs.Rename
open Lib Mem UndoLog List Function Multiset Context RenameHistory

def changed (entry : RenameHistory) : Bool := decide (entry.newPhysReg ≠ entry.prevPhysReg)

def previous (history : List RenameHistory) (type : RegClassType) : List PhysRegId :=
  (history.filter fun entry => changed entry && entry.prevPhysReg.classValue == type).map prevPhysReg

def places (renameMap : UnifiedRenameMap) (history : List RenameHistory) (freeList : UnifiedFreeList) (type : RegClassType) :
    Multiset PhysRegId :=
  ↑(renameMap type) + ↑(previous history type) + ↑(freeList type)

def goBack (entry : RenameHistory) (renameMap : UnifiedRenameMap) : UnifiedRenameMap :=
  if changed entry then renameMap.put entry.archReg entry.prevPhysReg else renameMap

/-- Each change of a history is still in place once the later ones are taken back. -/
def Linked : List RenameHistory → UnifiedRenameMap → Prop
  | [], _ => True
  | entry :: history, renameMap =>
    (changed entry → entry.archReg.isRenameable ∧ entry.newPhysReg.classValue = entry.archReg.classValue ∧
      entry.prevPhysReg.classValue = entry.archReg.classValue ∧
      (renameMap entry.archReg.classValue)[entry.archReg.index]? = some entry.newPhysReg) ∧
    Linked history (goBack entry renameMap)

variable {renameMap : UnifiedRenameMap} {history older newer : List RenameHistory} {freeList : UnifiedFreeList}
  {type : RegClassType} {archReg : RegId} {entry : RenameHistory} {seqNum : InstSeqNum} {reg old : PhysRegId}

theorem previous_append (newer older : List RenameHistory) (type : RegClassType) :
    previous (newer ++ older) type = previous newer type ++ previous older type := by
  simp [previous]

theorem previous_cons_unchanged (same : changed entry = false) : previous (entry :: history) type = previous history type := by
  simp [previous, same]

theorem previous_cons_changed (change : changed entry = true) : (↑(previous (entry :: history) type) : Multiset PhysRegId) =
    (if entry.prevPhysReg.classValue = type then {entry.prevPhysReg} else 0) + ↑(previous history type) := by
  by_cases within : entry.prevPhysReg.classValue = type
  · simp [previous, change, within]
  · simp [previous, change, within]

theorem previous_reverse (history : List RenameHistory) (type : RegClassType) :
    (↑(previous history.reverse type) : Multiset PhysRegId) = ↑(previous history type) := by
  simp [previous, filter_reverse, map_reverse]

theorem add_swapped {before after out into rest free : Multiset PhysRegId} (swapped : before + out = after + into) :
    before + rest + (free + out) = after + (into + rest) + free := by
  calc before + rest + (free + out) = before + out + (rest + free) := by abel
    _ = after + into + (rest + free) := by rw [swapped]
    _ = after + (into + rest) + free := by abel

theorem coe_set {regs : List PhysRegId} {index : Nat} (found : regs[index]? = some old) (reg : PhysRegId) :
    (↑(regs.set index reg) : Multiset PhysRegId) + {old} = ↑regs + {reg} := by
  induction regs generalizing index with
  | nil => cases found
  | cons _ _ ih =>
    cases index with
    | zero =>
      cases found
      simp only [set_cons_zero, ← cons_coe, ← singleton_add]
      abel
    | succ =>
      simp only [set_cons_succ, ← cons_coe, ← singleton_add, add_assoc]
      rw [ih found]

theorem coe_put (found : (renameMap archReg.classValue)[archReg.index]? = some old) (reg : PhysRegId) (type : RegClassType) :
    (↑(renameMap.put archReg reg type) : Multiset PhysRegId) + (if archReg.classValue = type then {old} else 0) =
      ↑(renameMap type) + (if archReg.classValue = type then {reg} else 0) := by
  by_cases same : archReg.classValue = type
  · subst same
    simpa [UnifiedRenameMap.put] using coe_set found reg
  · rw [if_neg same, if_neg same, UnifiedRenameMap.put, update_of_ne (Ne.symm same)]

theorem coe_addReg (freeList : UnifiedFreeList) (reg : PhysRegId) (type : RegClassType) :
    (↑(freeList.addReg reg type) : Multiset PhysRegId) =
      ↑(freeList type) + (if reg.classValue = type then {reg} else 0) := by
  by_cases same : reg.classValue = type
  · subst same
    rw [UnifiedFreeList.addReg, update_self, if_pos rfl, ← coe_add, coe_singleton]
  · rw [if_neg same, UnifiedFreeList.addReg, update_of_ne (Ne.symm same), add_zero]

theorem length_put (renameMap : UnifiedRenameMap) (archReg : RegId) (reg : PhysRegId) (type : RegClassType) :
    (renameMap.put archReg reg type).length = (renameMap type).length := by
  by_cases same : archReg.classValue = type
  · subst same
    simp [UnifiedRenameMap.put]
  · rw [UnifiedRenameMap.put, update_of_ne (Ne.symm same)]

section

variable (found : (renameMap archReg.classValue)[archReg.index]? = some old)
include found

theorem put_put : (renameMap.put archReg reg).put archReg old = renameMap := by
  obtain ⟨_, same⟩ := List.getElem?_eq_some_iff.mp found
  simp [UnifiedRenameMap.put, ← same]

theorem lookup_put : (renameMap.put archReg reg archReg.classValue)[archReg.index]? = some reg := by
  obtain ⟨inside, _⟩ := List.getElem?_eq_some_iff.mp found
  simp [UnifiedRenameMap.put, inside]

end

/-! The history is rolled back. -/

theorem setEntry_ok (renameable : archReg.isRenameable = true) (sameClass : reg.classValue = archReg.classValue)
    (found : (renameMap archReg.classValue)[archReg.index]? = some old) :
    renameMap.setEntry archReg reg = .ok (renameMap.put archReg reg) := by
  obtain ⟨inside, _⟩ := List.getElem?_eq_some_iff.mp found
  simp [UnifiedRenameMap.setEntry, sameClass, renameable, inside, inside.le]

theorem squashFrom_ok (context : Context) (linked : Linked history context.renameMap) (seqNum : InstSeqNum) :
    ∃ freeList, context.squashFrom seqNum history = .ok { context with
        renameMap := undo instSeqNum goBack history seqNum context.renameMap
        historyBuffer := remaining instSeqNum history seqNum
        freeList } ∧
      Linked (remaining instSeqNum history seqNum)
        (undo instSeqNum goBack history seqNum context.renameMap) ∧
      ∀ type, places (undo instSeqNum goBack history seqNum context.renameMap)
        (remaining instSeqNum history seqNum) freeList type =
          places context.renameMap history context.freeList type ∧
        (undo instSeqNum goBack history seqNum context.renameMap type).length =
          (context.renameMap type).length := by
  induction history generalizing context with
  | nil => exact ⟨context.freeList, rfl, trivial, fun type => ⟨rfl, rfl⟩⟩
  | cons entry _ ih =>
    rw [squashFrom, undo, remaining]
    by_cases later : entry.instSeqNum > seqNum
    · simp only [if_pos later]
      by_cases change : changed entry = true
      · obtain ⟨renameable, newClass, prevClass, current⟩ := linked.1 change
        have backed : goBack entry context.renameMap = context.renameMap.put entry.archReg entry.prevPhysReg := if_pos change
        obtain ⟨freeList, ran, kept, counted⟩ := ih { context with
          renameMap := goBack entry context.renameMap
          freeList := context.freeList.addReg entry.newPhysReg } linked.2
        refine ⟨freeList, ?_, kept, ?_⟩
        · rw [if_pos (of_decide_eq_true change), bind_of_ok (setEntry_ok renameable prevClass current), ← backed]
          exact ran
        · intro type
          refine ⟨(counted type).1.trans ?_, (counted type).2.trans ?_⟩
          · have swapped := coe_put current entry.prevPhysReg type
            simp only [places, backed, coe_addReg, previous_cons_changed change, newClass, prevClass]
            exact add_swapped swapped
          · rw [backed, length_put]
      · have unchanged : goBack entry context.renameMap = context.renameMap := if_neg change
        obtain ⟨freeList, ran, kept, counted⟩ := ih context (by rw [← unchanged]; exact linked.2)
        rw [unchanged]
        refine ⟨freeList, ?_, kept, ?_⟩
        · rw [if_neg (of_decide_eq_false (Bool.not_eq_true _ ▸ change))]
          exact ran
        · intro type
          refine ⟨(counted type).1.trans ?_, (counted type).2⟩
          simp only [places, previous_cons_unchanged (by simpa using change)]
    · rw [if_neg later, if_neg later, if_neg later]
      exact ⟨context.freeList, rfl, linked, fun type => ⟨rfl, rfl⟩⟩

/-! The oldest entries are let go. -/

theorem linked_of_append (linked : Linked (newer ++ older) renameMap) : Linked newer renameMap := by
  induction newer generalizing renameMap with
  | nil => trivial
  | cons _ _ ih => exact ⟨linked.1, ih linked.2⟩

theorem removeFrom_ok (seqNum : InstSeqNum) (oldestFirst : List RenameHistory) (freeList : UnifiedFreeList) :
    ∃ gone kept after, removeFrom seqNum oldestFirst freeList = (kept, after) ∧ oldestFirst = gone ++ kept ∧
      (∀ entry ∈ gone, entry.instSeqNum ≤ seqNum) ∧
      ∀ type, (↑(after type) : Multiset PhysRegId) = ↑(previous gone type) + ↑(freeList type) := by
  induction oldestFirst generalizing freeList with
  | nil => exact ⟨[], [], freeList, rfl, rfl, fun _ member => absurd member not_mem_nil, fun _ => (zero_add _).symm⟩
  | cons entry newer ih =>
    rw [removeFrom]
    by_cases early : entry.instSeqNum ≤ seqNum
    · rw [if_pos early]
      obtain ⟨gone, kept, after, ran, rfl, all, counted⟩ :=
        ih (if entry.newPhysReg ≠ entry.prevPhysReg then freeList.addReg entry.prevPhysReg else freeList)
      refine ⟨entry :: gone, kept, after, ran, rfl, List.forall_mem_cons.mpr ⟨early, all⟩, ?_⟩
      intro type
      rw [counted type]
      by_cases change : changed entry = true
      · rw [if_pos (of_decide_eq_true change), coe_addReg, previous_cons_changed change]
        abel
      · rw [if_neg (of_decide_eq_false (Bool.not_eq_true _ ▸ change)), previous_cons_unchanged (by simpa using change)]
    · rw [if_neg early]
      exact ⟨[], entry :: newer, freeList, rfl, rfl, fun _ member => absurd member not_mem_nil, fun _ => (zero_add _).symm⟩

theorem removeFromHistory_ok (context : Context) (seqNum : InstSeqNum) :
    ∃ kept old after, context.removeFromHistory seqNum = { context with historyBuffer := kept, freeList := after } ∧
      context.historyBuffer = kept ++ old ∧ (∀ entry ∈ old, entry.instSeqNum ≤ seqNum) ∧
      ∀ type, places context.renameMap kept after type = places context.renameMap context.historyBuffer context.freeList type := by
  obtain ⟨gone, kept, after, ran, split, early, counted⟩ := removeFrom_ok seqNum context.historyBuffer.reverse context.freeList
  have whole : context.historyBuffer = kept.reverse ++ gone.reverse := by
    rw [← reverse_append, ← split, reverse_reverse]
  refine ⟨kept.reverse, gone.reverse, after, ?_, whole, ?_, ?_⟩
  · simp only [removeFromHistory, ran]
  · intro entry member
    exact early entry (mem_reverse.mp member)
  · intro type
    rw [places, places, counted type, whole, previous_append, ← coe_add, previous_reverse gone]
    abel

/-! Destinations are renamed. -/

/-- The history is linked from the map; no register is held twice. -/
structure Ready (numRegs : RegClassType → Nat) (context : Context) : Prop where
  lengths : ∀ type ∈ renamedClasses, (context.renameMap type).length = numRegs type
  unpinned : ∀ reg, context.numPinnedWrites reg = 0
  linked : Linked context.historyBuffer context.renameMap
  nodup : ∀ type, (places context.renameMap context.historyBuffer context.freeList type).Nodup
  classes : ∀ type, ∀ reg ∈ places context.renameMap context.historyBuffer context.freeList type, reg.classValue = type

def Nameable (numRegs : RegClassType → Nat) (reg : RegId) : Prop :=
  reg.numPinnedWrites = 0 ∧ (reg.isRenameable = true → reg.index < numRegs reg.classValue)

instance (numRegs : RegClassType → Nat) (reg : RegId) : Decidable (Nameable numRegs reg) := inferInstanceAs (Decidable (_ ∧ _))

variable {numRegs : RegClassType → Nat} {context : Context} {dest : DestReg}

theorem renameable_iff : archReg.isRenameable = true ↔ archReg.classValue ∈ renamedClasses := by
  unfold RegId.isRenameable
  cases archReg.classValue <;> decide

theorem renameDestReg_special (context : Context) (special : dest.reg.isRenameable = false) (seqNum : InstSeqNum) :
    ∃ entry, renameDestReg seqNum context dest = .ok { context with historyBuffer := entry :: context.historyBuffer } ∧
      entry.instSeqNum = seqNum ∧ changed entry = false := by
  obtain ⟨physReg, found⟩ : ∃ physReg, context.renameMap.lookup dest.reg = .ok physReg := by
    have outside : dest.reg.classValue ∉ renamedClasses := by
      intro member
      rw [renameable_iff.mpr member] at special
      cases special
    unfold UnifiedRenameMap.lookup
    cases sort : dest.reg.classValue with
    | misc | invalid => exact ⟨_, rfl⟩
    | _ => exact absurd (by rw [sort]; decide) outside
  refine ⟨⟨seqNum, dest.reg, physReg, physReg⟩, ?_, rfl, by simp [changed]⟩
  simp only [renameDestReg, rename, special, Bool.not_false, if_true, bind_of_ok found]
  rfl

section

variable (ready : Ready numRegs context)
include ready

theorem renameDestReg_renamed (renameable : dest.reg.isRenameable = true)
    (nameable : Nameable numRegs dest.reg) {newReg : PhysRegId} {freeRegs : List PhysRegId}
    (free : context.freeList dest.reg.classValue = newReg :: freeRegs) (seqNum : InstSeqNum) :
    ∃ prevReg, (context.renameMap dest.reg.classValue)[dest.reg.index]? = some prevReg ∧
      renameDestReg seqNum context dest = .ok { context with
        renameMap := context.renameMap.put dest.reg newReg
        historyBuffer := ⟨seqNum, dest.reg, newReg, prevReg⟩ :: context.historyBuffer
        freeList := update context.freeList dest.reg.classValue freeRegs } := by
  have inside : dest.reg.index < (context.renameMap dest.reg.classValue).length := by
    rw [ready.lengths _ (renameable_iff.mp renameable)]
    exact nameable.2 renameable
  have valid : dest.reg.classValue ≠ .invalid := by
    intro invalid
    simp [RegId.isRenameable, invalid] at renameable
  refine ⟨_, getElem?_eq_getElem inside, ?_⟩
  have unpinned : update context.numPinnedWrites newReg dest.reg.numPinnedWrites = context.numPinnedWrites := by
    rw [nameable.1, ← ready.unpinned newReg, update_eq_self]
  have simple : context.renameSimple dest.reg = .ok ({ context with
      renameMap := context.renameMap.put dest.reg newReg
      freeList := update context.freeList dest.reg.classValue freeRegs }, newReg, (context.renameMap dest.reg.classValue)[dest.reg.index]) := by
    simp only [renameSimple, getElem?_eq_getElem inside, if_neg valid, ready.unpinned, lt_irrefl, if_false,
      UnifiedFreeList.getReg, free, ok_bind, unpinned]
    rfl
  simp only [renameDestReg, rename, renameable, Bool.not_true, Bool.false_eq_true, if_false, bind_of_ok simple]
  rfl

theorem Ready.transfer {final : Context}
    (counted : ∀ type, places final.renameMap final.historyBuffer final.freeList type =
      places context.renameMap context.historyBuffer context.freeList type)
    (lengths : ∀ type, (final.renameMap type).length = (context.renameMap type).length)
    (unpinned : final.numPinnedWrites = context.numPinnedWrites) (linked : Linked final.historyBuffer final.renameMap) :
    Ready numRegs final where
  lengths type member := (lengths type).trans (ready.lengths type member)
  unpinned reg := by
    rw [unpinned]
    exact ready.unpinned reg
  linked := linked
  nodup type := by
    rw [counted type]
    exact ready.nodup type
  classes type := by
    rw [counted type]
    exact ready.classes type

theorem renameDestReg_ok (nameable : Nameable numRegs dest.reg)
    (free : dest.type ∈ renamedClasses → context.freeList dest.type ≠ []) (seqNum : InstSeqNum) :
    ∃ final entry, renameDestReg seqNum context dest = .ok final ∧ Ready numRegs final ∧
      final.historyBuffer = entry :: context.historyBuffer ∧ entry.instSeqNum = seqNum ∧
      goBack entry final.renameMap = context.renameMap ∧
      (∀ type, places final.renameMap final.historyBuffer final.freeList type =
        places context.renameMap context.historyBuffer context.freeList type) ∧
      ∀ type, (context.freeList type).length ≤ (final.freeList type).length + (if dest.type = type then 1 else 0) := by
  by_cases renameable : dest.reg.isRenameable = true
  · have member := renameable_iff.mp renameable
    have typed : dest.reg.classValue = dest.type := by
      obtain same | invalid := dest.typed
      · exact same
      · rw [invalid] at member
        exact absurd member (by decide)
    obtain ⟨newReg, freeRegs, taken⟩ := exists_cons_of_ne_nil (free (typed ▸ member))
    rw [← typed] at taken
    obtain ⟨prevReg, found, ran⟩ := renameDestReg_renamed ready renameable nameable taken seqNum
    have newPlaced : newReg ∈ (↑(context.freeList dest.reg.classValue) : Multiset PhysRegId) := by simp [taken]
    have prevPlaced : prevReg ∈ (↑(context.renameMap dest.reg.classValue) : Multiset PhysRegId) :=
      mem_coe.mpr (mem_of_getElem? found)
    have newClass : newReg.classValue = dest.reg.classValue :=
      ready.classes _ newReg (mem_add.mpr (.inr newPlaced))
    have prevClass : prevReg.classValue = dest.reg.classValue :=
      ready.classes _ prevReg (mem_add.mpr (.inl (mem_add.mpr (.inl prevPlaced))))
    -- What is mapped is not free, so the new mapping is a change.
    have differ : newReg ≠ prevReg := by
      rintro rfl
      exact Multiset.disjoint_left.mp (nodup_add.mp (ready.nodup dest.reg.classValue)).2.2
        (mem_add.mpr (.inl prevPlaced)) newPlaced
    have change : changed ⟨seqNum, dest.reg, newReg, prevReg⟩ = true := decide_eq_true differ
    have back : goBack ⟨seqNum, dest.reg, newReg, prevReg⟩ (context.renameMap.put dest.reg newReg) = context.renameMap := by
      rw [goBack, if_pos change]
      exact put_put found
    have counted : ∀ type, places (context.renameMap.put dest.reg newReg) (⟨seqNum, dest.reg, newReg, prevReg⟩ :: context.historyBuffer)
        (update context.freeList dest.reg.classValue freeRegs) type =
          places context.renameMap context.historyBuffer context.freeList type := by
      intro type
      have swapped := coe_put found newReg type
      have shorter : (↑(context.freeList type) : Multiset PhysRegId) =
          ↑(update context.freeList dest.reg.classValue freeRegs type) +
            (if dest.reg.classValue = type then {newReg} else 0) := by
        by_cases same : dest.reg.classValue = type
        · subst same
          rw [update_self, if_pos rfl, taken, ← cons_coe, ← singleton_add, add_comm]
        · rw [update_of_ne (Ne.symm same), if_neg same, add_zero]
      rw [places, places, previous_cons_changed change, shorter]
      simp only [prevClass]
      exact (add_swapped swapped.symm).symm
    refine ⟨_, ⟨seqNum, dest.reg, newReg, prevReg⟩, ran, ready.transfer counted (length_put _ _ _) rfl ⟨fun _ => ?_, ?_⟩, rfl, rfl, back,
      counted, ?_⟩
    · exact ⟨renameable, newClass, prevClass, lookup_put found⟩
    · rw [back]
      exact ready.linked
    · intro type
      dsimp only
      by_cases same : dest.reg.classValue = type
      · subst same
        rw [update_self, taken, if_pos typed.symm]
        rfl
      · rw [update_of_ne (Ne.symm same)]
        exact Nat.le_add_right _ _
  · obtain ⟨entry, ran, time, same⟩ := renameDestReg_special context (by simpa using renameable) seqNum
    have back : goBack entry context.renameMap = context.renameMap := if_neg (by simp [same])
    have counted : ∀ type, places context.renameMap (entry :: context.historyBuffer) context.freeList type =
        places context.renameMap context.historyBuffer context.freeList type := by
      intro type
      rw [places, places, previous_cons_unchanged same]
    refine ⟨_, entry, ran, ready.transfer counted (fun _ => rfl) rfl ⟨?_, ?_⟩, rfl, time, back, counted, fun type => Nat.le_add_right _ _⟩
    · intro change
      rw [same] at change
      cases change
    · rw [back]
      exact ready.linked

theorem renameDestRegs_ok {dests : List DestReg} (nameable : ∀ dest ∈ dests, Nameable numRegs dest.reg)
    (enough : ∀ type ∈ renamedClasses, dests.countP (fun dest => dest.type == type) ≤ (context.freeList type).length)
    (seqNum : InstSeqNum) :
    ∃ final new, dests.foldlM (renameDestReg seqNum) context = .ok final ∧ Ready numRegs final ∧
      final.historyBuffer = new ++ context.historyBuffer ∧ (∀ entry ∈ new, entry.instSeqNum = seqNum) ∧
      new.foldl (fun renameMap entry => goBack entry renameMap) final.renameMap = context.renameMap ∧
      ∀ type, places final.renameMap final.historyBuffer final.freeList type =
        places context.renameMap context.historyBuffer context.freeList type := by
  induction dests generalizing context with
  | nil => exact ⟨context, [], rfl, ready, rfl, fun _ member => absurd member not_mem_nil, rfl, fun _ => rfl⟩
  | cons dest _ ih =>
    obtain ⟨_, entry, ran, readied, logged, time, back, counted, left⟩ :=
      renameDestReg_ok ready (nameable dest List.mem_cons_self) (by
        intro member empty
        have one := enough dest.type member
        simp [empty] at one) seqNum
    obtain ⟨final, new, rest, ready', logs, times, backs, counts⟩ := ih readied
      (fun other member => nameable other (List.mem_cons_of_mem _ member)) (by
        intro type member
        have one := enough type member
        have fewer := left type
        rw [List.countP_cons] at one
        simp only [beq_iff_eq] at one
        omega)
    refine ⟨final, new ++ [entry], ?_, ready', ?_, ?_, ?_, fun type => (counts type).trans (counted type)⟩
    · rw [foldlM_cons, bind_of_ok ran]
      exact rest
    · rw [logs, logged, append_assoc]
      rfl
    · intro other member
      obtain early | late := mem_concat.mp member
      · exact times other early
      · rw [late]
        exact time
    · rw [foldl_append, backs]
      exact back

end

/-! All threads together. -/

section Threads
variable {n : Nat} {params : RegFileParams} {rename : Rename n} {tid other : Fin n} {past labels : List (RenameLabel n)}
  {initial : Fin n → UnifiedRenameMap}

def held (thread : Thread) (type : RegClassType) : Multiset PhysRegId :=
  ↑(thread.renameMap type) + ↑(previous thread.historyBuffer type)

/-- Where the registers of a class are: in the maps, in the history, or on the free list. -/
def everywhere (rename : Rename n) (type : RegClassType) : Multiset PhysRegId :=
  ∑ tid, held (rename.threads tid) type + ↑(rename.freeList type)

/-- The instructions of a thread that were renamed and not squashed since, the latest first,
each with the map right after it. -/
def alive (tid : Fin n) (labels : List (RenameLabel n)) : List (InstSeqNum × UnifiedRenameMap) :=
  labels.foldl (fun saved label =>
    match label with
    | .renamed owner seqNum renameMap => if owner = tid then (seqNum, renameMap) :: saved else saved
    | .squashed owner seqNum _ => if owner = tid then saved.filter fun entry => decide (entry.1 ≤ seqNum) else saved) []

/-- What the stages around rename see to: there is a register for each destination, sequence
numbers go up, and what was committed is not squashed. -/
def Allowed (params : RegFileParams) (rename : Rename n) : RenameEvent n → Prop
  | .renameDestRegs tid inst => (rename.context tid).canRename inst = true ∧ (rename.threads tid).nextSeqNum ≤ inst.seqNum ∧
      ∀ dest ∈ inst.destRegs, Nameable params.numRegs dest.reg
  | .removeFromHistory _ _ => True
  | .doSquash tid squashedSeqNum => (rename.threads tid).committed ≤ squashedSeqNum

instance (rename : Rename n) (event : RenameEvent n) : Decidable (Allowed params rename event) := by
  cases event <;> unfold Allowed <;> infer_instance

def Restored (initial : Fin n → UnifiedRenameMap) (labels : List (RenameLabel n)) : Prop :=
  ∀ before tid seqNum renameMap after, labels = before ++ .squashed tid seqNum renameMap :: after →
    renameMap = latest (alive tid before) seqNum (initial tid)

/-- The invariant: one owner each, and undoing restores the maps. -/
structure Sound (params : RegFileParams) (initial : Fin n → UnifiedRenameMap) (rename : Rename n) (past : List (RenameLabel n)) :
    Prop where
  partition : ∀ type, everywhere rename type = ↑(params.initFreeList type)
  lengths : ∀ tid, ∀ type ∈ renamedClasses, ((rename.threads tid).renameMap type).length = params.numRegs type
  unpinned : ∀ reg, rename.numPinnedWrites reg = 0
  linked : ∀ tid, Linked (rename.threads tid).historyBuffer (rename.threads tid).renameMap
  undoes : ∀ tid, Undoes instSeqNum goBack (rename.threads tid).historyBuffer (rename.threads tid).renameMap
    (alive tid past) (initial tid) (rename.threads tid).committed (rename.threads tid).nextSeqNum
  restored : Restored initial past

theorem everywhere_eq (rename : Rename n) (tid : Fin n) (type : RegClassType) :
    everywhere rename type = places (rename.threads tid).renameMap (rename.threads tid).historyBuffer rename.freeList type +
      ∑ other ∈ Finset.univ.erase tid, held (rename.threads other) type := by
  rw [everywhere, ← Finset.add_sum_erase _ _ (Finset.mem_univ tid), places, held]
  abel

theorem initFreeList_nodup (params : RegFileParams) (type : RegClassType) : (params.initFreeList type).Nodup := by
  unfold RegFileParams.initFreeList
  split
  · apply List.nodup_range.map
    intro first second same
    exact congrArg PhysRegId.index same
  · exact nodup_nil

theorem classValue_of_mem (member : reg ∈ params.initFreeList type) : reg.classValue = type := by
  unfold RegFileParams.initFreeList at member
  split at member
  · obtain ⟨_, _, rfl⟩ := List.mem_map.mp member
    rfl
  · exact absurd member not_mem_nil

theorem Sound.ready (sound : Sound params initial rename past) (tid : Fin n) : Ready params.numRegs (rename.context tid) := by
  have within : ∀ type, places (rename.threads tid).renameMap (rename.threads tid).historyBuffer rename.freeList type ≤
      ↑(params.initFreeList type) := by
    intro type
    rw [← sound.partition type, everywhere_eq rename tid]
    exact Multiset.le_add_right _ _
  refine ⟨sound.lengths tid, sound.unpinned, sound.linked tid, ?_, ?_⟩
  · intro type
    exact nodup_of_le (within type) (coe_nodup.mpr (initFreeList_nodup params type))
  · intro type reg member
    exact classValue_of_mem (mem_coe.mp (mem_of_le (within type) member))

theorem restored_append {label : RenameLabel n} (restored : Restored initial past)
    (last : ∀ tid seqNum renameMap, label = .squashed tid seqNum renameMap →
      renameMap = latest (alive tid past) seqNum (initial tid)) : Restored initial (past ++ [label]) := by
  intro before tid seqNum renameMap after split
  obtain rfl | ⟨rest, final, rfl⟩ := eq_nil_or_concat after
  · obtain ⟨rfl, same⟩ := append_inj' split rfl
    exact last tid seqNum renameMap (List.singleton_inj.mp same)
  · rw [concat_eq_append, ← cons_append, ← append_assoc] at split
    obtain ⟨rfl, _⟩ := append_inj' split rfl
    exact restored before tid seqNum renameMap rest rfl

def owner : RenameLabel n → Fin n
  | .renamed tid _ _ => tid
  | .squashed tid _ _ => tid

theorem alive_append_other (past : List (RenameLabel n)) (own : ∀ label ∈ labels, owner label = tid) (differ : other ≠ tid) :
    alive other (past ++ labels) = alive other past := by
  induction labels generalizing past with
  | nil => rw [append_nil]
  | cons label _ ih =>
    rw [append_cons, ih _ fun later member => own later (List.mem_cons_of_mem _ member)]
    have first := own label List.mem_cons_self
    unfold alive
    rw [foldl_append]
    cases label with
    | renamed | squashed =>
      cases first
      exact if_neg (Ne.symm differ)

theorem Sound.next (sound : Sound params initial rename past) {context : Context} {nextSeqNum committed : InstSeqNum}
    (ready : Ready params.numRegs context)
    (counted : ∀ type, places context.renameMap context.historyBuffer context.freeList type =
      places (rename.threads tid).renameMap (rename.threads tid).historyBuffer rename.freeList type)
    (own : ∀ label ∈ labels, owner label = tid)
    (undoes : Undoes instSeqNum goBack context.historyBuffer context.renameMap (alive tid (past ++ labels)) (initial tid)
      committed nextSeqNum)
    (restored : Restored initial (past ++ labels)) :
    Sound params initial (rename.withContext tid context nextSeqNum committed) (past ++ labels) := by
  have same : (rename.withContext tid context nextSeqNum committed).threads tid =
      ⟨context.renameMap, context.historyBuffer, nextSeqNum, committed⟩ := update_self ..
  have others : ∀ other, other ≠ tid → (rename.withContext tid context nextSeqNum committed).threads other = rename.threads other :=
    fun other differ => update_of_ne differ ..
  refine ⟨?_, ?_, ready.unpinned, ?_, ?_, restored⟩
  · intro type
    rw [← sound.partition type, everywhere_eq _ tid, everywhere_eq rename tid, same, ← counted type]
    congr 1
    apply Finset.sum_congr rfl
    intro other member
    rw [others other (Finset.ne_of_mem_erase member)]
  · intro other
    by_cases equal : other = tid
    · rw [equal, same]
      exact ready.lengths
    · rw [others other equal]
      exact sound.lengths other
  · intro other
    by_cases equal : other = tid
    · rw [equal, same]
      exact ready.linked
    · rw [others other equal]
      exact sound.linked other
  · intro other
    by_cases equal : other = tid
    · rw [equal, same]
      exact undoes
    · rw [others other equal, alive_append_other past own equal]
      exact sound.undoes other

theorem alive_renamed (past : List (RenameLabel n)) (tid : Fin n) (seqNum : InstSeqNum) (renameMap : UnifiedRenameMap) :
    alive tid (past ++ [.renamed tid seqNum renameMap]) = (seqNum, renameMap) :: alive tid past := by
  simp [alive]

theorem alive_squashed (past : List (RenameLabel n)) (tid : Fin n) (seqNum : InstSeqNum) (renameMap : UnifiedRenameMap) :
    alive tid (past ++ [.squashed tid seqNum renameMap]) = (alive tid past).filter fun entry => decide (entry.1 ≤ seqNum) := by
  simp [alive]

theorem sound_step (sound : Sound params initial rename past) (event : RenameEvent n) (allowed : Allowed params rename event) :
    ∃ final labels, rename.step event = .ok (final, labels) ∧ Sound params initial final (past ++ labels) := by
  cases event with
  | renameDestRegs tid inst =>
    obtain ⟨can, later, nameable⟩ := allowed
    have enough : ∀ type ∈ renamedClasses, inst.destRegs.countP (fun dest => dest.type == type) ≤ (rename.freeList type).length := by
      intro type member
      exact of_decide_eq_true (all_eq_true.mp can type member)
    obtain ⟨context, _, ran, ready, logs, times, back, counted⟩ :=
      renameDestRegs_ok (sound.ready tid) nameable enough inst.seqNum
    refine ⟨_, _, (bind_of_ok ran _).trans rfl, ?_⟩
    apply sound.next ready counted
    · simp [owner]
    · rw [alive_renamed, logs]
      exact (sound.undoes tid).write later times back
    · exact restored_append sound.restored nofun
  | removeFromHistory tid instSeqNum =>
    obtain ⟨kept, old, after, ran, whole, early, counted⟩ := removeFromHistory_ok (rename.context tid) instSeqNum
    have split : (rename.threads tid).historyBuffer = kept ++ old := whole
    have chained := sound.linked tid
    rw [split] at chained
    have ready : Ready params.numRegs { rename.context tid with historyBuffer := kept, freeList := after } :=
      (sound.ready tid).transfer counted (fun _ => rfl) rfl (linked_of_append chained)
    have undone := sound.undoes tid
    rw [split] at undone
    refine ⟨_, _, rfl, ?_⟩
    rw [ran]
    apply sound.next ready counted
    · exact fun _ member => absurd member not_mem_nil
    · rw [append_nil]
      exact undone.drop early
    · rw [append_nil]
      exact sound.restored
  | doSquash tid squashedSeqNum =>
    obtain ⟨freeList, ran, linked, counted⟩ := squashFrom_ok (rename.context tid) (sound.linked tid) squashedSeqNum
    refine ⟨_, _, (bind_of_ok ran _).trans rfl, ?_⟩
    have kept := fun type => (counted type).1
    apply sound.next
    · exact (sound.ready tid).transfer kept (fun type => (counted type).2) rfl linked
    · exact kept
    · simp [owner]
    · rw [alive_squashed]
      exact (sound.undoes tid).rollBack allowed
    · apply restored_append sound.restored
      rintro _ _ _ ⟨⟩
      exact (sound.undoes tid).returns squashedSeqNum allowed

end Threads

/-! The registers are handed out at first. -/

theorem takeRegs_ok {count : Nat} {freeRegs regs rest : List PhysRegId} (taken : takeRegs count freeRegs = .ok (regs, rest)) :
    freeRegs = regs ++ rest ∧ regs.length = count := by
  induction count generalizing freeRegs regs with
  | zero =>
    cases taken
    exact ⟨rfl, rfl⟩
  | succ _ ih =>
    cases freeRegs with
    | nil => cases taken
    | cons reg =>
      obtain ⟨⟨_, _⟩, more, same⟩ := of_bind taken
      cases same
      obtain ⟨whole, size⟩ := ih more
      exact ⟨congrArg (reg :: ·) whole, congrArg (· + 1) size⟩

theorem initMap_ok {types : List RegClassType} (nodup : types.Nodup) {before after : UnifiedRenameMap × UnifiedFreeList}
    (empty : ∀ type ∈ types, before.1 type = []) (built : initMap numRegs types before = .ok after) :
    ∀ type, (↑(after.1 type) : Multiset PhysRegId) + ↑(after.2 type) = ↑(before.1 type) + ↑(before.2 type) ∧
      (after.1 type).length = if type ∈ types then numRegs type else (before.1 type).length := by
  induction types generalizing before with
  | nil =>
    cases built
    exact fun type => ⟨rfl, rfl⟩
  | cons first types ih =>
    obtain ⟨fresh, nodup⟩ := List.nodup_cons.mp nodup
    obtain ⟨⟨_, _⟩, taken, built⟩ := of_bind built
    obtain ⟨whole, size⟩ := takeRegs_ok taken
    have apart : ∀ type ∈ types, type ≠ first := fun type member same => fresh (same ▸ member)
    intro type
    obtain ⟨counted, length⟩ := ih nodup (by
      intro later member
      exact (update_of_ne (apart later member) ..).trans (empty later (List.mem_cons_of_mem _ member))) built type
    rw [counted, length]
    by_cases same : type = first
    · subst same
      simp [fresh, empty type List.mem_cons_self, whole, size]
    · simp [same]

theorem initMaps_ok {n : Nat} {renameMaps : Fin n → UnifiedRenameMap} {after : UnifiedFreeList}
    (built : initMaps numRegs freeList n = .ok (renameMaps, after)) :
    (∀ type, ∑ tid, (↑(renameMaps tid type) : Multiset PhysRegId) + ↑(after type) = ↑(freeList type)) ∧
      ∀ tid, ∀ type ∈ renamedClasses, (renameMaps tid type).length = numRegs type := by
  induction n generalizing after with
  | zero =>
    cases built
    exact ⟨fun type => by simp, fun tid => tid.elim0⟩
  | succ _ ih =>
    obtain ⟨⟨_, _⟩, ran, built⟩ := of_bind built
    obtain ⟨⟨_, _⟩, last, same⟩ := of_bind built
    cases same
    obtain ⟨counted, lengths⟩ := ih ran
    have final := initMap_ok (by decide) (fun _ _ => rfl) last
    refine ⟨?_, ?_⟩
    · intro type
      have taken := (final type).1
      rw [coe_nil, zero_add] at taken
      rw [← counted type, ← taken, Fin.sum_univ_castSucc]
      simp only [Fin.lastCases_castSucc, Fin.lastCases_last]
      abel
    · intro tid
      refine Fin.lastCases ?_ (fun tid => ?_) tid
      · intro type member
        dsimp only
        rw [Fin.lastCases_last, (final type).2, if_pos member]
      · dsimp only
        rw [Fin.lastCases_castSucc]
        exact lengths tid

theorem sound_init {n : Nat} {params : RegFileParams} {rename : Rename n} (built : Rename.init params n = .ok rename) :
    Sound params (fun tid => (rename.threads tid).renameMap) rename [] := by
  unfold Rename.init at built
  split at built
  · cases built
  · simp only [require_bind_eq_ok] at built
    obtain ⟨_, _, _, _, _, _, _, built⟩ := built
    obtain ⟨⟨_, _⟩, ran, same⟩ := of_bind built
    cases same
    obtain ⟨counted, lengths⟩ := initMaps_ok ran
    refine ⟨?_, lengths, fun _ => rfl, fun _ => trivial, fun tid => undoes_initial _, ?_⟩
    · intro type
      rw [← counted type]
      simp [everywhere, held, previous]
    · intro before tid seqNum renameMap after split
      simp at split

/-- Register renaming loses and duplicates nothing, whatever the threads do: a physical
register is mapped once, or kept once by a history entry that changed a mapping, or once on
the free list. A squash brings back the map that the thread had after the youngest
instruction that is left of it. -/
theorem registers_kept {n : Nat} {params : RegFileParams} {rename : Rename n} (built : Rename.init params n = .ok rename)
    (events : List (RenameEvent n)) (each : Each Rename.step (Allowed params) rename events) :
    ∃ final labels, run Rename.step rename events = .ok (final, labels) ∧
      (∀ type, everywhere final type = ↑(params.initFreeList type) ∧
        ∀ reg ∈ params.initFreeList type, (everywhere final type).count reg = 1) ∧
      ∀ before tid seqNum renameMap after, labels = before ++ .squashed tid seqNum renameMap :: after →
        renameMap = latest (alive tid before) seqNum (rename.threads tid).renameMap := by
  obtain ⟨final, labels, ran, sound⟩ := run_advances (Allowed params) (Sound params fun tid => (rename.threads tid).renameMap)
    (fun _ _ event sound allowed => sound_step sound event allowed) (sound_init built) each
  refine ⟨final, labels, ran, fun type => ⟨sound.partition type, ?_⟩, sound.restored⟩
  intro reg member
  rw [sound.partition type, coe_count]
  exact List.count_eq_one_of_mem (initFreeList_nodup params type) member

def twoThreads : RegFileParams where
  numRegs
    | .int => 2
    | .vec => 1
    | _ => 0
  numPhysRegs
    | .int => 7
    | .vec => 2
    | _ => 0

/-- A destination is named twice and another is not renamed, the other thread commits and so
frees the register that the first takes next, and the first squashes. -/
def renameAndSquash : List (RenameEvent 2) :=
  [.renameDestRegs 0 ⟨1, [⟨.int, ⟨.int, 0, 0⟩, .inl rfl⟩, ⟨.misc, ⟨.misc, 5, 0⟩, .inl rfl⟩, ⟨.int, ⟨.int, 0, 0⟩, .inl rfl⟩]⟩,
    .renameDestRegs 1 ⟨2, [⟨.int, ⟨.int, 1, 0⟩, .inl rfl⟩]⟩, .removeFromHistory 1 2,
    .renameDestRegs 0 ⟨3, [⟨.int, ⟨.int, 1, 0⟩, .inl rfl⟩]⟩, .doSquash 0 1]

theorem renameAndSquash_kept :
    ∃ rename, Rename.init twoThreads 2 = .ok rename ∧ Each Rename.step (Allowed twoThreads) rename renameAndSquash ∧
      ∃ final labels, run Rename.step rename renameAndSquash = .ok (final, labels) ∧
        everywhere final .int = ↑(twoThreads.initFreeList .int) := by
  have each : ∃ rename, Rename.init twoThreads 2 = .ok rename ∧ Each Rename.step (Allowed twoThreads) rename renameAndSquash :=
    ⟨_, rfl, by decide⟩
  obtain ⟨rename, built, each⟩ := each
  obtain ⟨final, labels, ran, partition, _⟩ := registers_kept built renameAndSquash each
  exact ⟨rename, built, each, final, labels, ran, (partition .int).1⟩

end ImcGem5.Cpu.O3.Proofs.Rename

import ImcGem5.Proofs.TlbSlots
import ImcGem5.Riscv.TlbCheckpoint
import Mathlib.Data.List.Perm.Basic

/-! A TLB comes back from its checkpoint with its entries in other slots, and nothing that it
answers or evicts tells the difference, as long as its sequence numbers do not wrap. -/

namespace ImcGem5.Riscv.Proofs.TlbCheckpoint
open Lib Base Base.Proofs Mem Tlb TlbSlots List Option TLB

def page (cp : EntrySection) : Page := ⟨cp.vaddr, cp.logBytes, cp.asid⟩

def pageKey (page : Page) : BitVec 64 := buildKey page.vaddr page.asid

def Fits (page : Page) (key : BitVec 64) : Prop := Agree (64 - page.logBytes) key (pageKey page)

def Apart (one other : Page) : Prop := one.logBytes = other.logBytes → ¬Fits one (pageKey other)

theorem Apart.symm {one other : Page} (apart : Apart one other) : Apart other one := by
  intro same fits
  refine apart same.symm ?_
  unfold Fits at fits ⊢
  rw [← same]
  exact fits.symm

variable {entry : TlbEntry} {idx size : Nat} {tlb : TLB} {one other : List EntrySection} {op : TlbOp} {ops : List TlbOp} {key : BitVec 64}

theorem keyed_matches : (keyed entry idx).Matches key ↔ Fits (page entry.serialize) key := by
  have masked := agree_mask (w := 64) (Nat.sub_le 64 entry.logBytes) (buildKey entry.vaddr entry.asid)
  exact ⟨fun matching => Agree.trans matching masked, fun fits => Agree.trans fits masked.symm⟩

/-! The entries in use -/

def sections (entries : List TlbEntry) : List EntrySection := (entries.filter (·.trieHandle.isSome)).map (·.serialize)

theorem sections_append (early late : List TlbEntry) : sections (early ++ late) = sections early ++ sections late := by
  rw [sections, filter_append, map_append]
  rfl

theorem sections_used (used : entry.trieHandle.isSome) : sections [entry] = [entry.serialize] := by
  rw [sections, filter_singleton, used]
  rfl

theorem sections_free (none_ : entry.trieHandle = none) : sections [entry] = [] := by
  rw [sections, filter_singleton, none_]
  rfl

theorem sections_perm {one other : List TlbEntry} (same : one.Perm other) : (sections one).Perm (sections other) :=
  (same.filter _).map _

theorem mem_sections {cp : EntrySection} : cp ∈ sections tlb.tlb ↔ ∃ idx entry, Holds tlb idx entry ∧ entry.serialize = cp := by
  simp only [sections, List.mem_map, mem_filter]
  constructor
  · rintro ⟨entry, ⟨member, used⟩, rfl⟩
    obtain ⟨idx, place⟩ := mem_iff_getElem?.mp member
    exact ⟨idx, entry, ⟨place, used⟩, rfl⟩
  · rintro ⟨idx, entry, ⟨place, used⟩, rfl⟩
    exact ⟨entry, ⟨mem_of_getElem? place, used⟩, rfl⟩

theorem sections_set {entries : List TlbEntry} {old : TlbEntry} (place : entries[idx]? = some old) (new : TlbEntry) :
    ∃ rest, (sections entries).Perm (sections [old] ++ rest) ∧ (sections (entries.set idx new)).Perm (sections [new] ++ rest) := by
  obtain ⟨inside, rfl⟩ := List.getElem?_eq_some_iff.mp place
  refine ⟨sections (entries.eraseIdx idx), ?_, ?_⟩
  · exact (sections_perm (getElem_cons_eraseIdx_perm inside).symm).trans (.of_eq (sections_append [_] _))
  · exact (sections_perm (set_perm_cons_eraseIdx inside new)).trans (.of_eq (sections_append [_] _))

def unusedSlots (entries : List TlbEntry) : List (TlbEntry × Nat) := entries.zipIdx.filter fun slot => !slot.1.trieHandle.isSome

/-- The sections hold pages that do not overlap. -/
structure Filed (size : Nat) (tlb : TLB) : Prop where
  slots : Slots size tlb
  keyed : ∀ (idx : Nat) (entry : TlbEntry) handle, tlb.tlb[idx]? = some entry → entry.trieHandle = some handle →
    Trie.entryAt tlb.trie handle = some (keyed entry idx)
  paged : ∀ cp ∈ sections tlb.tlb, cp.logBytes < 64
  apart : ((sections tlb.tlb).map page).Pairwise Apart

theorem new_sections (size : Nat) : sections (TLB.new size).tlb = [] := by
  apply eq_nil_iff_forall_not_mem.mpr
  intro cp member
  obtain ⟨_, _, ⟨place, used⟩, _⟩ := mem_sections.mp member
  rw [eq_of_mem_replicate (mem_of_getElem? place)] at used
  cases used

theorem new_filed (size : Nat) : Filed size (TLB.new size) where
  slots := new_slots size
  keyed idx entry handle place points := by
    rw [eq_of_mem_replicate (mem_of_getElem? place)] at points
    cases points
  paged cp member := by
    rw [new_sections] at member
    cases member
  apart := by
    rw [new_sections]
    exact .nil

/-- What a search for a key finds among the entries: the one with the largest page. -/
def Finds (entries : List EntrySection) (key : BitVec 64) : Option EntrySection → Prop
  | none => ∀ cp ∈ entries, ¬Fits (page cp) key
  | some best => best ∈ entries ∧ Fits (page best) key ∧ ∀ cp ∈ entries, Fits (page cp) key → cp ≠ best → cp.logBytes < best.logBytes

theorem Finds.unique {first second : Option EntrySection} (same : one.Perm other)
    (finds : Finds one key first) (finds' : Finds other key second) : first = second := by
  cases first with
  | none =>
    cases second with
    | none => rfl
    | some best => exact absurd finds'.2.1 (finds best (same.mem_iff.mpr finds'.1))
  | some best =>
    cases second with
    | none => exact absurd finds.2.1 (finds' best (same.mem_iff.mp finds.1))
    | some best' =>
      by_contra different
      have apart : best ≠ best' := fun equal => different (congrArg some equal)
      have larger := finds.2.2 best' (same.mem_iff.mpr finds'.1) finds'.2.1 apart.symm
      have smaller := finds'.2.2 best (same.mem_iff.mp finds.1) finds.2.1 apart
      omega

section
variable {size : Nat} {tlb : TLB} (filed : Filed size tlb)
include filed

variable {idx : Nat} {entry : TlbEntry}

theorem Filed.matching (holds : Holds tlb idx entry) (fits : Fits (page entry.serialize) key) :
    ∃ handle, entry.trieHandle = some handle ∧ Trie.entryAt tlb.trie handle = some (Tlb.keyed entry idx) ∧
      (Tlb.keyed entry idx).Matches key := by
  obtain ⟨handle, points⟩ := isSome_iff_exists.mp holds.2
  exact ⟨handle, points, filed.keyed idx entry handle holds.1 points, keyed_matches.mpr fits⟩

theorem Filed.find (key : BitVec 64) : ∃ found : Option (Nat × TlbEntry), tlb.trie.lookup key = .ok (found.map (·.1)) ∧
    (∀ slot ∈ found, Holds tlb slot.1 slot.2) ∧ Finds (sections tlb.tlb) key (found.map (·.2.serialize)) := by
  obtain ⟨handle, _, shortest⟩ := Trie.lookupHandle_ok filed.slots.trie.linked key
  have looked := (Trie.lookup_ok filed.slots.trie.linked _ shortest).2
  cases shortest with
  | @found handle stored held matching least =>
    rw [bind_some, held] at looked
    obtain ⟨entry, place, points⟩ := filed.slots.stored handle stored held
    have holds : Holds tlb stored.value entry := ⟨place, by rw [points]; rfl⟩
    have same := filed.keyed _ entry handle place points
    rw [held, Option.some.injEq] at same
    rw [same] at matching
    refine ⟨some (stored.value, entry), looked, ?_, mem_sections.mpr ⟨_, _, holds, rfl⟩, keyed_matches.mp matching, ?_⟩
    · rintro slot ⟨⟩
      exact holds
    · intro cp member fits different
      obtain ⟨other, entry', holds', rfl⟩ := mem_sections.mp member
      obtain ⟨handle', _, held', matching'⟩ := filed.matching holds' fits
      have apart : handle' ≠ handle := by
        intro equal
        rw [equal, held, same, Option.some.injEq] at held'
        have equal : stored.value = other := congrArg Trie.Entry.value held'
        have entries := place.symm.trans (equal ▸ holds'.1)
        rw [Option.some.injEq] at entries
        exact different (by rw [entries])
      have shorter := least handle' _ held' matching' apart
      rw [same] at shorter
      have width : (Tlb.keyed entry stored.value).width = 64 - entry.logBytes := rfl
      have width' : (Tlb.keyed entry' other).width = 64 - entry'.logBytes := rfl
      change entry'.logBytes < entry.logBytes
      omega
  | missing none_ =>
    refine ⟨none, looked, nofun, fun cp member fits => ?_⟩
    obtain ⟨_, entry, holds, rfl⟩ := mem_sections.mp member
    obtain ⟨handle, _, held, matching⟩ := filed.matching holds fits
    exact none_ handle _ held matching

theorem Filed.touch {before after : TlbEntry} (holds : Holds tlb idx before) (same : SamePlace before after) (lruSeq : BitVec 64) :
    Filed size { tlb with lruSeq, tlb := tlb.tlb.set idx after } ∧ ∃ rest, (sections tlb.tlb).Perm (before.serialize :: rest) ∧
      (sections (tlb.tlb.set idx after)).Perm (after.serialize :: rest) := by
  have page_ : page after.serialize = page before.serialize := same.page
  have used : after.trieHandle.isSome := by
    rw [same.handle]
    exact holds.2
  obtain ⟨rest, was, is⟩ := sections_set holds.1 after
  rw [sections_used holds.2, singleton_append] at was
  rw [sections_used used, singleton_append] at is
  have pages : ((sections tlb.tlb).map page).Perm ((sections (tlb.tlb.set idx after)).map page) := by
    refine (was.map page).trans (.trans (.of_eq ?_) (is.map page).symm)
    rw [map_cons, map_cons, page_]
  refine ⟨⟨filed.slots.touch holds.1 same.handle lruSeq, ?_, ?_, filed.apart.perm pages Apart.symm⟩, rest, was, is⟩
  · intro other entry handle place points
    obtain ⟨rfl, rfl⟩ | ⟨_, place⟩ := getElem?_set_cases place
    · have found := filed.keyed other before handle holds.1 (same.handle.symm.trans points)
      have fields : Tlb.keyed entry other = Tlb.keyed before other := by
        have page_ := same.page
        simp only [TlbEntry.page, Page.mk.injEq] at page_
        rw [Tlb.keyed, page_.1, page_.2.1, page_.2.2, Tlb.keyed]
      rw [fields]
      exact found
    · exact filed.keyed other entry handle place points
  · intro cp member
    have member : page cp ∈ (sections tlb.tlb).map page := pages.mem_iff.mpr (mem_map_of_mem member)
    obtain ⟨old, member, same⟩ := List.mem_map.mp member
    have small := filed.paged old member
    rw [show cp.logBytes = old.logBytes from congrArg Page.logBytes same.symm]
    exact small

theorem Filed.remove (holds : Holds tlb idx entry) : ∃ next, tlb.remove idx = .ok next ∧ Filed size next ∧
    next.lruSeq = tlb.lruSeq ∧ next.tlb = tlb.tlb.set idx { entry with trieHandle := none } ∧ next.freeList = tlb.freeList ++ [idx] ∧
    (sections tlb.tlb).Perm (entry.serialize :: sections next.tlb) := by
  obtain ⟨next, removed, slots, _⟩ := filed.slots.remove holds
  obtain ⟨handle, points⟩ := isSome_iff_exists.mp holds.2
  obtain ⟨trie, taken, rest⟩ := Trie.remove_ok filed.slots.trie (filed.keyed idx entry handle holds.1 points)
  have steps : tlb.remove idx = .ok { tlb with
      trie, tlb := tlb.tlb.set idx { entry with trieHandle := none }, freeList := tlb.freeList ++ [idx] } := by
    rw [TLB.remove, entry_ok holds.1, ok_bind, points]
    dsimp only
    rw [taken]
    rfl
  rw [steps, Except.ok.injEq] at removed
  subst removed
  obtain ⟨_, was, is⟩ := sections_set holds.1 { entry with trieHandle := none }
  rw [sections_used holds.2, singleton_append] at was
  refine ⟨_, steps, ⟨slots, ?_, ?_, ?_⟩, rfl, rfl, rfl, was.trans (is.symm.cons _)⟩
  · intro other entry' handle' place' points'
    obtain ⟨rfl, rfl⟩ | ⟨apart, place'⟩ := getElem?_set_cases place'
    · cases points'
    · have found := filed.keyed other entry' handle' place' points'
      have different : handle' ≠ handle := by
        rintro rfl
        have held := filed.keyed idx entry handle' holds.1 points
        rw [found, Option.some.injEq] at held
        exact apart (congrArg Trie.Entry.value held)
      rw [rest.entries, if_neg different]
      exact found
  · intro cp member
    exact filed.paged cp (was.mem_iff.mpr (mem_cons_of_mem _ (is.mem_iff.mp member)))
  · have apart := filed.apart.perm (was.map page) Apart.symm
    exact (pairwise_cons.mp apart).2.perm (is.map page).symm Apart.symm

theorem Filed.file {rest : List Nat} (front : tlb.freeList = idx :: rest) (new : TlbEntry) (small : new.logBytes < 64)
    (apart : ∀ cp ∈ sections tlb.tlb, Apart (page new.serialize) (page cp)) :
    ∃ trie handle, tlb.trie.insert (buildKey new.vaddr new.asid) (64 - new.logBytes) idx = .ok (trie, handle) ∧
      (∃ old, tlb.tlb[idx]? = some old ∧ old.trieHandle = none) ∧
      ∀ lruSeq, Filed size { tlb with trie, lruSeq, freeList := rest, tlb := tlb.tlb.set idx { new with trieHandle := some handle } } ∧
        (sections (tlb.tlb.set idx { new with trieHandle := some handle })).Perm (new.serialize :: sections tlb.tlb) := by
  have absent : Trie.Absent (Trie.entryAt tlb.trie) (buildKey new.vaddr new.asid) (64 - new.logBytes) := by
    intro handle stored found width matching
    obtain ⟨entry, place, points⟩ := filed.slots.stored handle stored found
    have held := filed.keyed _ entry handle place points
    rw [found, Option.some.injEq] at held
    rw [held] at matching width
    have holds : Holds tlb stored.value entry := ⟨place, by rw [points]; rfl⟩
    have member : entry.serialize ∈ sections tlb.tlb := mem_sections.mpr ⟨_, _, holds, rfl⟩
    have width : 64 - entry.logBytes = 64 - new.logBytes := width
    refine (apart entry.serialize member).symm ?_ (keyed_matches.mp matching)
    change entry.logBytes = new.logBytes
    omega
  obtain ⟨trie, handle, inserted, added⟩ :=
    Trie.insert_ok filed.slots.trie (buildKey new.vaddr new.asid) (by omega) (Nat.sub_le _ _) idx absent
  obtain ⟨old, place, unused⟩ := filed.slots.free idx (by rw [front]; exact mem_cons_self)
  obtain ⟨_, was, is⟩ := sections_set place { new with trieHandle := some handle }
  rw [sections_free unused, nil_append] at was
  have filled := is.trans (was.symm.cons _)
  refine ⟨trie, handle, inserted, ⟨old, place, unused⟩, fun lruSeq => ⟨⟨filed.slots.fill front added rfl rfl lruSeq, ?_, ?_, ?_⟩, filled⟩⟩
  · intro other entry handle' place' points'
    obtain ⟨rfl, rfl⟩ | ⟨_, place'⟩ := getElem?_set_cases place'
    · cases points'
      rw [added.entries, if_pos rfl]
      rfl
    · have found := filed.keyed other entry handle' place' points'
      have different : handle' ≠ handle := by
        rintro rfl
        rw [added.free] at found
        cases found
      rw [added.entries, if_neg different]
      exact found
  · intro cp member
    obtain rfl | old := mem_cons.mp (filled.mem_iff.mp member)
    · exact small
    · exact filed.paged cp old
  · refine List.Pairwise.perm ?_ (filled.map page).symm Apart.symm
    rw [map_cons]
    refine pairwise_cons.mpr ⟨fun other member => ?_, filed.apart⟩
    obtain ⟨cp, inside, rfl⟩ := List.mem_map.mp member
    exact apart cp inside

theorem Filed.restart (lruSeq : BitVec 64) : Filed size { tlb with lruSeq } :=
  ⟨⟨filed.slots.length, filed.slots.trie, filed.slots.stored, filed.slots.held, filed.slots.free, filed.slots.unused, filed.slots.distinct⟩,
    filed.keyed, filed.paged, filed.apart⟩

theorem Filed.count : (sections tlb.tlb).length + tlb.freeList.length = size := by
  have distinct : ((unusedSlots tlb.tlb).map (·.2)).Nodup := by
    refine List.Nodup.sublist (filter_sublist.map _) ?_
    rw [zipIdx_map_snd]
    exact nodup_range'
  have listed : tlb.freeList.Perm ((unusedSlots tlb.tlb).map (·.2)) := by
    refine (perm_ext_iff_of_nodup filed.slots.distinct distinct).mpr fun idx => ?_
    constructor
    · intro member
      obtain ⟨entry, place, none_⟩ := filed.slots.free idx member
      refine List.mem_map.mpr ⟨(entry, idx), mem_filter.mpr ⟨mem_zipIdx_iff_getElem?.mpr place, ?_⟩, rfl⟩
      rw [none_]
      rfl
    · intro member
      obtain ⟨⟨entry, _⟩, inside, rfl⟩ := List.mem_map.mp member
      obtain ⟨place, unused⟩ := mem_filter.mp inside
      refine filed.slots.unused _ entry (mem_zipIdx_iff_getElem?.mp place) ?_
      simpa using unused
  have lengths : (unusedSlots tlb.tlb).length = (tlb.tlb.filter fun entry => !entry.trieHandle.isSome).length := by
    have firsts : (tlb.tlb.zipIdx.map (·.1)).filter (fun entry => !entry.trieHandle.isSome) =
        (unusedSlots tlb.tlb).map (·.1) := filter_map
    rw [zipIdx_map_fst] at firsts
    rw [firsts, length_map]
  have whole := length_eq_length_filter_add (l := tlb.tlb) (fun entry => entry.trieHandle.isSome)
  rw [listed.length_eq, length_map, lengths, sections, length_map, ← filed.slots.length]
  exact whole.symm

theorem Filed.restore (cp : TlbSection) {sections_ x : Nat} (range : x + sections_ = cp.entries.length) (room : sections_ ≤ tlb.freeList.length)
    (small : ∀ entry ∈ cp.entries, entry.logBytes < 64) (apart : ((cp.entries.drop x ++ sections tlb.tlb).map page).Pairwise Apart) :
    ∃ next, restoreEntries cp sections_ x tlb = .ok next ∧ Filed size next ∧ next.lruSeq = tlb.lruSeq ∧
      (sections next.tlb).Perm (cp.entries.drop x ++ sections tlb.tlb) := by
  induction sections_ generalizing x tlb with
  | zero =>
    refine ⟨tlb, rfl, filed, rfl, ?_⟩
    rw [drop_eq_nil_of_le (by omega), nil_append]
  | succ _ ih =>
    cases free : tlb.freeList with
    | nil =>
      rw [free] at room
      exact absurd room (Nat.not_succ_le_zero _)
    | cons idx =>
      have inside : x < cp.entries.length := by omega
      have split : cp.entries.drop x = cp.entries[x] :: cp.entries.drop (x + 1) := drop_eq_getElem_cons inside
      have member : cp.entries[x] ∈ cp.entries := getElem_mem inside
      rw [split, cons_append, map_cons] at apart
      obtain ⟨first, _⟩ := pairwise_cons.mp apart
      obtain ⟨old, place, _⟩ := filed.slots.free idx (by rw [free]; exact mem_cons_self)
      obtain ⟨_, _, inserted, _, filled⟩ := filed.file free (old.unserialize cp.entries[x]) (small _ member)
        fun entry held => first _ (mem_map_of_mem (mem_append_right _ held))
      obtain ⟨filed', added⟩ := filled tlb.lruSeq
      have moved := perm_middle.symm.trans (added.symm.append_left (cp.entries.drop (x + 1)))
      obtain ⟨next, restored, final, lruSeq, all⟩ := ih filed' (by omega) (by rw [free, length_cons] at room; exact Nat.le_of_succ_le_succ room)
        (List.Pairwise.perm apart (moved.map page) Apart.symm)
      refine ⟨next, ?_, final, lruSeq, all.trans (moved.symm.trans (.of_eq ?_))⟩
      · rw [restoreEntries, free]
        dsimp only
        rw [entry_ok place, ok_bind, getElem?_eq_getElem inside]
        exact (congrArg (· >>= _) inserted).trans restored
      · rw [split]
        rfl

end

theorem unserialize_serialize (filed : Filed size tlb) :
    ∃ restored, (TLB.new size).unserialize tlb.serialize = .ok restored ∧ Filed size restored ∧ restored.lruSeq = tlb.lruSeq ∧
      (sections restored.tlb).Perm (sections tlb.tlb) := by
  have count := filed.count
  have written : tlb.serialize.size = (sections tlb.tlb).length := by
    change tlb.tlb.length - tlb.freeList.length = _
    rw [filed.slots.length]
    omega
  have blank : Filed size { TLB.new size with lruSeq := tlb.lruSeq } := (new_filed size).restart tlb.lruSeq
  have unused : sections (TLB.new size).tlb = [] := new_sections size
  have range : 0 + tlb.serialize.size = tlb.serialize.entries.length := by
    rw [written, Nat.zero_add]
    rfl
  have room : tlb.serialize.size ≤ (List.range size).length := by
    rw [written, length_range]
    omega
  have apart : ((tlb.serialize.entries.drop 0 ++ sections (TLB.new size).tlb).map page).Pairwise Apart := by
    rw [unused, append_nil]
    exact filed.apart
  obtain ⟨restored, ran, filed', lruSeq, all⟩ := blank.restore tlb.serialize range room filed.paged apart
  refine ⟨restored, ?_, filed', lruSeq, ?_⟩
  · rw [TLB.unserialize, if_neg]
    · exact ran
    · rw [written]
      change ¬_ > (replicate size _).length
      rw [length_replicate]
      omega
  · rw [unused, append_nil] at all
    exact all

/-! What an operation does to the entries in use, whatever slots they are in -/

def filled (vpn : Addr) (entry : TlbEntry) (lruSeq : BitVec 64) : EntrySection := { entry.serialize with vaddr := vpn, lruSeq := lruSeq + 1 }

/-- What is shown of an operation, and what it makes of the entries in use and the last sequence number. -/
structure Outcome where
  events : List TlbEvent
  entries : List EntrySection
  lruSeq : BitVec 64

inductive Does (size : Nat) (entries : List EntrySection) (lruSeq : BitVec 64) : TlbOp → Except Fault Outcome → Prop where
  | missed {vpn : Addr} {asid : BitVec 16} {hidden : Bool} (finds : Finds entries (buildKey vpn asid) none) :
      Does size entries lruSeq (.lookup vpn asid hidden) (.ok ⟨[.looked none], entries, lruSeq⟩)
  | seen {vpn : Addr} {asid : BitVec 16} {cp : EntrySection} (finds : Finds entries (buildKey vpn asid) (some cp)) :
      Does size entries lruSeq (.lookup vpn asid true) (.ok ⟨[.looked (some cp)], entries, lruSeq⟩)
  | touched {vpn : Addr} {asid : BitVec 16} {cp : EntrySection} {rest : List EntrySection}
      (finds : Finds entries (buildKey vpn asid) (some cp)) (split : entries.Perm (cp :: rest)) :
      Does size entries lruSeq (.lookup vpn asid false)
        (.ok ⟨[.looked (some { cp with lruSeq := lruSeq + 1 })], { cp with lruSeq := lruSeq + 1 } :: rest, lruSeq + 1⟩)
  | refused {vpn : Addr} {entry : TlbEntry} {cp : EntrySection} (finds : Finds entries (buildKey vpn entry.asid) (some cp))
      (other : cp.vaddr ≠ vpn) : Does size entries lruSeq (.insert vpn entry) (.error (.assertion "newEntry->vaddr == vpn"))
  | updated {vpn : Addr} {entry : TlbEntry} {cp : EntrySection} {rest : List EntrySection}
      (finds : Finds entries (buildKey vpn entry.asid) (some cp)) (same : cp.vaddr = vpn) (split : entries.Perm (cp :: rest)) :
      Does size entries lruSeq (.insert vpn entry)
        (.ok ⟨[.inserted { cp with pte := entry.pte }], { cp with pte := entry.pte } :: rest, lruSeq⟩)
  | slotless {vpn : Addr} {entry : TlbEntry} (finds : Finds entries (buildKey vpn entry.asid) none) (empty : size = 0) :
      Does size entries lruSeq (.insert vpn entry) (.error .wild)
  | placed {vpn : Addr} {entry : TlbEntry} (finds : Finds entries (buildKey vpn entry.asid) none) (room : entries.length < size) :
      Does size entries lruSeq (.insert vpn entry)
        (.ok ⟨[.inserted (filled vpn entry lruSeq)], filled vpn entry lruSeq :: entries, lruSeq + 1⟩)
  | replaced {vpn : Addr} {entry : TlbEntry} {cp : EntrySection} {rest : List EntrySection}
      (finds : Finds entries (buildKey vpn entry.asid) none) (positive : 0 < size) (full : entries.length = size)
      (split : entries.Perm (cp :: rest)) (least : ∀ other ∈ entries, cp.lruSeq ≤ other.lruSeq) :
      Does size entries lruSeq (.insert vpn entry)
        (.ok ⟨[.evicted cp, .inserted (filled vpn entry lruSeq)], filled vpn entry lruSeq :: rest, lruSeq + 1⟩)
  | swept {vpn : Addr} {asn : BitVec 64} (broad : ¬(vpn ≠ 0 ∧ asn.setWidth 16 ≠ 0)) :
      Does size entries lruSeq (.demapPage vpn asn)
        (.ok ⟨[.removed], entries.filter fun cp => !(page cp).hits vpn (asn.setWidth 16), lruSeq⟩)
  | spared {vpn : Addr} {asn : BitVec 64} (narrow : vpn ≠ 0 ∧ asn.setWidth 16 ≠ 0)
      (finds : Finds entries (buildKey vpn (asn.setWidth 16)) none) :
      Does size entries lruSeq (.demapPage vpn asn) (.ok ⟨[.removed], entries, lruSeq⟩)
  | dropped {vpn : Addr} {asn : BitVec 64} {cp : EntrySection} {rest : List EntrySection} (narrow : vpn ≠ 0 ∧ asn.setWidth 16 ≠ 0)
      (finds : Finds entries (buildKey vpn (asn.setWidth 16)) (some cp)) (split : entries.Perm (cp :: rest)) :
      Does size entries lruSeq (.demapPage vpn asn) (.ok ⟨[.removed], rest, lruSeq⟩)
  | flushed : Does size entries lruSeq .flushAll (.ok ⟨[.removed], [], lruSeq⟩)

def Distinct (entries : List EntrySection) : Prop := ∀ one ∈ entries, ∀ other ∈ entries, one.lruSeq = other.lruSeq → one = other

def Alike : Except Fault Outcome → Except Fault Outcome → Prop
  | .ok one, .ok other => one.events = other.events ∧ one.entries.Perm other.entries ∧ one.lruSeq = other.lruSeq
  | .error one, .error other => one = other
  | _, _ => False

theorem rest_perm {rest rest' : List EntrySection} {cp : EntrySection} (same : one.Perm other) (split : one.Perm (cp :: rest))
    (split' : other.Perm (cp :: rest')) : rest.Perm rest' :=
  ((split.symm.trans same).trans split').cons_inv

/-- The entries in use and the last sequence number tell all that an operation does, unless two entries are equally old. -/
theorem Does.functional {lruSeq : BitVec 64} {first second : Except Fault Outcome}
    (same : one.Perm other) (distinct : ∀ vpn entry, op = .insert vpn entry → Distinct one) (does : Does size one lruSeq op first) (does' : Does size other lruSeq op second) :
    Alike first second := by
  cases does with
  | missed finds =>
    cases does' with
    | missed => exact ⟨rfl, same, rfl⟩
    | seen finds' | touched finds' => cases finds.unique same finds'
  | seen finds =>
    cases does' with
    | missed finds' => cases finds.unique same finds'
    | seen finds' =>
      cases finds.unique same finds'
      exact ⟨rfl, same, rfl⟩
  | touched finds split =>
    cases does' with
    | missed finds' => cases finds.unique same finds'
    | touched finds' split' =>
      cases finds.unique same finds'
      exact ⟨rfl, (rest_perm same split split').cons _, rfl⟩
  | refused finds apart =>
    cases does' with
    | refused => rfl
    | updated finds' equal =>
      cases finds.unique same finds'
      exact absurd equal apart
    | slotless finds' | placed finds' | replaced finds' => cases finds.unique same finds'
  | updated finds equal split =>
    cases does' with
    | refused finds' apart =>
      cases finds.unique same finds'
      exact absurd equal apart
    | updated finds' _ split' =>
      cases finds.unique same finds'
      exact ⟨rfl, (rest_perm same split split').cons _, rfl⟩
    | slotless finds' | placed finds' | replaced finds' => cases finds.unique same finds'
  | slotless finds =>
    cases does' with
    | refused finds' | updated finds' => cases finds.unique same finds'
    | slotless => rfl
    | placed => omega
    | replaced => omega
  | placed finds =>
    have length := same.length_eq
    cases does' with
    | refused finds' | updated finds' => cases finds.unique same finds'
    | slotless => omega
    | placed => exact ⟨rfl, same.cons _, rfl⟩
    | replaced => omega
  | replaced finds _ _ split least =>
    have length := same.length_eq
    cases does' with
    | refused finds' | updated finds' => cases finds.unique same finds'
    | slotless => omega
    | placed => omega
    | @replaced _ _ cp' _ _ _ _ split' least' =>
      -- both are the oldest entry, and there is only one
      have held := split.mem_iff.mpr mem_cons_self
      have held' : cp' ∈ one := same.mem_iff.mpr (split'.mem_iff.mpr mem_cons_self)
      have equal := distinct _ _ rfl _ held _ held' (BitVec.le_antisymm (least _ held') (least' _ (same.mem_iff.mp held)))
      subst equal
      exact ⟨rfl, (rest_perm same split split').cons _, rfl⟩
  | swept broad =>
    cases does' with
    | swept => exact ⟨rfl, same.filter _, rfl⟩
    | spared narrow | dropped narrow => exact absurd narrow broad
  | spared narrow finds =>
    cases does' with
    | swept broad => exact absurd narrow broad
    | spared => exact ⟨rfl, same, rfl⟩
    | dropped _ finds' => cases finds.unique same finds'
  | dropped narrow finds split =>
    cases does' with
    | swept broad => exact absurd narrow broad
    | spared _ finds' => cases finds.unique same finds'
    | dropped _ finds' split' =>
      cases finds.unique same finds'
      exact ⟨rfl, rest_perm same split split', rfl⟩
  | flushed =>
    cases does' with
    | flushed => exact ⟨rfl, .refl _, rfl⟩

/-! The operations on slots do that -/

def Follows (tlb : TLB) (op : TlbOp) : Prop := (tlb.watch op).map (·.1) = (tlb.step op).map (·.1)

def Shows (size : Nat) : Except Fault (TLB × List TlbEvent) → Except Fault Outcome → Prop
  | .ok (next, events), .ok outcome =>
    events = outcome.events ∧ Filed size next ∧ (sections next.tlb).Perm outcome.entries ∧ next.lruSeq = outcome.lruSeq
  | .error fault, .error fault' => fault = fault'
  | _, _ => False

theorem lru_least (some : tlb.tlb ≠ []) : ∃ idx, tlb.lru = .ok idx ∧ Least tlb idx := by
  obtain ⟨first, rest, vector⟩ := exists_cons_of_ne_nil some
  exact ⟨leastRecent rest 1 0 first.lruSeq, by rw [lru, vector], leastRecent_least vector⟩

theorem insert_taken {vpn : Addr} (small : entry.logBytes < 64)
    (missed : tlb.trie.lookup (buildKey vpn entry.asid) = .ok none) {middle : TLB} {rest : List Nat}
    (made : (if tlb.freeList.isEmpty then tlb.evictLRU else .ok tlb) = .ok middle) (filed' : Filed size middle)
    (front : middle.freeList = idx :: rest) (unmatched : Finds (sections middle.tlb) (buildKey vpn entry.asid) none) :
    ∃ next new, tlb.insert vpn entry = .ok (next, idx) ∧ next.entry idx = .ok new ∧ new.serialize = filled vpn entry middle.lruSeq ∧
      Filed size next ∧ (sections next.tlb).Perm (filled vpn entry middle.lruSeq :: sections middle.tlb) ∧ next.lruSeq = middle.lruSeq + 1 := by
  obtain ⟨trie, _, inserted, ⟨old, place, _⟩, final⟩ :=
    filed'.file front { entry with vaddr := vpn, lruSeq := middle.lruSeq + 1 } small
      fun cp member => Apart.symm fun _ => unmatched cp member
  obtain ⟨next, all⟩ := final (middle.lruSeq + 1)
  refine ⟨_, _, ?_, entry_ok (getElem?_set_here place), ?_, next, all, rfl⟩
  · have read : TLB.entry { middle with freeList := rest } idx = .ok old := entry_ok place
    unfold TLB.insert TLB.lookup
    rw [missed]
    simp only [ok_bind, pure_bind, takeFree, made, front, read, inserted]
    rfl
  · rfl

section
variable {size : Nat} {tlb : TLB} (filed : Filed size tlb)
include filed

theorem Filed.lookup (vpn : Addr) (asid : BitVec 16) (hidden : Bool) : ∃ outcome,
    Does size (sections tlb.tlb) tlb.lruSeq (.lookup vpn asid hidden) outcome ∧ Shows size (tlb.watch (.lookup vpn asid hidden)) outcome := by
  obtain ⟨found, looked, held, finds⟩ := filed.find (buildKey vpn asid)
  unfold watch TLB.lookup
  dsimp only
  rw [looked, ok_bind]
  cases found with
  | none => exact ⟨_, .missed finds, rfl, filed, .refl _, rfl⟩
  | some slot =>
    obtain ⟨idx, entry⟩ := slot
    have holds : Holds tlb idx entry := held _ rfl
    cases hidden with
    | true =>
      refine ⟨_, .seen finds, ?_⟩
      simp only [map_some, if_true, pure_bind, entry_ok holds.1, ok_bind]
      exact ⟨rfl, filed, .refl _, rfl⟩
    | false =>
      have same : SamePlace entry { entry with lruSeq := tlb.lruSeq + 1 } := ⟨rfl, rfl⟩
      obtain ⟨next, _, was, is⟩ := filed.touch holds same (tlb.lruSeq + 1)
      have read : TLB.entry { tlb with lruSeq := tlb.lruSeq + 1, tlb := tlb.tlb.set idx { entry with lruSeq := tlb.lruSeq + 1 } } idx =
        .ok { entry with lruSeq := tlb.lruSeq + 1 } := entry_ok (getElem?_set_here holds.1)
      refine ⟨_, .touched finds was, ?_⟩
      simp only [map_some, Bool.false_eq_true, if_false, entry_ok holds.1, ok_bind, pure_bind, read]
      exact ⟨rfl, next, is, rfl⟩

theorem Filed.insert (vpn : Addr) (small : entry.logBytes < 64) : ∃ outcome,
    Does size (sections tlb.tlb) tlb.lruSeq (.insert vpn entry) outcome ∧ Shows size (tlb.watch (.insert vpn entry)) outcome ∧
      Follows tlb (.insert vpn entry) := by
  obtain ⟨found, looked, held, finds⟩ := filed.find (buildKey vpn entry.asid)
  have count := filed.count
  unfold Follows watch TLB.step evicted
  dsimp only
  rw [looked, ok_bind]
  cases found with
  | some slot =>
    obtain ⟨idx, old⟩ := slot
    have holds : Holds tlb idx old := held _ rfl
    unfold TLB.insert TLB.lookup
    simp only [looked, map_some, pure_bind, ok_bind, if_true, entry_ok holds.1]
    by_cases same : old.vaddr = vpn
    · have place : SamePlace old { old with pte := entry.pte } := ⟨rfl, rfl⟩
      obtain ⟨next, _, was, is⟩ := filed.touch holds place tlb.lruSeq
      have read : TLB.entry { tlb with tlb := tlb.tlb.set idx { old with pte := entry.pte } } idx = .ok { old with pte := entry.pte } :=
        entry_ok (getElem?_set_here holds.1)
      refine ⟨_, .updated finds same was, ?_⟩
      rw [Fault.ensure, if_pos (beq_iff_eq.mpr same), ok_bind]
      simp only [pure_bind, read, ok_bind]
      exact ⟨⟨rfl, next, is, rfl⟩, rfl⟩
    · refine ⟨_, .refused finds same, ?_⟩
      rw [Fault.ensure, if_neg (by rw [beq_iff_eq]; exact same)]
      exact ⟨rfl, rfl⟩
  | none =>
    cases free : tlb.freeList with
    | cons =>
      rw [free, length_cons] at count
      have made : (if tlb.freeList.isEmpty then tlb.evictLRU else .ok tlb) = .ok tlb := by
        rw [free]
        rfl
      obtain ⟨next, new, inserted, read, shown, filed', all, lruSeq⟩ := insert_taken small looked made filed free finds
      refine ⟨_, .placed finds (by omega), ?_⟩
      simp only [map_none, isEmpty_cons, Bool.false_eq_true, if_false, pure_bind, inserted, ok_bind, read, shown]
      exact ⟨⟨rfl, filed', all, lruSeq⟩, rfl⟩
    | nil =>
      rw [free, length_nil] at count
      obtain rfl | positive := Nat.eq_zero_or_pos size
      · refine ⟨_, .slotless finds rfl, ?_⟩
        have empty : tlb.tlb = [] := eq_nil_of_length_eq_zero filed.slots.length
        have wild := filed.slots.insert_none looked
        simp only [map_none, isEmpty_nil, if_true, lru, empty, wild]
        exact ⟨rfl, rfl⟩
      · have some : tlb.tlb ≠ [] := by
          intro empty
          have length := filed.slots.length
          rw [empty, length_nil] at length
          omega
        obtain ⟨idx, chosen, least⟩ := lru_least some
        obtain ⟨old, place, smallest⟩ := least.least
        obtain ⟨middle, removed, cleared, sameSeq, _, freed, split⟩ := filed.remove (filed.slots.full free place)
        rw [free, nil_append] at freed
        have made : (if tlb.freeList.isEmpty then tlb.evictLRU else .ok tlb) = .ok middle := by
          rw [free, ← removed, ← least.evicts]
          rfl
        have unmatched : Finds (sections middle.tlb) (buildKey vpn entry.asid) none := fun cp member =>
          finds cp (split.mem_iff.mpr (mem_cons_of_mem _ member))
        have oldest : ∀ other ∈ sections tlb.tlb, old.serialize.lruSeq ≤ other.lruSeq := by
          intro other member
          obtain ⟨_, entry', holds, rfl⟩ := mem_sections.mp member
          exact smallest entry' (mem_of_getElem? holds.1)
        obtain ⟨next, new, inserted, read, shown, filed', all, lruSeq⟩ := insert_taken small looked made cleared freed unmatched
        rw [sameSeq] at shown all lruSeq
        refine ⟨_, .replaced finds positive (by omega) split oldest, ?_⟩
        simp only [map_none, isEmpty_nil, if_true, chosen, entry_ok place, pure_bind, inserted, ok_bind, read, shown]
        exact ⟨⟨rfl, filed', all, lruSeq⟩, rfl⟩

theorem Filed.removeEach {vpn : Addr} {asid : BitVec 16} {hit : TlbEntry → Bool} (hits : ∀ entry, hit entry = entry.page.hits vpn asid)
    (places i : Nat) (inside : i + places = size) : ∃ next, TLB.removeEach hit places i tlb = .ok next ∧ Filed size next ∧
      next.lruSeq = tlb.lruSeq ∧ sections next.tlb = sections (tlb.tlb.take i) ++
        (sections (tlb.tlb.drop i)).filter fun cp => !(page cp).hits vpn asid := by
  induction places generalizing i tlb with
  | zero =>
    refine ⟨tlb, rfl, filed, rfl, ?_⟩
    have whole : tlb.tlb.length ≤ i := by rw [filed.slots.length]; omega
    rw [take_of_length_le whole, drop_eq_nil_of_le whole]
    exact (append_nil _).symm
  | succ _ ih =>
    obtain ⟨entry, place⟩ := filed.slots.entry (show i < size by omega)
    obtain ⟨small, here⟩ := List.getElem?_eq_some_iff.mp place
    have split : sections (tlb.tlb.drop i) = sections [entry] ++ sections (tlb.tlb.drop (i + 1)) := by
      rw [drop_eq_getElem_cons small, here]
      exact sections_append [entry] _
    have final : ∀ (entries : List TlbEntry) (last : TlbEntry), entries[i]? = some last → sections (entries.take (i + 1)) =
        sections (entries.take i) ++ sections [last] := by
      intro entries last found
      rw [take_add_one, found, sections_append]
      rfl
    rw [split, filter_append, ← append_assoc, TLB.removeEach, entry_ok place, ok_bind]
    by_cases goes : (entry.trieHandle.isSome && hit entry) = true
    · obtain ⟨used, hit_⟩ := Bool.and_eq_true_iff.mp goes
      obtain ⟨_, removed, cleared, sameSeq, vector, _⟩ := filed.remove ⟨place, used⟩
      obtain ⟨next, ran, filed', lruSeq, all⟩ := ih cleared (i + 1) (by omega)
      refine ⟨next, ?_, filed', lruSeq.trans sameSeq, ?_⟩
      · rw [if_pos goes, removed]
        exact ran
      · have gone : (sections [entry]).filter (fun cp => !(page cp).hits vpn asid) = [] := by
          rw [sections_used used, filter_singleton, show (page entry.serialize).hits vpn asid = true from (hits entry).symm.trans hit_]
          rfl
        rw [all, vector, gone, append_nil, final _ _ (getElem?_set_here place), sections_free rfl, append_nil,
          take_set_of_le (Nat.le_refl i), drop_set_of_lt (Nat.lt_succ_self i)]
    · obtain ⟨next, ran, filed', lruSeq, all⟩ := ih filed (i + 1) (by omega)
      refine ⟨next, ?_, filed', lruSeq, ?_⟩
      · rw [if_neg goes]
        exact ran
      · have stays : (sections [entry]).filter (fun cp => !(page cp).hits vpn asid) = sections [entry] := by
          cases used : entry.trieHandle.isSome with
          | false => rw [sections_free (by simpa using used), filter_nil]
          | true =>
            have unhit : hit entry = false := by simpa [used] using goes
            rw [sections_used used, filter_singleton, show (page entry.serialize).hits vpn asid = false from (hits entry).symm.trans unhit]
            rfl
        rw [all, stays, final _ _ place]

theorem Filed.sweep {hit : TlbEntry → Bool} {vpn : Addr} {asid : BitVec 16} (hits : ∀ entry, hit entry = entry.page.hits vpn asid) :
    ∃ next, TLB.removeEach hit tlb.tlb.length 0 tlb = .ok next ∧ Filed size next ∧ next.lruSeq = tlb.lruSeq ∧
      sections next.tlb = (sections tlb.tlb).filter fun cp => !(page cp).hits vpn asid :=
  filed.removeEach hits tlb.tlb.length 0 (by rw [Nat.zero_add, filed.slots.length])

theorem Filed.flushAll : ∃ next, tlb.flushAll = .ok next ∧ Filed size next ∧ next.lruSeq = tlb.lruSeq ∧ sections next.tlb = [] := by
  have hits : ∀ entry : TlbEntry, true = entry.page.hits 0 0 := fun _ => rfl
  obtain ⟨next, ran, filed', lruSeq, left⟩ := filed.sweep hits
  exact ⟨next, ran, filed', lruSeq, left.trans (filter_eq_nil_iff.mpr fun _ _ => nofun)⟩

theorem Filed.demapPage (vpn : Addr) (asn : BitVec 64) : ∃ outcome,
    Does size (sections tlb.tlb) tlb.lruSeq (.demapPage vpn asn) outcome ∧ Shows size (tlb.watch (.demapPage vpn asn)) outcome := by
  unfold watch TLB.demapPage
  dsimp only
  split
  next all =>
    obtain ⟨next, ran, filed', lruSeq, left⟩ := filed.flushAll
    refine ⟨_, .swept fun narrow => narrow.1 all.1, ?_⟩
    rw [ran]
    have none_ : (sections tlb.tlb).filter (fun cp => !(page cp).hits 0 0) = [] := filter_eq_nil_iff.mpr fun _ _ => nofun
    rw [all.1, all.2]
    exact ⟨rfl, filed', .of_eq (left.trans none_.symm), lruSeq⟩
  next =>
    split
    next narrow =>
      obtain ⟨found, looked, held, finds⟩ := filed.find (buildKey vpn (asn.setWidth 16))
      unfold TLB.lookup
      rw [looked]
      cases found with
      | none => exact ⟨_, .spared narrow finds, rfl, filed, .refl _, rfl⟩
      | some =>
        obtain ⟨next, removed, filed', lruSeq, _, _, split⟩ := filed.remove (held _ rfl)
        refine ⟨_, .dropped narrow finds split, ?_⟩
        simp only [map_some, if_true, ok_bind, pure_bind, removed]
        exact ⟨rfl, filed', .refl _, lruSeq⟩
    next broad =>
      have hits : ∀ entry : TlbEntry, ((vpn == 0 || vpn &&& entry.pageMask == entry.vaddr) &&
          (asn.setWidth 16 == 0 || entry.asid == asn.setWidth 16)) = entry.page.hits vpn (asn.setWidth 16) := fun _ => rfl
      obtain ⟨next, ran, filed', lruSeq, left⟩ := filed.sweep hits
      refine ⟨_, .swept broad, ?_⟩
      rw [ran]
      exact ⟨rfl, filed', .of_eq left, lruSeq⟩

theorem Filed.step {op : TlbOp} (paged : Paged op) : ∃ outcome, Does size (sections tlb.tlb) tlb.lruSeq op outcome ∧
    Shows size (tlb.watch op) outcome ∧ Follows tlb op := by
  cases op with
  | insert vpn => exact filed.insert vpn paged
  | lookup vpn asid hidden =>
    obtain ⟨outcome, does, shows_⟩ := filed.lookup vpn asid hidden
    refine ⟨outcome, does, shows_, ?_⟩
    unfold Follows watch TLB.step
    dsimp only
    cases tlb.lookup vpn asid hidden with
    | error => rfl
    | ok result =>
      obtain ⟨next, found⟩ := result
      cases found with
      | none => rfl
      | some idx =>
        dsimp only [ok_bind]
        cases next.entry idx <;> rfl
  | demapPage vpn asn =>
    obtain ⟨outcome, does, shows_⟩ := filed.demapPage vpn asn
    refine ⟨outcome, does, shows_, ?_⟩
    unfold Follows watch TLB.step
    dsimp only
    cases tlb.demapPage vpn asn <;> rfl
  | flushAll =>
    obtain ⟨next, ran, filed', lruSeq, left⟩ := filed.flushAll
    refine ⟨_, .flushed, ?_⟩
    unfold Follows watch TLB.step
    dsimp only
    rw [ran]
    exact ⟨⟨rfl, filed', .of_eq left, lruSeq⟩, rfl⟩

end


/-! Runs -/

theorem kept_distinct {traced : Traced} (kept : Kept size traced) (unwrapped : traced.uses < 2 ^ 64) :
    Distinct (sections traced.tlb.tlb) := by
  intro one member other member' same
  obtain ⟨idx, entry, holds, rfl⟩ := mem_sections.mp member
  obtain ⟨idx', entry', holds', rfl⟩ := mem_sections.mp member'
  have numbers : entry.lruSeq = entry'.lruSeq := same
  have stamp := kept.stamped.stamps idx entry holds
  have stamp' := kept.stamped.stamps idx' entry' holds'
  have recent := kept.stamped.recent idx
  have recent' := kept.stamped.recent idx'
  rw [stamp, stamp', ← BitVec.toNat_inj, BitVec.toNat_ofNat, BitVec.toNat_ofNat, Nat.mod_eq_of_lt (by omega), Nat.mod_eq_of_lt (by omega)] at numbers
  obtain rfl := kept.stamped.apart idx idx' numbers (kept.stamped.started idx entry holds)
  have entries := holds.1.symm.trans holds'.1
  rw [Option.some.injEq] at entries
  rw [entries]

/-- After every step that has been taken fewer than 2^64 sequence numbers have been handed out. -/
def Unwrapped (traced : Traced) (ops : List TlbOp) : Prop :=
  ∀ early later, early <+: ops → trace traced early = .ok later → later.uses < 2 ^ 64

/-- Two TLBs with the same entries in use, in whatever slots, and the same last sequence number. -/
structure Twins (size : Nat) (one other : TLB) : Prop where
  filed : Filed size one
  filed' : Filed size other
  entries : (sections one.tlb).Perm (sections other.tlb)
  lruSeq : one.lruSeq = other.lruSeq

theorem twins_of_shows {first second : Except Fault (TLB × List TlbEvent)} {outcome outcome' : Except Fault Outcome}
    (shows_ : Shows size first outcome) (shows' : Shows size second outcome') (alike : Alike outcome outcome') :
    (∃ fault, first = .error fault ∧ second = .error fault) ∨
      ∃ next next' events, first = .ok (next, events) ∧ second = .ok (next', events) ∧ Twins size next next' := by
  cases outcome with
  | error =>
    cases outcome' with
    | ok => cases alike
    | error =>
      cases first with
      | ok => cases shows_
      | error =>
        cases second with
        | ok => cases shows'
        | error =>
          cases shows_
          cases shows'
          cases alike
          exact .inl ⟨_, rfl, rfl⟩
  | ok made =>
    cases outcome' with
    | error => cases alike
    | ok =>
      obtain ⟨events, entries, lruSeq⟩ := alike
      cases first with
      | error => cases shows_
      | ok result =>
        cases second with
        | error => cases shows'
        | ok result' =>
          obtain ⟨next, _⟩ := result
          obtain ⟨next', _⟩ := result'
          obtain ⟨rfl, filed, left, number⟩ := shows_
          obtain ⟨rfl, filed', left', number'⟩ := shows'
          refine .inr ⟨next, next', made.events, rfl, by rw [events], filed, filed', ?_, ?_⟩
          · exact left.trans (entries.trans left'.symm)
          · rw [number, lruSeq, number']

theorem Twins.step {size : Nat} {one other : TLB} (twins : Twins size one other) {op : TlbOp} (paged : Paged op)
    (distinct : ∀ vpn entry, op = .insert vpn entry → Distinct (sections one.tlb)) : (∃ fault, one.watch op = .error fault ∧ other.watch op = .error fault) ∨
      ∃ next next' events, one.watch op = .ok (next, events) ∧ other.watch op = .ok (next', events) ∧ Twins size next next' := by
  obtain ⟨_, does, shows_, _⟩ := twins.filed.step paged
  obtain ⟨_, does', shows', _⟩ := twins.filed'.step paged
  rw [← twins.lruSeq] at does'
  exact twins_of_shows shows_ shows' (does.functional twins.entries distinct does')

theorem Filed.traced {traced : Traced} (filed : Filed size traced.tlb) (paged : Paged op) :
    (traced.step op).map (·.tlb) = (traced.tlb.watch op).map (·.1) := by
  obtain ⟨_, _, _, follows⟩ := filed.step paged
  rw [traced.step_tlb op]
  exact follows.symm

theorem Unwrapped.step {traced next : Traced} {op : TlbOp} {ops : List TlbOp} (unwrapped : Unwrapped traced (op :: ops))
    (stepped : traced.step op = .ok next) : Unwrapped next ops := by
  intro early later sooner ran
  refine unwrapped (op :: early) later (cons_prefix_cons.mpr ⟨rfl, sooner⟩) ?_
  rw [trace, foldlM_cons, stepped]
  exact ran

theorem Twins.run {size : Nat} {traced : Traced} {other : TLB} (twins : Twins size traced.tlb other) (kept : Kept size traced)
    {ops : List TlbOp} (paged : ∀ op ∈ ops, Paged op) (unwrapped : Unwrapped traced ops) :
    (run watch traced.tlb ops).map (·.2) = (run watch other ops).map (·.2) := by
  induction ops generalizing traced other with
  | nil => rfl
  | cons op ops ih =>
    obtain ⟨first, rest⟩ := forall_mem_cons.mp paged
    have distinct := kept_distinct kept (unwrapped [] traced nil_prefix rfl)
    have stepped := twins.filed.traced first
    have keeps := kept.step first
    rw [Lib.run, Lib.run]
    obtain ⟨_, ran, ran'⟩ | ⟨next, next', events, ran, ran', twins'⟩ := twins.step first fun _ _ _ => distinct
    · rw [ran, ran']
    · rw [ran] at stepped
      cases taken : traced.step op with
      | error =>
        rw [taken] at stepped
        cases stepped
      | ok after =>
        rw [taken] at stepped keeps
        obtain rfl : after.tlb = next := Except.ok.inj stepped
        have later := ih twins' keeps rest (unwrapped.step taken)
        rw [ran, ran', ok_bind, ok_bind]
        cases one : Lib.run watch after.tlb ops with
        | error =>
          rw [one] at later
          cases other : Lib.run watch next' ops with
          | error =>
            rw [other] at later
            cases later
            rfl
          | ok =>
            rw [other] at later
            cases later
        | ok result =>
          rw [one] at later
          cases other : Lib.run watch next' ops with
          | error =>
            rw [other] at later
            cases later
          | ok result' =>
            rw [other] at later
            have same : result.2 = result'.2 := Except.ok.inj later
            change Except.ok (events ++ result.2) = Except.ok (events ++ result'.2)
            rw [same]

theorem trace_filed {traced : Traced} (filed : Filed size traced.tlb) (kept : Kept size traced)
    (paged : ∀ op ∈ ops, Paged op) : Yields (Excused size) (trace traced ops) fun later => Filed size later.tlb ∧ Kept size later := by
  induction ops generalizing traced with
  | nil => exact ⟨filed, kept⟩
  | cons op _ ih =>
    obtain ⟨first, rest⟩ := forall_mem_cons.mp paged
    have stepped := filed.traced first
    obtain ⟨outcome, _, shows_, _⟩ := filed.step first
    refine @Yields.bind _ _ _ _ _ _ (fun later => Filed size later.tlb ∧ Kept size later) _ ?_ fun later both => ih both.1 both.2 rest
    have keeps := kept.step first
    cases taken : traced.step op with
    | error =>
      rw [taken] at keeps
      exact keeps
    | ok after =>
      rw [taken] at stepped keeps
      refine ⟨?_, keeps⟩
      cases ran : traced.tlb.watch op with
      | error =>
        rw [ran] at stepped
        cases stepped
      | ok result =>
        rw [ran] at stepped shows_
        rw [show after.tlb = result.1 from Except.ok.inj stepped]
        cases outcome with
        | error => cases shows_
        | ok => exact shows_.2.1

/-- After every run, the checkpoint of a TLB is restored into a new one that finds the same entries, and that shows the same in
every run from there, evictions among it, as long as the sequence numbers do not wrap. -/
theorem tlb_round_trip (size : Nat) (history : List TlbOp) (paged : ∀ op ∈ history, Paged op) :
    Yields (Excused size) (trace { tlb := TLB.new size } history) fun traced =>
      ∃ restored, (TLB.new size).unserialize traced.tlb.serialize = .ok restored ∧
        (∀ vpn asid hidden, (traced.tlb.watch (.lookup vpn asid hidden)).map (·.2) = (restored.watch (.lookup vpn asid hidden)).map (·.2)) ∧
        ∀ continuation, (∀ op ∈ continuation, Paged op) → Unwrapped traced continuation →
          (run TLB.watch traced.tlb continuation).map (·.2) = (run TLB.watch restored continuation).map (·.2) := by
  have started : Kept size { tlb := TLB.new size } := ⟨new_slots size, new_stamped size⟩
  refine (trace_filed (new_filed size) started paged).mono fun traced ⟨filed, kept⟩ => ?_
  obtain ⟨restored, ran, filed', lruSeq, entries⟩ := unserialize_serialize filed
  have twins : Twins size traced.tlb restored := ⟨filed, filed', entries.symm, lruSeq.symm⟩
  refine ⟨restored, ran, fun vpn asid hidden => ?_, fun continuation paged unwrapped => twins.run kept paged unwrapped⟩
  have looks : Paged (.lookup vpn asid hidden) := trivial
  obtain ⟨_, looked, looked'⟩ | ⟨_, _, _, looked, looked', _⟩ := twins.step looks fun _ _ => nofun
  · rw [looked, looked']
  · rw [looked, looked']
    rfl

theorem step_uses {traced next : Traced} (stepped : traced.step op = .ok next) : next.uses ≤ traced.uses + 1 := by
  unfold Traced.step at stepped
  cases used : usedSlot traced.tlb op with
  | error =>
    rw [used] at stepped
    cases stepped
  | ok slot =>
    cases taken : traced.tlb.step op with
    | error =>
      rw [used, taken] at stepped
      cases stepped
    | ok =>
      rw [used, taken, ok_bind, ok_bind] at stepped
      cases slot with
      | none =>
        cases stepped
        exact Nat.le_succ _
      | some =>
        cases stepped
        exact Nat.le_refl _

theorem trace_uses {traced later : Traced} (ran : trace traced ops = .ok later) : later.uses ≤ traced.uses + ops.length := by
  induction ops generalizing traced with
  | nil =>
    cases ran
    exact Nat.le_refl _
  | cons op _ ih =>
    rw [trace, foldlM_cons] at ran
    cases stepped : traced.step op with
    | error =>
      rw [stepped] at ran
      cases ran
    | ok =>
      rw [stepped] at ran
      have rest := ih ran
      have first := step_uses stepped
      rw [length_cons]
      omega

theorem unwrapped_of_few {traced : Traced} (few : traced.uses + ops.length < 2 ^ 64) : Unwrapped traced ops := by
  intro early later sooner ran
  have uses := trace_uses ran
  have length := sooner.length_le
  omega

/-- Three slots: a page leaves the first of them, and two more come in after the checkpoint. -/
def slotsMove : List TlbOp :=
  [.insert 0x1000 { logBytes := 12, asid := 1 }, .insert 0x2000 { logBytes := 12, asid := 1 }, .insert 0x3000 { logBytes := 12, asid := 1 },
    .demapPage 0x1000 1]

def comeIn : List TlbOp :=
  [.insert 0x4000 { logBytes := 12, asid := 1 }, .insert 0x5000 { logBytes := 12, asid := 1 }, .insert 0x6000 { logBytes := 12, asid := 1 }]

theorem tlb_round_trip_slotsMove : (∀ op ∈ slotsMove, Paged op) ∧ ∃ traced, trace { tlb := TLB.new 3 } slotsMove = .ok traced ∧
    ∃ restored, (TLB.new 3).unserialize traced.tlb.serialize = .ok restored ∧
      (run TLB.watch traced.tlb comeIn).map (·.2) = (run TLB.watch restored comeIn).map (·.2) := by
  have paged : ∀ op ∈ slotsMove, Paged op := by decide
  refine ⟨paged, _, rfl, ?_⟩
  have trips := tlb_round_trip 3 slotsMove paged
  obtain ⟨restored, ran, _, continues⟩ := trips
  exact ⟨restored, ran, continues comeIn (by decide) (unwrapped_of_few (by decide))⟩

def agedTrie : Trie 64 Nat :=
  match run TLB.step (TLB.new 3) slotsMove with
  | .ok (tlb, _) => tlb.trie
  | .error _ => Trie.empty

def aged (uses : Nat) : Traced where
  tlb :=
    { tlb := [{ logBytes := 12, asid := 1, vaddr := 0x1000, lruSeq := 1 },
        { logBytes := 12, asid := 1, vaddr := 0x2000, trieHandle := some 3, lruSeq := 2 },
        { logBytes := 12, asid := 1, vaddr := 0x3000, trieHandle := some 5, lruSeq := BitVec.ofNat 64 uses }]
      trie := agedTrie, freeList := [0], lruSeq := BitVec.ofNat 64 uses }
  uses
  last := Function.update (Function.update (Function.update (fun _ => 0) 0 1) 1 2) 2 uses

theorem aged_start : trace { tlb := TLB.new 3 } slotsMove = .ok (aged 3) := rfl

theorem aged_lookup (uses : Nat) : (aged uses).step (.lookup 0x3000 1 false) = .ok (aged (uses + 1)) := by
  have searched : agedTrie.lookup (buildKey 0x3000 1) = .ok (some 2) := rfl
  have number : BitVec.ofNat 64 uses + 1 = BitVec.ofNat 64 (uses + 1) := (BitVec.ofNat_add uses 1).symm
  unfold Traced.step usedSlot TLB.step TLB.lookup
  simp only [searched, ok_bind, pure_bind, Bool.false_eq_true, if_false, Traced.use, TLB.entry, aged, getElem?_cons_zero,
    getElem?_cons_succ, set_cons_zero, set_cons_succ, number, Function.update_idem]
  rfl

theorem aged_lookups (lookups uses : Nat) :
    trace (aged uses) (replicate lookups (.lookup 0x3000 1 false)) = .ok (aged (uses + lookups)) := by
  induction lookups generalizing uses with
  | zero => rfl
  | succ lookups ih =>
    rw [replicate_succ, trace, foldlM_cons, aged_lookup, ok_bind]
    rw [show uses + (lookups + 1) = uses + 1 + lookups by omega]
    exact ih (uses + 1)

/-- The page in the last slot is looked up until the next number is the one of the page in the middle. -/
def comesRound : List TlbOp := slotsMove ++ replicate (2 ^ 64 - 2) (.lookup 0x3000 1 false)

theorem comesRound_trace : trace { tlb := TLB.new 3 } comesRound = .ok (aged (2 ^ 64 + 1)) := by
  have start := aged_start
  have repeated := aged_lookups (2 ^ 64 - 2) 3
  rw [trace] at start repeated ⊢
  rw [comesRound, foldlM_append, start, ok_bind, repeated]
  exact congrArg (fun uses => Except.ok (aged uses)) (by decide : 3 + (2 ^ 64 - 2) = 2 ^ 64 + 1)

theorem comesRound_paged : ∀ op ∈ comesRound, Paged op := by
  intro op member
  obtain member | member := mem_append.mp member
  · exact (by decide : ∀ op ∈ slotsMove, Paged op) op member
  · rw [eq_of_mem_replicate member]
    trivial

/-- The new page has the number of an old one, and the slots tell which of them is evicted. -/
theorem checkpoint_ties : (∀ op ∈ comesRound, Paged op) ∧ (∀ op ∈ comeIn, Paged op) ∧ ∃ traced restored,
    trace { tlb := TLB.new 3 } comesRound = .ok traced ∧ (TLB.new 3).unserialize traced.tlb.serialize = .ok restored ∧
      (run TLB.watch traced.tlb comeIn).map (·.2) ≠ (run TLB.watch restored comeIn).map (·.2) := by
  refine ⟨comesRound_paged, by decide, _, _, comesRound_trace, rfl, ?_⟩
  decide +kernel

end ImcGem5.Riscv.Proofs.TlbCheckpoint

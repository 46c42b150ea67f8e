import ImcGem5.Riscv.Tlb
import ImcGem5.Proofs.Trie

/-! Address spaces in the TLB. A key is the ASID put over the address, so in the lower
half of the address space the ASID is part of every prefix, and in the upper half the
sign of the address hides it. -/

namespace ImcGem5.Riscv.Proofs.Tlb
open Lib Base Base.Proofs Mem List BitVec

def SignExtended (vpn : Addr) : Prop := (vpn.setWidth 39).signExtend 64 = vpn

instance (vpn : Addr) : Decidable (SignExtended vpn) := inferInstanceAs (Decidable (_ = _))

variable {vpn : Addr} {i idx : Nat} {asid : BitVec 16} {tlb next : TLB} {good : TlbEntry → Prop} {entry : TlbEntry} {granted : List Page}
  {sources : List TlbEntry}

theorem SignExtended.bits (extended : SignExtended vpn) (high : i ≤ 25) : vpn.getMsbD i = vpn.msb := by
  have bit : ∀ j, j ≤ 25 → vpn.getMsbD j = vpn.getLsbD 38 := by
    intro j small
    have same := congrArg (·.getLsbD (63 - j)) extended
    simp only [getLsbD_signExtend, msb_eq_getLsbD_last, getLsbD_setWidth] at same
    rw [getMsbD_eq_getLsbD, decide_eq_true (by omega : j < 64), Bool.true_and, ← same]
    by_cases lowest : 63 - j < 39
    · rw [show 63 - j = 38 by omega]
      rfl
    · simp [lowest]
      omega
  rw [bit i high, BitVec.msb, bit 0 (by omega)]

def PageSize (logBytes : Nat) : Prop := logBytes = 12 ∨ logBytes = 21 ∨ logBytes = 30

instance (logBytes : Nat) : Decidable (PageSize logBytes) := inferInstanceAs (Decidable (_ ∨ _ ∨ _))

theorem PageSize.mask {page : Page} (sized : PageSize page.logBytes) : page.mask = prefixMask 64 (64 - page.logBytes) := by
  unfold Page.mask
  rcases sized with size | size | size <;> rw [size] <;> decide

theorem PageSize.width {logBytes : Nat} (sized : PageSize logBytes) : 34 ≤ 64 - logBytes ∧ 64 - logBytes ≤ 64 := by
  rcases sized with size | size | size <;> omega

structure PageOk (page : Page) : Prop where
  sized : PageSize page.logBytes
  extended : SignExtended page.vaddr
  aligned : page.vaddr &&& page.mask = page.vaddr

instance (page : Page) : Decidable (PageOk page) :=
  decidable_of_iff (PageSize page.logBytes ∧ SignExtended page.vaddr ∧ page.vaddr &&& page.mask = page.vaddr)
    ⟨fun ⟨sized, extended, aligned⟩ => ⟨sized, extended, aligned⟩, fun ⟨sized, extended, aligned⟩ => ⟨sized, extended, aligned⟩⟩

theorem PageOk.covers_iff {page : Page} (ok : PageOk page) (vpn : Addr) :
    page.covers vpn = true ↔ Agree (64 - page.logBytes) vpn page.vaddr := by
  have mask := ok.sized.mask
  have aligned := ok.aligned
  rw [mask] at aligned
  rw [Page.covers, beq_iff_eq, mask, ← mask_eq_iff ok.sized.width.2, aligned]

theorem getMsbD_buildKey (vpn : Addr) (asid : BitVec 16) (i : Nat) :
    (buildKey vpn asid).getMsbD i = (asid.getMsbD i || vpn.getMsbD i) := by
  rw [buildKey, getMsbD_or, getMsbD_shiftLeft, getMsbD_setWidth,
    decide_eq_true (by omega : 64 - 16 ≤ i + 48), Bool.true_and, show i + 48 + 16 - 64 = i by omega]

theorem agree_of_keys {other : Addr} {asid' : BitVec 16} {n : Nat} (wide : 34 ≤ n) (extended : SignExtended vpn)
    (extended' : SignExtended other) (agree : Agree n (buildKey vpn asid) (buildKey other asid')) :
    Agree n vpn other ∧ (vpn.msb = false → asid = asid') := by
  have low : ∀ i, 16 ≤ i → i < n → vpn.getMsbD i = other.getMsbD i := by
    intro i past small
    have bit := agree i small
    rw [getMsbD_buildKey, getMsbD_buildKey, getMsbD_of_ge asid _ past, getMsbD_of_ge asid' _ past] at bit
    exact bit
  have sign : vpn.msb = other.msb := by
    rw [← extended.bits (i := 16) (by omega), ← extended'.bits (i := 16) (by omega)]
    exact low 16 (Nat.le_refl _) (by omega)
  refine ⟨fun i small => ?_, fun lower => ?_⟩
  · by_cases past : 16 ≤ i
    · exact low i past small
    · rw [extended.bits (by omega), extended'.bits (by omega), sign]
  · refine eq_of_getMsbD_eq fun i small => ?_
    have bit := agree i (by omega)
    rw [getMsbD_buildKey, getMsbD_buildKey, extended.bits (by omega), extended'.bits (by omega), ← sign, lower, Bool.or_false,
      Bool.or_false] at bit
    exact bit

theorem keys_of_agree {other : Addr} {n : Nat} (agree : Agree n vpn other) (asid : BitVec 16) :
    Agree n (buildKey vpn asid) (buildKey other asid) := by
  intro i small
  rw [getMsbD_buildKey, getMsbD_buildKey, agree i small]

theorem SignExtended.buildKey_upper (extended : SignExtended vpn) (upper : vpn.msb = true) (asid : BitVec 16) :
    buildKey vpn asid = vpn := by
  refine eq_of_getMsbD_eq fun i _ => ?_
  rw [getMsbD_buildKey]
  by_cases past : 16 ≤ i
  · rw [getMsbD_of_ge asid _ past, Bool.false_or]
  · rw [extended.bits (by omega), upper, Bool.or_true]

def keyed (entry : TlbEntry) (idx : Nat) : Trie.Entry 64 Nat :=
  ⟨buildKey entry.vaddr entry.asid &&& prefixMask 64 (64 - entry.logBytes), 64 - entry.logBytes, idx⟩

/-- Slots and trie point at each other; every page is good. -/
structure Coherent (tlb : TLB) (good : TlbEntry → Prop) : Prop where
  trie : Trie.Valid tlb.trie
  stored : ∀ handle stored, Trie.entryAt tlb.trie handle = some stored →
    ∃ entry, tlb.tlb[stored.value]? = some entry ∧ entry.trieHandle = some handle
  held : ∀ (idx : Nat) (entry : TlbEntry) handle, tlb.tlb[idx]? = some entry → entry.trieHandle = some handle →
    Trie.entryAt tlb.trie handle = some (keyed entry idx)
  pages : ∀ (idx : Nat) (entry : TlbEntry), tlb.tlb[idx]? = some entry → entry.trieHandle.isSome → PageOk entry.page ∧ good entry
  free : ∀ idx ∈ tlb.freeList, ∃ entry, tlb.tlb[idx]? = some entry ∧ entry.trieHandle = none
  distinct : tlb.freeList.Nodup

theorem Coherent.mono {better : TlbEntry → Prop} (coherent : Coherent tlb good)
    (more : ∀ (idx : Nat) (entry : TlbEntry), tlb.tlb[idx]? = some entry → entry.trieHandle.isSome → good entry → better entry) :
    Coherent tlb better := by
  refine { coherent with pages := fun idx entry at_ used => ?_ }
  obtain ⟨ok, fine⟩ := coherent.pages idx entry at_ used
  exact ⟨ok, more idx entry at_ used fine⟩

structure SamePlace (before after : TlbEntry) : Prop where
  page : after.page = before.page
  handle : after.trieHandle = before.trieHandle

theorem getElem?_set_cases {α : Type} {list : List α} {j : Nat} {new found : α} (at_ : (list.set i new)[j]? = some found) :
    (j = i ∧ found = new) ∨ (j ≠ i ∧ list[j]? = some found) := by
  rw [getElem?_set] at at_
  by_cases same : i = j
  · rw [if_pos same] at at_
    split at at_
    · cases at_
      exact .inl ⟨same.symm, rfl⟩
    · cases at_
  · rw [if_neg same] at at_
    exact .inr ⟨Ne.symm same, at_⟩

theorem getElem?_set_here {α : Type} {list : List α} {old new : α} (at_ : list[i]? = some old) : (list.set i new)[i]? = some new := by
  obtain ⟨small, _⟩ := List.getElem?_eq_some_iff.mp at_
  rw [getElem?_set_self small]

theorem getElem?_set_there {α : Type} {list : List α} {j : Nat} {new : α} (apart : j ≠ i) :
    (list.set i new)[j]? = list[j]? := getElem?_set_ne (Ne.symm apart)

theorem Coherent.touch {tlb : TLB} {good : TlbEntry → Prop} (coherent : Coherent tlb good) {idx : Nat}
    {before after : TlbEntry} (at_ : tlb.tlb[idx]? = some before) (same : SamePlace before after)
    (fine : good before → good after) (lruSeq : BitVec 64) :
    Coherent { tlb with lruSeq, tlb := tlb.tlb.set idx after } good := by
  have fields : after.vaddr = before.vaddr ∧ after.logBytes = before.logBytes ∧ after.asid = before.asid := by
    have page := same.page
    simp only [TlbEntry.page, Page.mk.injEq] at page
    exact page
  refine ⟨coherent.trie, ?_, ?_, ?_, ?_, coherent.distinct⟩
  · intro handle stored found
    obtain ⟨entry, place, points⟩ := coherent.stored handle stored found
    by_cases here : stored.value = idx
    · rw [here, at_, Option.some.injEq] at place
      subst place
      exact ⟨after, by rw [here]; exact getElem?_set_here at_, same.handle.trans points⟩
    · exact ⟨entry, by rw [getElem?_set_there here]; exact place, points⟩
  · intro other entry handle place points
    obtain ⟨rfl, rfl⟩ | ⟨_, place⟩ := getElem?_set_cases place
    · have found := coherent.held other before handle at_ (same.handle.symm.trans points)
      rw [keyed, fields.1, fields.2.1, fields.2.2]
      exact found
    · exact coherent.held other entry handle place points
  · intro other entry place used
    obtain ⟨rfl, rfl⟩ | ⟨_, place⟩ := getElem?_set_cases place
    · rw [same.handle] at used
      rw [same.page]
      obtain ⟨ok, was⟩ := coherent.pages other before at_ used
      exact ⟨ok, fine was⟩
    · exact coherent.pages other entry place used
  · intro other member
    obtain ⟨entry, place, unused⟩ := coherent.free other member
    by_cases here : other = idx
    · subst here
      rw [at_, Option.some.injEq] at place
      subst place
      exact ⟨after, getElem?_set_here at_, same.handle.trans unused⟩
    · exact ⟨entry, by rw [getElem?_set_there here]; exact place, unused⟩

structure Dropped (tlb next : TLB) (idx : Nat) : Prop where
  length : next.tlb.length = tlb.tlb.length
  others : ∀ other : Nat, other ≠ idx → next.tlb[other]? = tlb.tlb[other]?
  gone : ∀ entry : TlbEntry, next.tlb[idx]? = some entry → entry.trieHandle = none

theorem remove_ok (coherent : Coherent tlb good) {handle : Nat}
    (at_ : tlb.tlb[idx]? = some entry) (points : entry.trieHandle = some handle) :
    ∃ next, tlb.remove idx = .ok next ∧ Coherent next good ∧ Dropped tlb next idx ∧ next.freeList = tlb.freeList ++ [idx] := by
  have held := coherent.held idx entry handle at_ points
  obtain ⟨trie, removed, rest⟩ := Trie.remove_ok coherent.trie held
  refine ⟨{ tlb with trie, tlb := tlb.tlb.set idx { entry with trieHandle := none }, freeList := tlb.freeList ++ [idx] },
    ?_, ⟨rest.valid, ?_, ?_, ?_, ?_, ?_⟩, ⟨?_, ?_, ?_⟩, rfl⟩
  · unfold TLB.remove TLB.entry
    rw [at_]
    rw [ok_bind, points]
    dsimp only
    rw [removed]
    rfl
  · intro other stored found
    rw [rest.entries] at found
    split at found
    · cases found
    · next different =>
      obtain ⟨entry', place, points'⟩ := coherent.stored other stored found
      have apart : stored.value ≠ idx := by
        intro same
        rw [same, at_, Option.some.injEq] at place
        subst place
        rw [points, Option.some.injEq] at points'
        exact different points'.symm
      exact ⟨entry', by rw [getElem?_set_there apart]; exact place, points'⟩
  · intro other entry' handle' place points'
    obtain ⟨rfl, rfl⟩ | ⟨apart, place⟩ := getElem?_set_cases place
    · cases points'
    · have found := coherent.held other entry' handle' place points'
      have different : handle' ≠ handle := by
        rintro rfl
        rw [held, Option.some.injEq] at found
        exact apart (congrArg Trie.Entry.value found).symm
      rw [rest.entries, if_neg different]
      exact found
  · intro other entry' place used
    obtain ⟨rfl, rfl⟩ | ⟨_, place⟩ := getElem?_set_cases place
    · cases used
    · exact coherent.pages other entry' place used
  · intro other member
    obtain old | new := mem_concat.mp member
    · obtain ⟨entry', place, unused⟩ := coherent.free other old
      have apart : other ≠ idx := by
        rintro rfl
        rw [at_, Option.some.injEq] at place
        subst place
        rw [points] at unused
        cases unused
      exact ⟨entry', by rw [getElem?_set_there apart]; exact place, unused⟩
    · rw [new]
      exact ⟨_, getElem?_set_here at_, rfl⟩
  · refine nodup_append.mpr ⟨coherent.distinct, nodup_singleton _, ?_⟩
    rintro other old _ new rfl
    rw [mem_singleton.mp new] at old
    obtain ⟨entry', place, unused⟩ := coherent.free idx old
    rw [at_, Option.some.injEq] at place
    subst place
    rw [points] at unused
    cases unused
  · exact length_set
  · exact fun other apart => getElem?_set_there apart
  · intro entry' place
    rw [getElem?_set_here at_, Option.some.injEq] at place
    rw [← place]

def Holds (tlb : TLB) (idx : Nat) (entry : TlbEntry) : Prop := tlb.tlb[idx]? = some entry ∧ entry.trieHandle.isSome

def Seen (vpn : Addr) (asid : BitVec 16) (entry : TlbEntry) : Prop :=
  entry.trieHandle.isSome ∧ entry.page.covers vpn = true ∧ (vpn.msb = true ∨ entry.asid = asid)

instance (vpn : Addr) (asid : BitVec 16) (entry : TlbEntry) : Decidable (Seen vpn asid entry) :=
  inferInstanceAs (Decidable (_ ∧ _ ∧ _))

theorem keyed_matches_iff (ok : PageOk entry.page) (idx : Nat) (extended : SignExtended vpn)
    (asid : BitVec 16) : (keyed entry idx).Matches (buildKey vpn asid) ↔
      entry.page.covers vpn = true ∧ (vpn.msb = true ∨ entry.asid = asid) := by
  have masked := agree_mask (w := 64) ok.sized.width.2 (buildKey entry.vaddr entry.asid)
  have unmasked : (keyed entry idx).Matches (buildKey vpn asid) ↔
      Agree (64 - entry.logBytes) (buildKey vpn asid) (buildKey entry.vaddr entry.asid) :=
    ⟨fun matching => Agree.trans matching masked, fun agree => agree.trans masked.symm⟩
  rw [unmasked, ok.covers_iff]
  constructor
  · intro agree
    obtain ⟨covered, equal⟩ := agree_of_keys ok.sized.width.1 extended ok.extended agree
    refine ⟨covered, ?_⟩
    cases half : vpn.msb with
    | true => exact .inl rfl
    | false => exact .inr (equal half).symm
  · intro ⟨covered, half⟩
    obtain upper | same := half
    · have sign : entry.vaddr.msb = true := by
        have top := covered 0 (by have := ok.sized.width.1; exact Nat.lt_of_lt_of_le (by omega) this)
        rw [← upper]
        exact top.symm
      have lost : buildKey entry.vaddr entry.asid = entry.vaddr := ok.extended.buildKey_upper sign entry.asid
      rw [extended.buildKey_upper upper, lost]
      exact covered
    · rw [same]
      exact keys_of_agree covered asid

theorem Coherent.filed {handle : Nat} {stored : Trie.Entry 64 Nat} (coherent : Coherent tlb good)
    (held : Trie.entryAt tlb.trie handle = some stored) :
    ∃ entry, tlb.tlb[stored.value]? = some entry ∧ entry.trieHandle.isSome ∧ PageOk entry.page ∧ stored = keyed entry stored.value := by
  obtain ⟨entry, place, points⟩ := coherent.stored _ _ held
  have used : entry.trieHandle.isSome := by rw [points]; rfl
  have same := coherent.held _ entry _ place points
  rw [held, Option.some.injEq] at same
  exact ⟨entry, place, used, (coherent.pages _ entry place used).1, same⟩

inductive Search (tlb : TLB) (vpn : Addr) (asid : BitVec 16) : Option Nat → Prop where
  | hit {idx : Nat} {entry : TlbEntry} (place : tlb.tlb[idx]? = some entry) (seen : Seen vpn asid entry)
      (largest : ∀ (other : Nat) (entry' : TlbEntry), tlb.tlb[other]? = some entry' → Seen vpn asid entry' → other ≠ idx →
        entry'.logBytes < entry.logBytes) : Search tlb vpn asid (some idx)
  | miss (unseen : ∀ (idx : Nat) (entry : TlbEntry), tlb.tlb[idx]? = some entry → ¬Seen vpn asid entry) : Search tlb vpn asid none

theorem search_ok (coherent : Coherent tlb good) (extended : SignExtended vpn) (asid : BitVec 16) :
    ∃ found, tlb.trie.lookup (buildKey vpn asid) = .ok found ∧ Search tlb vpn asid found := by
  -- the entries seen are the ones whose key the trie matches
  have matching_of_seen : ∀ (idx : Nat) (entry : TlbEntry), tlb.tlb[idx]? = some entry → Seen vpn asid entry →
      ∃ handle, entry.trieHandle = some handle ∧ Trie.entryAt tlb.trie handle = some (keyed entry idx) ∧
        (keyed entry idx).Matches (buildKey vpn asid) := by
    intro idx entry place ⟨used, covered⟩
    obtain ⟨handle, points⟩ := Option.isSome_iff_exists.mp used
    obtain ⟨ok, _⟩ := coherent.pages idx entry place used
    exact ⟨handle, points, coherent.held idx entry handle place points, (keyed_matches_iff ok idx extended asid).mpr covered⟩
  obtain ⟨handle, _, shortest⟩ := Trie.lookupHandle_ok coherent.trie.linked (buildKey vpn asid)
  refine ⟨_, (Trie.lookup_ok coherent.trie.linked _ shortest).2, ?_⟩
  cases shortest with
  | @found handle stored held matching least =>
    rw [Option.bind_some, held]
    obtain ⟨entry, place, used, ok, same⟩ := coherent.filed held
    have covered := matching
    rw [same] at covered
    have covered := (keyed_matches_iff ok _ extended asid).mp covered
    refine .hit place ⟨used, covered⟩ fun other entry' place' seen apart => ?_
    obtain ⟨handle', _, held', matching'⟩ := matching_of_seen other entry' place' seen
    have different : handle' ≠ handle := by
      intro equal
      rw [equal, held, Option.some.injEq] at held'
      exact apart (congrArg Trie.Entry.value held').symm
    have shorter := least handle' _ held' matching' different
    rw [same] at shorter
    have width : (keyed entry stored.value).width = 64 - entry.logBytes := rfl
    have width' : (keyed entry' other).width = 64 - entry'.logBytes := rfl
    omega
  | missing none_ =>
    refine .miss fun idx entry place seen => ?_
    obtain ⟨handle, _, held, matching⟩ := matching_of_seen idx entry place seen
    exact none_ handle _ held matching

theorem absent_of_unseen (coherent : Coherent tlb good)
    (extended : SignExtended vpn) (unseen : ∀ idx entry, Holds tlb idx entry → ¬Seen vpn asid entry) (n : Nat) :
    Trie.Absent (Trie.entryAt tlb.trie) (buildKey vpn asid) n := by
  intro handle stored held _ matching
  obtain ⟨entry, place, used, ok, same⟩ := coherent.filed held
  rw [same, keyed_matches_iff ok _ extended] at matching
  exact unseen _ entry ⟨place, used⟩ ⟨used, matching⟩

theorem entry_ok (place : tlb.tlb[idx]? = some entry) : tlb.entry idx = .ok entry := by
  unfold TLB.entry
  rw [place]

theorem entry_eq_ok (ran : tlb.entry idx = .ok entry) : tlb.tlb[idx]? = some entry := by
  unfold TLB.entry at ran
  split at ran
  · cases ran
    assumption
  · cases ran

theorem removeEach_ok (hit : TlbEntry → Bool) {places : Nat} (coherent : Coherent tlb good) (inside : i + places ≤ tlb.tlb.length) :
    ∃ next, TLB.removeEach hit places i tlb = .ok next ∧ Coherent next good ∧
      (∀ idx entry, Holds next idx entry → Holds tlb idx entry) ∧
      (∀ idx entry, i ≤ idx → idx < i + places → Holds next idx entry → hit entry = false) := by
  induction places generalizing i tlb with
  | zero => exact ⟨tlb, rfl, coherent, fun _ _ holds => holds, fun idx entry low high => by omega⟩
  | succ _ ih =>
    obtain ⟨entry, place⟩ : ∃ entry, tlb.tlb[i]? = some entry := by
      rw [List.getElem?_eq_getElem (by omega)]
      exact ⟨_, rfl⟩
    unfold TLB.removeEach
    rw [entry_ok place, ok_bind]
    by_cases goes : (entry.trieHandle.isSome && hit entry) = true
    · rw [if_pos goes]
      obtain ⟨used, _⟩ := Bool.and_eq_true_iff.mp goes
      obtain ⟨_, points⟩ := Option.isSome_iff_exists.mp used
      obtain ⟨middle, removed, kept, dropped, _⟩ := remove_ok coherent place points
      obtain ⟨next, ran, final, fewer, clean⟩ := ih (i := i + 1) kept (by rw [dropped.length]; omega)
      have unused : ∀ entry, ¬Holds middle i entry := by
        intro entry ⟨place', used'⟩
        rw [dropped.gone entry place'] at used'
        cases used'
      refine ⟨next, by rw [removed]; exact ran, final, ?_, ?_⟩
      · intro idx entry' holds
        have held := fewer idx entry' holds
        have apart : idx ≠ i := fun same => unused entry' (same ▸ held)
        exact ⟨(dropped.others idx apart).symm.trans held.1, held.2⟩
      · intro idx entry' low high holds
        have apart : idx ≠ i := fun same => unused entry' (same ▸ fewer idx entry' holds)
        exact clean idx entry' (by omega) (by omega) holds
    · rw [if_neg goes]
      obtain ⟨next, ran, final, fewer, clean⟩ := ih (i := i + 1) coherent (by omega)
      refine ⟨next, ran, final, fewer, ?_⟩
      intro idx entry' low high holds
      by_cases here : idx = i
      · subst here
        have held := fewer idx entry' holds
        rw [Holds, place, Option.some.injEq] at held
        obtain ⟨rfl, used⟩ := held
        rw [used, Bool.true_and, Bool.not_eq_true] at goes
        exact goes
      · exact clean idx entry' (by omega) (by omega) holds

theorem removeAll_ok {tlb : TLB} {good left : TlbEntry → Prop} (coherent : Coherent tlb good) (hit : TlbEntry → Bool)
    (stays : ∀ entry, good entry → hit entry = false → left entry) :
    ∃ next, TLB.removeEach hit tlb.tlb.length 0 tlb = .ok next ∧ Coherent next left := by
  obtain ⟨next, ran, kept, fewer, clean⟩ := removeEach_ok hit coherent (i := 0) (by rw [Nat.zero_add])
  refine ⟨next, ran, kept.mono fun idx entry place used fine => stays entry fine ?_⟩
  have small : idx < tlb.tlb.length := (List.getElem?_eq_some_iff.mp (fewer idx entry ⟨place, used⟩).1).1
  exact clean idx entry (Nat.zero_le _) (by omega) ⟨place, used⟩

theorem Dropped.holds (dropped : Dropped tlb next idx) {other : Nat}
    (holds : Holds next other entry) : other ≠ idx ∧ Holds tlb other entry := by
  have apart : other ≠ idx := by
    rintro rfl
    have unused := dropped.gone entry holds.1
    rw [Holds, unused] at holds
    cases holds.2
  exact ⟨apart, (dropped.others other apart).symm.trans holds.1, holds.2⟩

theorem remove_eq_ok (coherent : Coherent tlb good) (ran : tlb.remove idx = .ok next) : Coherent next good ∧ Dropped tlb next idx := by
  have removal := ran
  obtain ⟨_, found, removal⟩ := of_bind removal
  split at removal
  · cases removal
  · next handle points =>
    obtain ⟨_, removed, kept, dropped, _⟩ := remove_ok coherent (entry_eq_ok found) points
    rw [removed, Except.ok.injEq] at ran
    exact ran ▸ ⟨kept, dropped⟩

theorem evictLRU_eq_ok (coherent : Coherent tlb good) (ran : tlb.evictLRU = .ok next) :
    Coherent next good ∧ ∀ idx entry, Holds next idx entry → Holds tlb idx entry := by
  unfold TLB.evictLRU at ran
  split at ran
  · cases ran
  · obtain ⟨kept, dropped⟩ := remove_eq_ok coherent ran
    exact ⟨kept, fun idx entry holds => (dropped.holds holds).2⟩

structure Taken (tlb next : TLB) (good : TlbEntry → Prop) (idx : Nat) : Prop where
  coherent : Coherent next good
  fewer : ∀ other entry, Holds next other entry → Holds tlb other entry
  taken : idx ∉ next.freeList
  place : ∃ entry, next.tlb[idx]? = some entry ∧ entry.trieHandle = none

theorem takeFree_eq_ok (coherent : Coherent tlb good) (ran : tlb.takeFree = .ok (next, idx)) : Taken tlb next good idx := by
  obtain ⟨middle, evicted, ran⟩ := of_bind ran
  have kept : Coherent middle good ∧ ∀ idx entry, Holds middle idx entry → Holds tlb idx entry := by
    split at evicted
    · exact evictLRU_eq_ok coherent evicted
    · cases evicted
      exact ⟨coherent, fun _ _ holds => holds⟩
  obtain ⟨kept, fewer⟩ := kept
  split at ran
  · cases ran
  · next first freeList whole =>
    cases ran
    have distinct := kept.distinct
    have free := kept.free
    rw [whole] at distinct free
    obtain ⟨fresh, distinct⟩ := nodup_cons.mp distinct
    refine ⟨{ kept with free := ?_, distinct := distinct }, fewer, fresh, free idx mem_cons_self⟩
    exact fun other member => free other (mem_cons_of_mem _ member)

theorem fill_ok {tlb : TLB} {good : TlbEntry → Prop} (coherent : Coherent tlb good) {idx handle : Nat} {old new : TlbEntry}
    {trie : Trie 64 Nat} (place : tlb.tlb[idx]? = some old) (unused : old.trieHandle = none) (taken : idx ∉ tlb.freeList)
    (ok : PageOk new.page) (fine : good new) (points : new.trieHandle = some handle) (added : Trie.Added tlb.trie trie handle (keyed new idx))
    (lruSeq : BitVec 64) :
    Coherent { tlb with trie, lruSeq, tlb := tlb.tlb.set idx new } good := by
  refine ⟨added.valid, ?_, ?_, ?_, ?_, coherent.distinct⟩
  · intro other stored found
    rw [added.entries] at found
    split at found
    · next same =>
      cases found
      exact ⟨new, getElem?_set_here place, same ▸ points⟩
    · obtain ⟨entry, place', points'⟩ := coherent.stored other stored found
      have apart : stored.value ≠ idx := by
        intro same
        rw [same, place, Option.some.injEq] at place'
        subst place'
        rw [unused] at points'
        cases points'
      exact ⟨entry, by rw [getElem?_set_there apart]; exact place', points'⟩
  · intro other entry handle' place' points'
    rw [added.entries]
    obtain ⟨rfl, rfl⟩ | ⟨_, place'⟩ := getElem?_set_cases place'
    · rw [points, Option.some.injEq] at points'
      rw [if_pos points'.symm]
    · have found := coherent.held other entry handle' place' points'
      have different : handle' ≠ handle := by
        rintro rfl
        rw [added.free] at found
        cases found
      rw [if_neg different]
      exact found
  · intro other entry place' used
    obtain ⟨rfl, rfl⟩ | ⟨_, place'⟩ := getElem?_set_cases place'
    · exact ⟨ok, fine⟩
    · exact coherent.pages other entry place' used
  · intro other member
    obtain ⟨entry, place', unused'⟩ := coherent.free other member
    have apart : other ≠ idx := fun same => taken (same ▸ member)
    exact ⟨entry, by rw [getElem?_set_there apart]; exact place', unused'⟩

def Rightful (granted : List Page) (sources : List TlbEntry) (entry : TlbEntry) : Prop :=
  entry.page ∈ granted ∧ (∃ source ∈ sources, source.asid = entry.asid ∧ source.paddr = entry.paddr) ∧
    ∃ source ∈ sources, source.asid = entry.asid ∧ source.pte = entry.pte

instance (granted : List Page) (sources : List TlbEntry) (entry : TlbEntry) : Decidable (Rightful granted sources entry) :=
  inferInstanceAs (Decidable (_ ∧ _ ∧ _))

theorem Rightful.insert (rightful : Rightful granted sources entry)
    (new : TlbEntry) : Rightful (new.page :: granted) (new :: sources) entry := by
  obtain ⟨member, ⟨place, member', place_⟩, ⟨flags, member'', flags_⟩⟩ := rightful
  exact ⟨mem_cons_of_mem _ member, ⟨place, mem_cons_of_mem _ member', place_⟩, ⟨flags, mem_cons_of_mem _ member'', flags_⟩⟩

/-- An entry of the address space answers before those of another: always so in the
lower half. -/
def OwnFirst (tlb : TLB) (vpn : Addr) (asid : BitVec 16) : Prop :=
  ∀ other ∈ tlb.tlb, Seen vpn asid other → other.asid ≠ asid →
    ∃ entry ∈ tlb.tlb, Seen vpn asid entry ∧ entry.asid = asid ∧ other.logBytes < entry.logBytes

instance (tlb : TLB) (vpn : Addr) (asid : BitVec 16) : Decidable (OwnFirst tlb vpn asid) :=
  inferInstanceAs (Decidable (∀ other ∈ tlb.tlb, _))

theorem OwnFirst.asid_of_largest (own : OwnFirst tlb vpn asid) (place : tlb.tlb[idx]? = some entry) (seen : Seen vpn asid entry)
    (largest : ∀ (other : Nat) (entry' : TlbEntry), tlb.tlb[other]? = some entry' → Seen vpn asid entry' → other ≠ idx →
      entry'.logBytes < entry.logBytes) : entry.asid = asid := by
  by_contra foreign
  obtain ⟨better, member, seen', _, larger⟩ := own entry (mem_of_getElem? place) seen foreign
  obtain ⟨other, place'⟩ := mem_iff_getElem?.mp member
  by_cases here : other = idx
  · rw [here, place, Option.some.injEq] at place'
    subst place'
    exact Nat.lt_irrefl _ larger
  · have smaller := largest other better place' seen' here
    omega

theorem insert_eq_ok (coherent : Coherent tlb (Rightful granted sources))
    (ok : PageOk { entry with vaddr := vpn }.page) (own : OwnFirst tlb vpn entry.asid) (ran : tlb.insert vpn entry = .ok (next, idx)) :
    Coherent next (Rightful ({ entry with vaddr := vpn }.page :: granted) ({ entry with vaddr := vpn } :: sources)) := by
  obtain ⟨_, searched, search⟩ := search_ok coherent ok.extended entry.asid
  have kept := coherent.mono fun _ _ _ _ rightful => rightful.insert { entry with vaddr := vpn }
  unfold TLB.insert TLB.lookup at ran
  change tlb.trie.lookup (buildKey vpn entry.asid) = _ at searched
  rw [searched] at ran
  cases search with
  | @hit there held place seen largest =>
    simp only [ok_bind, if_true, pure_bind] at ran
    obtain ⟨_, same, ran⟩ := of_bind ran
    rw [entry_ok place, Except.ok.injEq] at same
    subst same
    obtain ⟨_, _, ran⟩ := of_bind ran
    cases ran
    refine @Coherent.touch tlb _ kept _ held { held with pte := entry.pte } place ⟨rfl, rfl⟩ ?_ tlb.lruSeq
    intro ⟨member, translated, _⟩
    exact ⟨member, translated, _, mem_cons_self, (own.asid_of_largest place seen largest).symm, rfl⟩
  | miss unseen =>
    simp only [ok_bind, pure_bind] at ran
    obtain ⟨⟨middle, place⟩, took, ran⟩ := of_bind ran
    have taken := takeFree_eq_ok kept took
    obtain ⟨old, held, unused⟩ := taken.place
    obtain ⟨_, _, ran⟩ := of_bind ran
    obtain ⟨⟨trie, handle⟩, inserted, ran⟩ := of_bind ran
    have absent := absent_of_unseen taken.coherent ok.extended
      (fun idx entry' holds => unseen idx entry' (taken.fewer idx entry' holds).1) (64 - entry.logBytes)
    obtain ⟨_, _, inserted', added⟩ := Trie.insert_ok taken.coherent.trie (buildKey vpn entry.asid)
      (Nat.le_trans (by omega) ok.sized.width.1) ok.sized.width.2 place absent
    have same := inserted.symm.trans inserted'
    cases same
    cases ran
    refine @fill_ok middle _ taken.coherent place handle old
      { entry with lruSeq := middle.lruSeq + 1, vaddr := vpn, trieHandle := some handle } trie held unused taken.taken ok ?_ rfl added _
    exact ⟨mem_cons_self, ⟨_, mem_cons_self, rfl, rfl⟩, _, mem_cons_self, rfl, rfl⟩

/-- Every lookup returns an entry of its own address space that covers the address, and
that has been inserted since it was last demapped. -/
def isolates : List Page → List TlbEntry → List TlbLabel → Prop
  | _, _, [] => True
  | granted, sources, .inserted entry :: rest => isolates (entry.page :: granted) (entry :: sources) rest
  | granted, sources, .looked vpn asid found :: rest =>
    (∀ entry ∈ found, entry.asid = asid ∧ entry.page.covers vpn = true ∧ Rightful granted sources entry) ∧
      isolates granted sources rest
  | granted, sources, .demapped vpn asid :: rest => isolates (granted.filter fun page => !page.hits vpn asid) sources rest
  | _, sources, .flushed :: rest => isolates [] sources rest

instance isolates.decidable : ∀ granted sources labels, Decidable (isolates granted sources labels)
  | _, _, [] => .isTrue trivial
  | granted, sources, .inserted entry :: rest => isolates.decidable (entry.page :: granted) (entry :: sources) rest
  | granted, sources, .looked _ _ _ :: rest =>
    have := isolates.decidable granted sources rest
    inferInstanceAs (Decidable (_ ∧ _))
  | granted, sources, .demapped vpn asid :: rest => isolates.decidable (granted.filter fun page => !page.hits vpn asid) sources rest
  | _, sources, .flushed :: rest => isolates.decidable [] sources rest

def SoleSize (tlb : TLB) (vpn : Addr) (asid : BitVec 16) : Prop :=
  ∀ entry ∈ tlb.tlb, Seen vpn asid entry → entry.asid = asid → ∀ other ∈ tlb.tlb, Seen vpn asid other →
    other.logBytes ≤ entry.logBytes

instance (tlb : TLB) (vpn : Addr) (asid : BitVec 16) : Decidable (SoleSize tlb vpn asid) :=
  inferInstanceAs (Decidable (∀ entry ∈ tlb.tlb, _))

def WellFormed : TlbOp → Prop
  | .insert vpn entry => PageOk { entry with vaddr := vpn }.page
  | .lookup vpn _ _ => SignExtended vpn
  | .demapPage vpn _ => SignExtended vpn
  | .flushAll => True

instance : DecidablePred WellFormed
  | .insert vpn entry => inferInstanceAs (Decidable (PageOk { entry with vaddr := vpn }.page))
  | .lookup vpn _ _ => inferInstanceAs (Decidable (SignExtended vpn))
  | .demapPage vpn _ => inferInstanceAs (Decidable (SignExtended vpn))
  | .flushAll => inferInstanceAs (Decidable True)

def Unmasked (tlb : TLB) : TlbOp → Prop
  | .insert vpn entry => OwnFirst tlb vpn entry.asid
  | .lookup vpn asid _ => OwnFirst tlb vpn asid
  | .demapPage vpn asn => vpn ≠ 0 → asn.setWidth 16 ≠ 0 → SoleSize tlb vpn (asn.setWidth 16)
  | .flushAll => True

instance (tlb : TLB) : DecidablePred (Unmasked tlb)
  | .insert vpn entry => inferInstanceAs (Decidable (OwnFirst tlb vpn entry.asid))
  | .lookup vpn asid _ => inferInstanceAs (Decidable (OwnFirst tlb vpn asid))
  | .demapPage vpn asn => inferInstanceAs (Decidable (vpn ≠ 0 → asn.setWidth 16 ≠ 0 → SoleSize tlb vpn (asn.setWidth 16)))
  | .flushAll => inferInstanceAs (Decidable True)

theorem Rightful.demap (rightful : Rightful granted sources entry) (missed : entry.page.hits vpn asid = false) :
    Rightful (granted.filter fun page => !page.hits vpn asid) sources entry := by
  obtain ⟨member, translated⟩ := rightful
  refine ⟨mem_filter.mpr ⟨member, ?_⟩, translated⟩
  rw [missed]
  rfl

section

variable (coherent : Coherent tlb (Rightful granted sources))
include coherent

theorem demapPage_ok {asn : BitVec 64} (extended : SignExtended vpn)
    (sole : vpn ≠ 0 → asn.setWidth 16 ≠ 0 → SoleSize tlb vpn (asn.setWidth 16)) :
    ∃ next, tlb.demapPage vpn asn = .ok next ∧
      Coherent next (Rightful (granted.filter fun page => !page.hits vpn (asn.setWidth 16)) sources) := by
  unfold TLB.demapPage
  generalize asn.setWidth 16 = asid at sole ⊢
  by_cases everything : vpn = 0 ∧ asid = 0
  · rw [if_pos everything]
    exact removeAll_ok coherent _ fun entry _ missed => by cases missed
  · rw [if_neg everything]
    by_cases targeted : vpn ≠ 0 ∧ asid ≠ 0
    · rw [if_pos targeted]
      have missed_of_unseen : ∀ idx entry, Holds tlb idx entry → ¬(Seen vpn asid entry ∧ entry.asid = asid) →
          entry.page.hits vpn asid = false := by
        intro idx entry holds unseen
        rw [Page.hits, beq_eq_false_iff_ne.mpr targeted.1, beq_eq_false_iff_ne.mpr targeted.2, Bool.false_or, Bool.false_or]
        by_contra hit
        rw [Bool.not_eq_false, Bool.and_eq_true, beq_iff_eq] at hit
        exact unseen ⟨⟨holds.2, hit.1, .inr hit.2⟩, hit.2⟩
      obtain ⟨_, searched, search⟩ := search_ok coherent extended asid
      unfold TLB.lookup
      rw [searched]
      cases search with
      | @hit idx entry place seen largest =>
        simp only [ok_bind, if_true, pure_bind]
        obtain ⟨_, points⟩ := Option.isSome_iff_exists.mp seen.1
        obtain ⟨next, removed, kept, dropped, _⟩ := remove_ok coherent place points
        refine ⟨next, removed, kept.mono fun other entry' place' used rightful => rightful.demap ?_⟩
        obtain ⟨apart, held⟩ := dropped.holds ⟨place', used⟩
        refine missed_of_unseen other entry' held fun ⟨seen', same⟩ => ?_
        have smaller := largest other entry' held.1 seen' apart
        have larger := sole targeted.1 targeted.2 entry' (mem_of_getElem? held.1) seen' same entry (mem_of_getElem? place) seen
        omega
      | miss unseen =>
        simp only [ok_bind, pure_bind]
        refine ⟨tlb, rfl, coherent.mono fun idx entry place used rightful => rightful.demap ?_⟩
        exact missed_of_unseen idx entry ⟨place, used⟩ fun seen => unseen idx entry place seen.1
    · rw [if_neg targeted]
      exact removeAll_ok coherent _ fun entry rightful missed => rightful.demap missed

theorem lookup_eq_ok (extended : SignExtended vpn) (own : OwnFirst tlb vpn asid) {hidden : Bool} {found : Option Nat}
    (ran : tlb.lookup vpn asid hidden = .ok (next, found)) :
    Coherent next (Rightful granted sources) ∧ ∀ idx ∈ found, ∃ entry, next.tlb[idx]? = some entry ∧
      entry.asid = asid ∧ entry.page.covers vpn = true ∧ Rightful granted sources entry := by
  obtain ⟨_, searched, search⟩ := search_ok coherent extended asid
  unfold TLB.lookup at ran
  rw [searched, ok_bind] at ran
  cases search with
  | miss =>
    cases ran
    exact ⟨coherent, nofun⟩
  | @hit idx entry place seen largest =>
    have same := own.asid_of_largest place seen largest
    have rightful := (coherent.pages idx entry place seen.1).2
    cases hidden with
    | true =>
      cases ran
      refine ⟨coherent, ?_⟩
      rintro _ ⟨⟩
      exact ⟨entry, place, same, seen.2.1, rightful⟩
    | false =>
      dsimp only at ran
      rw [if_neg (by decide), entry_ok place, ok_bind] at ran
      cases ran
      refine ⟨@Coherent.touch tlb _ coherent idx entry { entry with lruSeq := tlb.lruSeq + 1 } place ⟨rfl, rfl⟩ id _, ?_⟩
      rintro _ ⟨⟩
      exact ⟨_, getElem?_set_here place, same, seen.2.1, rightful⟩

theorem step_isolates {op : TlbOp} {labels : List TlbLabel} (formed : WellFormed op) (unmasked : Unmasked tlb op)
    (ran : TLB.step tlb op = .ok (next, labels)) :
    ∃ granted' sources', Coherent next (Rightful granted' sources') ∧
      ∀ rest, isolates granted' sources' rest → isolates granted sources (labels ++ rest) := by
  cases op with
  | insert =>
    obtain ⟨⟨_, idx⟩, inserted, made⟩ := of_bind ran
    cases made
    exact ⟨_, _, insert_eq_ok coherent formed unmasked inserted, fun rest later => later⟩
  | lookup =>
    obtain ⟨⟨_, found⟩, looked, made⟩ := of_bind ran
    obtain ⟨kept, answer⟩ := lookup_eq_ok coherent formed unmasked looked
    cases found with
    | none =>
      cases made
      exact ⟨granted, sources, kept, fun rest later => ⟨nofun, later⟩⟩
    | some idx =>
      obtain ⟨_, place, right⟩ := answer idx rfl
      dsimp only at made
      rw [entry_ok place] at made
      cases made
      refine ⟨granted, sources, kept, fun rest later => ⟨?_, later⟩⟩
      rintro _ ⟨⟩
      exact right
  | demapPage =>
    obtain ⟨_, demapped, kept⟩ := demapPage_ok coherent formed unmasked
    obtain ⟨_, ran', made⟩ := of_bind ran
    rw [demapped, Except.ok.injEq] at ran'
    cases ran'
    cases made
    exact ⟨_, sources, kept, fun rest later => later⟩
  | flushAll =>
    obtain ⟨_, flushed, kept⟩ := @removeAll_ok tlb _ (Rightful [] sources) coherent (fun _ => true) fun _ _ missed => by cases missed
    obtain ⟨_, ran', made⟩ := of_bind ran
    rw [TLB.flushAll, flushed, Except.ok.injEq] at ran'
    cases ran'
    cases made
    exact ⟨[], sources, kept, fun rest later => later⟩

theorem run_isolates {final : TLB} {ops : List TlbOp} {labels : List TlbLabel} (each : Each TLB.step (fun tlb op => WellFormed op ∧ Unmasked tlb op) tlb ops)
    (ran : run TLB.step tlb ops = .ok (final, labels)) : isolates granted sources labels := by
  induction ops generalizing tlb granted sources labels with
  | nil =>
    cases ran
    trivial
  | cons _ _ ih =>
    obtain ⟨_, _, rest, taken, remaining, rfl⟩ := run_cons.mp ran
    obtain ⟨_, _, kept, later⟩ := step_isolates coherent each.1.1 each.1.2 taken
    exact later rest (ih kept (each.cons taken) remaining)

end

theorem new_coherent (size : Nat) (good : TlbEntry → Prop) : Coherent (TLB.new size) good := by
  have blank : ∀ (idx : Nat) (entry : TlbEntry), (TLB.new size).tlb[idx]? = some entry → entry = {} := by
    intro idx entry place
    exact eq_of_mem_replicate (mem_of_getElem? place)
  refine ⟨Trie.empty_valid, ?_, ?_, ?_, ?_, nodup_range⟩
  · intro handle stored held
    rw [show (TLB.new size).trie = Trie.empty from rfl, Trie.entryAt_empty] at held
    cases held
  · intro idx entry handle place points
    rw [blank idx entry place] at points
    cases points
  · intro idx entry place used
    rw [blank idx entry place] at used
    cases used
  · intro idx member
    refine ⟨{}, ?_, rfl⟩
    rw [show (TLB.new size).tlb = List.replicate size {} from rfl, getElem?_replicate, if_pos (mem_range.mp member)]

/-- The TLB keeps address spaces apart as long as no entry answers for another one. -/
theorem address_spaces_isolated (size : Nat) (ops : List TlbOp)
    (each : Each TLB.step (fun tlb op => WellFormed op ∧ Unmasked tlb op) (TLB.new size) ops) {final : TLB} {labels : List TlbLabel}
    (ran : run TLB.step (TLB.new size) ops = .ok (final, labels)) : isolates [] [] labels :=
  run_isolates (new_coherent size _) each ran

/-- Two address spaces in the lower half, a global flush of one address and of one
address space. -/
def tlbHistory : List TlbOp :=
  [.insert 0x201000 { logBytes := 12, asid := 1, paddr := 7, pte := 0xCF }, .insert 0x200000 { logBytes := 21, asid := 2, paddr := 9, pte := 0xCF },
    .lookup 0x201234 1 false, .lookup 0x201234 2 false, .insert 0x201000 { logBytes := 12, asid := 1, paddr := 7, pte := 0x4F },
    .demapPage 0x201000 1, .lookup 0x201000 1 true, .insert 0x201000 { logBytes := 12, asid := 3, paddr := 7, pte := 0xCF },
    .demapPage 0 2, .lookup 0x201000 3 false, .demapPage 0x201000 0, .lookup 0x201000 3 false, .flushAll]

theorem address_spaces_isolated_history : ∃ labels,
    (run TLB.step (TLB.new 2) tlbHistory).map (·.2) = .ok labels ∧ isolates [] [] labels := by
  obtain ⟨final, labels, ran⟩ : ∃ final labels, run TLB.step (TLB.new 2) tlbHistory = .ok (final, labels) := ⟨_, _, rfl⟩
  exact ⟨labels, by rw [ran]; rfl, address_spaces_isolated 2 tlbHistory (by decide) ran⟩

def upperHistory : List TlbOp :=
  [.insert 0xFFFFFFC000000000 { logBytes := 12, asid := 1 }, .lookup 0xFFFFFFC000000123 2 false]

def sizesHistory : List TlbOp :=
  [.insert 0x201000 { logBytes := 12, asid := 1 }, .insert 0x200000 { logBytes := 21, asid := 1 }, .demapPage 0x201000 1,
    .lookup 0x201000 1 false]

theorem address_spaces_mixed :
    ((∀ op ∈ upperHistory, WellFormed op) ∧
      ∃ labels, (run TLB.step (TLB.new 2) upperHistory).map (·.2) = .ok labels ∧ ¬isolates [] [] labels) ∧
    (∀ op ∈ sizesHistory, WellFormed op) ∧
      ∃ labels, (run TLB.step (TLB.new 2) sizesHistory).map (·.2) = .ok labels ∧ ¬isolates [] [] labels :=
  ⟨⟨by decide, _, rfl, by decide⟩, by decide, _, rfl, by decide⟩

end ImcGem5.Riscv.Proofs.Tlb

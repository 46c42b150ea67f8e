import ImcGem5.Proofs.Tlb
import ImcGem5.Proofs.Walks

/-! The TLB does not show. An entry mirrors the leaf its page leads to, the walker changes
nothing but accessed and dirty bits, and so a translation is the outcome of a walk whether
the TLB answers or not. -/

namespace ImcGem5.Riscv.Proofs.Transparent
open Lib Base Base.Proofs Mem Tlb Walks List BitVec Mmu WalkerState

/-- Coherent, and no empty slot is lost. -/
structure Ready (tlb : TLB) (good : TlbEntry → Prop) : Prop where
  coherent : Coherent tlb good
  listed : ∀ (idx : Nat) (entry : TlbEntry), tlb.tlb[idx]? = some entry → entry.trieHandle = none → idx ∈ tlb.freeList
  nonempty : 0 < tlb.tlb.length

variable {tlb : TLB} {good : TlbEntry → Prop} {entry : TlbEntry} {read vaddr : Addr} {pmp : PMP} {satp : SATP} {level : Nat}
  {state : WalkerState} {memory : PageMemory}

theorem Ready.mono {better : TlbEntry → Prop} (ready : Ready tlb good) (more : ∀ entry, good entry → better entry) : Ready tlb better :=
  { ready with coherent := ready.coherent.mono fun _ entry _ _ fine => more entry fine }

theorem new_ready {size : Nat} (nonempty : 0 < size) (good : TlbEntry → Prop) : Ready (TLB.new size) good := by
  refine ⟨new_coherent size good, ?_, ?_⟩
  · intro idx entry place _
    have small := (List.getElem?_eq_some_iff.mp place).1
    rw [TLB.new, length_replicate] at small
    exact mem_range.mpr small
  · rw [TLB.new, length_replicate]
    exact nonempty

theorem Ready.touch {tlb : TLB} {good : TlbEntry → Prop} (ready : Ready tlb good) {idx : Nat} {before after : TlbEntry}
    (at_ : tlb.tlb[idx]? = some before) (same : SamePlace before after) (fine : good before → good after) (lruSeq : BitVec 64) :
    Ready { tlb with lruSeq, tlb := tlb.tlb.set idx after } good := by
  refine ⟨ready.coherent.touch at_ same fine lruSeq, ?_, ?_⟩
  · intro other entry place unused
    obtain ⟨rfl, rfl⟩ | ⟨_, place⟩ := getElem?_set_cases place
    · exact ready.listed other before at_ (same.handle.symm.trans unused)
    · exact ready.listed other entry place unused
  · rw [length_set]
    exact ready.nonempty

theorem leastRecent_lt (entries : List TlbEntry) (i lru : Nat) (least : BitVec 64) (below : lru < i) :
    TLB.leastRecent entries i lru least < i + entries.length := by
  induction entries generalizing i lru least with
  | nil => exact below
  | cons entry entries ih =>
    unfold TLB.leastRecent
    rw [length_cons, show i + (entries.length + 1) = i + 1 + entries.length by omega]
    split
    · exact ih (i + 1) i entry.lruSeq (Nat.lt_succ_self i)
    · exact ih (i + 1) lru least (Nat.lt_succ_of_lt below)

theorem remove_ready (ready : Ready tlb good) {idx handle : Nat}
    (at_ : tlb.tlb[idx]? = some entry) (points : entry.trieHandle = some handle) :
    ∃ next, tlb.remove idx = .ok next ∧ Ready next good ∧ Dropped tlb next idx ∧ next.freeList = tlb.freeList ++ [idx] := by
  obtain ⟨next, removed, coherent, dropped, free⟩ := remove_ok ready.coherent at_ points
  refine ⟨next, removed, ⟨coherent, ?_, ?_⟩, dropped, free⟩
  · intro other entry' place unused
    rw [free]
    by_cases here : other = idx
    · rw [here]
      exact mem_append_cons_self
    · rw [dropped.others other here] at place
      exact mem_append_left _ (ready.listed other entry' place unused)
  · rw [dropped.length]
    exact ready.nonempty

theorem evictLRU_ready (ready : Ready tlb good) (full : tlb.freeList = []) :
    ∃ next idx, tlb.evictLRU = .ok next ∧ Ready next good ∧ next.freeList = [idx] ∧ ∀ other entry, Holds next other entry → Holds tlb other entry := by
  unfold TLB.evictLRU
  cases vector : tlb.tlb with
  | nil =>
    have nonempty := ready.nonempty
    rw [vector] at nonempty
    exact absurd nonempty (Nat.lt_irrefl 0)
  | cons first rest =>
    have small := leastRecent_lt rest 1 0 first.lruSeq Nat.zero_lt_one
    dsimp only
    generalize TLB.leastRecent rest 1 0 first.lruSeq = idx at small
    obtain ⟨entry, place⟩ : ∃ entry, tlb.tlb[idx]? = some entry := by
      rw [vector, List.getElem?_eq_getElem (by rw [length_cons]; omega)]
      exact ⟨_, rfl⟩
    cases points : entry.trieHandle with
    | none =>
      have free := ready.listed idx entry place points
      rw [full] at free
      cases free
    | some =>
      obtain ⟨next, removed, kept, dropped, free⟩ := remove_ready ready place points
      rw [full] at free
      exact ⟨next, idx, removed, kept, free, fun other entry holds => (dropped.holds holds).2⟩

theorem removeEach_ready (hit : TlbEntry → Bool) {places i : Nat} {next : TLB} (ready : Ready tlb good)
    (ran : TLB.removeEach hit places i tlb = .ok next) : Ready next good := by
  induction places generalizing i tlb with
  | zero =>
    cases ran
    exact ready
  | succ _ ih =>
    obtain ⟨_, found, ran⟩ := of_bind ran
    split at ran
    next goes =>
      obtain ⟨used, _⟩ := Bool.and_eq_true_iff.mp goes
      obtain ⟨_, points⟩ := Option.isSome_iff_exists.mp used
      obtain ⟨_, removed, kept, _⟩ := remove_ready ready (entry_eq_ok found) points
      rw [removed, ok_bind] at ran
      exact ih kept ran
    next => exact ih ready ran

theorem flushAll_ready (ready : Ready tlb good) (better : TlbEntry → Prop) : ∃ next, tlb.flushAll = .ok next ∧ Ready next better := by
  obtain ⟨next, ran, coherent⟩ := removeAll_ok ready.coherent (fun _ => true) (fun entry _ stays => (nomatch stays : better entry))
  exact ⟨next, ran, { removeEach_ready _ ready ran with coherent }⟩

theorem takeFree_ready (ready : Ready tlb good) :
    ∃ next idx, tlb.takeFree = .ok (next, idx) ∧ Taken tlb next good idx ∧ 0 < next.tlb.length ∧
      ∀ (other : Nat) (entry : TlbEntry), next.tlb[other]? = some entry → entry.trieHandle = none → other ≠ idx → other ∈ next.freeList := by
  have listed : ∀ (middle : TLB) (idx : Nat) (freeList : List Nat), Ready middle good → middle.freeList = idx :: freeList →
      ∀ (other : Nat) (entry : TlbEntry), middle.tlb[other]? = some entry → entry.trieHandle = none → other ≠ idx → other ∈ freeList := by
    intro middle idx freeList kept whole other entry place unused apart
    have member := kept.listed other entry place unused
    rw [whole] at member
    exact (mem_cons.mp member).resolve_left apart
  cases whole : tlb.freeList with
  | nil =>
    obtain ⟨middle, idx, evicted, kept, free, _⟩ := evictLRU_ready ready whole
    have took : tlb.takeFree = .ok ({ middle with freeList := [] }, idx) := by
      rw [TLB.takeFree, whole, isEmpty_nil, if_pos rfl, evicted, ok_bind, free]
      rfl
    exact ⟨_, idx, took, takeFree_eq_ok ready.coherent took, kept.nonempty, listed middle idx [] kept free⟩
  | cons idx freeList =>
    have took : tlb.takeFree = .ok ({ tlb with freeList }, idx) := by
      rw [TLB.takeFree, whole, isEmpty_cons, if_neg Bool.false_ne_true, ok_bind, whole]
      rfl
    exact ⟨_, idx, took, takeFree_eq_ok ready.coherent took, ready.nonempty, listed tlb idx freeList ready whole⟩

/-- What a lookup leaves: the entry it found, with the page, the address and the flags it
had. -/
structure Found (tlb next : TLB) (vpn : Addr) (asid : BitVec 16) (idx : Nat) (entry : TlbEntry) : Prop where
  place : next.tlb[idx]? = some entry
  seen : Seen vpn asid entry
  before : ∃ old, tlb.tlb[idx]? = some old ∧ old.page = entry.page ∧ old.paddr = entry.paddr ∧ old.pte = entry.pte
  largest : ∀ (other : Nat) (entry' : TlbEntry), tlb.tlb[other]? = some entry' → Seen vpn asid entry' → other ≠ idx →
    entry'.logBytes < entry.logBytes

theorem lookup_ready (ready : Ready tlb good)
    (lasting : ∀ entry lruSeq, good entry → good { entry with lruSeq }) {vpn : Addr} (extended : SignExtended vpn) (asid : BitVec 16) :
    (tlb.lookup vpn asid false = .ok (tlb, none) ∧ ∀ (idx : Nat) (entry : TlbEntry), tlb.tlb[idx]? = some entry → ¬Seen vpn asid entry) ∨
    ∃ next idx entry, tlb.lookup vpn asid false = .ok (next, some idx) ∧ Ready next good ∧ Found tlb next vpn asid idx entry := by
  obtain ⟨_, searched, search⟩ := search_ok ready.coherent extended asid
  unfold TLB.lookup
  rw [searched, ok_bind]
  cases search with
  | miss unseen => exact .inl ⟨rfl, unseen⟩
  | @hit idx entry place seen largest =>
    right
    dsimp only
    rw [if_neg Bool.false_ne_true, entry_ok place, ok_bind]
    refine ⟨_, idx, { entry with lruSeq := tlb.lruSeq + 1 }, rfl, ?_, ?_⟩
    · apply ready.touch place
      · exact ⟨rfl, rfl⟩
      · exact lasting entry (tlb.lruSeq + 1)
    · exact ⟨getElem?_set_here place, seen, ⟨entry, place, rfl, rfl, rfl⟩, largest⟩

theorem insert_ready (ready : Ready tlb good) (ok : PageOk entry.page) (fine : ∀ lruSeq trieHandle, good { entry with lruSeq, trieHandle })
    (same : ∀ idx old, Holds tlb idx old → Seen entry.vaddr entry.asid old → old.page = entry.page ∧ old.paddr = entry.paddr)
    (flags : ∀ old, good old → old.page = entry.page → good { old with pte := entry.pte }) :
    ∃ next idx new, tlb.insert entry.vaddr entry = .ok (next, idx) ∧ Ready next good ∧ next.tlb[idx]? = some new ∧ new.trieHandle.isSome ∧
      new.page = entry.page ∧ new.paddr = entry.paddr ∧ new.pte = entry.pte := by
  obtain ⟨_, searched, search⟩ := search_ok ready.coherent ok.extended entry.asid
  change tlb.trie.lookup (buildKey entry.vaddr entry.asid) = _ at searched
  unfold TLB.insert TLB.lookup
  rw [searched]
  cases search with
  | @hit idx old place seen largest =>
    obtain ⟨page, paddr⟩ := same idx old ⟨place, seen.1⟩ seen
    have aligned : Fault.ensure (old.vaddr == entry.vaddr) "newEntry->vaddr == vpn" = .ok () := by
      rw [show old.vaddr = entry.vaddr from congrArg Page.vaddr page, beq_self_eq_true]
      rfl
    simp only [ok_bind, if_true, pure_bind]
    rw [entry_ok place, ok_bind, aligned, ok_bind]
    have kept := @Ready.touch tlb _ ready idx old { old with pte := entry.pte } place ⟨rfl, rfl⟩ (fun was => flags old was page) tlb.lruSeq
    exact ⟨_, idx, _, rfl, kept, getElem?_set_here place, seen.1, page, paddr, rfl⟩
  | miss unseen =>
    simp only [ok_bind, pure_bind]
    obtain ⟨middle, idx, took, taken, nonempty, listed⟩ := takeFree_ready ready
    obtain ⟨old, held, unused⟩ := taken.place
    have absent := absent_of_unseen taken.coherent ok.extended
      (fun idx entry' holds => unseen idx entry' (taken.fewer idx entry' holds).1) (64 - entry.logBytes)
    obtain ⟨trie, handle, inserted, added⟩ := Trie.insert_ok taken.coherent.trie (buildKey entry.vaddr entry.asid)
      (Nat.le_trans (by omega) ok.sized.width.1) ok.sized.width.2 idx absent
    change middle.trie.insert (buildKey entry.vaddr entry.asid) (64 - entry.logBytes) idx = _ at inserted
    rw [took, ok_bind]
    rw [entry_ok held, ok_bind, inserted, ok_bind]
    have kept := @fill_ok middle _ taken.coherent idx handle old
      { entry with lruSeq := middle.lruSeq + 1, trieHandle := some handle } trie held unused taken.taken ok (fine _ _) rfl added
      (middle.lruSeq + 1)
    refine ⟨_, idx, _, rfl, ⟨kept, ?_, ?_⟩, getElem?_set_here held, rfl, rfl, rfl, rfl⟩
    · intro other entry' place unused'
      obtain ⟨rfl, rfl⟩ | ⟨apart, place⟩ := getElem?_set_cases place
      · cases unused'
      · exact listed other entry' place unused' apart
    · rw [length_set]
      exact nonempty

structure Flags (pte leaf : PTESv39) : Prop where
  r : pte.r = leaf.r
  x : pte.x = leaf.x
  u : pte.u = leaf.u
  w : pte.w = true → leaf.w = true ∧ leaf.d = true

/-- The page is what a walk finds now. -/
structure Mirrors (pmp : PMP) (satp : SATP) (memory : PageMemory) (page : Page) (paddr : Addr) (pte : PTESv39) (level : Nat) (read : Addr) :
    Prop where
  size : page.logBytes = logBytes level
  asid : page.asid = satp.asid
  leads : ∀ mode vaddr, page.covers vaddr = true → chase pmp mode memory vaddr 2 (pteAddr satp.ppn vaddr 2) = .leaf level read
  aligned : misaligned level (memory read) = false
  accessed : PTESv39.a (memory read) = true
  paddr : paddr = (PTESv39.ppn (memory read)).setWidth 64
  flags : Flags pte (memory read)

def Mirror (pmp : PMP) (satp : SATP) (memory : PageMemory) (entry : TlbEntry) : Prop :=
  ∃ level read, Mirrors pmp satp memory entry.page entry.paddr entry.pte level read

section
variable {pmp : PMP} {satp : SATP} {memory : PageMemory} {pte : PTESv39}

theorem Mirrors.same_leaf {page page' : Page} {paddr paddr' : Addr} {pte' : PTESv39} {level level' : Nat} {read read' : Addr}
    (first : Mirrors pmp satp memory page paddr pte level read) (second : Mirrors pmp satp memory page' paddr' pte' level' read')
    {vaddr : Addr} (covered : page.covers vaddr = true) (covered' : page'.covers vaddr = true) : level = level' ∧ read = read' := by
  have leads := first.leads .read vaddr covered
  rw [second.leads .read vaddr covered', Stop.leaf.injEq] at leads
  exact ⟨leads.1.symm, leads.2.symm⟩

theorem Mirrors.same_page {page page' : Page} {paddr paddr' : Addr} {pte' : PTESv39} {level level' : Nat} {read read' : Addr}
    (first : Mirrors pmp satp memory page paddr pte level read) (second : Mirrors pmp satp memory page' paddr' pte' level' read')
    {vaddr : Addr} (covered : page.covers vaddr = true) (covered' : page'.covers vaddr = true) : page = page' ∧ paddr = paddr' := by
  obtain ⟨rfl, rfl⟩ := first.same_leaf second covered covered'
  have size : page.logBytes = page'.logBytes := first.size.trans second.size.symm
  have vaddrs : page.vaddr = page'.vaddr := by
    rw [Page.covers, beq_iff_eq] at covered covered'
    rw [← covered, ← covered', Page.mask, Page.mask, size]
  refine ⟨?_, first.paddr.trans second.paddr.symm⟩
  cases page
  cases page'
  exact Page.mk.injEq .. ▸ ⟨vaddrs, size, first.asid.trans second.asid.symm⟩

end

/-- Only accessed and dirty bits are set. -/
structure Marked (before after : PageMemory) : Prop where
  tables : SameTables before after
  accessed : ∀ addr, PTESv39.a (before addr) = true → PTESv39.a (after addr) = true
  dirty : ∀ addr, PTESv39.d (before addr) = true → PTESv39.d (after addr) = true

theorem writeBack_here (mode : AccessMode) (memory : PageMemory) (read : Addr) :
    writeBack memory read (written mode (memory read)) read = updated mode (memory read) := by
  unfold written
  cases write : doWrite mode (memory read) with
  | true => exact Function.update_self read _ memory
  | false => exact (updated_of_not_doWrite write).symm

theorem writeBack_there (memory : PageMemory) {addr : Addr} (apart : addr ≠ read) (write : Option PTESv39) :
    writeBack memory read write addr = memory addr := by
  cases write with
  | none => rfl
  | some pte => exact Function.update_of_ne apart pte memory

theorem writeBack_marked (mode : AccessMode) (memory : PageMemory) (read : Addr) :
    Marked memory (writeBack memory read (written mode (memory read))) := by
  refine ⟨fun addr => ?_, fun addr accessed => ?_, fun addr dirty => ?_⟩
  · by_cases here : addr = read
    · rw [here, writeBack_here]
      exact updated_same mode (memory read)
    · rw [writeBack_there memory here]
      exact SamePte.refl _
  · by_cases here : addr = read
    · rw [here, writeBack_here]
      exact updated_accessed mode (memory read)
    · rw [writeBack_there memory here]
      exact accessed
  · by_cases here : addr = read
    · rw [here] at dirty
      rw [here, writeBack_here]
      exact updated_keeps_dirty mode dirty
    · rw [writeBack_there memory here]
      exact dirty

theorem Mirror.marked {before after : PageMemory} (marked : Marked before after)
    (mirror : Mirror pmp satp before entry) : Mirror pmp satp after entry := by
  obtain ⟨level, read, mirrors⟩ := mirror
  have same := marked.tables read
  refine ⟨level, read, mirrors.size, mirrors.asid, ?_, ?_, marked.accessed read mirrors.accessed, ?_, ?_⟩
  · intro mode vaddr covered
    rw [← chase_tables marked.tables]
    exact mirrors.leads mode vaddr covered
  · rw [← same.misaligned]
    exact mirrors.aligned
  · rw [← same.ppn]
    exact mirrors.paddr
  · obtain ⟨r, x, u, w⟩ := mirrors.flags
    refine ⟨r.trans same.r, x.trans same.x, u.trans same.u, fun writable => ?_⟩
    obtain ⟨allowed, dirty⟩ := w writable
    exact ⟨same.w.symm.trans allowed, marked.dirty read dirty⟩

def leafAddress (level : Nat) (pte : PTESv39) (vaddr : Addr) : Addr :=
  (pte.ppn.setWidth 64 <<< PageShift) ||| (vaddr &&& (1#64 <<< logBytes level - 1))

def outcome (state : WalkerState) (memory : PageMemory) (vaddr : Addr) : PageMemory × Except MmuFault Addr :=
  match chase state.pmp state.mode memory vaddr 2 (pteAddr state.satp.ppn vaddr 2) with
  | .blocked fault => (memory, .error fault)
  | .leaf level read =>
    match checkPermissions state.status state.pmode vaddr state.mode (memory read) with
    | some fault => (memory, .error fault)
    | none =>
      if misaligned level (memory read) then (memory, .error (createPagefault vaddr state.mode))
      else
        (Mmu.writeBack memory read (written state.mode (memory read)),
          match state.writeFault ⟨level, { vaddr, asid := state.satp.asid }, read⟩ (memory read) with
          | some fault => .error fault
          | none => .ok (leafAddress level (memory read) vaddr))

theorem sextVaddr_extended (vaddr : Addr) : SignExtended (sextVaddr vaddr) := by
  unfold SignExtended sextVaddr
  congr 1
  apply eq_of_getLsbD_eq
  intro i small
  rw [getLsbD_setWidth, getLsbD_signExtend, if_pos small, decide_eq_true small, decide_eq_true (by omega)]
  simp

theorem logBytes_size (below : level ≤ 2) : PageSize (logBytes level) := by
  unfold PageSize logBytes PageShift LEVEL_BITS
  omega

theorem signExtended_of_bits {vpn : Addr} (bits : ∀ i ≤ 25, vpn.getMsbD i = vpn.msb) : SignExtended vpn := by
  apply eq_of_getLsbD_eq
  intro i small
  rw [getLsbD_signExtend, msb_eq_getLsbD_last, getLsbD_setWidth, getLsbD_setWidth, decide_eq_true small, Bool.true_and]
  have high : ∀ j, 38 ≤ j → j < 64 → vpn.getLsbD j = vpn.msb := by
    intro j low inside
    rw [← bits (63 - j) (by omega), getMsbD_eq_getLsbD, decide_eq_true (by omega), Bool.true_and,
      show 64 - 1 - (63 - j) = j by omega]
  by_cases low : i < 39
  · rw [if_pos low, decide_eq_true low, Bool.true_and]
  · rw [if_neg low, decide_eq_true (by omega), Bool.true_and, high _ (by omega) (by omega), high i (by omega) small]

theorem page_ok (extended : SignExtended vaddr) (below : level ≤ 2) (asid : BitVec 16) :
    PageOk ⟨vaddr &&& ~~~(1#64 <<< logBytes level - 1), logBytes level, asid⟩ := by
  have sized := logBytes_size below
  have mask := @PageSize.mask ⟨vaddr, logBytes level, asid⟩ sized
  change ~~~(1#64 <<< logBytes level - 1) = _ at mask
  refine ⟨sized, ?_, ?_⟩
  · have same := agree_mask sized.width.2 vaddr
    rw [mask]
    have wide : 34 ≤ 64 - logBytes level := sized.width.1
    apply signExtended_of_bits
    intro i high
    rw [BitVec.msb, same i (Nat.lt_of_lt_of_le (by omega) wide), same 0 (Nat.lt_of_lt_of_le (by omega) wide), extended.bits high, BitVec.msb]
  · rw [Page.mask, BitVec.and_assoc, BitVec.and_self]

variable {status : STATUS} {pmode : RegVal} {mode : AccessMode}

theorem checkPermissions_flags {first second : PTESv39}
    (u : first.u = second.u) (allows : lacksPermission mode first = lacksPermission mode second) :
    checkPermissions status pmode vaddr mode first = checkPermissions status pmode vaddr mode second := by
  unfold checkPermissions
  rw [u, allows]

theorem clearW_bit (pte : PTESv39) {i : Nat} (apart : i ≠ 2) : pte.clearW.getLsbD i = pte.getLsbD i := by
  have other : (1#64 <<< 2).getLsbD i = false := by
    rw [getLsbD_shiftLeft, getLsbD_one]
    simp
    omega
  rw [PTESv39.clearW, getLsbD_and, getLsbD_not, other]
  by_cases small : i < 64
  · rw [decide_eq_true small]
    exact Bool.and_true _
  · rw [getLsbD_of_ge pte i (by omega), Bool.false_and]

theorem clearW_w (pte : PTESv39) : pte.clearW.w = false := by
  rw [PTESv39.w, PTESv39.clearW, getLsbD_and]
  exact Bool.and_false _

structure Cached (mode : AccessMode) (pte leaf : PTESv39) : Prop where
  flags : Flags pte (updated mode leaf)
  writes : mode = .write → pte.w = leaf.w

theorem cached_flags (mode : AccessMode) (walk : Walk) (leaf : PTESv39) :
    Cached mode (tlbEntry mode walk (updated mode leaf)).pte leaf := by
  have same := updated_same mode leaf
  unfold tlbEntry
  by_cases clean : PTESv39.d (updated mode leaf) = false ∧ mode ≠ .write
  · rw [if_pos clean]
    refine ⟨⟨clearW_bit _ (by omega), clearW_bit _ (by omega), clearW_bit _ (by omega), fun writable => ?_⟩, fun write => absurd write clean.2⟩
    rw [clearW_w] at writable
    cases writable
  · rw [if_neg clean]
    refine ⟨⟨rfl, rfl, rfl, fun writable => ⟨writable, ?_⟩⟩, fun _ => same.w.symm⟩
    rw [not_and_not_right, ← Bool.not_eq_true] at clean
    by_contra dirty
    have write := clean dirty
    rw [write, updated_dirty] at dirty
    exact dirty rfl

theorem Cached.permissions {leaf : PTESv39}
    (cached : Cached mode pte leaf) : checkPermissions status pmode vaddr mode pte = checkPermissions status pmode vaddr mode leaf := by
  have same := updated_same mode leaf
  apply checkPermissions_flags
  · exact cached.flags.u.trans same.u.symm
  · cases mode with
    | read => exact congrArg (!·) (cached.flags.r.trans same.r.symm)
    | write => exact congrArg (!·) (cached.writes rfl)
    | execute => exact congrArg (!·) (cached.flags.x.trans same.x.symm)

def entryFor (state : WalkerState) (memory : PageMemory) (vaddr : Addr) (level : Nat) (read : Addr) : TlbEntry :=
  tlbEntry state.mode ⟨level, { vaddr, asid := state.satp.asid }, read⟩ (updated state.mode (memory read))

theorem entryFor_covers (state : WalkerState) (memory : PageMemory) (vaddr : Addr) (level : Nat) (read : Addr) :
    (entryFor state memory vaddr level read).page.covers vaddr = true := beq_self_eq_true _

theorem entryFor_covers_base (state : WalkerState) (memory : PageMemory) (vaddr : Addr) (level : Nat) (read : Addr) :
    (entryFor state memory vaddr level read).page.covers (entryFor state memory vaddr level read).vaddr = true := by
  rw [Page.covers, beq_iff_eq]
  change _ &&& _ &&& ~~~(1#64 <<< logBytes level - 1) = _
  rw [BitVec.and_assoc]
  exact congrArg (vaddr &&& ·) (BitVec.and_self)

theorem entryFor_mirrors (extended : SignExtended vaddr)
    (chased : chase state.pmp state.mode memory vaddr 2 (pteAddr state.satp.ppn vaddr 2) = .leaf level read)
    (aligned : misaligned level (memory read) = false) :
    Mirrors state.pmp state.satp (writeBack memory read (written state.mode (memory read)))
      (entryFor state memory vaddr level read).page (entryFor state memory vaddr level read).paddr
      (entryFor state memory vaddr level read).pte level read := by
  have marked := writeBack_marked state.mode memory read
  have here := writeBack_here state.mode memory read
  refine ⟨rfl, rfl, ?_, ?_, ?_, ?_, ?_⟩
  · intro mode other covered
    have below := chase_level chased
    have ok := page_ok extended below state.satp.asid
    have agree := (ok.covers_iff other).mp covered
    have agree' := (ok.covers_iff vaddr).mp (entryFor_covers state memory vaddr level read)
    have agrees := agree'.trans agree.symm
    rw [← chase_tables marked.tables, ← pteAddr_page agrees below]
    exact chase_page chased agrees
  · rw [← (marked.tables read).misaligned]
    exact aligned
  · rw [here]
    exact updated_accessed state.mode (memory read)
  · rw [here]
    rfl
  · rw [here]
    exact (cached_flags state.mode _ (memory read)).flags

def failure : Except MmuFault Addr → Option MmuFault
  | .ok _ => none
  | .error fault => some fault

structure Filled (state : WalkerState) (tlb : TLB) (vaddr paddr : Addr) (idx : Nat) (entry : TlbEntry) : Prop where
  place : tlb.tlb[idx]? = some entry
  used : entry.trieHandle.isSome
  covers : entry.page.covers vaddr = true
  asid : entry.asid = state.satp.asid
  permitted : checkPermissions state.status state.pmode vaddr state.mode entry.pte = none
  paddr : Mmu.physical entry vaddr = paddr

theorem insert_leaf (ready : Ready tlb (Mirror state.pmp state.satp memory)) (extended : SignExtended vaddr)
    (chased : chase state.pmp state.mode memory vaddr 2 (pteAddr state.satp.ppn vaddr 2) = .leaf level read)
    (permitted : checkPermissions state.status state.pmode vaddr state.mode (memory read) = none)
    (aligned : misaligned level (memory read) = false) :
    ∃ next idx entry, tlbInsert tlb (some (entryFor state memory vaddr level read)) = .ok next ∧
      Ready next (Mirror state.pmp state.satp (writeBack memory read (written state.mode (memory read)))) ∧
      Filled state next vaddr (leafAddress level (memory read) vaddr) idx entry := by
  have mirrors := entryFor_mirrors extended chased aligned
  have kept := ready.mono fun entry mirror => Mirror.marked (writeBack_marked state.mode memory read) mirror
  have base := entryFor_covers_base state memory vaddr level read
  have ok : PageOk (entryFor state memory vaddr level read).page := page_ok extended (chase_level chased) state.satp.asid
  have same : ∀ idx old, Holds tlb idx old → Seen (entryFor state memory vaddr level read).vaddr (entryFor state memory vaddr level read).asid old →
      old.page = (entryFor state memory vaddr level read).page ∧ old.paddr = (entryFor state memory vaddr level read).paddr := by
    intro idx old holds seen
    obtain ⟨_, _, other⟩ := (kept.coherent.pages idx old holds.1 holds.2).2
    exact other.same_page mirrors seen.2.1 base
  have flags : ∀ old, Mirror state.pmp state.satp (writeBack memory read (written state.mode (memory read))) old →
      old.page = (entryFor state memory vaddr level read).page →
      Mirror state.pmp state.satp (writeBack memory read (written state.mode (memory read)))
        { old with pte := (entryFor state memory vaddr level read).pte } := by
    intro old ⟨level', read', other⟩ page
    have covered : old.page.covers (entryFor state memory vaddr level read).vaddr = true := page ▸ base
    obtain ⟨rfl, rfl⟩ := other.same_leaf mirrors covered base
    exact ⟨_, _, other.size, other.asid, other.leads, other.aligned, other.accessed, other.paddr, mirrors.flags⟩
  obtain ⟨next, idx, entry, inserted, ready', place, used, page, paddr, pte⟩ :=
    insert_ready kept ok (fun _ _ => ⟨level, read, mirrors⟩) same flags
  refine ⟨next, idx, entry, ?_, ready', place, used, ?_, ?_, ?_, ?_⟩
  · unfold tlbInsert
    dsimp only
    rw [inserted]
    rfl
  · rw [page]
    exact entryFor_covers state memory vaddr level read
  · exact congrArg Page.asid page
  · rw [pte, ← permitted]
    exact (cached_flags state.mode _ (memory read)).permissions
  · have size : entry.logBytes = logBytes level := congrArg Page.logBytes page
    have ppn : entry.paddr = (PTESv39.ppn (memory read)).setWidth 64 := by
      rw [paddr, (updated_same state.mode (memory read)).ppn]
      rfl
    rw [Mmu.physical, size, ppn, leafAddress]

theorem startWalk_ok {state : WalkerState} {tlb : TLB} {memory : PageMemory} (ready : Ready tlb (Mirror state.pmp state.satp memory))
    (vaddr : Addr) :
    ∃ next, startWalk state vaddr ⟨tlb, memory⟩ =
        .ok (⟨next, (outcome state memory (sextVaddr vaddr)).1⟩, failure (outcome state memory (sextVaddr vaddr)).2) ∧
      Ready next (Mirror state.pmp state.satp (outcome state memory (sextVaddr vaddr)).1) ∧
      ∀ paddr, (outcome state memory (sextVaddr vaddr)).2 = .ok paddr → ∃ idx entry, Filled state next (sextVaddr vaddr) paddr idx entry := by
  have extended := sextVaddr_extended vaddr
  have walked := walkLoop_eq state { vaddr := sextVaddr vaddr, asid := state.satp.asid } ⟨tlb, memory⟩ 2
    (pteAddr state.satp.ppn (sextVaddr vaddr) 2)
  change startWalk state vaddr ⟨tlb, memory⟩ = _ at walked
  rw [walked]
  unfold outcome
  cases chased : chase state.pmp state.mode memory (sextVaddr vaddr) 2 (pteAddr state.satp.ppn (sextVaddr vaddr) 2) with
  | blocked => exact ⟨tlb, rfl, ready, by rintro _ ⟨⟩⟩
  | leaf level read =>
    dsimp only
    unfold atLeaf leafStep
    cases permitted : checkPermissions state.status state.pmode (sextVaddr vaddr) state.mode (memory read) with
    | some => exact ⟨tlb, rfl, ready, by rintro _ ⟨⟩⟩
    | none =>
      cases aligned : misaligned level (memory read) with
      | true => exact ⟨tlb, rfl, ready, by rintro _ ⟨⟩⟩
      | false =>
        simp only [Bool.false_eq_true, if_false]
        cases refused : state.writeFault ⟨level, { vaddr := sextVaddr vaddr, asid := state.satp.asid }, read⟩ (memory read) with
        | some =>
          exact ⟨tlb, rfl, ready.mono fun _ mirror => Mirror.marked (writeBack_marked state.mode memory read) mirror, by rintro _ ⟨⟩⟩
        | none =>
          obtain ⟨next, idx, entry, inserted, kept, filled⟩ := insert_leaf ready extended chased permitted aligned
          refine ⟨next, ?_, kept, fun paddr same => ?_⟩
          · change (tlbInsert tlb (some (entryFor state memory (sextVaddr vaddr) level read)) >>= _) = _
            rw [inserted]
            rfl
          · cases same
            exact ⟨idx, entry, filled⟩

section
variable {state : WalkerState} {memory : PageMemory} {vaddr : Addr} {entry : TlbEntry}

theorem outcome_of_hit (mirror : Mirror state.pmp state.satp memory entry) (covered : entry.page.covers vaddr = true)
    (permitted : checkPermissions state.status state.pmode vaddr state.mode entry.pte = none) :
    outcome state memory vaddr = (memory, .ok (Mmu.physical entry vaddr)) := by
  obtain ⟨level, read, mirrors⟩ := mirror
  have writable : state.mode = .write → PTESv39.w entry.pte = true := by
    intro write
    by_contra closed
    rw [checkPermissions, write, lacksPermission, eq_false_of_ne_true closed] at permitted
    cases permitted
  have allowed : checkPermissions state.status state.pmode vaddr state.mode (memory read) = none := by
    rw [← permitted]
    apply checkPermissions_flags mirrors.flags.u.symm
    cases mode : state.mode with
    | read => exact congrArg (!·) mirrors.flags.r.symm
    | execute => exact congrArg (!·) mirrors.flags.x.symm
    | write =>
      rw [lacksPermission, lacksPermission, (mirrors.flags.w (writable mode)).1, writable mode]
  have unmarked : doWrite state.mode (memory read) = false := by
    rw [doWrite, decide_eq_false_iff_not, mirrors.accessed]
    intro marks
    obtain clean | ⟨clean, write⟩ := marks
    · cases clean
    · rw [(mirrors.flags.w (writable write)).2] at clean
      cases clean
  unfold outcome
  rw [mirrors.leads state.mode vaddr covered]
  dsimp only
  rw [allowed]
  rw [mirrors.aligned, written, writeFault, unmarked, leafAddress, Mmu.physical, mirrors.paddr,
    show entry.logBytes = logBytes level from mirrors.size]
  rfl

theorem checkPermissions_fault {fault : MmuFault}
    (refused : checkPermissions status pmode vaddr mode pte = some fault) : fault = createPagefault vaddr mode := by
  unfold checkPermissions at refused
  split at refused
  · cases refused
    rfl
  split at refused
  · cases refused
    rfl
  split at refused
  · cases refused
    rfl
  · cases refused

theorem outcome_of_refusal (mirror : Mirror state.pmp state.satp memory entry) (covered : entry.page.covers vaddr = true) {fault : MmuFault}
    (refused : checkPermissions state.status state.pmode vaddr state.mode entry.pte = some fault)
    (settled : ¬(state.mode = .write ∧ PTESv39.w entry.pte = false)) : outcome state memory vaddr = (memory, .error fault) := by
  obtain ⟨_, read, mirrors⟩ := mirror
  have denied : checkPermissions state.status state.pmode vaddr state.mode (memory read) = some fault := by
    rw [← refused]
    apply checkPermissions_flags mirrors.flags.u.symm
    cases mode : state.mode with
    | read => exact congrArg (!·) mirrors.flags.r.symm
    | execute => exact congrArg (!·) mirrors.flags.x.symm
    | write =>
      have writable : PTESv39.w entry.pte = true := eq_true_of_ne_false fun closed => settled ⟨mode, closed⟩
      rw [lacksPermission, lacksPermission, (mirrors.flags.w writable).1, writable]
  unfold outcome
  rw [mirrors.leads state.mode vaddr covered]
  dsimp only
  rw [denied]

theorem outcome_address (mirror : Mirror state.pmp state.satp memory entry) (covered : entry.page.covers vaddr = true) {paddr : Addr}
    (found : (outcome state memory vaddr).2 = .ok paddr) : paddr = Mmu.physical entry vaddr := by
  obtain ⟨level, _, mirrors⟩ := mirror
  unfold outcome at found
  rw [mirrors.leads state.mode vaddr covered] at found
  dsimp only at found
  split at found
  · cases found
  · rw [mirrors.aligned, if_neg Bool.false_ne_true] at found
    split at found
    · cases found
    · cases found
      rw [leafAddress, Mmu.physical, mirrors.paddr, show entry.logBytes = logBytes level from mirrors.size]

end

def walkerFor (pmp : PMP) (context : Context) (mode : AccessMode) : WalkerState :=
  ⟨context.status, context.getMemPriv mode, context.satp, mode, pmp⟩

theorem start_eq {context : Context} (sv39 : context.satp.mode = Hart.SATP_SV39) (mmu : Mmu) (vaddr : Addr) (mode : AccessMode) :
    mmu.start pmp context vaddr mode = startWalk (walkerFor pmp context mode) vaddr mmu := by
  rw [Mmu.start, sv39, beq_self_eq_true]
  rfl

theorem Mirror.lasting (entry : TlbEntry) (lruSeq : BitVec 64)
    (mirror : Mirror pmp satp memory entry) : Mirror pmp satp memory { entry with lruSeq } := mirror

theorem lookup_filled (ready : Ready tlb (Mirror state.pmp state.satp memory))
    {paddr : Addr} (extended : SignExtended vaddr) {idx : Nat} (filled : Filled state tlb vaddr paddr idx entry) :
    ∃ next found, tlb.lookup vaddr state.satp.asid false = .ok (next, some idx) ∧ Ready next (Mirror state.pmp state.satp memory) ∧
      Filled state next vaddr paddr idx found := by
  have seen : Seen vaddr state.satp.asid entry := ⟨filled.used, filled.covers, .inr filled.asid⟩
  obtain ⟨_, unseen⟩ | ⟨next, place, found, looked, kept, there⟩ := lookup_ready ready Mirror.lasting extended state.satp.asid
  · exact absurd seen (unseen idx entry filled.place)
  · obtain ⟨_, was, _, paddr', pte⟩ := there.before
    obtain ⟨_, _, mirrors⟩ := (ready.coherent.pages idx entry filled.place filled.used).2
    have used := there.seen.1
    obtain ⟨_, _, mirrors'⟩ := (kept.coherent.pages place found there.place used).2
    obtain ⟨same, _⟩ := mirrors.same_page mirrors' filled.covers there.seen.2.1
    have size : entry.logBytes = found.logBytes := congrArg Page.logBytes same
    have here : idx = place := by
      by_contra apart
      have smaller := there.largest idx entry filled.place seen apart
      omega
    subst here
    rw [filled.place, Option.some.injEq] at was
    subst was
    refine ⟨next, found, looked, kept, there.place, used, there.seen.2.1, ?_, ?_, ?_⟩
    · rw [← filled.asid]
      exact (congrArg Page.asid same).symm
    · rw [← pte]
      exact filled.permitted
    · rw [← filled.paddr, Mmu.physical, Mmu.physical, size, paddr']

section
variable {pmp : PMP} {context : Context} {tlb next : TLB} {memory : PageMemory} {vaddr : Addr} {mode : AccessMode}

theorem lookupOrWalk_hit {idx : Nat} (looked : tlb.lookup (sextVaddr vaddr) context.satp.asid false = .ok (next, some idx)) :
    lookupOrWalk ⟨tlb, memory⟩ pmp context vaddr mode = .ok (⟨next, memory⟩, .ok idx) := by
  unfold lookupOrWalk Mmu.lookup
  rw [looked]
  rfl

section

variable (looked : tlb.lookup (sextVaddr vaddr) context.satp.asid false = .ok (tlb, none))
include looked

theorem lookupOrWalk_fault {mmu : Mmu} {fault : MmuFault} (walked : Mmu.start ⟨tlb, memory⟩ pmp context vaddr mode = .ok (mmu, some fault)) :
    lookupOrWalk ⟨tlb, memory⟩ pmp context vaddr mode = .ok (mmu, .error fault) := by
  unfold lookupOrWalk Mmu.lookup
  rw [looked]
  change (Mmu.start ⟨tlb, memory⟩ pmp context vaddr mode >>= _) = _
  rw [walked]
  rfl

theorem lookupOrWalk_filled {middle : TLB} {marked : PageMemory} {idx : Nat}
    (walked : Mmu.start ⟨tlb, memory⟩ pmp context vaddr mode = .ok (⟨middle, marked⟩, none))
    (again : middle.lookup (sextVaddr vaddr) context.satp.asid false = .ok (next, some idx)) :
    lookupOrWalk ⟨tlb, memory⟩ pmp context vaddr mode = .ok (⟨next, marked⟩, .ok idx) := by
  unfold lookupOrWalk Mmu.lookup
  dsimp only
  rw [looked]
  change (Mmu.start ⟨tlb, memory⟩ pmp context vaddr mode >>= _) = _
  rw [walked, ok_bind]
  rw [again]
  rfl

end

theorem doTranslate_fault {mmu : Mmu} {fault : MmuFault}
    (found : lookupOrWalk ⟨tlb, memory⟩ pmp context vaddr mode = .ok (mmu, .error fault)) :
    doTranslate ⟨tlb, memory⟩ pmp context vaddr mode = .ok (mmu, .error fault) := by
  rw [doTranslate, found]
  rfl

def answered (paddr : Addr) : Option MmuFault → Except MmuFault Addr
  | some fault => .error fault
  | none => .ok paddr

theorem doTranslate_entry {mmu last : Mmu} {idx : Nat} {entry : TlbEntry} {fault : Option MmuFault}
    (found : lookupOrWalk ⟨tlb, memory⟩ pmp context vaddr mode = .ok (mmu, .ok idx)) (place : mmu.tlb.tlb[idx]? = some entry)
    (checked : mmu.recheck pmp context vaddr mode entry = .ok (last, fault)) :
    doTranslate ⟨tlb, memory⟩ pmp context vaddr mode =
      .ok (last, answered (Mmu.physical entry (sextVaddr vaddr)) fault) := by
  rw [doTranslate, found, ok_bind]
  dsimp only
  rw [entry_ok place, ok_bind, checked]
  cases fault with
  | some => rfl
  | none => rfl

theorem doTranslate_ok (sv39 : context.satp.mode = Hart.SATP_SV39) (ready : Ready tlb (Mirror pmp context.satp memory)) (vaddr : Addr)
    (mode : AccessMode) :
    ∃ next, doTranslate ⟨tlb, memory⟩ pmp context vaddr mode =
        .ok (⟨next, (outcome (walkerFor pmp context mode) memory (sextVaddr vaddr)).1⟩,
          (outcome (walkerFor pmp context mode) memory (sextVaddr vaddr)).2) ∧
      Ready next (Mirror pmp context.satp (outcome (walkerFor pmp context mode) memory (sextVaddr vaddr)).1) := by
  have extended := sextVaddr_extended vaddr
  obtain ⟨looked, _⟩ | ⟨next, idx, entry, looked, kept, there⟩ := lookup_ready ready Mirror.lasting extended context.satp.asid
  · -- a miss: the walk decides, and its entry answers
    obtain ⟨middle, walked, kept, fills⟩ := @startWalk_ok (walkerFor pmp context mode) tlb memory ready vaddr
    rw [← start_eq sv39] at walked
    cases result : (outcome (walkerFor pmp context mode) memory (sextVaddr vaddr)).2 with
    | error =>
      rw [result] at walked
      exact ⟨middle, doTranslate_fault (lookupOrWalk_fault looked walked), kept⟩
    | ok paddr =>
      rw [result] at walked
      obtain ⟨idx, entry, filled⟩ := fills paddr result
      obtain ⟨next, found, again, ready', filled'⟩ := lookup_filled kept extended filled
      have checked : recheck ⟨next, (outcome (walkerFor pmp context mode) memory (sextVaddr vaddr)).1⟩ pmp context vaddr mode found =
          .ok (⟨next, (outcome (walkerFor pmp context mode) memory (sextVaddr vaddr)).1⟩, none) := by
        unfold recheck
        rw [show checkPermissions context.status (context.getMemPriv mode) (sextVaddr vaddr) mode found.pte = none from filled'.permitted]
      have translated := doTranslate_entry (lookupOrWalk_filled looked walked again) filled'.place checked
      rw [filled'.paddr] at translated
      exact ⟨next, translated, ready'⟩
  · -- a hit: the entry answers as the leaf would, or sends the write on another walk
    have mirror := (kept.coherent.pages idx entry there.place there.seen.1).2
    have covered := there.seen.2.1
    have found := @lookupOrWalk_hit pmp context tlb next memory vaddr mode idx looked
    cases permitted : checkPermissions context.status (context.getMemPriv mode) (sextVaddr vaddr) mode entry.pte with
    | none =>
      have checked : recheck ⟨next, memory⟩ pmp context vaddr mode entry = .ok (⟨next, memory⟩, none) := by
        rw [recheck, permitted]
      have same := @outcome_of_hit (walkerFor pmp context mode) memory (sextVaddr vaddr) entry mirror covered permitted
      rw [same]
      exact ⟨next, doTranslate_entry found there.place checked, kept⟩
    | some fault =>
      by_cases closed : mode = .write ∧ PTESv39.w entry.pte = false
      · obtain ⟨last, walked, ready', _⟩ := @startWalk_ok (walkerFor pmp context mode) next memory kept vaddr
        rw [← start_eq sv39] at walked
        have checked : recheck ⟨next, memory⟩ pmp context vaddr mode entry =
            .ok (⟨last, (outcome (walkerFor pmp context mode) memory (sextVaddr vaddr)).1⟩,
              failure (outcome (walkerFor pmp context mode) memory (sextVaddr vaddr)).2) := by
          rw [recheck, permitted]
          dsimp only
          rw [if_pos closed, walked]
        have translated := doTranslate_entry found there.place checked
        refine ⟨last, translated.trans ?_, ready'⟩
        cases result : (outcome (walkerFor pmp context mode) memory (sextVaddr vaddr)).2 with
        | error => rfl
        | ok paddr =>
          rw [@outcome_address (walkerFor pmp context mode) memory (sextVaddr vaddr) entry mirror covered paddr result]
          rfl
      · have checked : recheck ⟨next, memory⟩ pmp context vaddr mode entry = .ok (⟨next, memory⟩, some fault) := by
          rw [recheck, permitted]
          dsimp only
          rw [if_neg closed]
        have same := @outcome_of_refusal (walkerFor pmp context mode) memory (sextVaddr vaddr) entry mirror covered fault permitted closed
        rw [same]
        exact ⟨next, doTranslate_entry found there.place checked, kept⟩

/-- The same for the whole translation: where it does not translate, the TLB is not asked. -/
def atomicOutcome (pmp : PMP) (context : Context) (memory : PageMemory) (vaddr : Addr) (size : Nat) (mode : AccessMode) :
    PageMemory × Except MmuFault Addr :=
  if context.getMemPriv mode = PRV_M ∨ context.satp.mode = Hart.SATP_BARE then
    (memory, Mmu.checkPhysical pmp (context.getMemPriv mode) vaddr vaddr size mode)
  else
    ((outcome (walkerFor pmp context mode) memory (sextVaddr vaddr)).1,
      match (outcome (walkerFor pmp context mode) memory (sextVaddr vaddr)).2 with
      | .error fault => .error fault
      | .ok paddr => Mmu.checkPhysical pmp (context.getMemPriv mode) vaddr paddr size mode)

theorem translateAtomic_ok (sv39 : context.satp.mode = Hart.SATP_SV39) (ready : Ready tlb (Mirror pmp context.satp memory)) (vaddr : Addr)
    (size : Nat) (mode : AccessMode) :
    ∃ next, translateAtomic ⟨tlb, memory⟩ pmp context vaddr size mode =
        .ok (⟨next, (atomicOutcome pmp context memory vaddr size mode).1⟩, (atomicOutcome pmp context memory vaddr size mode).2) ∧
      Ready next (Mirror pmp context.satp (atomicOutcome pmp context memory vaddr size mode).1) := by
  unfold translateAtomic addressOf atomicOutcome
  by_cases direct : context.getMemPriv mode = PRV_M ∨ context.satp.mode = Hart.SATP_BARE
  · rw [if_pos direct, if_pos direct]
    exact ⟨tlb, rfl, ready⟩
  · rw [if_neg direct, if_neg direct]
    obtain ⟨next, translated, kept⟩ := doTranslate_ok sv39 ready vaddr mode
    rw [translated, ok_bind]
    refine ⟨next, ?_, kept⟩
    cases (outcome (walkerFor pmp context mode) memory (sextVaddr vaddr)).2 with
    | error => rfl
    | ok => rfl

end

theorem step_ok (sv39 : satp.mode = Hart.SATP_SV39) (ready : Ready tlb (Mirror pmp satp memory)) (access : Access) :
    ∃ next, Mmu.step pmp satp ⟨tlb, memory⟩ access =
        .ok (⟨next, (atomicOutcome pmp ⟨access.prv, access.status, satp⟩ memory access.vaddr access.size access.mode).1⟩,
          [⟨(atomicOutcome pmp ⟨access.prv, access.status, satp⟩ memory access.vaddr access.size access.mode).2,
            (atomicOutcome pmp ⟨access.prv, access.status, satp⟩ memory access.vaddr access.size access.mode).1⟩]) ∧
      Ready next (Mirror pmp satp (atomicOutcome pmp ⟨access.prv, access.status, satp⟩ memory access.vaddr access.size access.mode).1) := by
  obtain ⟨next, translated, kept⟩ := @translateAtomic_ok pmp ⟨access.prv, access.status, satp⟩ tlb memory sv39 ready access.vaddr access.size access.mode
  refine ⟨next, ?_, kept⟩
  unfold Mmu.step
  rw [translated]
  rfl

theorem runs_agree (sv39 : satp.mode = Hart.SATP_SV39) {other : TLB}
    (ready : Ready tlb (Mirror pmp satp memory)) (ready' : Ready other (Mirror pmp satp memory)) (accesses : List Access) :
    ∃ cached flushed labels, run (Mmu.step pmp satp) ⟨tlb, memory⟩ accesses = .ok (cached, labels) ∧
      run (flushedStep pmp satp) ⟨other, memory⟩ accesses = .ok (flushed, labels) := by
  induction accesses generalizing tlb other memory with
  | nil => exact ⟨_, _, [], rfl, rfl⟩
  | cons access _ ih =>
    obtain ⟨_, taken, kept⟩ := step_ok sv39 ready access
    obtain ⟨empty, emptied, fresh⟩ := flushAll_ready ready' (Mirror pmp satp memory)
    obtain ⟨_, taken', kept'⟩ := step_ok sv39 fresh access
    have flushes : flushedStep pmp satp ⟨other, memory⟩ access = Mmu.step pmp satp ⟨empty, memory⟩ access := by
      unfold flushedStep
      rw [emptied]
      rfl
    obtain ⟨cached, flushed, labels, ran, ran'⟩ := ih kept kept'
    refine ⟨cached, flushed, _ ++ labels, run_cons.mpr ⟨_, _, labels, taken, ran, rfl⟩, ?_⟩
    exact run_cons.mpr ⟨_, _, labels, flushes.trans taken', ran', rfl⟩

/-- Every access has the outcome, and leaves the memory, that it has with the TLB flushed
before each. -/
theorem tlb_transparent (pmp : PMP) {satp : SATP} (sv39 : satp.mode = Hart.SATP_SV39) {size : Nat} (nonempty : 0 < size) (memory : PageMemory)
    (accesses : List Access) :
    ∃ cached flushed labels, run (Mmu.step pmp satp) ⟨TLB.new size, memory⟩ accesses = .ok (cached, labels) ∧
      run (Mmu.flushedStep pmp satp) ⟨TLB.new size, memory⟩ accesses = .ok (flushed, labels) :=
  runs_agree sv39 (new_ready nonempty _) (new_ready nonempty _) accesses

/-- A page table of three levels: one page at address 0x1000, clean and not accessed, and
one of 2 MB at 0x200000. -/
def pageTables : PageMemory := fun addr =>
  if addr = 0x80000000 then 0x20000401
  else if addr = 0x80001000 then 0x20000801
  else if addr = 0x80001008 then 0x20100017
  else if addr = 0x80002008 then 0x20004C17
  else 0

/-- A load, a store through the clean entry, loads that evict each other, and a load that
is refused after the status changed. -/
def pageAccesses : List Access :=
  [⟨PRV_U, 0, 0x1008, 8, .read⟩, ⟨PRV_U, 0, 0x1010, 8, .write⟩, ⟨PRV_S, 0x40000, 0x201234, 4, .read⟩, ⟨PRV_S, 0x40000, 0x1010, 8, .read⟩,
    ⟨PRV_S, 0, 0x1010, 8, .read⟩]

theorem tlb_transparent_one_entry : ∃ cached flushed labels,
    run (Mmu.step (PMP.new 16) 0x8000000000080000) ⟨TLB.new 1, pageTables⟩ pageAccesses = .ok (cached, labels) ∧
      run (Mmu.flushedStep (PMP.new 16) 0x8000000000080000) ⟨TLB.new 1, pageTables⟩ pageAccesses = .ok (flushed, labels) :=
  tlb_transparent (PMP.new 16) (by decide) (by decide) pageTables pageAccesses

end ImcGem5.Riscv.Proofs.Transparent

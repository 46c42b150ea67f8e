import ImcGem5.Proofs.SEWorkload

/-! What an allocation of virtual memory maps. Its pages start where the page of the address
starts, but their number comes from the size alone, so a request from the middle of a page
may reach one page further. A request whose first page is there already maps nothing. -/

namespace ImcGem5.Sim.Proofs.Allocation
open Lib Mem Regions Workload EmulationPageTable
open BitVec hiding not_not
open BitVec (ofNat)

variable {page : PageSize} {pTable final : EmulationPageTable} {start vaddr paddr a : Addr} {flags size : BitVec 64} {count i j : Nat}

section Pages

def pageNumber (page : PageSize) (start : Addr) (i : Nat) : Addr := start + ofNat 64 (i * 2 ^ page.shift)

@[simp] theorem pageNumber_zero (page : PageSize) (start : Addr) : pageNumber page start 0 = start := by
  simp [pageNumber]

theorem pageNumber_succ (page : PageSize) (start : Addr) (i : Nat) :
    pageNumber page (start + page.bytes) i = pageNumber page start (i + 1) := by
  unfold pageNumber PageSize.bytes
  rw [BitVec.add_assoc, ← ofNat_add, Nat.succ_mul, Nat.add_comm]

theorem pageNumber_ne (small : i * 2 ^ page.shift < 2 ^ 64) (other : j * 2 ^ page.shift < 2 ^ 64) (differ : i ≠ j) :
    pageNumber page start i ≠ pageNumber page start j := by
  intro same
  have equal := congrArg BitVec.toNat ((BitVec.add_right_inj start).mp same)
  rw [toNat_ofNat, toNat_ofNat, Nat.mod_eq_of_lt small, Nat.mod_eq_of_lt other] at equal
  exact differ (Nat.eq_of_mul_eq_mul_right (Nat.two_pow_pos _) equal)

theorem pageAlign_byte (page : PageSize) (vaddr : Addr) (k : Nat) :
    page.pageAlign (vaddr + ofNat 64 k) =
      pageNumber page (page.pageAlign vaddr) ((vaddr.toNat % 2 ^ page.shift + k) / 2 ^ page.shift) := by
  obtain ⟨pages, total⟩ := pow_dvd page
  have power := Nat.two_pow_pos page.shift
  have split : (vaddr.toNat + k) / 2 ^ page.shift = vaddr.toNat / 2 ^ page.shift + (vaddr.toNat % 2 ^ page.shift + k) / 2 ^ page.shift := by
    conv_lhs => rw [← Nat.div_add_mod vaddr.toNat (2 ^ page.shift), Nat.add_assoc, Nat.mul_add_div power]
  apply eq_of_toNat_eq
  rw [pageNumber, pageAlign_toNat, toNat_add, toNat_add, pageAlign_toNat, toNat_ofNat, toNat_ofNat,
    Nat.add_mod_mod, Nat.add_mod_mod, ← Nat.add_mul, ← split]
  rw [total, Nat.mod_mul_right_div_self, Nat.mul_comm (2 ^ page.shift) pages, Nat.mul_mod_mul_right]

theorem pageAlign_page (page : PageSize) (vaddr : Addr) (i : Nat) :
    page.pageAlign (vaddr + ofNat 64 (i * 2 ^ page.shift)) = pageNumber page (page.pageAlign vaddr) i := by
  have power := Nat.two_pow_pos page.shift
  rw [pageAlign_byte, Nat.add_mul_div_right _ _ power, Nat.div_eq_of_lt (Nat.mod_lt _ power), Nat.zero_add]

end Pages

section Mapping

/-- The pages from one page on are in the table, and the rest of it is as before. -/
structure Mapped (page : PageSize) (pTable final : EmulationPageTable) (start : Addr) (count : Nat) : Prop where
  inside : ∀ i < count, (final (pageNumber page start i)).isSome
  outside : ∀ a, (∀ i < count, a ≠ pageNumber page start i) → final a = pTable a

theorem Mapped.isSome (mapped : Mapped page pTable final start count) (found : (pTable a).isSome) : (final a).isSome := by
  by_cases among : ∀ i < count, a ≠ pageNumber page start i
  · rwa [mapped.outside a among]
  · simp only [not_forall, not_not] at among
    obtain ⟨i, less, rfl⟩ := among
    exact mapped.inside i less

theorem mapFrom_mapped (ran : mapFrom page flags count pTable vaddr paddr = .ok final) : Mapped page pTable final vaddr count := by
  induction count generalizing pTable vaddr paddr with
  | zero =>
    cases ran
    exact ⟨fun i impossible => absurd impossible (Nat.not_lt_zero i), fun _ _ => rfl⟩
  | succ count ih =>
    obtain ⟨_, _, ran⟩ := of_bind ran
    have later := ih ran
    constructor
    · intro i less
      cases i with
      | zero =>
        rw [pageNumber_zero]
        apply later.isSome
        rw [Function.update_self]
        rfl
      | succ i =>
        rw [← pageNumber_succ]
        exact later.inside i (Nat.lt_of_succ_lt_succ less)
    · intro a others
      have first := others 0 (Nat.succ_pos count)
      rw [pageNumber_zero] at first
      rw [later.outside a, Function.update_of_ne first]
      intro i less
      rw [pageNumber_succ]
      exact others (i + 1) (Nat.succ_lt_succ less)

theorem refuse_ok {condition : Bool} {message : String} {result : Unit} (ran : refuse condition message = .ok result) : condition = false := by
  unfold refuse at ran
  split at ran
  next => cases ran
  next holds => exact Bool.eq_false_iff.mpr holds

theorem mapFrom_kept {entry : Entry} (keeps : flags &&& clobberFlag = 0)
    (ran : mapFrom page flags count pTable vaddr paddr = .ok final) (found : pTable a = some entry) :
    final a = some entry := by
  induction count generalizing pTable vaddr paddr with
  | zero =>
    cases ran
    exact found
  | succ count ih =>
    obtain ⟨_, refused, ran⟩ := of_bind ran
    have unmapped := refuse_ok refused
    apply ih ran
    rw [Function.update_of_ne, found]
    rintro rfl
    simp [found, keeps] at unmapped

end Mapping

section Counting

def asked (page : PageSize) (size : Nat) : Nat := (size + 2 ^ page.shift - 1) / 2 ^ page.shift

/-- How many of them are mapped. They are counted by an int, and together they must have a
positive int64_t of bytes. -/
def counted (page : PageSize) (size : Nat) : Nat :=
  let pages := asked page size % 2 ^ 32
  if pages < 2 ^ 31 ∧ pages * 2 ^ page.shift < 2 ^ 63 then pages else 0

theorem toNat_lt (positive : 0 < size.toInt) : 0 < size.toNat ∧ size.toNat < 2 ^ 63 := by
  rw [toInt_eq_toNat_cond] at positive
  split at positive
  · omega
  · omega

theorem le_asked (page : PageSize) (size : Nat) : size ≤ asked page size * 2 ^ page.shift := by
  have whole := Nat.div_add_mod' (size + 2 ^ page.shift - 1) (2 ^ page.shift)
  unfold asked
  omega

theorem asked_bytes (page : PageSize) (small : size.toNat < 2 ^ 63) : asked page size.toNat * 2 ^ page.shift < 2 ^ 64 := by
  have below := Nat.div_mul_le_self (size.toNat + 2 ^ page.shift - 1) (2 ^ page.shift)
  have power : 2 ^ page.shift < 2 ^ 63 := Nat.pow_lt_pow_right (by omega) page.fits
  unfold asked
  omega

theorem pageCount_toNat (page : PageSize) (positive : 0 < size.toInt) : (pageCount page size).toNat = asked page size.toNat % 2 ^ 32 := by
  obtain ⟨_, _⟩ := toNat_lt positive
  have power := Nat.two_pow_pos page.shift
  have short : 2 ^ page.shift < 2 ^ 63 := Nat.pow_lt_pow_right (by omega) page.fits
  have one : BitVec.toNat (1 : Addr) = 1 := rfl
  have sum : (size + page.bytes - 1).toNat = size.toNat + 2 ^ page.shift - 1 := by
    rw [toNat_sub, toNat_add, bytes_toNat, one]
    omega
  rw [pageCount, toNat_setWidth, toNat_udiv, sum, bytes_toNat, asked]

theorem pagesIn_pages (page : PageSize) (pages : Nat) : pagesIn page ((pages * 2 ^ page.shift : Nat) : Int) = pages := by
  have power := Nat.two_pow_pos page.shift
  rw [pagesIn, bytes_toNat, Int.toNat_natCast, Nat.add_sub_assoc power, Nat.mul_comm, Nat.mul_add_div power,
    Nat.div_eq_of_lt (by omega), Nat.add_zero]

theorem pagesIn_nonpos {bytes : Int} (none : bytes ≤ 0) : pagesIn page bytes = 0 := by
  have power := Nat.two_pow_pos page.shift
  rw [pagesIn, bytes_toNat, Int.toNat_of_nonpos none, Nat.zero_add, Nat.div_eq_of_lt (by omega)]

theorem pagesIn_pageCount (page : PageSize) (positive : 0 < size.toInt) :
    pagesIn page ((pageCount page size).signExtend 64 * page.bytes).toInt = counted page size.toNat := by
  have total := asked_bytes page (toNat_lt positive).2
  have pages := pageCount_toNat page positive
  have most : asked page size.toNat % 2 ^ 32 * 2 ^ page.shift ≤ asked page size.toNat * 2 ^ page.shift :=
    Nat.mul_le_mul_right _ (Nat.mod_le _ _)
  unfold counted
  rw [← pages] at most ⊢
  by_cases clear : (pageCount page size).toNat < 2 ^ 31
  · have nonnegative : 0 ≤ (pageCount page size).toInt := by
      rw [toInt_eq_toNat_of_lt (by omega)]
      omega
    have bytes : ((pageCount page size).signExtend 64 * page.bytes).toNat = (pageCount page size).toNat * 2 ^ page.shift := by
      rw [toNat_mul, signExtend_toNat nonnegative, bytes_toNat, Nat.mod_eq_of_lt (by omega)]
    by_cases few : (pageCount page size).toNat * 2 ^ page.shift < 2 ^ 63
    · rw [if_pos ⟨clear, few⟩, toInt_eq_toNat_of_lt (by omega), bytes]
      exact pagesIn_pages page _
    · rw [if_neg (fun both => few both.2)]
      apply pagesIn_nonpos
      rw [toInt_eq_toNat_cond, bytes, if_neg (by omega)]
      omega
  · rw [if_neg (fun both => clear both.1)]
    apply pagesIn_nonpos
    -- So many pages are of 2 ^ 32 bytes at most.
    have narrow : 2 ^ page.shift ≤ 2 ^ 32 := by
      apply Nat.pow_le_pow_right (by omega)
      by_contra wide
      have large : 2 ^ 33 ≤ 2 ^ page.shift := Nat.pow_le_pow_right (by omega) (by omega)
      have product := Nat.mul_le_mul (Nat.le_of_not_lt clear) large
      omega
    have negative : (pageCount page size).toInt < 0 := by
      rw [toInt_eq_toNat_cond, if_neg (by omega)]
      omega
    have least : -2 ^ 31 ≤ (pageCount page size).toInt := le_toInt _
    have length : page.bytes.toInt = (2 ^ page.shift : Nat) := by
      rw [toInt_eq_toNat_of_lt (by rw [bytes_toNat]; omega), bytes_toNat]
    have below : (pageCount page size).toInt * (2 ^ page.shift : Nat) ≤ 0 :=
      Int.mul_nonpos_of_nonpos_of_nonneg (Int.le_of_lt negative) (Int.natCast_nonneg _)
    have above : -2 ^ 31 * 2 ^ 32 ≤ (pageCount page size).toInt * (2 ^ page.shift : Nat) := calc
      (-2 ^ 31 * 2 ^ 32 : Int) ≤ -2 ^ 31 * (2 ^ page.shift : Nat) := Int.mul_le_mul_of_nonpos_left (by decide) (Int.ofNat_le.mpr narrow)
      _ ≤ (pageCount page size).toInt * (2 ^ page.shift : Nat) := Int.mul_le_mul_of_nonneg_right least (Int.natCast_nonneg _)
    rw [toInt_mul, toInt_signExtend_of_le (by decide), length, Int.bmod_eq_of_le (by omega) (by omega)]
    exact below

end Counting

section Requests

variable {work next : SEWorkload} {pid : Nat} {clobber : Bool}

theorem translate_isSome (work : SEWorkload) (pid : Nat) (a : Addr) :
    (work.translate page pid a).isSome = ((work.processes pid).pTable (page.pageAlign a)).isSome := by
  rw [SEWorkload.translate, Option.isSome_map]
  rfl

theorem translate_congr (same : (next.processes pid).pTable (page.pageAlign a) = (work.processes pid).pTable (page.pageAlign a)) :
    next.translate page pid a = work.translate page pid a := by
  unfold SEWorkload.translate EmulationPageTable.lookup
  rw [same]

def newPages (page : PageSize) (work : SEWorkload) (pid : Nat) (vaddr : Addr) (size : Nat) (clobber : Bool) : Nat :=
  if clobber = false ∧ (work.translate page pid vaddr).isSome then 0 else counted page size

theorem allocateMem_cases (ran : work.allocateMem page pid vaddr size clobber = .ok next) :
    ((clobber = false ∧ (work.translate page pid vaddr).isSome) ∧ next = work) ∨
    ¬(clobber = false ∧ (work.translate page pid vaddr).isSome) ∧ ∃ paddr pTable,
      mapFrom page (if clobber then clobberFlag else 0)
        (pagesIn page ((pageCount page size).signExtend 64 * page.bytes).toInt)
        (work.processes pid).pTable (page.pageAlign vaddr) paddr = .ok pTable ∧ (next.processes pid).pTable = pTable := by
  unfold SEWorkload.allocateMem at ran
  dsimp only at ran
  rw [lookup_pageAlign] at ran
  rw [SEWorkload.translate, Option.isSome_map]
  split at ran
  next found =>
    cases ran
    exact .inl ⟨by simpa using found, rfl⟩
  next fresh =>
    obtain ⟨⟨paddr, _⟩, _, ran⟩ := of_bind ran
    obtain ⟨pTable, mapped, ran⟩ := of_bind ran
    obtain ⟨_, _, mapped⟩ := of_bind mapped
    cases ran
    refine .inr ⟨by simpa using fresh, paddr, pTable, mapped, ?_⟩
    simp [SEWorkload.setTable]

theorem allocateMem_mapped (positive : 0 < size.toInt) (ran : work.allocateMem page pid vaddr size clobber = .ok next) :
    Mapped page (work.processes pid).pTable (next.processes pid).pTable (page.pageAlign vaddr)
      (newPages page work pid vaddr size.toNat clobber) := by
  obtain ⟨found, rfl⟩ | ⟨fresh, _, pTable, mapped, rfl⟩ := allocateMem_cases ran
  · rw [newPages, if_pos found]
    exact ⟨fun i impossible => absurd impossible (Nat.not_lt_zero i), fun _ _ => rfl⟩
  · rw [newPages, if_neg fresh, ← pagesIn_pageCount page positive]
    exact mapFrom_mapped mapped

theorem allocateMem_kept (ran : work.allocateMem page pid vaddr size false = .ok next)
    (found : work.translate page pid a = some paddr) : next.translate page pid a = some paddr := by
  obtain ⟨_, rfl⟩ | ⟨_, _, _, mapped, same⟩ := allocateMem_cases ran
  · exact found
  · obtain ⟨_, had, rfl⟩ := Option.map_eq_some_iff.mp found
    rw [SEWorkload.translate, EmulationPageTable.lookup, same, mapFrom_kept (by simp) mapped had]
    rfl

theorem byte_of_page (less : i < asked page size.toNat) : i * 2 ^ page.shift < size.toNat := by
  have power := Nat.two_pow_pos page.shift
  unfold asked at less
  rw [Nat.lt_div_iff_mul_lt power] at less
  omega

theorem newPages_le (page : PageSize) (work : SEWorkload) (pid : Nat) (vaddr : Addr) (size : Nat) (clobber : Bool) :
    newPages page work pid vaddr size clobber ≤ asked page size := by
  have cut := Nat.mod_le (asked page size) (2 ^ 32)
  unfold newPages counted
  dsimp only
  split
  · exact Nat.zero_le _
  · split
    · exact cut
    · exact Nat.zero_le _

theorem allocateMem_outside (positive : 0 < size.toInt) (ran : work.allocateMem page pid vaddr size clobber = .ok next)
    (outside : ∀ k < size.toNat, page.pageAlign a ≠ page.pageAlign (vaddr + ofNat 64 k)) :
    next.translate page pid a = work.translate page pid a := by
  apply translate_congr
  apply (allocateMem_mapped positive ran).outside
  intro i less
  have among := byte_of_page (Nat.lt_of_lt_of_le less (newPages_le page work pid vaddr size.toNat clobber))
  have differ := outside (i * 2 ^ page.shift) among
  rwa [pageAlign_page] at differ

def Prepared (page : PageSize) (work : SEWorkload) (pid : Nat) (vaddr : Addr) (size : Nat) (clobber : Bool) : Prop :=
  ∀ i, newPages page work pid vaddr size clobber ≤ i → i * 2 ^ page.shift < vaddr.toNat % 2 ^ page.shift + size →
    (work.translate page pid (vaddr + ofNat 64 (i * 2 ^ page.shift))).isSome

theorem page_has_byte (some : 0 < size.toNat) (reached : i * 2 ^ page.shift < vaddr.toNat % 2 ^ page.shift + size.toNat) :
    ∃ k < size.toNat, (vaddr.toNat % 2 ^ page.shift + k) / 2 ^ page.shift = i := by
  have power := Nat.two_pow_pos page.shift
  have inside := Nat.mod_lt vaddr.toNat power
  cases i with
  | zero => exact ⟨0, some, Nat.div_eq_of_lt inside⟩
  | succ i =>
    have past : vaddr.toNat % 2 ^ page.shift ≤ (i + 1) * 2 ^ page.shift :=
      inside.le.trans (Nat.le_mul_of_pos_left _ (Nat.succ_pos i))
    refine ⟨(i + 1) * 2 ^ page.shift - vaddr.toNat % 2 ^ page.shift, by omega, ?_⟩
    rw [Nat.add_sub_cancel' past, Nat.mul_div_cancel _ power]

/-- An allocation that returns has changed nothing outside the pages of its request and, if it
is not to clobber, nothing that was there. All bytes of the request have a translation after
it just when the pages that it does not map were there before. -/
theorem allocation_covers (positive : 0 < size.toInt) (ran : work.allocateMem page pid vaddr size clobber = .ok next) :
    (∀ a, (∀ k < size.toNat, page.pageAlign a ≠ page.pageAlign (vaddr + BitVec.ofNat 64 k)) →
      next.translate page pid a = work.translate page pid a) ∧
    (clobber = false → ∀ a paddr, work.translate page pid a = some paddr → next.translate page pid a = some paddr) ∧
    ((∀ k < size.toNat, (next.translate page pid (vaddr + BitVec.ofNat 64 k)).isSome) ↔
      Prepared page work pid vaddr size.toNat clobber) := by
  have mapped := allocateMem_mapped positive ran
  obtain ⟨some, _⟩ := toNat_lt positive
  refine ⟨fun a outside => allocateMem_outside positive ran outside, ?_, ?_, ?_⟩
  · rintro rfl a paddr found
    exact allocateMem_kept ran found
  · intro covered i later reached
    obtain ⟨k, among, same⟩ := page_has_byte some reached
    have found := covered k among
    rw [translate_isSome, pageAlign_byte, same] at found
    rw [translate_isSome, pageAlign_page, ← mapped.outside _ ?_]
    · exact found
    · intro j less
      have short : 2 ^ page.shift ≤ 2 ^ 62 := Nat.pow_le_pow_right (by omega) (Nat.le_of_lt_succ page.fits)
      have before : j * 2 ^ page.shift ≤ i * 2 ^ page.shift := Nat.mul_le_mul_right _ (by omega)
      exact pageNumber_ne (by omega) (by omega) (by omega)
  · intro prepared k less
    rw [translate_isSome, pageAlign_byte]
    by_cases counts : (vaddr.toNat % 2 ^ page.shift + k) / 2 ^ page.shift < newPages page work pid vaddr size.toNat clobber
    · exact mapped.inside _ counts
    · apply mapped.isSome
      have reached := Nat.div_mul_le_self (vaddr.toNat % 2 ^ page.shift + k) (2 ^ page.shift)
      have found := prepared _ (Nat.le_of_not_lt counts) (by omega)
      rwa [translate_isSome, pageAlign_page] at found

theorem prepared_iff (fresh : ¬(clobber = false ∧ (work.translate page pid vaddr).isSome))
    (few : asked page size.toNat < 2 ^ 31) (fits : asked page size.toNat * 2 ^ page.shift < 2 ^ 63) :
    Prepared page work pid vaddr size.toNat clobber ↔
      vaddr.toNat % 2 ^ page.shift + size.toNat ≤ asked page size.toNat * 2 ^ page.shift ∨
        (work.translate page pid (vaddr + ofNat 64 (asked page size.toNat * 2 ^ page.shift))).isSome := by
  have same : newPages page work pid vaddr size.toNat clobber = asked page size.toNat := by
    rw [newPages, if_neg fresh, counted, Nat.mod_eq_of_lt (few.trans (by decide))]
    exact if_pos ⟨few, fits⟩
  have filled := le_asked page size.toNat
  unfold Prepared
  rw [same]
  constructor
  · intro prepared
    by_cases inside : vaddr.toNat % 2 ^ page.shift + size.toNat ≤ asked page size.toNat * 2 ^ page.shift
    · exact .inl inside
    · exact .inr (prepared _ (Nat.le_refl _) (Nat.lt_of_not_le inside))
  · intro last i later reached
    have only : i = asked page size.toNat := by
      by_contra differ
      have past : (asked page size.toNat + 1) * 2 ^ page.shift ≤ i * 2 ^ page.shift := Nat.mul_le_mul_right _ (by omega)
      rw [Nat.succ_mul] at past
      omega
    subst only
    rcases last with inside | found
    · omega
    · exact found

theorem allocation_covers_two : ∃ next, fresh.allocateMem fourK 0 0x1800 0x1800 false = .ok next ∧
    ∀ k < 0x1800, (next.translate fourK 0 (0x1800 + BitVec.ofNat 64 k)).isSome := by
  obtain ⟨next, ran, _⟩ := ok_of_check (fresh.allocateMem fourK 0 0x1800 0x1800 false) (fun _ => true) (by decide +kernel)
  have prepared : Prepared fourK fresh 0 0x1800 (0x1800 : BitVec 64).toNat false :=
    (prepared_iff (by decide) (by decide) (by decide)).mpr (.inl (by decide))
  exact ⟨next, ran, (allocation_covers (by decide) ran).2.2.mpr prepared⟩

/-- A request of one page from the middle of a page has no translation for its second half. -/
theorem allocation_falls_short : ∃ next, fresh.allocateMem fourK 0 0x1800 0x1000 false = .ok next ∧
    ¬∀ k < 0x1000, (next.translate fourK 0 (0x1800 + BitVec.ofNat 64 k)).isSome := by
  obtain ⟨next, ran, short⟩ := ok_of_check (fresh.allocateMem fourK 0 0x1800 0x1000 false)
    (fun next => (next.translate fourK 0 0x2000).isNone) (by decide +kernel)
  refine ⟨next, ran, fun covered => ?_⟩
  have found := covered 0x800 (by decide)
  have last : (0x1800 : Addr) + ofNat 64 0x800 = 0x2000 := by decide
  rw [last] at found
  rw [Option.isNone_iff_eq_none] at short
  rw [short] at found
  cases found

end Requests

end ImcGem5.Sim.Proofs.Allocation

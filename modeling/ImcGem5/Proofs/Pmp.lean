import ImcGem5.Riscv.Pmp

/-! Physical memory protection against the privileged specification. The specification
asks the lowest entry that matches any byte of an access; the code asks the lowest one
that matches its first and its last byte. -/

namespace ImcGem5.Riscv.Proofs.Pmp
open Lib Mem List PMP
open BitVec hiding not_not or_comm
open BitVec (ofNat ule ult)

/-- Whether the registers of an entry match a byte. They hold word addresses: a range, a
word, or all that agree above the trailing ones. -/
def matchesByte (prevAddr : Addr) (entry : PmpEntry) (byte : Addr) : Bool :=
  let word := byte >>> 2
  match pmpGetAField entry.pmpCfg with
  | .off => false
  | .tor => prevAddr.ule word && word.ult entry.rawAddr
  | .na4 => word == entry.rawAddr
  | .napot => word >>> (ctz64 (~~~entry.rawAddr) + 1) == entry.rawAddr >>> (ctz64 (~~~entry.rawAddr) + 1)

def rows (table : List PmpEntry) : List (Addr × PmpEntry) := (0 :: table.map (·.rawAddr)).zip table

def bytes (req : PmpRequest) : List Addr := (List.range req.size).map fun k => req.paddr + ofNat 64 k

def touches (req : PmpRequest) (row : Addr × PmpEntry) : Bool := (bytes req).any (matchesByte row.1 row.2)

def covers (req : PmpRequest) (row : Addr × PmpEntry) : Bool := (bytes req).all (matchesByte row.1 row.2)

def specification (table : List PmpEntry) (req : PmpRequest) (mode : AccessMode) (pmode : PrivilegeMode) : Bool :=
  match (rows table).find? (touches req) with
  | some row => covers req row && PMP.decides row.2 mode pmode
  | none => pmode = .machine || !table.any (·.active)

/-- Ranges, rule count and lock flag agree with the entries. -/
structure Synced (pmp : PMP) : Prop where
  ranges : ∀ (index : Nat) (entry : PmpEntry), pmp.pmpTable[index]? = some entry → entry.pmpAddr = entry.rule (PMP.prevAddr pmp.pmpTable index)
  numRules : pmp.numRules = pmp.pmpTable.countP (·.active)
  hasLockEntry : pmp.hasLockEntry = pmp.pmpTable.any (·.locked)

variable {table : List PmpEntry} {index : Nat} {entry : PmpEntry} {pmp : PMP} {row : Addr × PmpEntry} {req : PmpRequest} {raw : Addr}

theorem prevAddr_set {after : PmpEntry} (held : table[index]? = some entry)
    (raw : after.rawAddr = entry.rawAddr) (other : Nat) : PMP.prevAddr (table.set index after) other = PMP.prevAddr table other := by
  unfold PMP.prevAddr
  split
  · rw [getElem?_set]
    split
    · next same =>
      rw [← same, held, if_pos (List.getElem?_eq_some_iff.mp held).1]
      simp only [Option.map_some, Option.getD_some, raw]
    · rfl
  · rfl

/-- Only entry `index` and the summary change. -/
structure Refreshed (pmp after : PMP) (index : Nat) : Prop where
  length : after.pmpTable.length = pmp.pmpTable.length
  others : ∀ other : Nat, other ≠ index → after.pmpTable[other]? = pmp.pmpTable[other]?
  prevAddr : ∀ other, PMP.prevAddr after.pmpTable other = PMP.prevAddr pmp.pmpTable other
  here : ∀ entry, after.pmpTable[index]? = some entry → entry.pmpAddr = entry.rule (PMP.prevAddr after.pmpTable index)
  numRules : after.numRules = after.pmpTable.countP (·.active)
  hasLockEntry : after.hasLockEntry = after.pmpTable.any (·.locked)

theorem pmpUpdateRule_refreshed (held : pmp.pmpTable[index]? = some entry) (cfg : PmpCfg) :
    Refreshed pmp (pmpUpdateRule { pmp with pmpTable := pmp.pmpTable.set index { entry with pmpCfg := cfg } } index) index := by
  have inside := (List.getElem?_eq_some_iff.mp held).1
  have set : (pmp.pmpTable.set index { entry with pmpCfg := cfg })[index]? = some { entry with pmpCfg := cfg } := by
    rw [getElem?_set_self inside]
  have prev : ∀ after : PmpEntry, after.rawAddr = entry.rawAddr → ∀ other,
      PMP.prevAddr ((pmp.pmpTable.set index { entry with pmpCfg := cfg }).set index after) other = PMP.prevAddr pmp.pmpTable other := by
    intro after raw other
    rw [set_set]
    exact prevAddr_set held raw other
  unfold pmpUpdateRule
  rw [set]
  dsimp only
  refine ⟨?_, ?_, prev _ rfl, ?_, rfl, rfl⟩
  · rw [length_set, length_set]
  · intro other apart
    rw [getElem?_set_ne (Ne.symm apart), getElem?_set_ne (Ne.symm apart)]
  · intro found is
    rw [set_set, getElem?_set_self inside, Option.some.injEq] at is
    subst is
    refine congrArg (PmpEntry.rule { entry with pmpCfg := cfg }) ?_
    exact (prevAddr_set held (by rfl) index).trans (prev _ (by rfl) index).symm

theorem Refreshed.synced {after : PMP} (refreshed : Refreshed pmp after index) (synced : Synced pmp) : Synced after := by
  refine ⟨?_, refreshed.numRules, refreshed.hasLockEntry⟩
  intro other entry held
  by_cases here : other = index
  · subst here
    exact refreshed.here entry held
  · rw [refreshed.others other here] at held
    rw [refreshed.prevAddr]
    exact synced.ranges other entry held

theorem refreshAll {refresh : PMP → Nat → PMP} (refreshes : ∀ pmp index, index < pmp.pmpTable.length → Refreshed pmp (refresh pmp index) index)
    (nonempty : 0 < pmp.pmpTable.length) : Synced ((List.range pmp.pmpTable.length).foldl refresh pmp) := by
  have upTo : ∀ turns, turns ≤ pmp.pmpTable.length → ∃ after, (List.range turns).foldl refresh pmp = after ∧
      after.pmpTable.length = pmp.pmpTable.length ∧
      (∀ (index : Nat) (entry : PmpEntry), index < turns → after.pmpTable[index]? = some entry →
        entry.pmpAddr = entry.rule (PMP.prevAddr after.pmpTable index)) ∧
      (0 < turns → after.numRules = after.pmpTable.countP (·.active) ∧ after.hasLockEntry = after.pmpTable.any (·.locked)) := by
    intro turns
    induction turns with
    | zero => exact fun _ => ⟨pmp, rfl, rfl, fun index entry low => absurd low (Nat.not_lt_zero _), fun more => absurd more (Nat.not_lt_zero _)⟩
    | succ turns ih =>
      intro bound
      obtain ⟨middle, ran, length, below, _⟩ := ih (by omega)
      have refreshed := refreshes middle turns (by omega)
      refine ⟨refresh middle turns, ?_, refreshed.length.trans length, ?_, fun _ => ⟨refreshed.numRules, refreshed.hasLockEntry⟩⟩
      · rw [range_succ, foldl_append, ran]
        rfl
      · intro index entry low held
        by_cases here : index = turns
        · subst here
          exact refreshed.here entry held
        · rw [refreshed.others index here] at held
          rw [refreshed.prevAddr]
          exact below index entry (by omega) held
  obtain ⟨after, ran, length, all, counters⟩ := upTo _ (Nat.le_refl _)
  rw [ran]
  obtain ⟨numRules, hasLockEntry⟩ := counters nonempty
  refine ⟨fun index entry held => all index entry ?_ held, numRules, hasLockEntry⟩
  rw [← length]
  exact (List.getElem?_eq_some_iff.mp held).1

theorem updateRule_refreshes (pmp : PMP) (index : Nat) (inside : index < pmp.pmpTable.length) :
    Refreshed pmp (pmp.pmpUpdateRule index) index := by
  have held : pmp.pmpTable[index]? = some pmp.pmpTable[index] := getElem?_eq_getElem inside
  have refreshed := pmpUpdateRule_refreshed held pmp.pmpTable[index].pmpCfg
  rw [show pmp.pmpTable.set index { pmp.pmpTable[index] with pmpCfg := pmp.pmpTable[index].pmpCfg } = pmp.pmpTable from
    set_getElem_self inside] at refreshed
  exact refreshed

theorem resetEntry_refreshes (pmp : PMP) (index : Nat) (inside : index < pmp.pmpTable.length) :
    Refreshed pmp (pmp.resetEntry index) index := by
  have held : pmp.pmpTable[index]? = some pmp.pmpTable[index] := getElem?_eq_getElem inside
  unfold resetEntry
  rw [held]
  exact pmpUpdateRule_refreshed held _

theorem apply_synced (synced : Synced pmp) (op : PmpOp) : Synced (pmp.apply op) := by
  cases op with
  | updateCfg _ cfg =>
    unfold PMP.apply pmpUpdateCfg
    dsimp only
    split
    · exact synced
    · next entry held =>
      split
      · exact synced
      · exact (pmpUpdateRule_refreshed held cfg).synced synced
  | updateAddr =>
    unfold PMP.apply pmpUpdateAddr
    dsimp only
    split
    · exact synced
    · next entry held =>
      split
      · exact synced
      · split
        · exact synced
        · refine refreshAll updateRule_refreshes ?_
          rw [length_set]
          exact Nat.lt_of_le_of_lt (Nat.zero_le _) (List.getElem?_eq_some_iff.mp held).1
  | reset =>
    unfold PMP.apply pmpReset
    by_cases empty : pmp.pmpTable.length = 0
    · rw [empty]
      exact synced
    · exact refreshAll resetEntry_refreshes (Nat.pos_of_ne_zero empty)

theorem new_synced (pmpEntries : Nat) : Synced (PMP.new pmpEntries) := by
  have blank : ∀ entry ∈ (PMP.new pmpEntries).pmpTable, entry = {} := fun entry member => eq_of_mem_replicate member
  refine ⟨?_, ?_, ?_⟩
  · intro index entry held
    rw [blank entry (mem_of_getElem? held)]
    rfl
  · symm
    apply countP_eq_zero.mpr
    intro entry member
    rw [blank entry member]
    decide
  · symm
    apply any_eq_false.mpr
    intro entry member
    rw [blank entry member]
    decide

theorem reached_synced (pmpEntries : Nat) (ops : List PmpOp) : Synced (ops.foldl PMP.apply (PMP.new pmpEntries)) := by
  have start := new_synced pmpEntries
  generalize PMP.new pmpEntries = pmp at start ⊢
  induction ops generalizing pmp with
  | nil => exact start
  | cons op _ ih => exact ih (pmp.apply op) (apply_synced start op)

theorem rows_entries (table : List PmpEntry) : (rows table).map Prod.snd = table := by
  refine map_snd_zip ?_
  rw [length_cons, length_map]
  omega

theorem mem_rows (member : row ∈ rows table) : ∃ index : Nat, table[index]? = some row.2 ∧ PMP.prevAddr table index = row.1 := by
  obtain ⟨index, held⟩ := mem_iff_getElem?.mp member
  rw [rows, getElem?_zip_eq_some] at held
  obtain ⟨prev, here⟩ := held
  refine ⟨index, here, ?_⟩
  unfold PMP.prevAddr
  cases index with
  | zero =>
    rw [getElem?_cons_zero, Option.some.injEq] at prev
    exact prev
  | succ =>
    rw [getElem?_cons_succ, getElem?_map] at prev
    rw [if_pos (by omega), Nat.add_sub_cancel, prev]
    rfl

def hit (req : PmpRequest) (entry : PmpEntry) : Bool :=
  entry.active && (entry.pmpAddr.contains req.paddr && entry.pmpAddr.contains (req.paddr + ofNat 64 req.size - 1))

theorem scan_eq (mode : AccessMode) (pmode : PrivilegeMode) (req : PmpRequest) {matched : Option PmpEntry} (table : List PmpEntry)
    (inactive : ∀ entry ∈ matched, entry.active = false) :
    scan mode pmode req.paddr (req.paddr + ofNat 64 req.size - 1) matched table =
      (table.find? (hit req)).map (decides · mode pmode) := by
  induction table generalizing matched with
  | nil => rfl
  | cons entry _ ih =>
    rw [scan, find?_cons]
    unfold hit at ih ⊢
    by_cases inside : (entry.pmpAddr.contains req.paddr && entry.pmpAddr.contains (req.paddr + ofNat 64 req.size - 1)) = true
    · rw [if_pos inside, inside, Bool.and_true]
      dsimp only
      cases isActive : entry.active with
      | true => rfl
      | false =>
        rw [if_neg Bool.false_ne_true]
        refine ih fun _ same => ?_
        cases same
        exact isActive
    · rw [Bool.not_eq_true] at inside
      rw [inside, if_neg Bool.false_ne_true, Bool.and_false]
      cases matched with
      | none => exact ih inactive
      | some old =>
        dsimp only
        rw [inactive old rfl, if_neg Bool.false_ne_true]
        exact ih inactive

structure Intact (req : PmpRequest) : Prop where
  positive : 0 < req.size
  fits : req.paddr.toNat + req.size ≤ 2 ^ 64

def Decoded (table : List PmpEntry) (req : PmpRequest) : Prop :=
  ∀ row ∈ rows table, ∀ byte ∈ bytes req, (row.2.rule row.1).contains byte = matchesByte row.1 row.2 byte

/-- The lowest entry that touches an access covers it, or else the lowest one that does
cover it refuses, and in its absence the privilege is not M. -/
def Undivided (table : List PmpEntry) (req : PmpRequest) (mode : AccessMode) (pmode : PrivilegeMode) : Prop :=
  (∀ row ∈ (rows table).find? (touches req), covers req row = true) ∨
    (((rows table).find? (covers req)).map fun row => PMP.decides row.2 mode pmode).getD (pmode = .machine) = false

theorem byte_toNat (intact : Intact req) {k : Nat} (inside : k < req.size) :
    (req.paddr + ofNat 64 k).toNat = req.paddr.toNat + k := by
  have fits := intact.fits
  rw [toNat_add, toNat_ofNat, Nat.mod_eq_of_lt (by omega : k < 2 ^ 64), Nat.mod_eq_of_lt (by omega)]

theorem last_byte (intact : Intact req) : req.paddr + ofNat 64 req.size - 1 = req.paddr + ofNat 64 (req.size - 1) := by
  have positive := intact.positive
  have size : ofNat 64 req.size = ofNat 64 (req.size - 1) + 1 := by
    rw [show (1 : BitVec 64) = ofNat 64 1 from rfl, ← ofNat_add, Nat.sub_add_cancel positive]
  rw [size, ← BitVec.add_assoc, BitVec.add_sub_cancel]

theorem mem_bytes {k : Nat} (inside : k < req.size) : req.paddr + ofNat 64 k ∈ bytes req :=
  mem_map.mpr ⟨k, mem_range.mpr inside, rfl⟩

theorem active_of_matchesByte {prevAddr byte : Addr} (matching : matchesByte prevAddr entry byte = true) : entry.active = true := by
  unfold PmpEntry.active
  unfold matchesByte at matching
  apply decide_eq_true
  intro off
  rw [off] at matching
  cases matching

theorem hit_eq_covers (synced : Synced pmp) (intact : Intact req) (decoded : Decoded pmp.pmpTable req)
    (member : row ∈ rows pmp.pmpTable) : hit req row.2 = covers req row := by
  obtain ⟨index, held, prev⟩ := mem_rows member
  have range : row.2.pmpAddr = row.2.rule row.1 := by
    rw [← prev]
    exact synced.ranges index row.2 held
  have positive := intact.positive
  have first := decoded row member _ (mem_bytes positive)
  have last := decoded row member _ (mem_bytes (Nat.sub_lt positive Nat.one_pos))
  rw [show req.paddr + ofNat 64 0 = req.paddr from BitVec.add_zero _] at first
  rw [hit, range, last_byte intact, Bool.eq_iff_iff, Bool.and_eq_true, Bool.and_eq_true]
  constructor
  · intro ⟨_, low, high⟩
    apply all_eq_true.mpr
    intro byte isByte
    obtain ⟨k, small, rfl⟩ := mem_map.mp isByte
    rw [mem_range] at small
    rw [← decoded row member _ isByte]
    simp only [AddrRange.contains, ule, ult, Bool.and_eq_true, decide_eq_true_eq] at low high ⊢
    rw [byte_toNat intact (Nat.sub_lt positive Nat.one_pos)] at high
    rw [byte_toNat intact small]
    omega
  · intro covered
    have all := all_eq_true.mp covered
    have firstIn := all _ (mem_bytes positive)
    have lastIn := all _ (mem_bytes (Nat.sub_lt positive Nat.one_pos))
    refine ⟨active_of_matchesByte firstIn, ?_, last.trans lastIn⟩
    rw [first, ← show req.paddr + ofNat 64 0 = req.paddr from BitVec.add_zero _]
    exact firstIn

theorem touches_of_covers (intact : Intact req) (covered : covers req row = true) : touches req row = true :=
  any_eq_true.mpr ⟨_, mem_bytes intact.positive, all_eq_true.mp covered _ (mem_bytes intact.positive)⟩

theorem find_covers {list : List (Addr × PmpEntry)} {req : PmpRequest} (intact : Intact req) :
    (list.find? (touches req) = none → list.find? (covers req) = none) ∧
    ∀ row, list.find? (touches req) = some row → covers req row = true → list.find? (covers req) = some row := by
  induction list with
  | nil => exact ⟨fun _ => rfl, nofun⟩
  | cons first _ ih =>
    rw [find?_cons, find?_cons]
    cases touched : touches req first with
    | true =>
      refine ⟨nofun, fun row same covered => ?_⟩
      cases same
      rw [covered]
    | false =>
      have uncovered : covers req first = false := by
        by_contra covered
        rw [touches_of_covers intact (Bool.not_eq_false _ ▸ covered)] at touched
        cases touched
      rw [uncovered]
      exact ih

theorem active_of_touches (found : (rows table).find? (touches req) = some row) : table.countP (·.active) ≠ 0 := by
  have member := mem_of_find?_eq_some found
  have touched := find?_some found
  obtain ⟨_, _, matching⟩ := any_eq_true.mp touched
  obtain ⟨_, held, _⟩ := mem_rows member
  intro none_
  exact countP_eq_zero.mp none_ row.2 (mem_of_getElem? held) (active_of_matchesByte matching)

theorem pmpCheck_eq_none_iff (synced : Synced pmp) (intact : Intact req) (decoded : Decoded pmp.pmpTable req)
    (mode : AccessMode) (pmode : PrivilegeMode) (vaddr : Addr) :
    pmp.pmpCheck req mode pmode vaddr = none ↔ pmp.pmpTable.countP (·.active) = 0 ∨
      (((rows pmp.pmpTable).find? (covers req)).map fun row => decides row.2 mode pmode).getD (pmode = .machine) = true := by
  have scanned : scan mode pmode req.paddr (req.paddr + ofNat 64 req.size - 1) none pmp.pmpTable =
      ((rows pmp.pmpTable).find? (covers req)).map fun row => decides row.2 mode pmode := by
    rw [scan_eq mode pmode req pmp.pmpTable (fun _ impossible => by cases impossible)]
    conv_lhs => rw [← rows_entries pmp.pmpTable, find?_map, Option.map_map]
    have same : (rows pmp.pmpTable).find? (hit req ∘ Prod.snd) = (rows pmp.pmpTable).find? (covers req) := by
      rw [← head?_filter, ← head?_filter]
      exact congrArg List.head? (filter_congr fun row member => hit_eq_covers synced intact decoded member)
    rw [same]
    rfl
  unfold PMP.pmpCheck
  rw [scanned]
  generalize found : (rows pmp.pmpTable).find? (covers req) = result
  by_cases checked : pmp.shouldCheckPMP pmode = true
  · have rules : pmp.pmpTable.countP (·.active) ≠ 0 := by
      rw [shouldCheckPMP, Bool.and_eq_true, decide_eq_true_eq, synced.numRules] at checked
      exact checked.1
    rw [checked, Bool.not_true, if_neg Bool.false_ne_true]
    simp only [rules, false_or]
    cases (result.map fun row => decides row.2 mode pmode).getD (pmode = .machine) with
    | true => simp
    | false => simp
  · rw [Bool.not_eq_true] at checked
    rw [checked, Bool.not_false, if_pos rfl]
    refine iff_of_true rfl ?_
    rw [shouldCheckPMP, synced.numRules, synced.hasLockEntry, Bool.and_eq_false_iff, decide_eq_false_iff_not, not_not,
      Bool.or_eq_false_iff, decide_eq_false_iff_not, not_not] at checked
    refine checked.imp_right fun ⟨machine, unlocked⟩ => ?_
    cases result with
    | none => exact decide_eq_true machine
    | some row =>
      obtain ⟨_, held, _⟩ := mem_rows (mem_of_find?_eq_some found)
      have open_ := any_eq_false.mp unlocked row.2 (mem_of_getElem? held)
      simp [decides, machine, open_]

/-- The check is that of the specification exactly where no entry divides an access that
the rest of the table would let through. -/
theorem check_iff_specification (pmpEntries : Nat) (ops : List PmpOp) (req : PmpRequest) (mode : AccessMode) (pmode : PrivilegeMode)
    (vaddr : Addr) (intact : Intact req) (decoded : Decoded (ops.foldl PMP.apply (PMP.new pmpEntries)).pmpTable req) :
    ((ops.foldl PMP.apply (PMP.new pmpEntries)).pmpCheck req mode pmode vaddr = none ↔
      specification (ops.foldl PMP.apply (PMP.new pmpEntries)).pmpTable req mode pmode = true) ↔
    Undivided (ops.foldl PMP.apply (PMP.new pmpEntries)).pmpTable req mode pmode := by
  have synced := reached_synced pmpEntries ops
  generalize ops.foldl PMP.apply (PMP.new pmpEntries) = pmp at synced decoded ⊢
  rw [pmpCheck_eq_none_iff synced intact decoded]
  obtain ⟨missed, first⟩ := @find_covers (rows pmp.pmpTable) req intact
  unfold specification Undivided
  cases touched : (rows pmp.pmpTable).find? (touches req) with
  | none =>
    rw [missed touched]
    refine iff_of_true ?_ (.inl nofun)
    have none_ : pmp.pmpTable.countP (·.active) = 0 ↔ (!pmp.pmpTable.any (·.active)) = true := by
      rw [countP_eq_zero, Bool.not_eq_true', any_eq_false]
    dsimp only [Option.map_none, Option.getD_none]
    rw [none_, Bool.or_eq_true, or_comm]
  | some row =>
    have rules := active_of_touches touched
    simp only [rules, false_or]
    cases covered : covers req row with
    | true =>
      rw [first row touched covered]
      refine iff_of_true ?_ (.inl fun other same => ?_)
      · rw [Bool.true_and]
        rfl
      · cases same
        exact covered
    | false =>
      have divided : ¬∀ other ∈ some row, covers req other = true := by
        intro all
        have covered' := all row rfl
        rw [covered] at covered'
        cases covered'
      rw [Bool.false_and, or_iff_right divided]
      simp only [Bool.false_eq_true, iff_false, Bool.not_eq_true]

section

variable (narrow : raw.toNat < 2 ^ 54)
include narrow

theorem trailing_ones :
    ∃ ones, ctz64 (~~~raw) = ones ∧ ones ≤ 54 ∧ raw.toNat = raw.toNat / 2 ^ (ones + 1) * 2 ^ (ones + 1) + (2 ^ ones - 1) := by
  have high : raw.getLsbD 54 = false := by
    rw [← testBit_toNat]
    exact Nat.testBit_lt_two_pow narrow
  obtain ⟨ones, found⟩ : ∃ ones, (List.range 64).find? (~~~raw).getLsbD = some ones := by
    apply Option.isSome_iff_exists.mp
    rw [find?_isSome]
    exact ⟨54, mem_range.mpr (by omega), by rw [getLsbD_not, high]; rfl⟩
  obtain ⟨zero, inside, below⟩ := find?_range_eq_some.mp found
  rw [mem_range] at inside
  have small : ones ≤ 54 := by
    by_contra large
    have one := below 54 (by omega)
    rw [getLsbD_not, high] at one
    cases one
  refine ⟨ones, by rw [ctz64, found]; rfl, small, ?_⟩
  have rest : raw.toNat % 2 ^ (ones + 1) = 2 ^ ones - 1 := by
    apply Nat.eq_of_testBit_eq
    intro i
    rw [Nat.testBit_mod_two_pow, Nat.testBit_two_pow_sub_one, testBit_toNat]
    by_cases low : i < ones
    · have one := below i low
      have bound : i < 64 := by omega
      simp only [getLsbD_not, bound, decide_true, Bool.true_and, Bool.not_not] at one
      simp [low, one]
      omega
    · by_cases here : i = ones
      · subst here
        simp only [getLsbD_not, inside, decide_true, Bool.true_and, Bool.not_eq_true'] at zero
        simp [zero]
      · have past : ¬i < ones + 1 := by omega
        simp [low, past]
  rw [← rest, Nat.mul_comm]
  exact (Nat.div_add_mod _ _).symm

theorem napot_bounds : ∃ high ones, ctz64 (~~~raw) = ones ∧
    raw.toNat = high * 2 ^ (ones + 1) + (2 ^ ones - 1) ∧ (pmpDecodeNapot raw).start.toNat = high * 2 ^ (ones + 3) ∧
      (pmpDecodeNapot raw).stop.toNat = (high + 1) * 2 ^ (ones + 3) := by
  obtain ⟨ones, isOnes, _, whole⟩ := trailing_ones narrow
  refine ⟨raw.toNat / 2 ^ (ones + 1), ones, isOnes, whole, ?_⟩
  have notAll : raw ≠ -1 := by
    intro all
    rw [all] at narrow
    revert narrow
    decide
  rw [pmpDecodeNapot, if_neg notAll, isOnes]
  generalize raw.toNat / 2 ^ (ones + 1) = q at whole
  have power : 2 ^ (ones + 3) = 2 ^ (ones + 1) * 4 := by rw [show ones + 3 = ones + 1 + 2 by omega, Nat.pow_add]
  have twice : 2 ^ (ones + 1) = 2 ^ ones * 2 := Nat.pow_succ _ _
  have positive : 0 < 2 ^ ones := Nat.two_pow_pos ones
  have quotient : raw.toNat / 2 ^ ones * 2 ^ ones = q * 2 ^ (ones + 1) := by
    have halves : raw.toNat / 2 ^ ones = q * 2 := by
      rw [whole, twice, ← Nat.mul_assoc, Nat.mul_right_comm, Nat.mul_comm _ (2 ^ ones), Nat.mul_add_div positive]
      rw [Nat.div_eq_of_lt (by omega), Nat.add_zero]
    rw [halves, twice, Nat.mul_assoc, Nat.mul_comm 2]
  have base : (mbitsFrom raw ones <<< 2).toNat = q * 2 ^ (ones + 3) := by
    rw [mbitsFrom, toNat_shiftLeft, toNat_shiftLeft, toNat_ushiftRight, Nat.shiftRight_eq_div_pow,
      Nat.shiftLeft_eq, Nat.shiftLeft_eq, quotient, Nat.mod_eq_of_lt (by omega), Nat.mod_eq_of_lt (by omega), power, Nat.mul_assoc]
  have range : (1#64 <<< ((ones + 3) % 64)).toNat = 2 ^ (ones + 3) := by
    rw [Nat.mod_eq_of_lt (by omega), toNat_shiftLeft, Nat.shiftLeft_eq]
    rw [show (1#64).toNat = 1 from rfl, Nat.one_mul, Nat.mod_eq_of_lt (by omega)]
  refine ⟨base, ?_⟩
  rw [toNat_add, base, range, Nat.mod_eq_of_lt, Nat.succ_mul]
  rw [power, ← Nat.mul_assoc]
  omega

theorem contains_napot (byte : Addr) :
    (pmpDecodeNapot raw).contains byte = ((byte >>> 2) >>> (ctz64 (~~~raw) + 1) == raw >>> (ctz64 (~~~raw) + 1)) := by
  obtain ⟨high, ones, isOnes, whole, start, stop⟩ := napot_bounds narrow
  have power : 2 ^ (ones + 3) = 2 ^ (ones + 1) * 4 := by rw [show ones + 3 = ones + 1 + 2 by omega, Nat.pow_add]
  have positive : 0 < 2 ^ ones := Nat.two_pow_pos ones
  have top : raw.toNat / 2 ^ (ones + 1) = high := by
    rw [whole, Nat.mul_comm, Nat.mul_add_div (Nat.two_pow_pos _), Nat.div_eq_of_lt (by omega), Nat.add_zero]
  have word : ((byte >>> 2) >>> (ones + 1)).toNat = byte.toNat / 2 ^ (ones + 3) := by
    rw [toNat_ushiftRight, toNat_ushiftRight, Nat.shiftRight_eq_div_pow, Nat.shiftRight_eq_div_pow, Nat.div_div_eq_div_mul,
      power, Nat.mul_comm]
  rw [isOnes, Bool.eq_iff_iff, beq_iff_eq, ← toNat_inj, word, toNat_ushiftRight, Nat.shiftRight_eq_div_pow, top,
    Nat.div_eq_iff (Nat.two_pow_pos _)]
  rw [Nat.succ_mul] at stop
  simp only [AddrRange.contains, ule, ult, Bool.and_eq_true, decide_eq_true_eq, start, stop]
  omega

end

theorem contains_rule {prevAddr : Addr} (narrow : prevAddr.toNat < 2 ^ 54) (narrow' : entry.rawAddr.toNat < 2 ^ 54)
    (byte : Addr) : (entry.rule prevAddr).contains byte = matchesByte prevAddr entry byte := by
  have shifted : ∀ {raw : Addr}, raw.toNat < 2 ^ 54 → (raw <<< 2).toNat = raw.toNat * 4 := by
    intro raw small
    rw [toNat_shiftLeft, Nat.shiftLeft_eq, Nat.mod_eq_of_lt (by omega)]
  have word : (byte >>> 2).toNat = byte.toNat / 4 := by
    rw [toNat_ushiftRight, Nat.shiftRight_eq_div_pow]
  have start := shifted narrow
  have stop := shifted narrow'
  unfold PmpEntry.rule matchesByte
  cases pmpGetAField entry.pmpCfg with
  | off =>
    rw [Bool.eq_iff_iff]
    simp [AddrRange.contains, ult]
  | tor =>
    rw [Bool.eq_iff_iff]
    simp only [AddrRange.contains, ule, ult, Bool.and_eq_true, decide_eq_true_eq, start, stop, word]
    omega
  | na4 =>
    have four : (entry.rawAddr <<< 2 + 4).toNat = entry.rawAddr.toNat * 4 + 4 := by
      rw [toNat_add, stop, show (4 : BitVec 64).toNat = 4 from rfl, Nat.mod_eq_of_lt (by omega)]
    rw [Bool.eq_iff_iff]
    simp only [AddrRange.contains, ule, ult, Bool.and_eq_true, decide_eq_true_eq, stop, four, beq_iff_eq, ← toNat_inj, word]
    omega
  | napot => exact contains_napot narrow' byte

theorem decoded_of_narrow (narrow : ∀ entry ∈ table, entry.rawAddr.toNat < 2 ^ 54) (req : PmpRequest) : Decoded table req := by
  intro row member byte _
  obtain ⟨prev, here⟩ := of_mem_zip member
  refine contains_rule ?_ (narrow row.2 here) byte
  obtain first | later := mem_cons.mp prev
  · rw [first]
    decide
  · obtain ⟨entry, isEntry, same⟩ := mem_map.mp later
    rw [← same]
    exact narrow entry isEntry

def pmpHistory : List PmpOp :=
  [.updateAddr 0 0x400, .updateAddr 1 0x3FFFFF, .updateCfg 0 0x10, .updateCfg 1 0x1F]

theorem check_iff_specification_history :
    ((pmpHistory.foldl PMP.apply (PMP.new 2)).pmpCheck ⟨0x1000, 4, none⟩ .read .supervisor 0 = none ↔
      specification (pmpHistory.foldl PMP.apply (PMP.new 2)).pmpTable ⟨0x1000, 4, none⟩ .read .supervisor = true) ↔
    Undivided (pmpHistory.foldl PMP.apply (PMP.new 2)).pmpTable ⟨0x1000, 4, none⟩ .read .supervisor :=
  check_iff_specification 2 pmpHistory ⟨0x1000, 4, none⟩ .read .supervisor 0 ⟨by decide, by decide⟩ (decoded_of_narrow (by decide) _)

/-- Eight bytes from the protected word on are read through the entry behind it. -/
theorem check_divided : Intact ⟨0x1000, 8, none⟩ ∧ Decoded (pmpHistory.foldl PMP.apply (PMP.new 2)).pmpTable ⟨0x1000, 8, none⟩ ∧
    (pmpHistory.foldl PMP.apply (PMP.new 2)).pmpCheck ⟨0x1000, 8, none⟩ .read .supervisor 0 = none ∧
    specification (pmpHistory.foldl PMP.apply (PMP.new 2)).pmpTable ⟨0x1000, 8, none⟩ .read .supervisor = false := by
  refine ⟨⟨by decide, by decide⟩, decoded_of_narrow (by decide) _, by decide, by decide⟩

end ImcGem5.Riscv.Proofs.Pmp

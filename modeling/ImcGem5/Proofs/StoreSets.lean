import ImcGem5.Cpu.StoreSet

/-! The loop of StoreSet::squash ends. A store that is on the list is no younger than the last one
that was fetched for its set, so that every turn of the loop takes a store off the list. -/

namespace ImcGem5.Cpu.O3.Proofs.StoreSets
open Lib Mem StoreSet List Function

variable {params : StoreSetParams} {set next : StoreSet params} {n turns : Nat} {squashedNum seqNum : InstSeqNum}

/-- What the calls leave when all stores so far were numbered below `n`. -/
structure Fetched (n : InstSeqNum) (set : StoreSet params) : Prop where
  ordered : set.storeList.Pairwise fun younger older => older.1 < younger.1
  below : ∀ entry ∈ set.storeList, entry.1 < n
  last : ∀ idx, set.LFST idx = 0 ∨ set.LFST idx < n
  younger : ∀ entry ∈ set.storeList, entry.1 ≤ set.LFST entry.2
  own : ∀ entry ∈ set.storeList, ∀ idx, 0 < entry.1 → set.LFST idx = entry.1 → idx = entry.2

structure Squashed (squashedNum : InstSeqNum) (set next : StoreSet params) : Prop where
  older : ∀ entry ∈ next.storeList, entry.1 ≤ squashedNum
  invalid : ∀ idx, squashedNum < set.LFST idx → (∃ entry ∈ set.storeList, entry.1 = set.LFST idx) → next.validLFST idx = false

theorem fetched_init : Fetched 0 (init params) where
  ordered := .nil
  below _ := nofun
  last _ := .inl rfl
  younger _ := nofun
  own _ := nofun

section

variable (fetched : Fetched n set)
include fetched

theorem Fetched.fewer (same : next.LFST = set.LFST) (fewer : next.storeList.Sublist set.storeList) :
    Fetched n next where
  ordered := fetched.ordered.sublist fewer
  below entry member := fetched.below entry (fewer.subset member)
  last := same ▸ fetched.last
  younger entry member := same ▸ fetched.younger entry (fewer.subset member)
  own entry member := same ▸ fetched.own entry (fewer.subset member)

theorem Fetched.checkClear : Fetched n set.checkClear := by
  unfold StoreSet.checkClear
  split
  · exact fetched.fewer rfl (nil_sublist _)
  · exact fetched.fewer rfl (List.Sublist.refl _)

theorem Fetched.violation (storePC loadPC : Addr) : Fetched n (set.violation storePC loadPC) := by
  have same : (set.violation storePC loadPC).LFST = set.LFST ∧ (set.violation storePC loadPC).storeList = set.storeList := by
    unfold StoreSet.violation
    dsimp only
    split_ifs <;> exact ⟨rfl, rfl⟩
  exact fetched.fewer same.1 (same.2 ▸ List.Sublist.refl _)

theorem Fetched.issued (issuedPC : Addr) (isStore : Bool) : Fetched n (set.issued issuedPC seqNum isStore) := by
  unfold StoreSet.issued
  dsimp only
  split_ifs
  · exact fetched
  · exact fetched.fewer rfl filter_sublist
  · exact fetched.fewer rfl filter_sublist
  · exact fetched.fewer rfl filter_sublist

end

theorem assignStore_young {α : Type} {ssid : α} {stores : List (InstSeqNum × α)} (below : ∀ entry ∈ stores, entry.1 < seqNum) :
    assignStore seqNum ssid stores = (seqNum, ssid) :: stores := by
  cases stores with
  | nil => rfl
  | cons first =>
    have less := below first mem_cons_self
    rw [assignStore, if_neg (not_lt.mpr less.le), if_neg less.ne]

theorem Fetched.fetch (fetched : Fetched n set) (late : n ≤ seqNum) (ssid : SSID params) : Fetched (seqNum + 1) { set with
    LFST := update set.LFST ssid seqNum
    validLFST := update set.validLFST ssid true
    storeList := (seqNum, ssid) :: set.storeList } := by
  have below : ∀ entry ∈ set.storeList, entry.1 < seqNum := fun entry member => (fetched.below entry member).trans_le late
  refine ⟨pairwise_cons.mpr ⟨below, fetched.ordered⟩, ?_, fun idx => ?_, ?_, fun entry member idx positive equal => ?_⟩
  · exact forall_mem_cons.mpr ⟨Nat.lt_succ_self _, fun entry member => (below entry member).trans (Nat.lt_succ_self _)⟩
  · dsimp only
    by_cases same : idx = ssid
    · rw [same, update_self]
      exact .inr (Nat.lt_succ_self _)
    · rw [update_of_ne same]
      exact (fetched.last idx).imp_right fun less => (less.trans_le late).trans (Nat.lt_succ_self _)
  · dsimp only
    refine forall_mem_cons.mpr ⟨by rw [update_self], fun entry member => ?_⟩
    by_cases same : entry.2 = ssid
    · rw [same, update_self]
      exact (below entry member).le
    · rw [update_of_ne same]
      exact fetched.younger entry member
  · dsimp only at equal
    by_cases same : idx = ssid
    · rw [same, update_self] at equal
      obtain rfl | old := mem_cons.mp member
      · exact same
      · exact absurd equal (below entry old).ne'
    · rw [update_of_ne same] at equal
      obtain rfl | old := mem_cons.mp member
      · obtain zero | less := fetched.last idx
        · exact absurd (equal.symm.trans zero) positive.ne'
        · exact absurd equal (less.trans_le late).ne
      · exact fetched.own entry old idx positive equal

theorem Fetched.insertStore (fetched : Fetched n set) (storePC : Addr) (late : n ≤ seqNum) :
    Fetched (seqNum + 1) (set.insertStore storePC seqNum) := by
  have cleared := fetched.checkClear
  unfold StoreSet.insertStore
  dsimp only
  generalize set.checkClear = set at cleared ⊢
  split
  · exact ⟨cleared.ordered, fun entry member => (cleared.below entry member).trans_le (late.trans (Nat.le_succ _)),
      fun idx => (cleared.last idx).imp_right fun less => less.trans_le (late.trans (Nat.le_succ _)), cleared.younger, cleared.own⟩
  · rw [assignStore_young fun entry member => (cleared.below entry member).trans_le late]
    exact cleared.fetch late _

theorem squashTurn_young (fetched : Fetched n set) {idx : SSID params} {rest : List (InstSeqNum × SSID params)}
    (shape : set.storeList = (seqNum, idx) :: rest) (young : squashedNum < seqNum) :
    set.squashTurn squashedNum = some { set with validLFST := update set.validLFST idx false, storeList := rest } := by
  have younger : squashedNum < set.LFST idx := by
    have last := fetched.younger (seqNum, idx) (by rw [shape]; exact mem_cons_self)
    exact young.trans_le last
  unfold squashTurn
  rw [shape]
  dsimp only
  rw [if_neg (not_le.mpr young), decide_eq_true younger]
  cases valid : set.validLFST idx with
  | true => rfl
  | false =>
    have same : update set.validLFST idx false = set.validLFST := by rw [← valid, update_eq_self]
    rw [same]
    rfl

theorem squashTurn_end (old : ∀ entry ∈ set.storeList.head?, entry.1 ≤ squashedNum) : set.squashTurn squashedNum = none := by
  unfold squashTurn
  cases shape : set.storeList with
  | nil => rfl
  | cons entry =>
    dsimp only
    rw [if_pos (old entry (by rw [shape]; rfl))]

/-- By induction on the turns. Each takes a store off the list, and makes its set invalid. -/
theorem squash_spec (fetched : Fetched n set) (enough : set.storeList.length ≤ turns) : ∃ next, set.squash squashedNum turns = some next ∧
    next.LFST = set.LFST ∧ next.storeList.Sublist set.storeList ∧ (∀ entry ∈ next.storeList, entry.1 ≤ squashedNum) ∧ (∀ idx, set.validLFST idx = false → next.validLFST idx = false) ∧
      ∀ entry ∈ set.storeList, squashedNum < entry.1 → next.validLFST entry.2 = false := by
  induction turns generalizing set with
  | zero =>
    have empty := eq_nil_of_length_eq_zero (Nat.le_zero.mp enough)
    have ends : set.squashTurn squashedNum = none := squashTurn_end (by rw [empty]; nofun)
    refine ⟨set, by rw [squash, ends]; rfl, rfl, List.Sublist.refl _, ?_, fun _ invalid => invalid, ?_⟩
    · rw [empty]
      exact nofun
    · rw [empty]
      exact nofun
  | succ turns ih =>
    by_cases old : ∀ entry ∈ set.storeList.head?, entry.1 ≤ squashedNum
    · have all : ∀ entry ∈ set.storeList, entry.1 ≤ squashedNum := by
        have ordered := fetched.ordered
        cases shape : set.storeList with
        | nil => exact nofun
        | cons first =>
          rw [shape] at old ordered
          have least := old first rfl
          exact forall_mem_cons.mpr ⟨least, fun entry member => ((pairwise_cons.mp ordered).1 entry member).le.trans least⟩
      refine ⟨set, by rw [squash, squashTurn_end old], rfl, List.Sublist.refl _, all, fun _ invalid => invalid, ?_⟩
      exact fun entry member young => absurd (all entry member) (not_le.mpr young)
    · cases shape : set.storeList with
      | nil =>
        rw [shape] at old
        exact absurd nofun old
      | cons first rest =>
        obtain ⟨youngest, idx⟩ := first
        have young : squashedNum < youngest := by
          rw [shape] at old
          by_contra late
          exact old fun entry member => by cases member; exact not_lt.mp late
        have fewer : Fetched n { set with validLFST := update set.validLFST idx false, storeList := rest } :=
          fetched.fewer rfl (by rw [shape]; exact sublist_cons_self _ _)
        have shorter : rest.length ≤ turns := by
          rw [shape] at enough
          exact Nat.le_of_succ_le_succ enough
        obtain ⟨next, ran, same, sub, older, stays, invalid⟩ := ih fewer shorter
        have taken : next.validLFST idx = false := stays idx (update_self ..)
        refine ⟨next, ?_, same, sub.cons _, older, fun other invalid => ?_, ?_⟩
        · rw [squash, squashTurn_young fetched shape young]
          exact ran
        · by_cases here : other = idx
          · rw [here]
            exact taken
          · exact stays other ((update_of_ne here ..).trans invalid)
        · exact forall_mem_cons.mpr ⟨fun _ => taken, invalid⟩

theorem squash_squashed (fetched : Fetched n set) (enough : set.storeList.length ≤ turns) :
    ∃ next, set.squash squashedNum turns = some next ∧ Fetched n next ∧ next.storeList.length ≤ set.storeList.length ∧
      Squashed squashedNum set next := by
  obtain ⟨next, ran, same, sub, older, _, invalid⟩ := @squash_spec params set n turns squashedNum fetched enough
  refine ⟨next, ran, fetched.fewer same sub, sub.length_le, older, ?_⟩
  rintro idx young ⟨entry, member, same⟩
  have positive : 0 < entry.1 := by
    rw [same]
    exact Nat.zero_lt_of_lt young
  rw [fetched.own entry member idx positive same.symm]
  exact invalid entry member (same.symm ▸ young)

def inserted (ops : List StoreSetOp) : List InstSeqNum :=
  ops.filterMap fun op => match op with
    | .insertStore _ storeSeqNum => some storeSeqNum
    | _ => none

def above (n : InstSeqNum) : StoreSetOp → InstSeqNum
  | .insertStore _ storeSeqNum => storeSeqNum + 1
  | _ => n

theorem checkClear_length : set.checkClear.storeList.length ≤ set.storeList.length := by
  unfold StoreSet.checkClear
  split
  · exact Nat.zero_le _
  · exact le_rfl

theorem insertStore_length (fetched : Fetched n set) (storePC : Addr) (late : n ≤ seqNum) :
    (set.insertStore storePC seqNum).storeList.length ≤ set.storeList.length + 1 := by
  have shorter := @checkClear_length params set
  have cleared := fetched.checkClear
  unfold StoreSet.insertStore
  dsimp only
  split
  · exact shorter.trans (Nat.le_succ _)
  · rw [assignStore_young fun entry member => (cleared.below entry member).trans_le late]
    exact Nat.succ_le_succ shorter

theorem issued_length (issuedPC : Addr) (isStore : Bool) :
    (set.issued issuedPC seqNum isStore).storeList.length ≤ set.storeList.length := by
  unfold StoreSet.issued
  dsimp only
  split_ifs
  · exact le_rfl
  · exact length_filter_le _ _
  · exact length_filter_le _ _
  · exact length_filter_le _ _

theorem violation_storeList (storePC loadPC : Addr) : (set.violation storePC loadPC).storeList = set.storeList := by
  unfold StoreSet.violation
  dsimp only
  split_ifs <;> rfl

theorem step_spec (fetched : Fetched n set) {op : StoreSetOp} (late : ∀ seqNum ∈ inserted [op], n ≤ seqNum)
    (enough : set.storeList.length ≤ turns) : ∃ next, step turns set op = .ok (next, []) ∧ Fetched (above n op) next ∧
      next.storeList.length ≤ set.storeList.length + 1 := by
  cases op with
  | insertStore storePC storeSeqNum =>
    have later := late storeSeqNum mem_cons_self
    exact ⟨_, rfl, fetched.insertStore storePC later, insertStore_length fetched storePC later⟩
  | insertLoad | checkClear => exact ⟨_, rfl, fetched.checkClear, checkClear_length.trans (Nat.le_succ _)⟩
  | issued issuedPC _ isStore =>
    exact ⟨_, rfl, fetched.issued issuedPC isStore, (issued_length issuedPC isStore).trans (Nat.le_succ _)⟩
  | violation storePC loadPC =>
    refine ⟨_, rfl, fetched.violation storePC loadPC, ?_⟩
    rw [violation_storeList]
    exact Nat.le_succ _
  | squash squashedNum =>
    obtain ⟨next, ran, kept, shorter, _⟩ := @squash_squashed params set n turns squashedNum fetched enough
    refine ⟨next, ?_, kept, shorter.trans (Nat.le_succ _)⟩
    rw [step, ran]

theorem inserted_cons (op : StoreSetOp) (ops : List StoreSetOp) : inserted (op :: ops) = inserted [op] ++ inserted ops := by
  rw [inserted, ← singleton_append, filterMap_append]
  rfl

/-- By induction on the calls: each finds the stores numbered below those that come, and adds at most one. -/
theorem run_spec {ops : List StoreSetOp} (fetched : Fetched n set) (increasing : (inserted ops).Pairwise (· < ·))
    (late : ∀ seqNum ∈ inserted ops, n ≤ seqNum) (enough : set.storeList.length + ops.length ≤ turns) :
    ∃ final m, run (step turns) set ops = .ok (final, []) ∧ Fetched m final ∧ final.storeList.length ≤ set.storeList.length + ops.length := by
  induction ops generalizing set n with
  | nil => exact ⟨set, n, rfl, fetched, le_rfl⟩
  | cons op ops ih =>
    rw [inserted_cons] at increasing late
    obtain ⟨_, rest, between⟩ := pairwise_append.mp increasing
    obtain ⟨here, later⟩ := forall_mem_append.mp late
    rw [length_cons] at enough
    obtain ⟨next, taken, kept, _⟩ := step_spec fetched here (by omega : set.storeList.length ≤ turns)
    have late' : ∀ seqNum ∈ inserted ops, above n op ≤ seqNum := by
      intro seqNum member
      cases op with
      | insertStore _ storeSeqNum => exact between storeSeqNum mem_cons_self seqNum member
      | insertLoad | issued | violation | checkClear | squash => exact later seqNum member
    obtain ⟨final, m, ran, fetched', _⟩ := ih kept rest late' (by omega)
    refine ⟨final, m, run_cons.mpr ⟨next, [], [], taken, ran, rfl⟩, fetched', ?_⟩
    rw [length_cons]
    omega

/-- Every call of squash ends, within as many turns as there were calls, and leaves what it should. -/
theorem squash_ends (params : StoreSetParams) (ops : List StoreSetOp) (increasing : (inserted ops).Pairwise (· < ·)) (turns : Nat)
    (enough : ops.length ≤ turns) : (∃ final, run (step turns) (init params) ops = .ok (final, [])) ∧
      ∀ before squashedNum after, ops = before ++ .squash squashedNum :: after → ∃ set next,
        run (step turns) (init params) before = .ok (set, []) ∧ set.squash squashedNum turns = some next ∧ Squashed squashedNum set next := by
  have reaches : ∀ before after, ops = before ++ after → ∃ set m, run (step turns) (init params) before = .ok (set, []) ∧
      Fetched m set ∧ set.storeList.length ≤ turns := by
    rintro before after rfl
    rw [length_append] at enough
    rw [inserted, filterMap_append] at increasing
    have start : (init params).storeList.length + before.length ≤ turns := by
      change 0 + before.length ≤ turns
      omega
    obtain ⟨set, m, ran, fetched, shorter⟩ := run_spec fetched_init (pairwise_append.mp increasing).1
      (fun _ _ => Nat.zero_le _) start
    exact ⟨set, m, ran, fetched, shorter.trans start⟩
  constructor
  · obtain ⟨final, _, ran, _⟩ := reaches ops [] (append_nil _).symm
    exact ⟨final, ran⟩
  · intro before squashedNum after split
    obtain ⟨set, m, ran, fetched, shorter⟩ := reaches before _ split
    obtain ⟨next, ends, _, _, squashed⟩ := @squash_squashed params set m turns squashedNum fetched shorter
    exact ⟨set, next, ran, ends, squashed⟩

def smallTables : StoreSetParams where
  clearPeriod := 5
  SSITSize := 4
  LFSTSize := 2
  SSITSized := by decide
  LFSTSized := by decide

def squashTwice : List StoreSetOp :=
  [.violation 0 4, .insertStore 0 3, .insertStore 4 7, .squash 3, .issued 0 3 true, .insertLoad 8 8, .violation 8 0,
    .insertStore 8 9, .checkClear, .checkClear, .squash 1]

theorem squash_ends_squashTwice : (∃ final, run (step 11) (init smallTables) squashTwice = .ok (final, [])) ∧
    ∀ before squashedNum after, squashTwice = before ++ .squash squashedNum :: after → ∃ set next,
      run (step 11) (init smallTables) before = .ok (set, []) ∧ set.squash squashedNum 11 = some next ∧ Squashed squashedNum set next :=
  squash_ends smallTables squashTwice (by decide) 11 (by decide)

end ImcGem5.Cpu.O3.Proofs.StoreSets

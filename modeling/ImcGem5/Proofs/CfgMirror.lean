import ImcGem5.Riscv.Hart
import ImcGem5.Proofs.PmpTable

/-! The pmpcfg registers beside the table they configure. A byte that the table refuses is
merged back from the old register by masks that are shifted as ints: four of eight hit their
byte, and two of them hit the whole upper half. -/

namespace ImcGem5.Riscv.Proofs.CfgMirror
open Lib Mem PmpTable List BitVec Hart

/-- The registers with odd numbers are illegal where one register configures eight entries. -/
def hasCfg : RiscvType → Fin 4 → Bool
  | .rv32, _ => true
  | .rv64, idx => idx.val % 2 == 0

/-- `hasCfg` is what the table of the CSRs says. -/
theorem hasCfg_iff (rvType : RiscvType) (idx : Fin 4) : hasCfg rvType idx = true ↔
    ∃ row ∈ csrTable, row.2.physIndex = .pmpcfg idx ∧ rvType ∈ row.2.rvTypes := by
  cases rvType <;> revert idx <;> decide +kernel

def cfgByte (value : RegVal) (i : Nat) : PmpCfg := value.extractLsb' (8 * i) 8

/-- Every byte of a register that configures an implemented entry is the one of that entry. -/
def Mirrors (hart : Hart) : Prop :=
  ∀ idx : Fin 4, hasCfg hart.rvType idx = true → ∀ j < Hart.cfgBytes hart.rvType, ∀ entry,
    hart.pmp.pmpTable[j + 4 * idx.val]? = some entry → cfgByte (hart.miscRegFile (.pmpcfg idx)) j = entry.pmpCfg

def cfgAt (pmp : PMP) (index : Nat) : Option PmpCfg := pmp.pmpTable[index]?.map (·.pmpCfg)

def accepts (pmp : PMP) (index : Nat) : Bool := ((cfgAt pmp index).map fun cfg => decide (PMP_LOCK &&& cfg = 0)).getD false

def merged (pmp : PMP) (idx : Fin 4) (j : Nat) : Bool :=
  if j < 3 then !accepts pmp (j + 4 * idx.val) || !accepts pmp (j + 4 + 4 * idx.val)
  else !accepts pmp (3 + 4 * idx.val) || !accepts pmp (7 + 4 * idx.val)

/-- A locked byte is merged back, and what is merged with a new byte is part of it. -/
def Keeps (hart : Hart) (idx : Fin 4) (val : RegVal) : Prop :=
  hart.rvType = .rv64 → ∀ j < 8, ∀ entry, hart.pmp.pmpTable[j + 4 * idx.val]? = some entry →
    if entry.locked then merged hart.pmp idx j = true
    else merged hart.pmp idx j = true → entry.pmpCfg ||| cfgByte val j = cfgByte val j

section
variable {pmp : PMP} {index other : Nat} {cfg : PmpCfg}

theorem cfgAt_of_registers {after : PMP} (same : registers after index = registers pmp index) : cfgAt after index = cfgAt pmp index := by
  have first := congrArg (Option.map Prod.fst) same
  simp only [registers, Option.map_map] at first
  exact first

theorem accepts_entry {entry : PmpEntry} (held : pmp.pmpTable[index]? = some entry) : accepts pmp index = !entry.locked := by
  rw [accepts, cfgAt, held, PmpEntry.locked]
  simp

theorem pmpUpdateCfg_snd (pmp : PMP) (index : Nat) (cfg : PmpCfg) : (pmp.pmpUpdateCfg index cfg).2 = accepts pmp index := by
  unfold PMP.pmpUpdateCfg
  cases held : pmp.pmpTable[index]? with
  | none => rw [accepts, cfgAt, held]; rfl
  | some entry =>
    rw [accepts_entry held]
    dsimp only
    cases locked : entry.locked with
    | true => rfl
    | false => rw [if_neg Bool.false_ne_true]; rfl

theorem pmpUpdateCfg_cfgAt (pmp : PMP) (index : Nat) (cfg : PmpCfg) (other : Nat) : cfgAt (pmp.pmpUpdateCfg index cfg).1 other =
    if index = other ∧ accepts pmp index = true then some cfg else cfgAt pmp other := by
  unfold PMP.pmpUpdateCfg
  cases held : pmp.pmpTable[index]? with
  | none =>
    rw [if_neg]
    rw [accepts, cfgAt, held]
    exact fun both => Bool.false_ne_true both.2
  | some entry =>
    rw [accepts_entry held]
    dsimp only
    cases locked : entry.locked with
    | true =>
      rw [if_pos rfl, if_neg fun both => Bool.false_ne_true both.2]
    | false =>
      simp only [Bool.false_eq_true, if_false, Bool.not_false, and_true]
      rw [cfgAt_of_registers (updateRule_registers _ _ _), cfgAt, getElem?_set]
      split
      next same =>
        rw [if_pos (List.getElem?_eq_some_iff.mp held).1]
        rfl
      next => rfl

end

def spans (i j : Nat) : Bool := if i % 4 = 3 then decide (3 ≤ j) else j == i % 4

theorem cfgByteMask_bit : ∀ i < 8, ∀ j < 8, ∀ k < 8, (cfgByteMask i).getLsbD (8 * j + k) = spans i j := by decide +kernel

def contribution (pmp : PMP) (idx : Fin 4) (old val : RegVal) (i : Nat) : RegVal :=
  if accepts pmp (i + 4 * idx.val) then (cfgByte val i).setWidth 64 <<< (8 * i) else old &&& Hart.cfgByteMask i

theorem writeCfgBytes (pmp : PMP) (idx : Fin 4) (old val : RegVal) (count : Nat) :
    let out := (range count).foldl (writeCfgByte idx old val) (pmp, 0)
    (∀ other, cfgAt out.1 other =
      if 4 * idx.val ≤ other ∧ other < count + 4 * idx.val ∧ accepts pmp other = true then some (cfgByte val (other - 4 * idx.val))
      else cfgAt pmp other) ∧
    ∀ bit, out.2.getLsbD bit = (range count).any fun i => (contribution pmp idx old val i).getLsbD bit := by
  induction count with
  | zero =>
    refine ⟨fun other => ?_, fun bit => ?_⟩
    · rw [if_neg (by omega)]
      rfl
    · exact getLsbD_zero
  | succ count ih =>
    obtain ⟨table, bits⟩ := ih
    rw [range_succ, foldl_append, foldl_cons, foldl_nil]
    generalize (range count).foldl (writeCfgByte idx old val) (pmp, 0) = out at table bits
    have here : accepts out.1 (count + 4 * idx.val) = accepts pmp (count + 4 * idx.val) := by
      rw [accepts, accepts, table, if_neg (by omega)]
    unfold writeCfgByte
    dsimp only
    refine ⟨fun other => ?_, fun bit => ?_⟩
    · rw [pmpUpdateCfg_cfgAt, here, table]
      by_cases same : count + 4 * idx.val = other
      · subst same
        rw [Nat.add_sub_cancel]
        simp only [true_and]
        refine if_congr ?_ rfl ?_
        · exact ⟨fun taken => ⟨by omega, by omega, taken⟩, fun all => all.2.2⟩
        · rw [if_neg (by omega)]
      · rw [if_neg fun both => same both.1]
        refine if_congr ?_ rfl rfl
        constructor
        · exact fun ⟨low, high, taken⟩ => ⟨low, by omega, taken⟩
        · exact fun ⟨low, high, taken⟩ => ⟨low, by omega, taken⟩
    · rw [pmpUpdateCfg_snd, here, getLsbD_or, bits, any_append, any_cons, any_nil, Bool.or_false, contribution]
      rfl

variable {j : Nat}

theorem contribution_bit (pmp : PMP) (idx : Fin 4) (old val : RegVal) {i k : Nat} (first : i < 8) (second : j < 8) (third : k < 8) :
    (contribution pmp idx old val i).getLsbD (8 * j + k) =
      if accepts pmp (i + 4 * idx.val) then i == j && val.getLsbD (8 * j + k) else old.getLsbD (8 * j + k) && spans i j := by
  unfold contribution
  split
  next =>
    have bound : 8 * j + k < 64 := by omega
    rw [getLsbD_shiftLeft, getLsbD_setWidth, cfgByte, getLsbD_extractLsb', decide_eq_true bound, Bool.true_and]
    by_cases same : i = j
    · subst same
      have back : 8 * i + (8 * i + k - 8 * i) = 8 * i + k := by omega
      rw [decide_eq_false (by omega), decide_eq_true (by omega), decide_eq_true (by omega), back]
      simp
    · have differ : (i == j) = false := beq_eq_false_iff_ne.mpr same
      rw [differ, Bool.false_and]
      by_cases below : 8 * j + k < 8 * i
      · rw [decide_eq_true below]
        rfl
      · rw [decide_eq_false (p := 8 * j + k - 8 * i < 8) (by omega)]
        simp
  next => rw [getLsbD_and, cfgByteMask_bit i first j second k third]

def mergedIn (pmp : PMP) (idx : Fin 4) (count j : Nat) : Bool :=
  (range count).any fun i => !accepts pmp (i + 4 * idx.val) && spans i j

theorem cfgByte_bit (value : RegVal) {k : Nat} (third : k < 8) : (cfgByte value j).getLsbD k = value.getLsbD (8 * j + k) := by
  rw [cfgByte, getLsbD_extractLsb', decide_eq_true third, Bool.true_and]

theorem written_byte (pmp : PMP) (idx : Fin 4) (old val : RegVal) {count : Nat} (few : count ≤ 8) (inside : j < count) :
    cfgByte ((range count).foldl (writeCfgByte idx old val) (pmp, 0)).2 j =
      (if accepts pmp (j + 4 * idx.val) then cfgByte val j else 0) ||| (if mergedIn pmp idx count j then cfgByte old j else 0) := by
  apply eq_of_getLsbD_eq
  intro k third
  rw [cfgByte_bit _ third, (writeCfgBytes pmp idx old val count).2, getLsbD_or, Bool.eq_iff_iff, any_eq_true]
  have bit : ∀ i < count, (contribution pmp idx old val i).getLsbD (8 * j + k) = _ :=
    fun i _ => contribution_bit pmp idx old val (i := i) (by omega) (by omega) third
  have taken : (if accepts pmp (j + 4 * idx.val) then cfgByte val j else 0).getLsbD k =
      (accepts pmp (j + 4 * idx.val) && val.getLsbD (8 * j + k)) := by
    cases accepts pmp (j + 4 * idx.val) with
    | true => rw [if_pos rfl, cfgByte_bit _ third, Bool.true_and]
    | false => exact getLsbD_zero
  have back : (if mergedIn pmp idx count j then cfgByte old j else 0).getLsbD k =
      (mergedIn pmp idx count j && old.getLsbD (8 * j + k)) := by
    cases mergedIn pmp idx count j with
    | true => rw [if_pos rfl, cfgByte_bit _ third, Bool.true_and]
    | false => exact getLsbD_zero
  rw [taken, back, Bool.or_eq_true, Bool.and_eq_true, Bool.and_eq_true, mergedIn, any_eq_true]
  constructor
  · rintro ⟨i, member, set⟩
    rw [bit i (mem_range.mp member)] at set
    split at set
    next accepted =>
      obtain ⟨same, value⟩ := Bool.and_eq_true_iff.mp set
      rw [← eq_of_beq same] at value ⊢
      exact Or.inl ⟨accepted, value⟩
    next refused =>
      obtain ⟨value, reaches⟩ := Bool.and_eq_true_iff.mp set
      refine Or.inr ⟨⟨i, member, ?_⟩, value⟩
      rw [Bool.not_eq_true] at refused
      rw [refused, reaches]
      rfl
  · rintro (⟨accepted, value⟩ | ⟨⟨i, member, reaches⟩, value⟩)
    · refine ⟨j, mem_range.mpr inside, ?_⟩
      rw [bit j inside, if_pos accepted, value, beq_self_eq_true]
      rfl
    · refine ⟨i, member, ?_⟩
      obtain ⟨refused, spanned⟩ := Bool.and_eq_true_iff.mp reaches
      rw [Bool.not_eq_true'] at refused
      rw [bit i (mem_range.mp member), if_neg (by rw [refused]; exact Bool.false_ne_true), value, spanned]
      rfl

theorem mergedIn_four (pmp : PMP) (idx : Fin 4) : ∀ j < 4, mergedIn pmp idx 4 j = !accepts pmp (j + 4 * idx.val) := by
  intro j inside
  obtain rfl | rfl | rfl | rfl : j = 0 ∨ j = 1 ∨ j = 2 ∨ j = 3 := by omega
  all_goals simp [mergedIn, range_succ, spans]

theorem mergedIn_eight (pmp : PMP) (idx : Fin 4) : ∀ j < 8, mergedIn pmp idx 8 j = merged pmp idx j := by
  intro j inside
  obtain rfl | rfl | rfl | rfl | rfl | rfl | rfl | rfl :
    j = 0 ∨ j = 1 ∨ j = 2 ∨ j = 3 ∨ j = 4 ∨ j = 5 ∨ j = 6 ∨ j = 7 := by omega
  all_goals simp [mergedIn, merged, range_succ, spans]

section
variable {hart : Hart} {idx : Fin 4} {val : RegVal}

theorem mirrors_iff : Mirrors hart ↔ ∀ idx : Fin 4, hasCfg hart.rvType idx = true → ∀ j < cfgBytes hart.rvType, ∀ cfg,
    cfgAt hart.pmp (j + 4 * idx.val) = some cfg → cfgByte (hart.miscRegFile (.pmpcfg idx)) j = cfg := by
  constructor
  · intro mirrors idx legal j inside cfg held
    obtain ⟨entry, found, rfl⟩ := Option.map_eq_some_iff.mp held
    exact mirrors idx legal j inside entry found
  · intro mirrors idx legal j inside entry found
    exact mirrors idx legal j inside entry.pmpCfg (by rw [cfgAt, found]; rfl)

theorem setPmpCfg_rvType : (hart.setPmpCfg idx val).rvType = hart.rvType := rfl

theorem setPmpCfg_reg (reg : MiscReg) : (hart.setPmpCfg idx val).miscRegFile reg = if reg = .pmpcfg idx then
    ((range (cfgBytes hart.rvType)).foldl (writeCfgByte idx (hart.miscRegFile (.pmpcfg idx)) val) (hart.pmp, 0)).2
      else hart.miscRegFile reg := by
  unfold setPmpCfg Hart.set
  dsimp only
  rw [Function.update_apply]

theorem cfgBytes_le (rvType : RiscvType) : cfgBytes rvType ≤ 8 := by cases rvType <;> decide

theorem setPmpCfg_cfgAt (index : Nat) : cfgAt (hart.setPmpCfg idx val).pmp index =
    if 4 * idx.val ≤ index ∧ index < cfgBytes hart.rvType + 4 * idx.val ∧ accepts hart.pmp index = true then
      some (cfgByte val (index - 4 * idx.val)) else cfgAt hart.pmp index :=
  (writeCfgBytes hart.pmp idx _ val (cfgBytes hart.rvType)).1 index

theorem setPmpCfg_other {other : Fin 4} (legal : hasCfg hart.rvType idx = true) (legal' : hasCfg hart.rvType other = true)
    (apart : other ≠ idx) (inside : j < cfgBytes hart.rvType) :
    cfgAt (hart.setPmpCfg idx val).pmp (j + 4 * other.val) = cfgAt hart.pmp (j + 4 * other.val) := by
  rw [setPmpCfg_cfgAt, if_neg]
  cases width : hart.rvType with
  | rv32 =>
    rw [width] at inside
    simp only [cfgBytes] at inside ⊢
    omega
  | rv64 =>
    rw [width] at inside legal legal'
    simp only [cfgBytes, hasCfg, beq_iff_eq] at inside legal legal' ⊢
    omega

theorem locked_nonzero {index : Nat} {cfg : PmpCfg} (held : cfgAt hart.pmp index = some cfg) (refused : accepts hart.pmp index = false) :
    cfg ≠ 0 := by
  rintro rfl
  rw [accepts, held] at refused
  exact absurd refused (by decide)

theorem byte_right {accepted merges : Bool} {cfg new : PmpCfg} (locked : accepted = false → cfg ≠ 0) :
    ((if accepted = true then new else 0) ||| (if merges = true then cfg else 0) = if accepted = true then new else cfg) ↔
      if accepted = true then merges = true → cfg ||| new = new else merges = true := by
  cases accepted <;> cases merges
  · have nonzero := (locked rfl).symm
    simpa using nonzero
  · simp
  · simp
  · simp [BitVec.or_comm]

theorem setPmpCfg_byte (mirrors : Mirrors hart) (legal : hasCfg hart.rvType idx = true)
    (inside : j < cfgBytes hart.rvType) {cfg : PmpCfg} (held : cfgAt hart.pmp (j + 4 * idx.val) = some cfg) :
    (∀ new, cfgAt (hart.setPmpCfg idx val).pmp (j + 4 * idx.val) = some new →
      cfgByte ((hart.setPmpCfg idx val).miscRegFile (.pmpcfg idx)) j = new) ↔
    if accepts hart.pmp (j + 4 * idx.val) = true then
      mergedIn hart.pmp idx (cfgBytes hart.rvType) j = true → cfg ||| cfgByte val j = cfgByte val j
    else mergedIn hart.pmp idx (cfgBytes hart.rvType) j = true := by
  have old := mirrors_iff.mp mirrors idx legal j inside cfg held
  have few := cfgBytes_le hart.rvType
  have table : cfgAt (hart.setPmpCfg idx val).pmp (j + 4 * idx.val) =
      some (if accepts hart.pmp (j + 4 * idx.val) = true then cfgByte val j else cfg) := by
    rw [setPmpCfg_cfgAt, Nat.add_sub_cancel, held]
    cases accepts hart.pmp (j + 4 * idx.val) with
    | true => rw [if_pos ⟨by omega, by omega, rfl⟩, if_pos rfl]
    | false => rw [if_neg fun all => Bool.false_ne_true all.2.2, if_neg Bool.false_ne_true]
  rw [setPmpCfg_reg, if_pos rfl, written_byte hart.pmp idx _ val few inside, old, table, ← byte_right (locked_nonzero held)]
  constructor
  · exact fun right => right _ rfl
  · intro right new same
    rw [right]
    exact Option.some.inj same

theorem setPmpCfg_mirrors (mirrors : Mirrors hart) (legal : hasCfg hart.rvType idx = true) :
    Mirrors (hart.setPmpCfg idx val) ↔ Keeps hart idx val := by
  have implemented : ∀ j < cfgBytes hart.rvType, ∀ new, cfgAt (hart.setPmpCfg idx val).pmp (j + 4 * idx.val) = some new →
      ∃ cfg, cfgAt hart.pmp (j + 4 * idx.val) = some cfg := by
    intro j inside new found
    rw [setPmpCfg_cfgAt] at found
    split at found
    next all =>
      cases held : cfgAt hart.pmp (j + 4 * idx.val) with
      | some cfg => exact ⟨cfg, rfl⟩
      | none =>
        have taken := all.2.2
        rw [accepts, held] at taken
        cases taken
    next => exact ⟨new, found⟩
  constructor
  · intro after wide j inside entry held
    have bound : j < cfgBytes hart.rvType := by rwa [wide]
    have known : cfgAt hart.pmp (j + 4 * idx.val) = some entry.pmpCfg := by rw [cfgAt, held]; rfl
    have byte := (setPmpCfg_byte mirrors legal bound known).mp fun new found => mirrors_iff.mp after idx legal j bound new found
    rw [accepts_entry held, wide, cfgBytes, mergedIn_eight _ _ j inside] at byte
    cases locked : entry.locked with
    | true | false => simpa [locked] using byte
  · intro keeps
    rw [mirrors_iff]
    intro other legal' j inside new found
    by_cases same : other = idx
    · subst same
      obtain ⟨cfg, held⟩ := implemented j inside new found
      obtain ⟨entry, present, rfl⟩ := Option.map_eq_some_iff.mp held
      refine (setPmpCfg_byte mirrors legal inside held).mpr ?_ new found
      rw [accepts_entry present]
      cases width : hart.rvType with
      | rv32 =>
        rw [setPmpCfg_rvType, width] at inside
        rw [cfgBytes, mergedIn_four _ _ j inside, accepts_entry present]
        cases entry.locked <;> simp
      | rv64 =>
        rw [setPmpCfg_rvType, width] at inside
        rw [cfgBytes, mergedIn_eight _ _ j inside]
        have step := keeps width j inside entry present
        cases locked : entry.locked with
        | true | false => simpa [locked] using step
    · have differ : MiscReg.pmpcfg other ≠ .pmpcfg idx := fun equal => same (MiscReg.pmpcfg.inj equal)
      rw [setPmpCfg_other legal legal' same inside] at found
      rw [setPmpCfg_reg, if_neg differ]
      exact mirrors_iff.mp mirrors other legal' j inside new found

end

def writeCfgs (hart : Hart) (writes : List (Fin 4 × RegVal)) : Except Fault Hart :=
  writes.foldlM (fun hart write => hart.setMiscReg (.pmpcfg write.1) write.2) hart

structure Ready (rvType : RiscvType) (hart : Hart) : Prop where
  rvType_eq : hart.rvType = rvType
  machine : hart.miscRegFile .prv = PRV_M

theorem Ready.step {rvType : RiscvType} {hart : Hart} (ready : Ready rvType hart) (idx : Fin 4) (val : RegVal) :
    hart.setMiscReg (.pmpcfg idx) val = .ok (hart.setPmpCfg idx val) ∧ Ready rvType (hart.setPmpCfg idx val) := by
  refine ⟨?_, ready.rvType_eq, ?_⟩
  · unfold setMiscReg
    rw [ready.machine]
    rfl
  · rw [setPmpCfg_reg, if_neg nofun, ready.machine]

theorem run_mirrors {rvType : RiscvType} {writes : List (Fin 4 × RegVal)} (legal : ∀ write ∈ writes, hasCfg rvType write.1 = true)
    {hart : Hart} (ready : Ready rvType hart) (mirrors : Mirrors hart) :
    (∀ before, before <+: writes → ∃ after, writeCfgs hart before = .ok after ∧ Mirrors after) ↔
      ∀ before write, before ++ [write] <+: writes → ∃ after, writeCfgs hart before = .ok after ∧ Keeps after write.1 write.2 := by
  induction writes generalizing hart with
  | nil =>
    constructor
    · intro _ before write short
      exact absurd (prefix_nil.mp short) (append_ne_nil_of_right_ne_nil _ (cons_ne_nil _ _))
    · intro _ before short
      rw [prefix_nil.mp short]
      exact ⟨hart, rfl, mirrors⟩
  | cons first rest ih =>
    obtain ⟨_, legal⟩ := forall_mem_cons.mp legal
    obtain ⟨ran, next⟩ := ready.step first.1 first.2
    have has : hasCfg hart.rvType first.1 = true := by rwa [ready.rvType_eq]
    have step : Mirrors (hart.setPmpCfg first.1 first.2) ↔ Keeps hart first.1 first.2 := setPmpCfg_mirrors mirrors has
    have runs : ∀ before, writeCfgs hart (first :: before) = writeCfgs (hart.setPmpCfg first.1 first.2) before := by
      intro before
      rw [writeCfgs, foldlM_cons, ran]
      rfl
    constructor
    · intro all before write short
      have mirrored : Mirrors (hart.setPmpCfg first.1 first.2) := by
        obtain ⟨after, reached, same⟩ := all [first] ⟨rest, rfl⟩
        rw [runs] at reached
        cases reached
        exact same
      cases before with
      | nil =>
        obtain ⟨equal, _⟩ := cons_prefix_cons.mp short
        rw [equal]
        exact ⟨hart, rfl, step.mp mirrored⟩
      | cons other before =>
        obtain ⟨equal, short⟩ := cons_prefix_cons.mp short
        rw [equal, runs]
        refine (ih legal next mirrored).mp ?_ before write short
        intro before short
        rw [← runs]
        exact all (first :: before) (cons_prefix_cons.mpr ⟨rfl, short⟩)
    · intro all before short
      cases before with
      | nil => exact ⟨hart, rfl, mirrors⟩
      | cons other before =>
        obtain ⟨equal, short⟩ := cons_prefix_cons.mp short
        obtain ⟨after, reached, keeps⟩ := all [] first ⟨rest, rfl⟩
        cases reached
        rw [equal, runs]
        refine (ih legal next (step.mpr keeps)).mpr ?_ before short
        intro before write short
        rw [← runs]
        exact all (first :: before) write (cons_prefix_cons.mpr ⟨rfl, short⟩)

theorem new_mirrors (rvType : RiscvType) (contextId : RegVal) (pmpEntries : Nat) : Mirrors (Hart.new rvType contextId pmpEntries) := by
  intro idx _ j inside entry held
  have blank : entry = {} := eq_of_mem_replicate (mem_of_getElem? held)
  have clear : (Hart.new rvType contextId pmpEntries).miscRegFile (.pmpcfg idx) = 0 := rfl
  rw [blank, clear]
  apply eq_of_getLsbD_eq
  intro k third
  rw [cfgByte_bit _ third]
  exact getLsbD_zero.trans getLsbD_zero.symm

/-- From reset on the pmpcfg registers mirror the table after every write exactly if every
write keeps the mirror, which it always does with 32-bit registers. -/
theorem pmpcfg_mirrors (rvType : RiscvType) (contextId : RegVal) (pmpEntries : Nat) (writes : List (Fin 4 × RegVal))
    (legal : ∀ write ∈ writes, hasCfg rvType write.1 = true) :
    (∀ before, before <+: writes →
      ∃ hart, writeCfgs (Hart.new rvType contextId pmpEntries) before = .ok hart ∧ Mirrors hart) ↔
    ∀ before write, before ++ [write] <+: writes →
      ∃ hart, writeCfgs (Hart.new rvType contextId pmpEntries) before = .ok hart ∧ Keeps hart write.1 write.2 :=
  run_mirrors legal ⟨rfl, rfl⟩ (new_mirrors rvType contextId pmpEntries)

/-- Entry 4 is locked, and the next write reads its byte as zero. -/
theorem pmpcfg_loses_lock :
    ∃ hart, writeCfgs (Hart.new .rv64 0 16) [(0, 0x8000000000), (0, 0)] = .ok hart ∧
      hart.pmp.pmpTable[4]?.map (·.pmpCfg) = some 0x80 ∧ cfgByte (hart.miscRegFile (.pmpcfg 0)) 4 = 0 ∧ ¬Mirrors hart := by
  refine ⟨((Hart.new .rv64 0 16).setPmpCfg 0 0x8000000000).setPmpCfg 0 0, rfl, by decide +kernel, by decide +kernel, ?_⟩
  intro mirrors
  have byte := mirrors_iff.mp mirrors 0 rfl 4 (by decide) 0x80 (by decide +kernel)
  exact absurd byte (by decide +kernel)

theorem pmpcfg_mirrors_locked :
    (∀ before, before <+: [((0 : Fin 4), 0x8F#64), (0, 0)] → ∃ hart, writeCfgs (Hart.new .rv64 0 16) before = .ok hart ∧ Mirrors hart) ↔
    ∀ before write, before ++ [write] <+: [((0 : Fin 4), 0x8F#64), (0, 0)] →
      ∃ hart, writeCfgs (Hart.new .rv64 0 16) before = .ok hart ∧ Keeps hart write.1 write.2 :=
  pmpcfg_mirrors .rv64 0 16 [(0, 0x8F), (0, 0)] (forall_mem_cons.mpr ⟨rfl, forall_mem_singleton.mpr rfl⟩)

end ImcGem5.Riscv.Proofs.CfgMirror

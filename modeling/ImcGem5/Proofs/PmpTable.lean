import ImcGem5.Proofs.Pmp

/-! The table of the memory protection over its updates. The stored ranges are those that the
registers describe, and a locked entry stays what it is, since the one register of another
entry that its range depends on is locked with it. -/

namespace ImcGem5.Riscv.Proofs.PmpTable
open Lib Mem Pmp List

/-- The range that a configuration gives to an address register and the one before it. -/
def Describes (cfg : PmpCfg) (prev raw : Nat) (range : AddrRange) : Prop :=
  match pmpGetAField cfg with
  | .off => range.start = range.stop
  | .tor => range.start.toNat = 4 * prev ∧ range.stop.toNat = 4 * raw
  | .na4 => range.start.toNat = 4 * raw ∧ range.stop.toNat = 4 * raw + 4
  | .napot => ∃ high ones, raw = high * 2 ^ (ones + 1) + (2 ^ ones - 1) ∧ range.start.toNat = high * 2 ^ (ones + 3) ∧
      range.stop.toNat = (high + 1) * 2 ^ (ones + 3)

structure Consistent (pmp : PMP) : Prop where
  ranges : ∀ (index : Nat) (entry : PmpEntry), pmp.pmpTable[index]? = some entry →
    Describes entry.pmpCfg (PMP.prevAddr pmp.pmpTable index).toNat entry.rawAddr.toNat entry.pmpAddr
  numRules : pmp.numRules = pmp.pmpTable.countP (·.active)
  hasLockEntry : pmp.hasLockEntry = pmp.pmpTable.any (·.locked)

def Narrow : PmpOp → Prop
  | .updateAddr _ addr => addr.toNat < 2 ^ 54
  | _ => True

instance (op : PmpOp) : Decidable (Narrow op) := by
  cases op <;> unfold Narrow <;> infer_instance

def registers (pmp : PMP) (index : Nat) : Option (PmpCfg × Addr) := pmp.pmpTable[index]?.map fun entry => (entry.pmpCfg, entry.rawAddr)

theorem shifted_toNat {raw : Addr} (narrow : raw.toNat < 2 ^ 54) : (raw <<< 2).toNat = 4 * raw.toNat := by
  rw [BitVec.toNat_shiftLeft, Nat.shiftLeft_eq, Nat.mod_eq_of_lt (by omega)]
  omega

variable {entry : PmpEntry} {pmp : PMP} {index : Nat}

theorem rule_describes {prev : Addr} (narrow : prev.toNat < 2 ^ 54) (narrow' : entry.rawAddr.toNat < 2 ^ 54) :
    Describes entry.pmpCfg prev.toNat entry.rawAddr.toNat (entry.rule prev) := by
  unfold Describes PmpEntry.rule
  cases pmpGetAField entry.pmpCfg with
  | off => rfl
  | tor => exact ⟨shifted_toNat narrow, shifted_toNat narrow'⟩
  | na4 =>
    have start := shifted_toNat narrow'
    refine ⟨start, ?_⟩
    change (entry.rawAddr <<< 2 + 4).toNat = _
    rw [BitVec.toNat_add, start, show (4 : BitVec 64).toNat = 4 from rfl, Nat.mod_eq_of_lt (by omega)]
  | napot =>
    obtain ⟨high, ones, _, whole, start, stop⟩ := napot_bounds narrow'
    exact ⟨high, ones, whole, start, stop⟩

theorem updateRule_registers (pmp : PMP) (turn index : Nat) : registers (pmp.pmpUpdateRule turn) index = registers pmp index := by
  unfold PMP.pmpUpdateRule registers
  cases held : pmp.pmpTable[turn]? with
  | none => rfl
  | some =>
    rw [getElem?_set]
    by_cases same : turn = index
    · subst same
      rw [if_pos rfl, if_pos (List.getElem?_eq_some_iff.mp held).1, held]
      rfl
    · rw [if_neg same]

theorem refreshAll_registers (turns : List Nat) (pmp : PMP) (index : Nat) :
    registers (turns.foldl PMP.pmpUpdateRule pmp) index = registers pmp index := by
  induction turns generalizing pmp with
  | nil => rfl
  | cons turn _ ih =>
    rw [foldl_cons, ih]
    exact updateRule_registers pmp turn index

theorem rule_congr {first second : PmpEntry} {prev other : Addr} (cfg : second.pmpCfg = first.pmpCfg) (raw : second.rawAddr = first.rawAddr)
    (same : pmpGetAField first.pmpCfg = .tor → other = prev) : second.rule other = first.rule prev := by
  unfold PmpEntry.rule
  rw [cfg, raw]
  cases field : pmpGetAField first.pmpCfg with
  | tor => rw [same field]
  | off => rfl
  | na4 => rfl
  | napot => rfl

theorem prevAddr_registers {after : PMP} (same : 1 ≤ index → registers after (index - 1) = registers pmp (index - 1)) :
    PMP.prevAddr after.pmpTable index = PMP.prevAddr pmp.pmpTable index := by
  unfold PMP.prevAddr
  by_cases first : 1 ≤ index
  · have raw := congrArg (Option.map Prod.snd) (same first)
    simp only [registers, Option.map_map] at raw
    rw [if_pos first, if_pos first]
    exact congrArg (·.getD 0) raw
  · rw [if_neg first, if_neg first]

theorem locked_stays (synced : Synced pmp) (held : pmp.pmpTable[index]? = some entry)
    (locked : entry.locked = true) {op : PmpOp} (update : op ≠ .reset) : (pmp.apply op).pmpTable[index]? = some entry := by
  have after := apply_synced synced op
  cases op with
  | reset => exact absurd rfl update
  | updateCfg turn cfg =>
    unfold PMP.apply PMP.pmpUpdateCfg
    dsimp only
    cases found : pmp.pmpTable[turn]? with
    | none => exact held
    | some other =>
      dsimp only
      by_cases refused : other.locked = true
      · rw [if_pos refused]
        exact held
      · rw [if_neg refused]
        have apart : index ≠ turn := by
          rintro rfl
          cases held.symm.trans found
          exact refused locked
        exact ((pmpUpdateRule_refreshed found cfg).others index apart).trans held
  | updateAddr turn addr =>
    unfold PMP.apply PMP.pmpUpdateAddr at after ⊢
    dsimp only at after ⊢
    cases found : pmp.pmpTable[turn]? with
    | none => exact held
    | some other =>
      rw [found] at after
      dsimp only at after ⊢
      by_cases refused : other.locked = true
      · rw [if_pos refused]
        exact held
      · rw [if_neg refused] at after ⊢
        by_cases neighbour : ((pmp.pmpTable[turn + 1]?.map fun next => next.locked && pmpGetAField next.pmpCfg == .tor).getD false) = true
        · rw [if_pos neighbour]
          exact held
        · rw [if_neg neighbour] at after ⊢
          have apart : index ≠ turn := by
            rintro rfl
            cases held.symm.trans found
            exact refused locked
          have kept : ∀ position, position ≠ turn → registers ((List.range (pmp.pmpTable.set turn { other with rawAddr := addr }).length).foldl
              PMP.pmpUpdateRule { pmp with pmpTable := pmp.pmpTable.set turn { other with rawAddr := addr } }) position =
                registers pmp position := by
            intro position differs
            rw [refreshAll_registers, registers, getElem?_set_ne (Ne.symm differs)]
            rfl
          generalize (List.range _).foldl PMP.pmpUpdateRule _ = final at after kept ⊢
          have here := kept index apart
          rw [registers, registers, held, Option.map_some, Option.map_eq_some_iff] at here
          obtain ⟨new, there, same⟩ := here
          obtain ⟨cfg, raw⟩ := Prod.mk.inj same
          have range : new.pmpAddr = entry.pmpAddr := by
            rw [after.ranges index new there, synced.ranges index entry held]
            apply rule_congr cfg raw
            intro tor
            apply prevAddr_registers
            intro positive
            apply kept
            intro before
            apply neighbour
            rw [show turn + 1 = index by omega, held]
            simp [locked, tor]
          rw [there]
          obtain ⟨_, _⟩ := new
          cases cfg
          cases raw
          cases range
          rfl

def rawAt (pmp : PMP) (index : Nat) : Option Addr := pmp.pmpTable[index]?.map (·.rawAddr)

theorem rawAt_of_registers {after : PMP} (same : registers after index = registers pmp index) : rawAt after index = rawAt pmp index := by
  have raw := congrArg (Option.map Prod.snd) same
  simp only [registers, Option.map_map] at raw
  exact raw

theorem rawAt_set {turn : Nat} {after : PmpEntry} (held : pmp.pmpTable[turn]? = some entry) (index : Nat) :
    rawAt { pmp with pmpTable := pmp.pmpTable.set turn after } index = if turn = index then some after.rawAddr else rawAt pmp index := by
  unfold rawAt
  rw [getElem?_set]
  by_cases same : turn = index
  · rw [if_pos same, if_pos same, if_pos (List.getElem?_eq_some_iff.mp held).1]
    rfl
  · rw [if_neg same, if_neg same]

theorem rawAt_refresh {turn : Nat} (held : pmp.pmpTable[turn]? = some entry) (cfg : PmpCfg) (index : Nat) :
    rawAt (PMP.pmpUpdateRule { pmp with pmpTable := pmp.pmpTable.set turn { entry with pmpCfg := cfg } } turn) index = rawAt pmp index := by
  rw [rawAt_of_registers (updateRule_registers _ _ _), rawAt_set held]
  split
  next same =>
    rw [← same, rawAt, held]
    rfl
  · rfl

theorem reset_rawAt (turns : List Nat) (pmp : PMP) (index : Nat) : rawAt (turns.foldl PMP.resetEntry pmp) index = rawAt pmp index := by
  induction turns generalizing pmp with
  | nil => rfl
  | cons turn _ ih =>
    rw [foldl_cons, ih, PMP.resetEntry]
    cases held : pmp.pmpTable[turn]? with
    | none => rfl
    | some => exact rawAt_refresh held _ index

theorem apply_rawAt (pmp : PMP) (op : PmpOp) (index : Nat) :
    rawAt (pmp.apply op) index = rawAt pmp index ∨ ∃ addr, op = .updateAddr index addr ∧ rawAt (pmp.apply op) index = some addr := by
  cases op with
  | updateCfg turn cfg =>
    unfold PMP.apply PMP.pmpUpdateCfg
    dsimp only
    left
    cases held : pmp.pmpTable[turn]? with
    | none => rfl
    | some =>
      dsimp only
      split
      · rfl
      · exact rawAt_refresh held cfg index
  | updateAddr turn addr =>
    unfold PMP.apply PMP.pmpUpdateAddr
    dsimp only
    cases held : pmp.pmpTable[turn]? with
    | none => exact .inl rfl
    | some =>
      dsimp only
      split
      · exact .inl rfl
      · split
        · exact .inl rfl
        · rw [rawAt_of_registers (refreshAll_registers _ _ _), rawAt_set held]
          by_cases same : turn = index
          · subst same
            exact .inr ⟨addr, rfl, if_pos rfl⟩
          · exact .inl (if_neg same)
  | reset => exact .inl (reset_rawAt _ pmp index)

theorem narrow_apply (narrow : ∀ index, ∀ raw ∈ rawAt pmp index, raw.toNat < 2 ^ 54) {op : PmpOp} (fits : Narrow op) :
    ∀ index, ∀ raw ∈ rawAt (pmp.apply op) index, raw.toNat < 2 ^ 54 := by
  intro index raw member
  rcases apply_rawAt pmp op index with same | ⟨addr, rfl, written⟩
  · rw [same] at member
    exact narrow index raw member
  · rw [written] at member
    cases member
    exact fits

theorem narrow_run {ops : List PmpOp} (fits : ∀ op ∈ ops, Narrow op) (narrow : ∀ index, ∀ raw ∈ rawAt pmp index, raw.toNat < 2 ^ 54) :
    ∀ index, ∀ raw ∈ rawAt (ops.foldl PMP.apply pmp) index, raw.toNat < 2 ^ 54 := by
  induction ops generalizing pmp with
  | nil => exact narrow
  | cons op _ ih =>
    exact ih (fun other member => fits other (mem_cons_of_mem _ member)) (narrow_apply narrow (fits op mem_cons_self))

theorem consistent_of_narrow (synced : Synced pmp) (narrow : ∀ index, ∀ raw ∈ rawAt pmp index, raw.toNat < 2 ^ 54) : Consistent pmp := by
  refine ⟨?_, synced.numRules, synced.hasLockEntry⟩
  intro index entry held
  rw [synced.ranges index entry held]
  apply rule_describes
  · unfold PMP.prevAddr
    split
    · cases before : pmp.pmpTable[index - 1]? with
      | none => decide
      | some other => exact narrow (index - 1) other.rawAddr (by rw [rawAt, before]; rfl)
    · decide
  · exact narrow index entry.rawAddr (by rw [rawAt, held]; rfl)

theorem locked_run {ops : List PmpOp} (updates : ∀ op ∈ ops, op ≠ .reset) (synced : Synced pmp)
    (held : pmp.pmpTable[index]? = some entry) (locked : entry.locked = true) :
    (ops.foldl PMP.apply pmp).pmpTable[index]? = some entry := by
  induction ops generalizing pmp with
  | nil => exact held
  | cons op _ ih =>
    apply ih (fun other member => updates other (mem_cons_of_mem _ member)) (apply_synced synced op)
    exact locked_stays synced held locked (updates op mem_cons_self)

/-- The table after any updates and resets, and what a lock keeps for as long as there is no reset. -/
theorem table_consistent (pmpEntries : Nat) (before later : List PmpOp) (narrow : ∀ op ∈ before ++ later, Narrow op)
    (updates : ∀ op ∈ later, op ≠ .reset) : Consistent ((before ++ later).foldl PMP.apply (PMP.new pmpEntries)) ∧
      ∀ (index : Nat) (entry : PmpEntry), (before.foldl PMP.apply (PMP.new pmpEntries)).pmpTable[index]? = some entry →
        entry.locked = true → ((before ++ later).foldl PMP.apply (PMP.new pmpEntries)).pmpTable[index]? = some entry := by
  constructor
  · apply consistent_of_narrow (reached_synced pmpEntries (before ++ later))
    apply narrow_run narrow
    intro index raw member
    obtain ⟨entry, held, same⟩ := Option.map_eq_some_iff.mp member
    have blank : entry = {} := eq_of_mem_replicate (mem_of_getElem? held)
    rw [← same, blank]
    decide
  · intro index entry held locked
    rw [foldl_append]
    exact locked_run updates (reached_synced pmpEntries before) held locked

def lockedRange : List PmpOp := [.updateAddr 0 0x400, .updateAddr 1 0x800, .updateCfg 1 0x8F]

def refusedUpdates : List PmpOp := [.updateAddr 0 0x500, .updateCfg 1 0]

theorem table_consistent_locked : Consistent ((lockedRange ++ refusedUpdates).foldl PMP.apply (PMP.new 2)) ∧
    ∀ (index : Nat) (entry : PmpEntry), (lockedRange.foldl PMP.apply (PMP.new 2)).pmpTable[index]? = some entry →
      entry.locked = true → ((lockedRange ++ refusedUpdates).foldl PMP.apply (PMP.new 2)).pmpTable[index]? = some entry :=
  table_consistent 2 lockedRange refusedUpdates (by decide) (by decide)

end ImcGem5.Riscv.Proofs.PmpTable

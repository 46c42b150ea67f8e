import ImcGem5.Base.ChunkGenerator
import ImcGem5.Proofs.Blob

/-! The chunks of a region with skips. Between calls the current chunk, what was before it and what is
left make up the region, as long as no skip ends inside a last chunk that is shorter than the others. -/

namespace ImcGem5.Base.Chunking
open Lib List BitVec
open Mem (Addr Abort require roundUp minAddr)
open Mem.Proofs.Blob (toNat_minAddr roundUp_toNat toNat_pow next_boundary boundary)
open Nat (two_pow_pos mod_eq_of_lt)

def Contiguous : Nat → List Chunk → Prop
  | _, [] => True
  | first, chunk :: rest => chunk.addr.toNat = first ∧ Contiguous (first + chunk.size.toNat) rest

def Chunk.stop (chunk : Chunk) : Nat := chunk.addr.toNat + chunk.size.toNat

def total (chunks : List Chunk) : Nat := (chunks.map (·.size.toNat)).sum

def Chunk.Within (chunk : Chunk) (chunkSize : Nat) : Prop :=
  chunk.addr.toNat / chunkSize = (chunk.stop - 1) / chunkSize

section Rounding

variable {b : Nat}

theorem isPowerOf2_two_pow (fits : b < 64) : isPowerOf2 (BitVec.ofNat 64 (2 ^ b)) = true := by
  have value := toNat_pow fits
  have nonzero : BitVec.ofNat 64 (2 ^ b) ≠ 0 := by
    intro zero
    rw [zero] at value
    exact Nat.ne_of_lt (two_pow_pos b) value
  have apart : BitVec.ofNat 64 (2 ^ b) &&& (BitVec.ofNat 64 (2 ^ b) - 1) = 0 := by
    rw [Mem.Proofs.Blob.mask_eq fits]
    apply eq_of_getLsbD_eq
    intro i inside
    rw [getLsbD_and, getLsbD_ofNat, getLsbD_ofNat, Nat.testBit_two_pow, Nat.testBit_two_pow_sub_one]
    by_cases same : b = i
    · simp [same]
    · simp [same]
  unfold isPowerOf2
  rw [apart, bne_iff_ne.mpr nonzero]
  rfl

variable {chunkSize : Addr}

theorem eq_two_pow (power : chunkSize.toNat = 2 ^ b) (fits : b < 64) : chunkSize = BitVec.ofNat 64 (2 ^ b) :=
  eq_of_toNat_eq (power.trans (toNat_pow fits).symm)

theorem roundUp_eq {val : Addr} (power : chunkSize.toNat = 2 ^ b) (room : val.toNat + 2 ^ b < 2 ^ 64) :
    (roundUp val chunkSize).toNat = val.toNat + if val.toNat % 2 ^ b = 0 then 0 else 2 ^ b - val.toNat % 2 ^ b := by
  have fits : b < 64 := (Nat.pow_lt_pow_iff_right (by decide)).mp (show 2 ^ b < 2 ^ 64 by omega)
  have positive := two_pow_pos b
  have split := Nat.div_add_mod' val.toNat (2 ^ b)
  rw [eq_two_pow power fits, roundUp_toNat fits]
  by_cases aligned : val.toNat % 2 ^ b = 0
  · have quotient : (val.toNat + (2 ^ b - 1)) / 2 ^ b = val.toNat / 2 ^ b := by
      rw [Nat.div_eq_iff positive]
      omega
    rw [if_pos aligned, quotient, mod_eq_of_lt (by omega)]
    omega
  · have quotient : (val.toNat + (2 ^ b - 1)) / 2 ^ b = val.toNat / 2 ^ b + 1 := by
      rw [Nat.div_eq_iff positive, Nat.add_mul]
      omega
    rw [if_neg aligned, quotient, Nat.add_mul, Nat.one_mul, mod_eq_of_lt (by omega)]
    omega

end Rounding

section Generator

variable {start size : Addr} {b : Nat} {walk : Walk} {gen : ChunkGenerator} {grown : Bool} {skip : Addr} {chunkSize : Addr}

/-- On a chunk; `grown` once a skip made a size too large. -/
structure Active (start size : Addr) (b : Nat) (gen : ChunkGenerator) (grown : Bool) : Prop where
  startAddr : gen.startAddr = start
  chunkSize : gen.chunkSize.toNat = 2 ^ b
  some : 0 < gen.curSize.toNat
  whole : gen.curAddr.toNat + gen.curSize.toNat + gen.sizeLeft.toNat = start.toNat + size.toNat
  reached : gen.curAddr.toNat + gen.curSize.toNat ≤ gen.nextAddr.toNat
  follows : 0 < gen.sizeLeft.toNat → gen.nextAddr.toNat = gen.curAddr.toNat + gen.curSize.toNat
  nextSize : 0 < gen.sizeLeft.toNat → gen.nextSize.toNat =
    if gen.nextAddr.toNat % 2 ^ b = 0 then min gen.sizeLeft.toNat (2 ^ b) else 2 ^ b - gen.nextAddr.toNat % 2 ^ b
  within : grown = false → gen.curAddr.toNat % 2 ^ b + gen.curSize.toNat ≤ 2 ^ b

structure Finished (start size : Addr) (b : Nat) (gen : ChunkGenerator) : Prop where
  startAddr : gen.startAddr = start
  chunkSize : gen.chunkSize.toNat = 2 ^ b
  none : gen.curSize.toNat = 0
  nothing : gen.sizeLeft.toNat = 0
  beyond : start.toNat + size.toNat ≤ gen.nextAddr.toNat

def Fit (gen : ChunkGenerator) : Prop := 0 < gen.sizeLeft.toNat → gen.nextSize.toNat ≤ gen.sizeLeft.toNat

theorem setNext_eq (power : gen.chunkSize.toNat = 2 ^ b) (later : gen.nextAddr ≤ skip) : gen.setNext skip = .ok { gen with
    sizeLeft := gen.sizeLeft - minAddr (skip - gen.nextAddr) gen.sizeLeft
    curSize := gen.curSize + minAddr (skip - gen.nextAddr) gen.sizeLeft
    nextAddr := skip
    nextSize := if roundUp skip gen.chunkSize - skip = 0 then
        minAddr (gen.sizeLeft - minAddr (skip - gen.nextAddr) gen.sizeLeft) gen.chunkSize
      else roundUp skip gen.chunkSize - skip } := by
  have nonzero : (gen.chunkSize != 0) = true := by
    rw [bne_iff_ne]
    intro zero
    rw [zero] at power
    exact Nat.ne_of_lt (two_pow_pos b) power
  unfold ChunkGenerator.setNext
  rw [decide_eq_true later, nonzero]
  rfl

theorem Active.setNext (active : Active start size b gen grown) (room : start.toNat + size.toNat + 2 ^ b < 2 ^ 64) (later : gen.nextAddr ≤ skip) :
    ∃ after, gen.setNext skip = .ok after ∧ Active start size b after true ∧ after.curAddr = gen.curAddr ∧
      (Fit after ↔ start.toNat + size.toNat ≤ skip.toNat ∨ (roundUp skip gen.chunkSize).toNat ≤ start.toNat + size.toNat) := by
  refine ⟨_, setNext_eq active.chunkSize later, ?_⟩
  have later : gen.nextAddr.toNat ≤ skip.toNat := later
  have whole := active.whole
  have reached := active.reached
  have some := active.some
  have distance : (skip - gen.nextAddr).toNat = skip.toNat - gen.nextAddr.toNat := toNat_sub_of_le later
  have skipped : (minAddr (skip - gen.nextAddr) gen.sizeLeft).toNat = min (skip.toNat - gen.nextAddr.toNat) gen.sizeLeft.toNat := by
    rw [toNat_minAddr, distance]
  have sizeLeft : (gen.sizeLeft - minAddr (skip - gen.nextAddr) gen.sizeLeft).toNat =
      gen.sizeLeft.toNat - min (skip.toNat - gen.nextAddr.toNat) gen.sizeLeft.toNat := by
    rw [toNat_sub_of_le, skipped]
    show (minAddr (skip - gen.nextAddr) gen.sizeLeft).toNat ≤ gen.sizeLeft.toNat
    rw [skipped]
    exact Nat.min_le_right _ _
  have curSize : (gen.curSize + minAddr (skip - gen.nextAddr) gen.sizeLeft).toNat =
      gen.curSize.toNat + min (skip.toNat - gen.nextAddr.toNat) gen.sizeLeft.toNat := by
    rw [toNat_add, skipped, mod_eq_of_lt (by omega)]
  by_cases past : start.toNat + size.toNat ≤ skip.toNat
  · have all : min (skip.toNat - gen.nextAddr.toNat) gen.sizeLeft.toNat = gen.sizeLeft.toNat := by
      by_cases more : 0 < gen.sizeLeft.toNat
      · have follows := active.follows more
        omega
      · omega
    have empty : ¬0 < (gen.sizeLeft - minAddr (skip - gen.nextAddr) gen.sizeLeft).toNat := by
      rw [sizeLeft, all, Nat.sub_self]
      exact Nat.lt_irrefl 0
    refine ⟨⟨active.startAddr, active.chunkSize, ?_, ?_, ?_, fun more => absurd more empty, fun more => absurd more empty, nofun⟩, rfl,
      fun _ => .inl past, fun _ more => absurd more empty⟩
    · dsimp only
      omega
    · dsimp only
      omega
    · dsimp only
      omega
  · have more : 0 < gen.sizeLeft.toNat := by omega
    have follows := active.follows more
    have moved : min (skip.toNat - gen.nextAddr.toNat) gen.sizeLeft.toNat = skip.toNat - gen.nextAddr.toNat := by omega
    rw [moved] at curSize sizeLeft
    have up := roundUp_eq active.chunkSize (show skip.toNat + 2 ^ b < 2 ^ 64 by omega)
    have least : (roundUp skip gen.chunkSize - skip).toNat = (roundUp skip gen.chunkSize).toNat - skip.toNat := by
      refine toNat_sub_of_le ?_
      show skip.toNat ≤ (roundUp skip gen.chunkSize).toNat
      omega
    have nextSize : (if roundUp skip gen.chunkSize - skip = 0 then
          minAddr (gen.sizeLeft - minAddr (skip - gen.nextAddr) gen.sizeLeft) gen.chunkSize
        else roundUp skip gen.chunkSize - skip).toNat =
        if skip.toNat % 2 ^ b = 0 then min (gen.sizeLeft.toNat - (skip.toNat - gen.nextAddr.toNat)) (2 ^ b) else 2 ^ b - skip.toNat % 2 ^ b := by
      by_cases aligned : skip.toNat % 2 ^ b = 0
      · have zero : roundUp skip gen.chunkSize - skip = 0 := by
          apply eq_of_toNat_eq
          rw [least, up, if_pos aligned]
          exact Nat.sub_self _
        rw [if_pos zero, if_pos aligned, toNat_minAddr, sizeLeft, active.chunkSize]
      · have nonzero : roundUp skip gen.chunkSize - skip ≠ 0 := by
          intro zero
          rw [zero, up, if_neg aligned] at least
          have none : (0 : Addr).toNat = 0 := rfl
          omega
        rw [if_neg nonzero, if_neg aligned, least, up, if_neg aligned]
        omega
    refine ⟨⟨active.startAddr, active.chunkSize, ?_, ?_, ?_, fun _ => ?_, fun _ => ?_, nofun⟩, rfl, ?_⟩
    · dsimp only
      omega
    · dsimp only
      omega
    · dsimp only
      omega
    · dsimp only
      omega
    · rw [nextSize, sizeLeft]
    · unfold Fit
      rw [nextSize, sizeLeft, up]
      by_cases aligned : skip.toNat % 2 ^ b = 0
      · rw [if_pos aligned, if_pos aligned]
        omega
      · rw [if_neg aligned, if_neg aligned]
        omega

theorem Active.next_last (active : Active start size b gen grown) (none : gen.sizeLeft.toNat = 0) : Finished start size b gen.next.1 := by
  have last : gen.last = true := beq_iff_eq.mpr (eq_of_toNat_eq none)
  have whole := active.whole
  have reached := active.reached
  unfold ChunkGenerator.next
  rw [if_pos last]
  refine ⟨active.startAddr, active.chunkSize, rfl, none, ?_⟩
  dsimp only
  omega

theorem next_more (more : 0 < gen.sizeLeft.toNat) : gen.next.1 = { gen with
    curAddr := gen.nextAddr
    curSize := gen.nextSize
    sizeLeft := gen.sizeLeft - gen.nextSize
    nextAddr := gen.nextAddr + gen.nextSize
    nextSize := minAddr (gen.sizeLeft - gen.nextSize) gen.chunkSize } := by
  have last : ¬gen.last = true := by
    intro last
    rw [beq_iff_eq.mp last] at more
    exact Nat.lt_irrefl 0 more
  unfold ChunkGenerator.next
  rw [if_neg last]

theorem Active.next (active : Active start size b gen grown) (room : start.toNat + size.toNat + 2 ^ b < 2 ^ 64) (more : 0 < gen.sizeLeft.toNat)
    (fit : Fit gen) : Active start size b gen.next.1 false ∧ gen.next.1.curAddr.toNat = gen.curAddr.toNat + gen.curSize.toNat ∧ Fit gen.next.1 := by
  have whole := active.whole
  have follows := active.follows more
  have takes := active.nextSize more
  have fit := fit more
  have positive := two_pow_pos b
  have sizeLeft : (gen.sizeLeft - gen.nextSize).toNat = gen.sizeLeft.toNat - gen.nextSize.toNat := toNat_sub_of_le fit
  have nextAddr : (gen.nextAddr + gen.nextSize).toNat = gen.nextAddr.toNat + gen.nextSize.toNat := by
    rw [toNat_add, mod_eq_of_lt (by omega)]
  have nextSize : (minAddr (gen.sizeLeft - gen.nextSize) gen.chunkSize).toNat = min (gen.sizeLeft.toNat - gen.nextSize.toNat) (2 ^ b) := by
    rw [toNat_minAddr, sizeLeft, active.chunkSize]
  have some : 0 < gen.nextSize.toNat := by
    rw [takes]
    split <;> omega
  -- a chunk that is not the last ends at a multiple of the chunk size
  have aligned : 0 < gen.sizeLeft.toNat - gen.nextSize.toNat → (gen.nextAddr.toNat + gen.nextSize.toNat) % 2 ^ b = 0 := by
    intro left
    by_cases begins : gen.nextAddr.toNat % 2 ^ b = 0
    · rw [if_pos begins] at takes
      have full : gen.nextSize.toNat = 2 ^ b := by omega
      rw [full, Nat.add_mod_right]
      exact begins
    · rw [if_neg begins] at takes
      have split := Nat.div_add_mod' gen.nextAddr.toNat (2 ^ b)
      have sum : gen.nextAddr.toNat + gen.nextSize.toNat = (gen.nextAddr.toNat / 2 ^ b + 1) * 2 ^ b := by
        rw [takes, Nat.add_mul]
        omega
      rw [sum]
      exact Nat.mul_mod_left _ _
  have within : gen.nextAddr.toNat % 2 ^ b + gen.nextSize.toNat ≤ 2 ^ b := by
    rw [takes]
    split <;> omega
  rw [next_more more]
  refine ⟨⟨active.startAddr, active.chunkSize, some, ?_, Nat.le_of_eq nextAddr.symm, fun _ => nextAddr, fun left => ?_, fun _ => within⟩, follows, fun left => ?_⟩
  · dsimp only
    rw [sizeLeft]
    omega
  · rw [sizeLeft] at left
    rw [nextAddr, nextSize, sizeLeft, if_pos (aligned left)]
  · rw [nextSize, sizeLeft]
    exact Nat.min_le_left _ _

/-- A chunk that goes past the region, with a count of what is left that has wrapped around. -/
structure Overrun (stop : Nat) (gen : ChunkGenerator) (b : Nat) : Prop where
  chunkSize : gen.chunkSize.toNat = 2 ^ b
  beyond : stop < gen.curAddr.toNat + gen.curSize.toNat
  some : 0 < gen.curSize.toNat
  follows : gen.nextAddr.toNat = gen.curAddr.toNat + gen.curSize.toNat
  wrapped : gen.nextAddr.toNat + gen.sizeLeft.toNat = 2 ^ 64 + stop

theorem Active.overrun (active : Active start size b gen grown) (room : start.toNat + size.toNat + 2 ^ b < 2 ^ 64) (unfit : ¬Fit gen) :
    0 < gen.sizeLeft.toNat ∧ Overrun (start.toNat + size.toNat) gen.next.1 b := by
  obtain ⟨more, _⟩ := Classical.not_imp.mp unfit
  have whole := active.whole
  have follows := active.follows more
  have takes := active.nextSize more
  have bound : gen.nextSize.toNat ≤ 2 ^ b := by
    rw [takes]
    split <;> omega
  have nextAddr : (gen.nextAddr + gen.nextSize).toNat = gen.nextAddr.toNat + gen.nextSize.toNat := by
    rw [toNat_add, mod_eq_of_lt (by omega)]
  refine ⟨more, ?_⟩
  rw [next_more more]
  refine ⟨active.chunkSize, ?_, ?_, nextAddr, ?_⟩
  · dsimp only
    omega
  · dsimp only
    omega
  · rw [nextAddr, toNat_sub]
    omega

theorem Overrun.setNext {stop : Nat} (overrun : Overrun stop gen b) (later : gen.nextAddr ≤ skip) :
    ∃ after, gen.setNext skip = .ok after ∧ Overrun stop after b := by
  refine ⟨_, setNext_eq overrun.chunkSize later, ?_⟩
  have later : gen.nextAddr.toNat ≤ skip.toNat := later
  have some := overrun.some
  have follows := overrun.follows
  have wrapped := overrun.wrapped
  have distance : (skip - gen.nextAddr).toNat = skip.toNat - gen.nextAddr.toNat := toNat_sub_of_le later
  have skipped : (minAddr (skip - gen.nextAddr) gen.sizeLeft).toNat = skip.toNat - gen.nextAddr.toNat := by
    rw [toNat_minAddr, distance]
    omega
  have sizeLeft : (gen.sizeLeft - minAddr (skip - gen.nextAddr) gen.sizeLeft).toNat = gen.sizeLeft.toNat - (skip.toNat - gen.nextAddr.toNat) := by
    rw [toNat_sub_of_le, skipped]
    show (minAddr (skip - gen.nextAddr) gen.sizeLeft).toNat ≤ gen.sizeLeft.toNat
    rw [skipped]
    omega
  have curSize : (gen.curSize + minAddr (skip - gen.nextAddr) gen.sizeLeft).toNat = gen.curSize.toNat + (skip.toNat - gen.nextAddr.toNat) := by
    rw [toNat_add, skipped, mod_eq_of_lt (by omega)]
  refine ⟨overrun.chunkSize, ?_, ?_, ?_, ?_⟩
  · dsimp only
    omega
  · dsimp only
    omega
  · dsimp only
    omega
  · dsimp only
    omega

theorem Finished.setNext (finished : Finished start size b gen) (later : gen.nextAddr ≤ skip) :
    start.toNat + size.toNat ≤ skip.toNat ∧ ∃ after, gen.setNext skip = .ok after ∧ Finished start size b after := by
  have past : start.toNat + size.toNat ≤ skip.toNat := Nat.le_trans finished.beyond later
  refine ⟨past, _, setNext_eq finished.chunkSize later, ?_⟩
  have nothing : minAddr (skip - gen.nextAddr) gen.sizeLeft = 0#64 := by
    apply eq_of_toNat_eq
    rw [toNat_minAddr, finished.nothing]
    exact Nat.min_zero _
  refine ⟨finished.startAddr, finished.chunkSize, ?_, ?_, past⟩
  · rw [nothing, BitVec.add_zero]
    exact finished.none
  · rw [nothing, BitVec.sub_zero]
    exact finished.nothing

theorem Finished.next (finished : Finished start size b gen) : Finished start size b gen.next.1 := by
  have last : gen.last = true := beq_iff_eq.mpr (eq_of_toNat_eq finished.nothing)
  unfold ChunkGenerator.next
  rw [if_pos last]
  exact ⟨finished.startAddr, finished.chunkSize, rfl, finished.nothing, finished.beyond⟩

def ofUnskipped (startAddr : Addr) (gen : Mem.ChunkGenerator) : ChunkGenerator :=
  ⟨gen.curAddr, gen.nextAddr, gen.curSize, gen.nextSize, gen.sizeLeft, startAddr, gen.chunkSize⟩

/-- The generator of this module, run without skips, is the one the proxies and ports use. -/
theorem ofUnskipped_next (startAddr : Addr) (gen : Mem.ChunkGenerator) :
    ofUnskipped startAddr gen.next = (ofUnskipped startAddr gen).next.1 := by
  by_cases last : gen.last = true
  · have last' : (ofUnskipped startAddr gen).last = true := last
    unfold Mem.ChunkGenerator.next ChunkGenerator.next
    rw [if_pos last', if_pos last]
    rfl
  · have last' : ¬(ofUnskipped startAddr gen).last = true := last
    unfold Mem.ChunkGenerator.next ChunkGenerator.next
    rw [if_neg last', if_neg last]
    rfl

def firstEnd (start size chunkSize : Addr) : Addr :=
  minAddr (if start = roundUp start chunkSize then roundUp start chunkSize + chunkSize else roundUp start chunkSize) (start + size)

section

variable (power : chunkSize.toNat = 2 ^ b)
include power

theorem make_eq (fits : b < 64) : ChunkGenerator.make start size chunkSize = .ok {
    curAddr := start
    nextAddr := firstEnd start size chunkSize
    curSize := firstEnd start size chunkSize - start
    sizeLeft := size - (firstEnd start size chunkSize - start)
    nextSize := minAddr (size - (firstEnd start size chunkSize - start)) chunkSize
    startAddr := start
    chunkSize } := by
  have nonzero : chunkSize ≠ 0 := by
    intro zero
    rw [zero] at power
    exact Nat.ne_of_lt (two_pow_pos b) power
  have accepted : (chunkSize == 0 || isPowerOf2 chunkSize) = true := by
    rw [eq_two_pow power fits, isPowerOf2_two_pow fits]
    exact Bool.or_true _
  unfold ChunkGenerator.make
  rw [accepted]
  simp only [if_neg nonzero]
  rfl

/-- Both generators start alike, so they make the same chunks until one skips. -/
theorem ofUnskipped_make (fits : b < 64) :
    ChunkGenerator.make start size chunkSize = .ok (ofUnskipped start (Mem.ChunkGenerator.make start size chunkSize)) := by
  have nonzero : chunkSize ≠ 0 := by
    intro zero
    rw [zero] at power
    exact Nat.ne_of_lt (two_pow_pos b) power
  rw [make_eq power fits]
  unfold Mem.ChunkGenerator.make firstEnd
  simp only [if_neg nonzero]
  rfl

theorem firstEnd_toNat (room : start.toNat + size.toNat + 2 ^ b < 2 ^ 64) :
    (firstEnd start size chunkSize).toNat = start.toNat + min (2 ^ b - start.toNat % 2 ^ b) size.toNat := by
  have fits : b < 64 := (Nat.pow_lt_pow_iff_right (by decide)).mp (show 2 ^ b < 2 ^ 64 by omega)
  have split := Nat.div_add_mod' start.toNat (2 ^ b)
  have block : boundary b start = start.toNat + (2 ^ b - start.toNat % 2 ^ b) := by
    unfold boundary
    omega
  have bound : start.toNat + (2 ^ b - start.toNat % 2 ^ b) < 2 ^ 64 := by omega
  unfold firstEnd
  rw [toNat_minAddr, eq_two_pow power fits, next_boundary fits, toNat_add, block, mod_eq_of_lt bound,
    mod_eq_of_lt (show start.toNat + size.toNat < 2 ^ 64 by omega)]
  exact Nat.add_min_add_left _ _ _

theorem make_spec (room : start.toNat + size.toNat + 2 ^ b < 2 ^ 64) :
    ∃ gen, ChunkGenerator.make start size chunkSize = .ok gen ∧ gen.curAddr = start ∧
      (0 < size.toNat → Active start size b gen false ∧ Fit gen) ∧ (size.toNat = 0 → Finished start size b gen) := by
  have fits : b < 64 := (Nat.pow_lt_pow_iff_right (by decide)).mp (show 2 ^ b < 2 ^ 64 by omega)
  have split := Nat.div_add_mod' start.toNat (2 ^ b)
  have nextAddr := firstEnd_toNat power room
  have curSize : (firstEnd start size chunkSize - start).toNat = min (2 ^ b - start.toNat % 2 ^ b) size.toNat := by
    rw [toNat_sub_of_le, nextAddr]
    · omega
    · show start.toNat ≤ (firstEnd start size chunkSize).toNat
      rw [nextAddr]
      exact Nat.le_add_right _ _
  have sizeLeft : (size - (firstEnd start size chunkSize - start)).toNat = size.toNat - min (2 ^ b - start.toNat % 2 ^ b) size.toNat := by
    rw [toNat_sub_of_le, curSize]
    show (firstEnd start size chunkSize - start).toNat ≤ size.toNat
    rw [curSize]
    exact Nat.min_le_right _ _
  have nextSize : (minAddr (size - (firstEnd start size chunkSize - start)) chunkSize).toNat =
      min (size.toNat - min (2 ^ b - start.toNat % 2 ^ b) size.toNat) (2 ^ b) := by
    rw [toNat_minAddr, sizeLeft, power]
  refine ⟨_, make_eq power fits, rfl, fun _ => ⟨⟨rfl, power, ?_, ?_, ?_, fun _ => ?_, fun more => ?_, fun _ => ?_⟩, fun _ => ?_⟩, fun _ => ?_⟩
  · dsimp only
    omega
  · dsimp only
    omega
  · dsimp only
    omega
  · dsimp only
    omega
  · dsimp only at more ⊢
    have aligned : (start.toNat + (2 ^ b - start.toNat % 2 ^ b)) % 2 ^ b = 0 := by
      have sum : start.toNat + (2 ^ b - start.toNat % 2 ^ b) = (start.toNat / 2 ^ b + 1) * 2 ^ b := by
        rw [Nat.add_mul]
        omega
      rw [sum]
      exact Nat.mul_mod_left _ _
    have less : min (2 ^ b - start.toNat % 2 ^ b) size.toNat = 2 ^ b - start.toNat % 2 ^ b := by omega
    rw [nextAddr, nextSize, sizeLeft, less, if_pos aligned]
  · dsimp only
    omega
  · rw [nextSize, sizeLeft]
    exact Nat.min_le_left _ _
  · refine ⟨rfl, power, ?_, ?_, ?_⟩
    · dsimp only
      omega
    · dsimp only
      omega
    · dsimp only
      omega

end

end Generator

section Runs

variable {start size : Addr} {b : Nat} {walk : Walk} {past : List Chunk} {ops : List ChunkOp} {skip : Option Addr} {gen : ChunkGenerator}
  {grown : Bool}

theorem total_append (first second : List Chunk) : total (first ++ second) = total first + total second := by
  unfold total
  rw [map_append, sum_append]

theorem contiguous_append {first : Nat} {chunks others : List Chunk} :
    Contiguous first (chunks ++ others) ↔ Contiguous first chunks ∧ Contiguous (first + total chunks) others := by
  induction chunks generalizing first with
  | nil => exact ⟨fun rest => ⟨trivial, rest⟩, And.right⟩
  | cons chunk chunks ih =>
    have shift : first + total (chunk :: chunks) = first + chunk.size.toNat + total chunks := by
      unfold total
      rw [map_cons, sum_cons, Nat.add_assoc]
    rw [shift, List.cons_append]
    exact (and_congr_right' ih).trans and_assoc.symm

/-- The chunks so far are contiguous and inside. -/
structure Behind (start size : Addr) (b : Nat) (past : List Chunk) : Prop where
  contiguous : Contiguous start.toNat past
  inside : ∀ chunk ∈ past, chunk.stop ≤ start.toNat + size.toNat
  blocks : ∀ chunk ∈ past, chunk.grown = false → chunk.Within (2 ^ b)
  some : ∀ chunk ∈ past, 0 < chunk.size.toNat

structure Going (start size : Addr) (b : Nat) (past : List Chunk) (walk : Walk) : Prop where
  active : Active start size b walk.gen walk.grown
  behind : Behind start size b past
  reached : walk.gen.curAddr.toNat = start.toNat + total past

/-- A finished walk covers the region. -/
structure Over (start size : Addr) (b : Nat) (past : List Chunk) (walk : Walk) : Prop where
  finished : Finished start size b walk.gen
  behind : Behind start size b past
  whole : total past = size.toNat

def Clear (stop : Nat) (chunkSize skip : Addr) : Prop := stop ≤ skip.toNat ∨ (roundUp skip chunkSize).toNat ≤ stop

def AllClear (stop : Nat) (chunkSize : Addr) : Option Addr → List ChunkOp → Prop
  | _, [] => True
  | skip, .next :: ops => (∀ next ∈ skip, Clear stop chunkSize next) ∧ AllClear stop chunkSize none ops
  | _, .setNext next :: ops => AllClear stop chunkSize (some next) ops

theorem allClear_iff {stop : Nat} : AllClear stop chunkSize skip ops ↔
    (∀ next ∈ skip, ∀ rest, ops = .next :: rest → Clear stop chunkSize next) ∧
      ∀ before next after, ops = before ++ .setNext next :: .next :: after → Clear stop chunkSize next := by
  induction ops generalizing skip with
  | nil =>
    refine ⟨fun _ => ⟨nofun, fun before next after shape => ?_⟩, fun _ => trivial⟩
    exact absurd shape.symm (append_ne_nil_of_right_ne_nil before (cons_ne_nil _ _))
  | cons op ops ih =>
    cases op with
    | next =>
      have step : AllClear stop chunkSize skip (.next :: ops) ↔ (∀ next ∈ skip, Clear stop chunkSize next) ∧ AllClear stop chunkSize none ops := Iff.rfl
      rw [step, ih]
      constructor
      · rintro ⟨here, _, later⟩
        refine ⟨fun next last _ _ => here next last, fun before next after shape => ?_⟩
        cases before with
        | nil => cases shape
        | cons _ before =>
          cases shape
          exact later before next after rfl
      · rintro ⟨here, later⟩
        refine ⟨fun next last => here next last ops rfl, nofun, fun before next after shape => ?_⟩
        exact later (.next :: before) next after (by rw [shape]; rfl)
    | setNext next =>
      have step : AllClear stop chunkSize skip (.setNext next :: ops) ↔ AllClear stop chunkSize (some next) ops := Iff.rfl
      rw [step, ih]
      constructor
      · rintro ⟨here, later⟩
        refine ⟨nofun, fun before other after shape => ?_⟩
        cases before with
        | nil =>
          cases shape
          exact here next rfl after rfl
        | cons _ before =>
          cases shape
          exact later before other after rfl
      · rintro ⟨_, later⟩
        refine ⟨fun other same rest shape => ?_, fun before other after shape => ?_⟩
        · cases same
          exact later [] next rest (by rw [shape]; rfl)
        · exact later (.setNext next :: before) other after (by rw [shape]; rfl)

theorem current_some (some : 0 < gen.curSize.toNat) : (⟨gen, grown⟩ : Walk).current = [⟨gen.curAddr, gen.curSize, grown⟩] := by
  have more : ¬gen.done = true := by
    intro done
    rw [beq_iff_eq.mp done] at some
    exact Nat.lt_irrefl 0 some
  exact if_neg more

theorem current_none (none : gen.curSize.toNat = 0) : (⟨gen, grown⟩ : Walk).current = [] := by
  have done : gen.done = true := beq_iff_eq.mpr (eq_of_toNat_eq none)
  exact if_pos done

theorem Going.leave (going : Going start size b past ⟨gen, grown⟩) : Behind start size b (past ++ [⟨gen.curAddr, gen.curSize, grown⟩]) ∧
      total (past ++ [⟨gen.curAddr, gen.curSize, grown⟩]) = total past + gen.curSize.toNat := by
  have active := going.active
  have whole := active.whole
  have some := active.some
  have reached := going.reached
  refine ⟨⟨contiguous_append.mpr ⟨going.behind.contiguous, reached, trivial⟩, ?_, ?_, ?_⟩, total_append _ _⟩
  · intro chunk member
    obtain earlier | last := mem_concat.mp member
    · exact going.behind.inside chunk earlier
    · rw [last]
      unfold Chunk.stop
      dsimp only at whole ⊢
      omega
  · intro chunk member ungrown
    obtain earlier | last := mem_concat.mp member
    · exact going.behind.blocks chunk earlier ungrown
    · rw [last] at ungrown ⊢
      have within := active.within ungrown
      have split := Nat.div_add_mod' gen.curAddr.toNat (2 ^ b)
      unfold Chunk.Within Chunk.stop
      dsimp only at within some ⊢
      symm
      rw [Nat.div_eq_iff (two_pow_pos b)]
      omega
  · intro chunk member
    obtain earlier | last := mem_concat.mp member
    · exact going.behind.some chunk earlier
    · rw [last]
      exact some

theorem step_setNext {gen after : ChunkGenerator} {grown : Bool} {next : Addr} (ran : gen.setNext next = .ok after) :
    Walk.step ⟨gen, grown⟩ (.setNext next) = .ok (⟨after, true⟩, []) := by
  unfold Walk.step
  dsimp only
  rw [ran]
  rfl

theorem Over.run (gone : Over start size b past walk) (clear : ∀ next ∈ skip, Clear (start.toNat + size.toNat) chunkSize next)
    (each : Each Walk.step Walk.forward walk ops) : AllClear (start.toNat + size.toNat) chunkSize skip ops ∧
      ∃ final, run Walk.step walk ops = .ok (final, []) ∧ Over start size b past final := by
  induction ops generalizing walk skip with
  | nil => exact ⟨trivial, walk, rfl, gone⟩
  | cons op _ ih =>
    obtain ⟨gen, grown⟩ := walk
    cases op with
    | next =>
      have taken : Walk.step ⟨gen, grown⟩ .next = .ok (⟨gen.next.1, false⟩, []) := by
        unfold Walk.step
        rw [current_none gone.finished.none]
      obtain ⟨all, final, ran, kept⟩ := @ih ⟨gen.next.1, false⟩ none ⟨gone.finished.next, gone.behind, gone.whole⟩ nofun (each.cons taken)
      exact ⟨⟨clear, all⟩, final, run_cons.mpr ⟨_, _, _, taken, ran, rfl⟩, kept⟩
    | setNext next =>
      obtain ⟨passed, after, ran, finished⟩ := gone.finished.setNext each.1
      have taken := @step_setNext gen after grown next ran
      have clear' : ∀ other ∈ some next, Clear (start.toNat + size.toNat) chunkSize other := fun other same => by
        cases same
        exact .inl passed
      obtain ⟨all, final, ran, kept⟩ := @ih ⟨after, true⟩ (some next) ⟨finished, gone.behind, gone.whole⟩ clear' (each.cons taken)
      exact ⟨all, final, run_cons.mpr ⟨_, _, _, taken, ran, rfl⟩, kept⟩

theorem Overrun.run {stop : Nat} {final : Walk} {left : List Chunk} (overrun : Overrun stop walk.gen b)
    (each : Each Walk.step Walk.forward walk ops) (ran : run Walk.step walk ops = .ok (final, left)) :
    ∃ chunk ∈ left ++ final.current, stop < chunk.stop := by
  induction ops generalizing walk left with
  | nil =>
    cases ran
    refine ⟨⟨final.gen.curAddr, final.gen.curSize, final.grown⟩, ?_, overrun.beyond⟩
    rw [current_some overrun.some]
    exact mem_singleton_self _
  | cons op _ ih =>
    obtain ⟨gen, grown⟩ := walk
    obtain ⟨_, _, _, taken, finishes, rfl⟩ := run_cons.mp ran
    cases op with
    | next =>
      cases taken
      refine ⟨⟨gen.curAddr, gen.curSize, grown⟩, ?_, overrun.beyond⟩
      rw [current_some overrun.some]
      exact mem_append_left _ (mem_append_left _ (mem_singleton_self _))
    | setNext next =>
      obtain ⟨after, set, overrun⟩ := overrun.setNext each.1
      have step := @step_setNext gen after grown next set
      have each := each.cons step
      rw [step] at taken
      cases taken
      exact ih overrun each finishes

theorem Going.run (power : chunkSize.toNat = 2 ^ b) (room : start.toNat + size.toNat + 2 ^ b < 2 ^ 64)
    (going : Going start size b past walk) (fit : Fit walk.gen ↔ ∀ next ∈ skip, Clear (start.toNat + size.toNat) chunkSize next)
    (each : Each Walk.step Walk.forward walk ops) :
    (AllClear (start.toNat + size.toNat) chunkSize skip ops → ∃ final left, run Walk.step walk ops = .ok (final, left) ∧
      (Going start size b (past ++ left) final ∧ left.length = ops.count .next ∨ Over start size b (past ++ left) final)) ∧
    (¬AllClear (start.toNat + size.toNat) chunkSize skip ops → ∀ final left, run Walk.step walk ops = .ok (final, left) →
      ∃ chunk ∈ left ++ final.current, start.toNat + size.toNat < chunk.stop) := by
  induction ops generalizing walk skip past with
  | nil => exact ⟨fun _ => ⟨walk, [], rfl, .inl ⟨by rwa [append_nil], rfl⟩⟩, fun unclear => absurd trivial unclear⟩
  | cons op ops ih =>
    obtain ⟨gen, grown⟩ := walk
    cases op with
    | next =>
      have taken : Walk.step ⟨gen, grown⟩ .next = .ok (⟨gen.next.1, false⟩, [⟨gen.curAddr, gen.curSize, grown⟩]) := by
        unfold Walk.step
        rw [current_some going.active.some]
      have each' := each.cons taken
      obtain ⟨behind, length⟩ := going.leave
      have whole : gen.curAddr.toNat + gen.curSize.toNat + gen.sizeLeft.toNat = start.toNat + size.toNat := going.active.whole
      have reached : gen.curAddr.toNat = start.toNat + total past := going.reached
      have split : AllClear (start.toNat + size.toNat) chunkSize skip (.next :: ops) ↔
          Fit gen ∧ AllClear (start.toNat + size.toNat) chunkSize none ops := and_congr_left' fit.symm
      rw [split]
      by_cases more : 0 < gen.sizeLeft.toNat
      · by_cases fits : Fit gen
        · obtain ⟨active, follows, fit'⟩ := going.active.next room more fits
          have going' : Going start size b (past ++ [⟨gen.curAddr, gen.curSize, grown⟩]) ⟨gen.next.1, false⟩ := by
            refine ⟨active, behind, ?_⟩
            rw [length, ← Nat.add_assoc, ← reached]
            exact follows
          obtain ⟨good, bad⟩ := @ih ⟨gen.next.1, false⟩ _ none going' ⟨fun _ => nofun, fun _ => fit'⟩ each'
          refine ⟨fun clear => ?_, fun unclear final left ran => ?_⟩
          · obtain ⟨final, left, ran, kept⟩ := good clear.2
            rw [List.append_assoc] at kept
            refine ⟨final, _ :: left, run_cons.mpr ⟨_, _, _, taken, ran, rfl⟩, kept.imp_left fun both => ⟨both.1, ?_⟩⟩
            rw [length_cons, both.2, count_cons_self]
          · obtain ⟨middle, first, others, step, finishes, rfl⟩ := run_cons.mp ran
            rw [taken] at step
            cases step
            obtain ⟨chunk, member, beyond⟩ := bad (fun clear => unclear ⟨fits, clear⟩) final others finishes
            exact ⟨chunk, mem_cons_of_mem _ member, beyond⟩
        · obtain ⟨_, overrun⟩ := going.active.overrun room fits
          refine ⟨fun clear => absurd clear.1 fits, fun _ final left ran => ?_⟩
          obtain ⟨middle, first, others, step, finishes, rfl⟩ := run_cons.mp ran
          rw [taken] at step
          cases step
          obtain ⟨chunk, member, beyond⟩ := @Overrun.run b ⟨gen.next.1, false⟩ ops _ final others overrun each' finishes
          exact ⟨chunk, mem_cons_of_mem _ member, beyond⟩
      · have none : gen.sizeLeft.toNat = 0 := Nat.eq_zero_of_not_pos more
        have gone : Over start size b (past ++ [⟨gen.curAddr, gen.curSize, grown⟩]) ⟨gen.next.1, false⟩ := by
          refine ⟨going.active.next_last none, behind, ?_⟩
          rw [length]
          omega
        obtain ⟨clear, final, ran, kept⟩ := @Over.run start size b _ _ ops Option.none chunkSize gone nofun each'
        refine ⟨fun _ => ⟨final, _, run_cons.mpr ⟨_, _, _, taken, ran, rfl⟩, .inr kept⟩, fun unclear => ?_⟩
        exact absurd ⟨fun some => absurd some more, clear⟩ unclear
    | setNext next =>
      obtain ⟨after, set, active, same, fit'⟩ := going.active.setNext room each.1
      have taken := @step_setNext gen after grown next set
      have blocks : gen.chunkSize = chunkSize := eq_of_toNat_eq (going.active.chunkSize.trans power.symm)
      rw [blocks] at fit'
      have going' : Going start size b past ⟨after, true⟩ := ⟨active, going.behind, by rw [same]; exact going.reached⟩
      have linked : Fit after ↔ ∀ other ∈ some next, Clear (start.toNat + size.toNat) chunkSize other :=
        fit'.trans ⟨fun clear other same => by cases same; exact clear, fun clear => clear next rfl⟩
      obtain ⟨good, bad⟩ := @ih ⟨after, true⟩ past (some next) going' linked (each.cons taken)
      refine ⟨fun clear => ?_, fun unclear final left ran => ?_⟩
      · obtain ⟨final, left, ran, kept⟩ := good clear
        refine ⟨final, left, run_cons.mpr ⟨_, _, _, taken, ran, rfl⟩, kept.imp_left fun both => ⟨both.1, ?_⟩⟩
        rw [both.2, count_cons_of_ne (show ChunkOp.setNext next ≠ .next from nofun)]
      · obtain ⟨middle, first, others, step, finishes, rfl⟩ := run_cons.mp ran
        rw [taken] at step
        cases step
        exact bad unclear final others finishes

/-- The chunks of a walk, those that it has left and the current one, make up the region. -/
structure Tiling (start size : Addr) (b : Nat) (ops : List ChunkOp) (left : List Chunk) (final : Walk) : Prop where
  contiguous : Contiguous start.toNat (left ++ final.current)
  inside : ∀ chunk ∈ left ++ final.current, chunk.stop ≤ start.toNat + size.toNat
  blocks : ∀ chunk ∈ left ++ final.current, chunk.grown = false → chunk.Within (2 ^ b)
  complete : final.gen.done = false → final.gen.complete.toNat = total left
  whole : final.gen.done = true → total left = size.toNat
  ends : size.toNat < ops.count .next → final.gen.done = true

theorem length_le_total {chunks : List Chunk} (some : ∀ chunk ∈ chunks, 0 < chunk.size.toNat) : chunks.length ≤ total chunks := by
  induction chunks with
  | nil => exact Nat.le_refl 0
  | cons chunk _ ih =>
    have rest := ih fun other member => some other (mem_cons_of_mem _ member)
    have here := some chunk mem_cons_self
    unfold total at rest ⊢
    rw [map_cons, sum_cons, length_cons]
    omega

theorem Going.tiling {final : Walk} {left : List Chunk} (going : Going start size b left final) (counted : left.length = ops.count .next) :
    Tiling start size b ops left final := by
  obtain ⟨gen, _⟩ := final
  obtain ⟨behind, length⟩ := going.leave
  have some : 0 < gen.curSize.toNat := going.active.some
  have whole : gen.curAddr.toNat + gen.curSize.toNat + gen.sizeLeft.toNat = start.toNat + size.toNat := going.active.whole
  have reached : gen.curAddr.toNat = start.toNat + total left := going.reached
  have more : gen.done = false := by
    cases done : gen.done with
    | false => rfl
    | true =>
      rw [beq_iff_eq.mp done] at some
      exact absurd some (Nat.lt_irrefl 0)
  have many := length_le_total going.behind.some
  rw [← current_some some] at behind
  refine ⟨behind.contiguous, behind.inside, behind.blocks, fun _ => ?_, fun done => ?_, fun _ => ?_⟩
  · have begins : gen.startAddr = start := going.active.startAddr
    unfold ChunkGenerator.complete
    rw [begins, toNat_sub_of_le, reached]
    · omega
    · show start.toNat ≤ gen.curAddr.toNat
      omega
  · rw [more] at done
    cases done
  · omega

theorem Over.tiling {final : Walk} {left : List Chunk} (gone : Over start size b left final) : Tiling start size b ops left final := by
  obtain ⟨gen, grown⟩ := final
  have done : gen.done = true := beq_iff_eq.mpr (eq_of_toNat_eq gone.finished.none)
  have chunks : left ++ (⟨gen, grown⟩ : Walk).current = left := by rw [current_none gone.finished.none, append_nil]
  refine ⟨by rw [chunks]; exact gone.behind.contiguous, by rw [chunks]; exact gone.behind.inside, by rw [chunks]; exact gone.behind.blocks,
    fun more => ?_, fun _ => gone.whole, fun _ => done⟩
  rw [done] at more
  cases more

/-- The chunks tile the region exactly when no skip, right before a move to the next chunk, ends inside the region but in a block that the
region does not fill. -/
theorem chunks_tile {start size chunkSize : Addr} {b : Nat} (power : chunkSize.toNat = 2 ^ b)
    (room : start.toNat + size.toNat + chunkSize.toNat < 2 ^ 64) : ∃ gen, ChunkGenerator.make start size chunkSize = .ok gen ∧
      ∀ ops, Each Walk.step Walk.forward { gen } ops →
        ((∃ final left, run Walk.step { gen } ops = .ok (final, left) ∧ Tiling start size b ops left final) ↔
          ∀ before skip after, ops = before ++ .setNext skip :: .next :: after →
            start.toNat + size.toNat ≤ skip.toNat ∨ (roundUp skip chunkSize).toNat ≤ start.toNat + size.toNat) := by
  rw [power] at room
  obtain ⟨gen, made, first, active, finished⟩ := make_spec power room
  refine ⟨gen, made, fun ops each => ?_⟩
  have behind : Behind start size b [] := ⟨trivial, nofun, nofun, nofun⟩
  have clear : AllClear (start.toNat + size.toNat) chunkSize none ops ↔ ∀ before skip after, ops = before ++ .setNext skip :: .next :: after →
      Clear (start.toNat + size.toNat) chunkSize skip := allClear_iff.trans (and_iff_right nofun)
  refine Iff.trans ?_ clear
  by_cases some : 0 < size.toNat
  · have going : Going start size b [] { gen } := ⟨(active some).1, behind, congrArg BitVec.toNat first⟩
    obtain ⟨good, bad⟩ := @Going.run start size b _ _ ops none chunkSize power room going ⟨fun _ => nofun, fun _ => (active some).2⟩ each
    constructor
    · rintro ⟨final, left, ran, tiling⟩
      by_contra unclear
      obtain ⟨chunk, member, beyond⟩ := bad unclear final left ran
      exact absurd beyond (Nat.not_lt.mpr (tiling.inside chunk member))
    · intro clear
      obtain ⟨final, left, ran, ⟨going, counted⟩ | gone⟩ := good clear
      · exact ⟨final, left, ran, going.tiling counted⟩
      · exact ⟨final, left, ran, gone.tiling⟩
  · have gone : Over start size b [] { gen } := ⟨finished (Nat.eq_zero_of_not_pos some), behind, (Nat.eq_zero_of_not_pos some).symm⟩
    obtain ⟨clear, final, ran, kept⟩ := @Over.run start size b _ _ ops none chunkSize gone nofun each
    exact ⟨fun _ => clear, fun _ => ⟨final, [], ran, kept.tiling⟩⟩

/-- Ten bytes in chunks of eight, where a skip ends inside the second chunk. -/
theorem skip_overruns : ∃ gen final left, ChunkGenerator.make 0 10 8 = .ok gen ∧ Each Walk.step Walk.forward { gen } [.setNext 9, .next] ∧
    run Walk.step { gen } [.setNext 9, .next] = .ok (final, left) ∧ ¬Tiling 0 10 3 [.setNext 9, .next] left final := by
  refine ⟨_, _, _, rfl, by decide, rfl, fun tiling => ?_⟩
  have inside := tiling.inside ⟨9, 7, false⟩ (by decide)
  exact absurd inside (by decide)

theorem chunks_tile_skipped : ∃ gen, ChunkGenerator.make 0 32 8 = .ok gen ∧
    ∃ final left, run Walk.step { gen } [.setNext 13, .next, .next, .next] = .ok (final, left) ∧
      Tiling 0 32 3 [.setNext 13, .next, .next, .next] left final := by
  obtain ⟨gen, made, tiles⟩ := @chunks_tile 0 32 8 3 rfl (by decide)
  refine ⟨gen, made, (tiles _ ?_).mpr ?_⟩
  · cases made
    decide
  · have clear : AllClear 32 8 none [.setNext 13, .next, .next, .next] :=
      ⟨fun next last => by cases last; exact .inr (by decide), nofun, nofun, trivial⟩
    exact (allClear_iff.mp clear).2

end Runs

end ImcGem5.Base.Chunking

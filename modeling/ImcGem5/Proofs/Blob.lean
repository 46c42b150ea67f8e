import ImcGem5.Mem.PortProxy
import Mathlib.Data.List.Nodup
import Mathlib.Data.List.Perm.Subperm

/-! Blobs of virtual memory, byte by byte. Where parts begin and end is arithmetic of
addresses, and what the parts do together is one sequence of byte accesses. -/

namespace ImcGem5.Mem.Proofs.Blob
open Lib List BitVec PortProxy ChunkGenerator
open BitVec (ofNat)
open Nat (two_pow_pos mod_eq_of_lt)

section Rounding
variable {b : Nat} {val : Addr}

def boundary (b : Nat) (val : Addr) : Nat := val.toNat / 2 ^ b * 2 ^ b + 2 ^ b

theorem lt_boundary (b : Nat) (val : Addr) : val.toNat < boundary b val := by
  have split := Nat.div_add_mod' val.toNat (2 ^ b)
  unfold boundary
  omega

theorem boundary_le_add (b : Nat) (val : Addr) : boundary b val ≤ val.toNat + 2 ^ b := by
  have split := Nat.div_mul_le_self val.toNat (2 ^ b)
  unfold boundary
  omega

section

variable (fits : b < 64)
include fits

theorem boundary_le (val : Addr) : boundary b val ≤ 2 ^ 64 := by
  have whole : 2 ^ 64 = 2 ^ (64 - b) * 2 ^ b := by
    rw [← Nat.pow_add]
    congr 1
    omega
  have below : val.toNat / 2 ^ b < 2 ^ (64 - b) := by
    rw [Nat.div_lt_iff_lt_mul (two_pow_pos b), ← whole]
    exact val.isLt
  have scaled := Nat.mul_le_mul_right (2 ^ b) (Nat.succ_le_of_lt below)
  rw [Nat.succ_mul, ← whole] at scaled
  exact scaled

theorem toNat_pow : (ofNat 64 (2 ^ b)).toNat = 2 ^ b := by
  rw [toNat_ofNat, mod_eq_of_lt (Nat.pow_lt_pow_right (by omega) fits)]

theorem mask_eq : ofNat 64 (2 ^ b) - 1 = ofNat 64 (2 ^ b - 1) := by
  have positive := two_pow_pos b
  apply eq_of_toNat_eq
  rw [toNat_sub_of_le, toNat_pow fits, toNat_ofNat, mod_eq_of_lt]
  · rfl
  · have small : 2 ^ b < 2 ^ 64 := Nat.pow_lt_pow_right (by omega) fits
    omega
  · rw [le_def, toNat_pow fits]
    exact positive

theorem cleared (val : Addr) : (val &&& ~~~(ofNat 64 (2 ^ b) - 1)).toNat = val.toNat / 2 ^ b * 2 ^ b := by
  have shifted : val &&& ~~~(ofNat 64 (2 ^ b) - 1) = val >>> b <<< b := by
    apply eq_of_getLsbD_eq
    intro i inside
    rw [mask_eq fits, getLsbD_and, getLsbD_not, getLsbD_ofNat, Nat.testBit_two_pow_sub_one, getLsbD_shiftLeft, getLsbD_ushiftRight]
    by_cases low : i < b
    · simp [inside, low]
    · simp [inside, low, show b + (i - b) = i by omega]
  rw [shifted, toNat_shiftLeft, toNat_ushiftRight, Nat.shiftLeft_eq, Nat.shiftRight_eq_div_pow]
  exact mod_eq_of_lt (Nat.lt_of_le_of_lt (Nat.div_mul_le_self _ _) val.isLt)

theorem roundUp_toNat (val : Addr) :
    (roundUp val (ofNat 64 (2 ^ b))).toNat = (val.toNat + (2 ^ b - 1)) / 2 ^ b * 2 ^ b % 2 ^ 64 := by
  have whole : 2 ^ 64 = 2 ^ b * 2 ^ (64 - b) := by
    rw [← Nat.pow_add]
    congr 1
    omega
  have small : 2 ^ b < 2 ^ 64 := Nat.pow_lt_pow_right (by omega) fits
  rw [roundUp, cleared fits, mask_eq fits, toNat_add, toNat_ofNat, mod_eq_of_lt (a := 2 ^ b - 1) (by omega)]
  rw [whole, Nat.mod_mul_right_div_self, Nat.mul_comm _ (2 ^ b), Nat.mul_comm _ (2 ^ b), Nat.mul_mod_mul_left]

theorem next_boundary (val : Addr) :
    (if val = roundUp val (ofNat 64 (2 ^ b)) then roundUp val (ofNat 64 (2 ^ b)) + ofNat 64 (2 ^ b)
      else roundUp val (ofNat 64 (2 ^ b))).toNat = boundary b val % 2 ^ 64 := by
  have positive := two_pow_pos b
  have split := Nat.div_add_mod' val.toNat (2 ^ b)
  have up := roundUp_toNat fits val
  by_cases aligned : val.toNat % 2 ^ b = 0
  · have quotient : (val.toNat + (2 ^ b - 1)) / 2 ^ b = val.toNat / 2 ^ b := by
      rw [Nat.div_eq_iff positive]
      omega
    have same : (roundUp val (ofNat 64 (2 ^ b))).toNat = val.toNat := by
      rw [up, quotient, mod_eq_of_lt (by omega)]
      omega
    rw [if_pos (eq_of_toNat_eq same.symm), toNat_add, same, toNat_pow fits, boundary]
    congr 1
    omega
  · have quotient : (val.toNat + (2 ^ b - 1)) / 2 ^ b = val.toNat / 2 ^ b + 1 := by
      rw [Nat.div_eq_iff positive, Nat.add_mul]
      omega
    have same : (roundUp val (ofNat 64 (2 ^ b))).toNat = boundary b val % 2 ^ 64 := by
      rw [up, quotient, Nat.add_mul, Nat.one_mul, boundary]
    have moved : val ≠ roundUp val (ofNat 64 (2 ^ b)) := by
      intro stays
      have bound := boundary_le fits val
      have beyond := lt_boundary b val
      rw [← stays] at same
      by_cases top : boundary b val = 2 ^ 64
      · rw [top, Nat.mod_self] at same
        rw [same, Nat.zero_mod] at aligned
        exact aligned rfl
      · omega
    rw [if_neg moved, same]

end

end Rounding

section Bytes
variable {memory : Addr → Byte} {place place' : Nat → Addr} {buffer : Nat → Byte} {p : Nat}

theorem load_add (memory : Addr → Byte) (place : Nat → Addr) (buffer : Nat → Byte) (p early late : Nat) :
    load memory place buffer p (early + late) =
      load memory (fun i => place (early + i)) (load memory place buffer p early) (p + early) late := by
  induction late with
  | zero => rfl
  | succ _ ih => rw [← Nat.add_assoc, load, load, ih, Nat.add_assoc]

theorem store_add (place : Nat → Addr) (buffer : Nat → Byte) (p : Nat) (memory : Addr → Byte) (early late : Nat) :
    store place buffer p memory (early + late) =
      store (fun i => place (early + i)) buffer (p + early) (store place buffer p memory early) late := by
  induction late with
  | zero => rfl
  | succ _ ih => rw [← Nat.add_assoc, store, store, ih, Nat.add_assoc]

theorem load_congr {count : Nat} (same : ∀ i < count, place i = place' i) :
    load memory place buffer p count = load memory place' buffer p count := by
  induction count with
  | zero => rfl
  | succ count ih => rw [load, load, ih fun i less => same i (Nat.lt_succ_of_lt less), same count (Nat.lt_succ_self count)]

theorem store_congr {count : Nat} (same : ∀ i < count, place i = place' i) :
    store place buffer p memory count = store place' buffer p memory count := by
  induction count with
  | zero => rfl
  | succ count ih => rw [store, store, ih fun i less => same i (Nat.lt_succ_of_lt less), same count (Nat.lt_succ_self count)]

theorem load_const (value : Byte) (place : Nat → Addr) (buffer : Nat → Byte) (p count i : Nat) :
    load (fun _ => value) place buffer p count i = if p ≤ i ∧ i < p + count then value else buffer i := by
  induction count with
  | zero => rw [load, if_neg (by omega)]
  | succ count ih =>
    rw [load, Function.update_apply, ih]
    by_cases here : i = p + count
    · rw [if_pos here, if_pos (by omega)]
    · rw [if_neg here]
      exact ite_congr (propext (by omega)) (fun _ => rfl) fun _ => rfl

open Classical in
theorem store_const (value : Byte) (place : Nat → Addr) (p : Nat) (memory : Addr → Byte) (count : Nat) (addr : Addr) :
    store place (fun _ => value) p memory count addr = if ∃ i < count, place i = addr then value else memory addr := by
  induction count with
  | zero => rw [store, if_neg (by simp)]
  | succ count ih =>
    rw [store, Function.update_apply, ih]
    by_cases here : addr = place count
    · rw [if_pos here, if_pos ⟨count, Nat.lt_succ_self count, here.symm⟩]
    · rw [if_neg here]
      refine ite_congr (propext ⟨?_, ?_⟩) (fun _ => rfl) fun _ => rfl
      · intro ⟨i, less, is⟩
        exact ⟨i, Nat.lt_succ_of_lt less, is⟩
      · intro ⟨i, less, is⟩
        have apart : i ≠ count := by
          rintro rfl
          exact here is.symm
        exact ⟨i, by omega, is⟩

theorem consecutive_add (addr size : Addr) (i : Nat) : consecutive (addr + size) i = consecutive addr (size.toNat + i) := by
  unfold consecutive
  rw [BitVec.add_assoc, ← ofNat_add_ofNat, ofNat_toNat, setWidth_eq]

end Bytes

section Chunks
variable {gen : ChunkGenerator}

/-- On a chunk; the next begins where it ends. -/
structure Steady (gen : ChunkGenerator) : Prop where
  nextAddr : gen.nextAddr = gen.curAddr + gen.curSize
  nextSize : gen.nextSize = minAddr gen.sizeLeft gen.chunkSize
  chunkSize : gen.chunkSize ≠ 0 ∨ gen.sizeLeft = 0
  some : gen.curSize ≠ 0

def total (gen : ChunkGenerator) : Nat := gen.curSize.toNat + gen.sizeLeft.toNat

theorem next_last (last : gen.last = true) : gen.next.done = true := by
  rw [ChunkGenerator.next, if_pos last]
  rfl

theorem next_more (steady : Steady gen) (more : ¬ gen.last = true) :
    Steady gen.next ∧ gen.next.curAddr = gen.curAddr + gen.curSize ∧ total gen.next = gen.sizeLeft.toNat := by
  have left : gen.sizeLeft ≠ 0 := by simpa [ChunkGenerator.last] using more
  have chunk : gen.chunkSize ≠ 0 := steady.chunkSize.resolve_right left
  have nonzero : gen.nextSize ≠ 0 := by
    rw [steady.nextSize, minAddr]
    split
    · exact chunk
    · exact left
  rw [ChunkGenerator.next, if_neg more]
  refine ⟨⟨?_, rfl, .inl chunk, nonzero⟩, steady.nextAddr, ?_⟩
  · rfl
  · have bounded : gen.nextSize.toNat ≤ gen.sizeLeft.toNat := gen.bounded
    unfold total
    dsimp only
    rw [toNat_sub_of_le gen.bounded]
    omega

theorem readChunks_eq (memory : Addr → Byte) (steady : Steady gen) (buffer : Nat → Byte) (p : Nat) :
    readChunks memory gen buffer p = load memory (consecutive gen.curAddr) buffer p (total gen) := by
  fun_induction readChunks memory gen buffer p with
  | case1 _ _ _ ended => exact absurd (by simpa [done] using ended) steady.some
  | case2 gen _ _ _ ih =>
    by_cases last : gen.last = true
    · have nothing : gen.sizeLeft = 0 := by simpa [ChunkGenerator.last] using last
      rw [readChunks, if_pos (next_last last), total, nothing]
      rfl
    · obtain ⟨steady', addr, left⟩ := next_more steady last
      rw [ih steady', addr, left, total, load_add]
      congr 1
      funext i
      exact consecutive_add _ _ _

theorem writeChunks_eq (steady : Steady gen) (buffer : Nat → Byte) (p : Nat) (memory : Addr → Byte) :
    writeChunks gen buffer p memory = store (consecutive gen.curAddr) buffer p memory (total gen) := by
  fun_induction writeChunks gen buffer p memory with
  | case1 _ _ _ ended => exact absurd (by simpa [done] using ended) steady.some
  | case2 gen _ _ _ ih =>
    by_cases last : gen.last = true
    · have nothing : gen.sizeLeft = 0 := by simpa [ChunkGenerator.last] using last
      rw [writeChunks, if_pos (next_last last), total, nothing]
      rfl
    · obtain ⟨steady', addr, left⟩ := next_more steady last
      rw [ih steady', addr, left, total, store_add]
      congr 1
      funext i
      exact consecutive_add _ _ _

end Chunks

section Physical
variable {b : Nat} {line addr size : Addr}

def ChunkSize (line : Addr) : Prop := line = 0 ∨ ∃ b < 64, line = ofNat 64 (2 ^ b)

/-- The part begins in the last line of the address space and ends before its end, so
that the end of the line wraps around to zero and looks as if it came first. -/
def Runaway (line addr : Addr) (size : Nat) : Prop :=
  line ≠ 0 ∧ 2 ^ 64 ≤ addr.toNat + line.toNat ∧ addr.toNat + size < 2 ^ 64

theorem last_line (fits : b < 64) (addr : Addr) : 2 ^ 64 ≤ addr.toNat + 2 ^ b ↔ boundary b addr = 2 ^ 64 := by
  have whole : 2 ^ 64 = 2 ^ (64 - b) * 2 ^ b := by
    rw [← Nat.pow_add]
    congr 1
    omega
  have split := Nat.div_add_mod' addr.toNat (2 ^ b)
  have le := boundary_le fits addr
  constructor
  · intro last
    unfold boundary at le ⊢
    have multiple : 2 ^ (64 - b) ≤ addr.toNat / 2 ^ b + 1 := by
      by_contra less
      have scaled := Nat.mul_le_mul_right (2 ^ b) (show addr.toNat / 2 ^ b + 1 + 1 ≤ 2 ^ (64 - b) by omega)
      rw [← whole, Nat.add_mul, Nat.add_mul, Nat.one_mul] at scaled
      omega
    have scaled := Nat.mul_le_mul_right (2 ^ b) multiple
    rw [← whole, Nat.add_mul, Nat.one_mul] at scaled
    omega
  · intro top
    unfold boundary at top
    omega

theorem toNat_minAddr (x y : Addr) : (minAddr x y).toNat = min x.toNat y.toNat := by
  unfold minAddr
  split
  next less =>
    have lt : y.toNat < x.toNat := less
    omega
  next not =>
    have le : ¬ y.toNat < x.toNat := not
    omega

theorem make_nextAddr (fits : b < 64) (addr size : Addr) :
    (make addr size (ofNat 64 (2 ^ b))).nextAddr.toNat =
      min (boundary b addr % 2 ^ 64) ((addr.toNat + size.toNat) % 2 ^ 64) := by
  have nonzero : ofNat 64 (2 ^ b) ≠ 0 := by
    intro zero
    have value := toNat_pow fits
    rw [zero] at value
    exact Nat.ne_of_lt (two_pow_pos b) value
  unfold make
  rw [if_neg nonzero, toNat_minAddr, next_boundary fits, toNat_add]

theorem make_total (accepted : ChunkSize line) (addr : Addr) (some : size ≠ 0) : Steady (.make addr size line) ∧
    (Runaway line addr size.toNat → 2 ^ 64 ≤ total (.make addr size line)) ∧
    (¬ Runaway line addr size.toNat → total (.make addr size line) = size.toNat) := by
  have positive : 0 < size.toNat := Nat.pos_of_ne_zero fun zero => some (eq_of_toNat_eq zero)
  have curSize : (make addr size line).curSize = (make addr size line).nextAddr - addr := rfl
  have sizeLeft : (make addr size line).sizeLeft = size - (make addr size line).curSize := rfl
  have follows : (make addr size line).nextAddr = addr + (make addr size line).curSize := by
    rw [curSize, BitVec.add_comm, BitVec.sub_add_cancel]
  obtain rfl | ⟨b, fits, rfl⟩ := accepted
  · have whole : (make addr size 0).curSize = size := by
      rw [curSize]
      show addr + size - addr = size
      rw [BitVec.add_comm, BitVec.add_sub_cancel]
    have rest : (make addr size 0).sizeLeft = 0 := by
      rw [sizeLeft, whole, BitVec.sub_self]
      rfl
    refine ⟨⟨follows, rfl, .inr rest, by rwa [whole]⟩, fun runaway => absurd rfl runaway.1, fun _ => ?_⟩
    rw [total, whole, rest]
    rfl
  · have next := make_nextAddr fits addr size
    have beyond := lt_boundary b addr
    have bound := boundary_le fits addr
    have last := last_line fits addr
    have value := toNat_pow fits
    have nonzero : ofNat 64 (2 ^ b) ≠ 0 := by
      intro zero
      rw [zero] at value
      exact Nat.ne_of_lt (two_pow_pos b) value
    have cur : (make addr size (ofNat 64 (2 ^ b))).curSize.toNat =
        (2 ^ 64 - addr.toNat + min (boundary b addr % 2 ^ 64) ((addr.toNat + size.toNat) % 2 ^ 64)) % 2 ^ 64 := by
      rw [curSize, toNat_sub, next]
    have left : (make addr size (ofNat 64 (2 ^ b))).sizeLeft.toNat =
        (2 ^ 64 - (make addr size (ofNat 64 (2 ^ b))).curSize.toNat + size.toNat) % 2 ^ 64 := by
      rw [sizeLeft, toNat_sub]
    have nonempty : 0 < (make addr size (ofNat 64 (2 ^ b))).curSize.toNat := by
      rw [cur]
      by_cases top : boundary b addr = 2 ^ 64
      · rw [top, Nat.mod_self, Nat.zero_min]
        omega
      · rw [mod_eq_of_lt (show boundary b addr < 2 ^ 64 by omega)]
        omega
    refine ⟨⟨follows, rfl, .inl nonzero, fun nothing => ?_⟩, ?_, ?_⟩
    · rw [nothing] at nonempty
      exact Nat.lt_irrefl 0 nonempty
    · rintro ⟨_, _, inside⟩
      rw [total, left]
      omega
    · intro tame
      rw [Runaway, value, last] at tame
      rw [total, left]
      by_cases top : boundary b addr = 2 ^ 64
      · have outside : ¬ addr.toNat + size.toNat < 2 ^ 64 := fun inside => tame ⟨nonzero, top, inside⟩
        omega
      · omega

end Physical

section Pages
open TranslatingPortProxy
variable {params : Params} {b : Nat} {start : Addr} {size : BitVec 32} {i : Nat}

def PageMapped (b : Nat) (translate : Addr → Option Addr) : Prop := ∀ v v' : Addr, v.toNat / 2 ^ b = v'.toNat / 2 ^ b →
  translate v' = (translate v).map fun paddr => paddr + (v' - v)

/-- What tryReadBlob and tryWriteBlob are called with: pages and lines of powers of two,
and a size that is not negative, from an address where it does not wrap around. -/
structure Access (params : Params) (b : Nat) (start : Addr) (size : BitVec 32) : Prop where
  pageBytes : params.pageBytes = ofNat 64 (2 ^ b)
  fits : b < 64
  line : ChunkSize params.cacheLineSize
  mapped : PageMapped b params.translateFunctional
  nonnegative : size.toNat < 2 ^ 31
  inside : start.toNat + size.toNat ≤ 2 ^ 64

def Clear (params : Params) (start : Addr) (count : Nat) : Prop :=
  ∀ i < count, (params.translateFunctional (consecutive start i)).isSome

instance (params : Params) (start : Addr) (count : Nat) : Decidable (Clear params start count) :=
  inferInstanceAs (Decidable (∀ i < count, _))

def reached (params : Params) (start : Addr) : Nat → Nat
  | 0 => 0
  | count + 1 => if Clear params start (count + 1) then count + 1 else reached params start count

theorem reached_of_clear {count : Nat} (clear : Clear params start count) : reached params start count = count := by
  cases count with
  | zero => rfl
  | succ => exact if_pos clear

theorem reached_of_fault {count first : Nat} (clear : Clear params start first) (less : first < count)
    (faults : params.translateFunctional (consecutive start first) = none) : reached params start count = first := by
  induction count with
  | zero => cases less
  | succ count ih =>
    have stops : ¬ Clear params start (count + 1) := by
      intro all
      have translated := all first less
      rw [faults] at translated
      cases translated
    rw [reached, if_neg stops]
    obtain earlier | rfl := Nat.lt_succ_iff_lt_or_eq.mp less
    · exact ih earlier
    · exact reached_of_clear clear

def part (b : Nat) (start : Addr) (size : BitVec 32) (i : Nat) : Nat :=
  min (size.toNat - i) (boundary b (consecutive start i) - (consecutive start i).toNat)

section

variable (access : Access params b start size)
include access

theorem toNat_consecutive (less : i < size.toNat) : (consecutive start i).toNat = start.toNat + i := by
  have inside := access.inside
  rw [consecutive, toNat_add, toNat_ofNat]
  omega

theorem size_toNat : (size.signExtend 64).toNat = size.toNat := by
  have small := access.nonnegative
  have positive : size.msb = false := by
    rw [msb_eq_false_iff_two_mul_lt]
    omega
  rw [signExtend_eq_setWidth_of_msb_false positive, toNat_setWidth]
  omega

theorem update_at (less : i < size.toNat) :
    ∃ partSize : Addr, partSize.toNat = part b start size i ∧ 0 < part b start size i ∧ i + part b start size i ≤ size.toNat ∧
      (gen params start size).update (consecutive start i) =
        some (match params.translateFunctional (consecutive start i) with
          | some paddr => { vaddr := consecutive start i, size := partSize, paddr, fault := false }
          | none => { vaddr := consecutive start i, size := partSize, fault := true }) := by
  have beyond := lt_boundary b (consecutive start i)
  have bound := boundary_le access.fits (consecutive start i)
  have sizeValue := size_toNat access
  have offset : consecutive start i - start = ofNat 64 i := by
    rw [consecutive, BitVec.add_comm, BitVec.add_sub_cancel]
  have left : (size.signExtend 64 - (consecutive start i - start)).toNat = size.toNat - i := by
    rw [offset, toNat_sub, sizeValue, toNat_ofNat]
    omega
  have nonzero : size.signExtend 64 - (consecutive start i - start) ≠ 0 := by
    intro zero
    rw [zero] at left
    have : (0 : Addr).toNat = 0 := rfl
    omega
  have next := next_boundary access.fits (consecutive start i)
  have near := boundary_le_add b (consecutive start i)
  have page : 2 ^ b < 2 ^ 64 := Nat.pow_lt_pow_right (by omega) access.fits
  refine ⟨minAddr (size.signExtend 64 - (consecutive start i - start))
    ((if consecutive start i = roundUp (consecutive start i) params.pageBytes then
        roundUp (consecutive start i) params.pageBytes + params.pageBytes
      else roundUp (consecutive start i) params.pageBytes) - consecutive start i), ?_, ?_, ?_, ?_⟩
  · rw [toNat_minAddr, left, toNat_sub, access.pageBytes, next, part]
    congr 1
    by_cases top : boundary b (consecutive start i) = 2 ^ 64
    · rw [top, Nat.mod_self]
      omega
    · rw [mod_eq_of_lt (show boundary b (consecutive start i) < 2 ^ 64 by omega)]
      omega
  · unfold part
    omega
  · unfold part
    omega
  · unfold MMUTranslationGen.update
    dsimp only [gen]
    rw [if_neg nonzero]
    unfold MMUTranslationGen.translate
    simp only [eq_comm (a := roundUp _ _)] <;> cases params.translateFunctional (consecutive start i) <;> rfl

theorem part_mapped {j : Nat} (less : i < size.toNat) (inside : j < part b start size i) :
    params.translateFunctional (consecutive start (i + j)) =
      (params.translateFunctional (consecutive start i)).map fun paddr => consecutive paddr j := by
  have small : i + j < size.toNat := by
    unfold part at inside
    omega
  have first := toNat_consecutive access less
  have other := toNat_consecutive access small
  have positive := two_pow_pos b
  have samePage : (consecutive start i).toNat / 2 ^ b = (consecutive start (i + j)).toNat / 2 ^ b := by
    have split := Nat.div_add_mod' (consecutive start i).toNat (2 ^ b)
    unfold part boundary at inside
    symm
    rw [Nat.div_eq_iff positive]
    omega
  rw [access.mapped _ _ samePage]
  congr 1
  funext paddr
  have offset : consecutive start (i + j) - consecutive start i = ofNat 64 j := by
    unfold consecutive
    rw [← ofNat_add_ofNat, ← BitVec.add_assoc, BitVec.add_comm, BitVec.add_sub_cancel]
  rw [offset]
  rfl

end

def Begins (b : Nat) (start : Addr) (i : Nat) : Prop := i = 0 ∨ (start.toNat + i) % 2 ^ b = 0

theorem begins_next (access : Access params b start size) (less : i < size.toNat)
    (more : i + part b start size i < size.toNat) : Begins b start (i + part b start size i) := by
  have first := toNat_consecutive access less
  have page : part b start size i = boundary b (consecutive start i) - (consecutive start i).toNat := by
    unfold part at more ⊢
    omega
  have beyond := lt_boundary b (consecutive start i)
  right
  rw [page, ← Nat.add_assoc, ← first, Nat.add_sub_cancel' (Nat.le_of_lt beyond), boundary]
  simp

theorem update_end (access : Access params b start size) : (gen params start size).update (consecutive start size.toNat) = none := by
  have value := size_toNat access
  have nothing : size.signExtend 64 - (consecutive start size.toNat - start) = 0 := by
    rw [consecutive, BitVec.add_comm, BitVec.add_sub_cancel]
    apply eq_of_toNat_eq
    rw [toNat_sub, value, toNat_ofNat]
    show _ = 0
    omega
  unfold MMUTranslationGen.update
  exact if_pos nothing

/-- What is done with a part carries on from where the last part ended. The property is
of what is there after so many bytes. -/
def Carries {σ : Type} (params : Params) (b : Nat) (start : Addr) (size : BitVec 32) (act : TranslationGen.Range → σ → σ)
    (holds : Nat → σ → Prop) : Prop := ∀ i state vaddr (partSize : Addr) paddr, i < size.toNat → Begins b start i →
  Clear params start (i + 1) → params.translateFunctional (consecutive start i) = some paddr → partSize.toNat = part b start size i →
  holds i state → holds (i + part b start size i) (act { vaddr, size := partSize, paddr, fault := false } state)

theorem loop_rule {σ : Type} {act : TranslationGen.Range → σ → σ} {holds : Nat → σ → Prop} (access : Access params b start size)
    (carries : Carries params b start size act holds)
    {turns : Nat} {state : σ} (enough : 2 * (size.toNat - i) + 2 ≤ turns) (le : i ≤ size.toNat) (clear : Clear params start i)
    (begins : i < size.toNat → Begins b start i) (held : holds i state) : ∃ final,
      tryOnBlob (gen params start size) params.fixupRange act turns (consecutive start i) false state =
        .ok (decide (Clear params start size.toNat), final) ∧ holds (reached params start size.toNat) final := by
  induction turns using Nat.strongRecOn generalizing i state with
  | ind turns ih =>
    obtain ⟨fewer, rfl⟩ : ∃ fewer, turns = fewer + 2 := ⟨turns - 2, by omega⟩
    obtain less | rfl := Nat.lt_or_eq_of_le le
    · obtain ⟨partSize, value, _, inside, updates⟩ := update_at access less
      rw [tryOnBlob, updates]
      cases translated : params.translateFunctional (consecutive start i) with
      | none =>
        have stops : ¬ Clear params start size.toNat := by
          intro all
          have there := all i less
          rw [translated] at there
          cases there
        rw [decide_eq_false stops, reached_of_fault clear less translated]
        rw [translated] at updates
        refine ⟨state, ?_, held⟩
        dsimp only
        rw [if_pos rfl]
        split
        · rfl
        · -- the second try faults like the first
          rw [tryOnBlob, updates]
          rfl
      | some paddr =>
        have clear' : Clear params start (i + part b start size i) := by
          intro j below
          by_cases early : j < i
          · exact clear j early
          · obtain ⟨k, rfl⟩ := Nat.exists_eq_add_of_le (Nat.le_of_not_lt early)
            rw [part_mapped access less (by omega), translated]
            rfl
        have next := carries i state (consecutive start i) partSize paddr less (begins less)
          (fun j below => clear' j (by omega)) translated value held
        have onward : consecutive start i + partSize = consecutive start (i + part b start size i) := by
          rw [← value]
          unfold consecutive
          rw [← ofNat_add_ofNat, ofNat_toNat, setWidth_eq, BitVec.add_assoc]
        dsimp only
        rw [if_neg Bool.false_ne_true, onward]
        exact ih (fewer + 1) (by omega) (by omega) inside clear' (begins_next access less) next
    · rw [tryOnBlob, update_end access, decide_eq_true clear, reached_of_clear clear]
      exact ⟨state, rfl, held⟩

theorem blob_rule {σ : Type} {act : TranslationGen.Range → σ → σ} {holds : Nat → σ → Prop} (access : Access params b start size)
    (carries : Carries params b start size act holds) (state : σ) (begun : holds 0 state) : ∃ final,
      tryOnBlob (gen params start size) params.fixupRange act (turns size) start false state =
        .ok (decide (Clear params start size.toNat), final) ∧ holds (reached params start size.toNat) final := by
  have first : consecutive start 0 = start := BitVec.add_zero start
  have enough : 2 * (size.toNat - 0) + 2 ≤ turns size := Nat.le_refl _
  have ran := loop_rule access carries enough (Nat.zero_le _) nofun (fun _ => .inl rfl) begun
  rwa [first] at ran

end Pages

section Bytewise
open TranslatingPortProxy
variable {params : Params} {b : Nat} {start : Addr} {size : BitVec 32}

def place (params : Params) (start : Addr) (i : Nat) : Addr := (params.translateFunctional (consecutive start i)).getD 0

/-- Reading a blob is reading its bytes, up to the first that faults. -/
def ReadsBytewise (params : Params) (start : Addr) (size : BitVec 32) : Prop := ∀ memory buffer, ∃ p,
  tryReadBlob params memory start buffer size = .ok (decide (Clear params start size.toNat),
    load memory (place params start) buffer 0 (reached params start size.toNat), p)

def WritesBytewise (params : Params) (start : Addr) (size : BitVec 32) : Prop := ∀ buffer memory, ∃ p,
  tryWriteBlob params start buffer size memory = .ok (decide (Clear params start size.toNat),
    store (place params start) buffer 0 memory (reached params start size.toNat), p)

/-- No part that is reached begins in the last line of the physical address space and
ends before the end of that space. -/
def Tame (params : Params) (b : Nat) (start : Addr) (size : BitVec 32) : Prop := ∀ i < size.toNat, Begins b start i →
  Clear params start (i + 1) → ∀ paddr, params.translateFunctional (consecutive start i) = some paddr →
    ¬ Runaway params.cacheLineSize paddr (part b start size i)

section

variable (access : Access params b start size)
include access

theorem part_size {i : Nat} {partSize : Addr} (less : i < size.toNat) (value : partSize.toNat = part b start size i) :
    partSize ≠ 0 ∧ (PortProxy.toInt partSize).signExtend 64 = partSize := by
  obtain ⟨_, _⟩ := update_at access less
  have small := access.nonnegative
  constructor
  · rintro rfl
    have zero : (0 : Addr).toNat = 0 := rfl
    omega
  · have narrow : (PortProxy.toInt partSize).toNat = partSize.toNat := by
      rw [PortProxy.toInt, toNat_setWidth, mod_eq_of_lt (by omega)]
    have msb : (PortProxy.toInt partSize).msb = false := by
      rw [msb_eq_false_iff_two_mul_lt]
      omega
    apply eq_of_toNat_eq
    rw [signExtend_eq_setWidth_of_msb_false msb, toNat_setWidth, narrow, mod_eq_of_lt (by omega)]

theorem part_chunks {i : Nat} {partSize : Addr} (less : i < size.toNat)
    (value : partSize.toNat = part b start size i) (paddr : Addr) : ∃ count,
      (∀ memory buffer p, readBlobPhys params.cacheLineSize memory paddr buffer p (PortProxy.toInt partSize) =
        load memory (consecutive paddr) buffer p count) ∧
      (∀ buffer p memory, writeBlobPhys params.cacheLineSize paddr buffer p (PortProxy.toInt partSize) memory =
        store (consecutive paddr) buffer p memory count) ∧
      (Runaway params.cacheLineSize paddr (part b start size i) → 2 ^ 64 ≤ count) ∧
      (¬ Runaway params.cacheLineSize paddr (part b start size i) → count = part b start size i) := by
  obtain ⟨some, narrow⟩ := part_size access less value
  obtain ⟨steady, more, whole⟩ := make_total access.line paddr some
  rw [value] at more whole
  refine ⟨_, fun memory buffer p => ?_, fun buffer p memory => ?_, more, whole⟩
  · rw [readBlobPhys, narrow, readChunks_eq memory steady]
    rfl
  · rw [writeBlobPhys, narrow, writeChunks_eq steady]
    rfl

theorem part_place {i : Nat} {paddr : Addr} (less : i < size.toNat)
    (translated : params.translateFunctional (consecutive start i) = some paddr) :
    ∀ j < part b start size i, consecutive paddr j = place params start (i + j) := by
  intro j inside
  rw [place, part_mapped access less inside, translated]
  rfl

theorem reads_of_tame (tame : Tame params b start size) : ReadsBytewise params start size := by
  intro memory buffer
  have carries : Carries params b start size
      (fun range state => (readBlobPhys params.cacheLineSize memory range.paddr state.1 state.2 (PortProxy.toInt range.size),
        state.2 + range.size.toNat))
      (fun i state => state = (load memory (place params start) buffer 0 i, i)) := by
    rintro i _ _ _ paddr less begins clear translated value rfl
    obtain ⟨_, reads, _, _, whole⟩ := part_chunks access less value paddr
    dsimp only
    rw [reads, whole (tame i less begins clear paddr translated), load_add, Nat.zero_add, value]
    congr 1
    exact load_congr (part_place access less translated)
  obtain ⟨_, ran, rfl⟩ := blob_rule access carries (buffer, 0) rfl
  exact ⟨_, ran⟩

theorem writes_of_tame (tame : Tame params b start size) : WritesBytewise params start size := by
  intro buffer memory
  have carries : Carries params b start size
      (fun range state => (writeBlobPhys params.cacheLineSize range.paddr buffer state.2 (PortProxy.toInt range.size) state.1,
        state.2 + range.size.toNat))
      (fun i state => state = (store (place params start) buffer 0 memory i, i)) := by
    rintro i _ _ _ paddr less begins clear translated value rfl
    obtain ⟨_, _, writes, _, whole⟩ := part_chunks access less value paddr
    dsimp only
    rw [writes, whole (tame i less begins clear paddr translated), store_add, Nat.zero_add, value]
    congr 1
    exact store_congr (part_place access less translated)
  obtain ⟨_, ran, rfl⟩ := blob_rule access carries (memory, 0) rfl
  exact ⟨_, ran⟩

theorem first_part {i first : Nat} (less : i < size.toNat) (begins : Begins b start first)
    (inside : first < i + part b start size i) : first ≤ i := by
  by_contra later
  have value := toNat_consecutive access less
  have positive := two_pow_pos b
  obtain rfl | aligned := begins
  · omega
  · obtain ⟨page, multiple⟩ := Nat.dvd_of_mod_eq_zero aligned
    have low : (consecutive start i).toNat / 2 ^ b < page := by
      rw [Nat.div_lt_iff_lt_mul positive, Nat.mul_comm]
      omega
    have scaled := Nat.mul_le_mul_right (2 ^ b) (Nat.succ_le_of_lt low)
    rw [Nat.succ_mul] at scaled
    unfold part boundary at inside
    rw [Nat.mul_comm] at multiple
    omega

end

theorem le_reached {count first : Nat} (clear : Clear params start first) (le : first ≤ count) :
    first ≤ reached params start count ∧ reached params start count ≤ count := by
  induction count with
  | zero => exact ⟨le, Nat.le_refl 0⟩
  | succ count =>
    rw [reached]
    split
    · exact ⟨le, Nat.le_refl _⟩
    next stops =>
      have smaller : first ≤ count := by
        by_contra more
        exact stops (by rwa [show first = count + 1 by omega] at clear)
      omega

theorem tame_of_reads (access : Access params b start size) (reads : ReadsBytewise params start size) : Tame params b start size := by
  intro first less begins clear paddr translated runaway
  have carries : Carries params b start size
      (fun range (buffer, p) => (readBlobPhys params.cacheLineSize (fun _ => 1) range.paddr buffer p
        (PortProxy.toInt range.size), p + range.size.toNat))
      (fun i state => state.2 = i ∧ (first < i → state.1 size.toNat = 1)) := by
    rintro i ⟨_, p⟩ _ _ paddr' less' _ _ translated' value ⟨same, spoilt⟩
    obtain ⟨_, loads, _, more, _⟩ := part_chunks access less' value paddr'
    dsimp only at same spoilt ⊢
    refine ⟨by rw [same, value], fun later => ?_⟩
    rw [loads, load_const]
    split
    · rfl
    next missed =>
      apply spoilt
      apply Nat.lt_of_le_of_ne (first_part access less' begins later)
      rintro rfl
      rw [translated] at translated'
      cases translated'
      have everything := more runaway
      omega
  obtain ⟨_, ran, _, spoilt⟩ := blob_rule access carries ((fun _ => 0), 0) ⟨rfl, nofun⟩
  obtain ⟨p, ran'⟩ := reads (fun _ => 1) fun _ => 0
  have bounds := le_reached clear (show first + 1 ≤ size.toNat by omega)
  rw [tryReadBlob, ran] at ran'
  cases ran'
  have changed := spoilt (by omega)
  dsimp only at changed
  rw [load_const, if_neg (by omega)] at changed
  cases changed

theorem tame_of_writes (access : Access params b start size) (writes : WritesBytewise params start size) :
    Tame params b start size := by
  intro first less begins clear paddr translated runaway
  have carries : Carries params b start size
      (fun range (memory, p) => (writeBlobPhys params.cacheLineSize range.paddr (fun _ => 1) p
        (PortProxy.toInt range.size) memory, p + range.size.toNat))
      (fun i state => first < i → ∀ addr, state.1 addr = 1) := by
    rintro i ⟨_, p⟩ _ _ paddr' less' _ _ translated' value spoilt later addr
    obtain ⟨_, _, stores, more, _⟩ := part_chunks access less' value paddr'
    dsimp only at spoilt ⊢
    rw [stores, store_const]
    split
    · rfl
    next missed =>
      apply spoilt
      apply Nat.lt_of_le_of_ne (first_part access less' begins later)
      rintro rfl
      rw [translated] at translated'
      cases translated'
      have everything := more runaway
      apply missed
      refine ⟨(addr - paddr).toNat, Nat.lt_of_lt_of_le (addr - paddr).isLt everything, ?_⟩
      rw [consecutive, ofNat_toNat, setWidth_eq, BitVec.add_comm, BitVec.sub_add_cancel]
  obtain ⟨_, ran, spoilt⟩ := blob_rule access carries ((fun _ => 0), 0) nofun
  obtain ⟨p, ran'⟩ := writes (fun _ => 1) fun _ => 0
  have bounds := le_reached clear (show first + 1 ≤ size.toNat by omega)
  rw [tryWriteBlob, ran] at ran'
  cases ran'
  -- there are more addresses than bytes
  obtain ⟨addr, outside⟩ : ∃ addr, ∀ i < reached params start size.toNat, place params start i ≠ addr := by
    by_contra all
    push Not at all
    have distinct : ((List.range (size.toNat + 1)).map (ofNat 64)).Nodup := by
      apply List.Nodup.map_on ?_ nodup_range
      intro i below j below' same
      have values := congrArg BitVec.toNat same
      rw [mem_range] at below below'
      rw [toNat_ofNat, toNat_ofNat] at values
      omega
    have covered : (List.range (size.toNat + 1)).map (ofNat 64) ⊆
        (List.range (reached params start size.toNat)).map (place params start) := by
      intro addr _
      obtain ⟨i, below, is⟩ := all addr
      exact mem_map.mpr ⟨i, mem_range.mpr below, is⟩
    have few := (subperm_of_subset distinct covered).length_le
    rw [length_map, length_map, length_range, length_range] at few
    omega
  have changed := spoilt (by omega) addr
  dsimp only at changed
  rw [store_const, if_neg (fun ⟨i, below, is⟩ => outside i below is)] at changed
  cases changed

/-- A blob is read and written byte by byte exactly if no part of it runs away. -/
theorem blob_bytewise (access : Access params b start size) :
    (ReadsBytewise params start size ↔ Tame params b start size) ∧
      (WritesBytewise params start size ↔ Tame params b start size) :=
  ⟨⟨tame_of_reads access, reads_of_tame access⟩, ⟨tame_of_writes access, writes_of_tame access⟩⟩

end Bytewise

def untranslated : TranslatingPortProxy.Params where
  cacheLineSize := 64
  pageBytes := 4096
  translateFunctional := some
  fixupRange := fun _ => false

theorem untranslated_mapped : PageMapped 12 untranslated.translateFunctional := by
  intro v v' _
  show some v' = some (v + (v' - v))
  rw [BitVec.add_comm, BitVec.sub_add_cancel]

theorem untranslated_access {start : Addr} (inside : start.toNat + 4 ≤ 2 ^ 64) : Access untranslated 12 start 4 where
  pageBytes := rfl
  fits := by omega
  line := .inr ⟨6, by omega, rfl⟩
  mapped := untranslated_mapped
  nonnegative := by decide
  inside := inside

theorem untranslated_bytewise : ReadsBytewise untranslated 0x1ffe 4 ∧ WritesBytewise untranslated 0x1ffe 4 := by
  have access : Access untranslated 12 0x1ffe 4 := untranslated_access (by decide)
  have tame : Tame untranslated 12 0x1ffe 4 := by
    rintro i less _ _ _ translated ⟨_, _⟩
    cases translated
    have value := toNat_consecutive access less
    have line : (untranslated.cacheLineSize).toNat = 64 := rfl
    have first : (0x1ffe : Addr).toNat = 0x1ffe := rfl
    omega
  exact ⟨(blob_bytewise access).1.mpr tame, (blob_bytewise access).2.mpr tame⟩

/-- Four bytes in the last line of the address space. -/
theorem untranslated_runs_away : ¬ ReadsBytewise untranslated 0xfffffffffffffff0 4 := by
  intro reads
  have access : Access untranslated 12 0xfffffffffffffff0 4 := untranslated_access (by decide)
  apply tame_of_reads access reads 0 (by decide) (.inl rfl) (fun i _ => rfl) _ rfl
  refine ⟨by decide, by decide, ?_⟩
  have whole : part 12 0xfffffffffffffff0 4 0 = 4 := by decide
  rw [whole]
  decide

end ImcGem5.Mem.Proofs.Blob

import ImcGem5.Mem.Compressor

/-! A line is cut into chunks and put back, by the words of the line or chunk by chunk. -/

namespace ImcGem5.Mem.Proofs.Compressor
open Lib Compression BitVec
open List hiding toChunks

variable {w : Nat}

/-- Chunks of `w` bits cut each word evenly. -/
structure Cut (params : Params) (w words : Nat) : Prop where
  chunk : params.chunkSizeBits = w
  whole : w ∣ 64
  line : params.blkSize = 8 * words

namespace Cut

variable {params : Params} {words : Nat}

section

variable (cut : Cut params w words)
include cut

theorem positive : 0 < w := Nat.pos_of_dvd_of_pos cut.whole (by decide)

theorem several : 0 < 64 / w := Nat.div_pos (Nat.le_of_dvd (by decide) cut.whole) cut.positive

theorem parts : 64 / w * w = 64 := Nat.div_mul_cancel cut.whole

theorem count : params.blkSize * 8 / params.chunkSizeBits = 64 / w * words := by
  obtain ⟨n, parts⟩ := cut.whole
  have positive := cut.positive
  rw [cut.chunk, cut.line, parts, Nat.mul_div_cancel_left n positive, show 8 * words * 8 = w * (n * words) by
    rw [← Nat.mul_assoc, ← parts]; omega, Nat.mul_div_cancel_left _ positive]

theorem words_eq : params.blkSize / 8 = words := by
  rw [cut.line, Nat.mul_div_cancel_left words (by decide)]

end

@[simp] theorem toChunks_length (line : List (BitVec 64)) :
    (toChunks params line).length = params.blkSize * 8 / params.chunkSizeBits := by
  simp [toChunks]

theorem chunk_bound (cut : Cut params w words) {word index : Nat} (inside : word < words) (bit : index < 64) :
    64 / w * word + index / w < 64 / w * words := by
  have quotient : index / w < 64 / w := Nat.div_lt_of_lt_mul (by rw [Nat.mul_comm, cut.parts]; exact bit)
  calc 64 / w * word + index / w < 64 / w * word + 64 / w := Nat.add_lt_add_left quotient _
    _ = 64 / w * (word + 1) := rfl
    _ ≤ 64 / w * words := Nat.mul_le_mul_left _ inside

theorem getLsbD_toChunks (cut : Cut params w words) (line : List (BitVec 64)) {word index : Nat} (inside : word < words)
    (bit : index < 64) :
    ((toChunks params line).getD (64 / w * word + index / w) 0).getLsbD (index % w) = (line.getD word 0).getLsbD index := by
  have positive := cut.positive
  have quotient : index / w < 64 / w := Nat.div_lt_of_lt_mul (by rw [Nat.mul_comm, cut.parts]; exact bit)
  have bound := cut.chunk_bound inside bit
  rw [← cut.count] at bound
  have wordOf : (64 / w * word + index / w) / (64 / w) = word := by
    rw [Nat.mul_add_div cut.several, Nat.div_eq_of_lt quotient, Nat.add_zero]
  have placeOf : (64 / w * word + index / w) % (64 / w) = index / w := by
    rw [Nat.mul_add_mod, Nat.mod_eq_of_lt quotient]
  have low : index % w < w := Nat.mod_lt index positive
  have joined : index / w * w + index % w = index := Nat.div_add_mod' index w
  rw [getD_eq_getElem _ _ (by rw [toChunks_length]; exact bound)]
  simp only [toChunks, getElem_map, getElem_range, cut.chunk, wordOf, placeOf, getLsbD_and,
    getLsbD_ushiftRight, getLsbD_mask, joined]
  simp [low, show index % w < 64 by omega]

end Cut

theorem getLsbD_joinValues (some : 0 < w) (values : List (BitVec w)) (first parts index : Nat) (inside : index < 64) :
    (joinValues values first parts).getLsbD index =
      (decide (index < parts * w) && (values.getD (first + index / w) 0).getLsbD (index % w)) := by
  induction parts with
  | zero => simp [joinValues]
  | succ parts ih =>
    have split : (parts + 1) * w = parts * w + w := Nat.succ_mul parts w
    rw [joinValues, getLsbD_or, ih, getLsbD_shiftLeft, getLsbD_setWidth]
    by_cases below : index < parts * w
    · simp [below, show index < (parts + 1) * w by omega]
    · by_cases here : index < (parts + 1) * w
      · have place : index / w = parts := Nat.div_eq_of_lt_le (by omega) (by omega)
        have rest : index - parts * w = index % w := by
          have joined := Nat.div_add_mod' index w
          rw [place] at joined
          omega
        simp [below, here, inside, place, rest, show index % w < 64 by omega]
      · have past : ((values[first + parts]?).getD 0).getLsbD (index - parts * w) = false := getLsbD_of_ge _ _ (by omega)
        rw [past]
        simp [below, here]

namespace Cut

variable {params : Params} {words : Nat}

theorem joinValues_toChunks (cut : Cut params w words) {line : List (BitVec 64)} (length : line.length = words) :
    (List.range (params.blkSize / 8)).map
      (fun i => joinValues ((toChunks params line).map fun value => value.setWidth w) (64 / w * i) (64 / w)) = line := by
  rw [cut.words_eq]
  apply ext_getElem (by simp [length])
  intro word first second
  have inside : word < words := length ▸ second
  rw [getElem_map, getElem_range]
  apply eq_of_getLsbD_eq
  intro index bit
  have place := cut.chunk_bound inside bit
  rw [← cut.count, ← (toChunks_length line : (toChunks params line).length = _)] at place
  have same := cut.getLsbD_toChunks line inside bit
  rw [getD_eq_getElem _ _ place, getD_eq_getElem _ _ second] at same
  rw [getLsbD_joinValues cut.positive _ _ _ _ bit, cut.parts, getD_eq_getElem _ _ (by simpa using place), getElem_map,
    getLsbD_setWidth, same]
  simp [bit, Nat.mod_lt index cut.positive]

def putBack (w words : Nat) (chunks : List (BitVec 64)) (done : Nat) : List (BitVec 64) :=
  (List.range done).foldl
    (fun data i => data.modify (i / (64 / w)) fun word => insertField word (i % (64 / w) * w) ((chunks.getD i 0).setWidth w))
    (List.replicate words 0)

theorem putBack_succ (w words : Nat) (chunks : List (BitVec 64)) (done : Nat) :
    putBack w words chunks (done + 1) = (putBack w words chunks done).modify (done / (64 / w)) fun word =>
      insertField word (done % (64 / w) * w) ((chunks.getD done 0).setWidth w) := by
  rw [putBack, range_succ, foldl_append]
  rfl

@[simp] theorem putBack_length (w words : Nat) (chunks : List (BitVec 64)) (done : Nat) :
    (putBack w words chunks done).length = words := by
  induction done with
  | zero => simp [putBack]
  | succ done ih => rw [putBack_succ, length_modify, ih]

theorem getLsbD_putBack (cut : Cut params w words) (chunks : List (BitVec 64)) (done : Nat) {word index : Nat} (inside : word < words)
    (bit : index < 64) :
    ((putBack w words chunks done).getD word 0).getLsbD index =
      (decide (64 / w * word + index / w < done) && (chunks.getD (64 / w * word + index / w) 0).getLsbD (index % w)) := by
  have positive := cut.positive
  have parts := cut.parts
  have several := cut.several
  have quotient : index / w < 64 / w := Nat.div_lt_of_lt_mul (by rw [Nat.mul_comm, parts]; exact bit)
  have low : index % w < w := Nat.mod_lt index positive
  have joined : index / w * w + index % w = index := Nat.div_add_mod' index w
  induction done with
  | zero => simp [putBack, inside]
  | succ done ih =>
    have here : word < (putBack w words chunks done).length := by rw [putBack_length]; exact inside
    rw [getD_eq_getElem _ _ here] at ih
    rw [getD_eq_getElem _ _ (by rw [putBack_length]; exact inside)]
    simp only [putBack_succ, getElem_modify]
    have division := Nat.div_add_mod done (64 / w)
    split
    · case isTrue same =>
      subst same
      rw [getLsbD_insertField _ _ _ _ bit, ih]
      by_cases field : done % (64 / w) = index / w
      · have start : done % (64 / w) * w = index / w * w := by rw [field]
        have target : 64 / w * (done / (64 / w)) + index / w = done := by omega
        rw [if_pos (by omega), start, show index - index / w * w = index % w by omega, getLsbD_setWidth, target]
        simp [low]
      · have other : ¬(done % (64 / w) * w ≤ index ∧ index < done % (64 / w) * w + w) := by
          rintro ⟨above, below⟩
          exact field (Nat.div_eq_of_lt_le above (by rw [Nat.succ_mul]; exact below)).symm
        rw [if_neg other]
        congr 1
        exact decide_eq_decide.mpr (by omega)
    · case isFalse other =>
      have apart : 64 / w * word + index / w ≠ done := by
        intro same
        apply other
        rw [← same, Nat.mul_add_div several, Nat.div_eq_of_lt quotient, Nat.add_zero]
      rw [ih]
      congr 1
      exact decide_eq_decide.mpr (by omega)

/-- Chunks put back give the line. -/
theorem fromChunks_toChunks (cut : Cut params w words) {line : List (BitVec 64)} (length : line.length = words) :
    fromChunks params (toChunks params line) = line := by
  have made : fromChunks params (toChunks params line) = putBack w words (toChunks params line) (64 / w * words) := by
    obtain rfl := cut.chunk
    simp only [fromChunks, putBack, toChunks_length, cut.count, cut.words_eq]
  rw [made]
  apply ext_getElem (by simp [length])
  intro word first second
  have inside : word < words := length ▸ second
  apply eq_of_getLsbD_eq
  intro index bit
  have back := cut.getLsbD_putBack (toChunks params line) (64 / w * words) inside bit
  rw [cut.getLsbD_toChunks line inside bit, getD_eq_getElem _ _ first, getD_eq_getElem _ _ second] at back
  rw [back]
  simp [cut.chunk_bound inside bit]

end Cut

end ImcGem5.Mem.Proofs.Compressor

import ImcGem5.Lib.Runs
import ImcGem5.Mem.Compressor

/-! A pattern gives its value by itself, or from the entry where it was found; so the dictionary
of the decompressor goes with that of the compressor, from pattern to pattern. -/

namespace ImcGem5.Mem.Proofs.Compressor
open Lib Compression BitVec RepeatedValuePattern

variable {w : Nat}

theorem fromDictionaryEntry_toDictionaryEntry (whole : 8 ∣ w) (value : BitVec w) :
    fromDictionaryEntry w (toDictionaryEntry value) = value := by
  apply eq_of_toNat_eq
  have bytes : 256 ^ (w / 8) = 2 ^ w := by
    rw [show 256 = 2 ^ 8 from rfl, ← Nat.pow_mul, Nat.mul_div_cancel' whole]
  rw [fromDictionaryEntry, toDictionaryEntry, leNat_leBytes, bytes, toNat_ofNat, Nat.mod_mod, Nat.mod_eq_of_lt value.isLt]

theorem recombine (value mask : BitVec w) : value &&& ~~~mask ||| value &&& mask = value := by
  apply eq_of_getLsbD_eq
  intro index inside
  simp only [getLsbD_or, getLsbD_and, getLsbD_not, inside, decide_true, Bool.true_and]
  cases value.getLsbD index <;> cases mask.getLsbD index <;> rfl

/-- Enough to have the bytes back: what is read does not matter, or it is the entry that the
pattern points to. -/
inductive Restores (pattern : Pattern) (entry : DictionaryEntry) (location : Int) (bytes : DictionaryEntry) : Prop where
  | free (gives : ∀ other, pattern.decompress other = bytes)
  | located (points : pattern.matchLocation = location) (start : 0 ≤ location) (near : location < 256)
      (gives : pattern.decompress entry = bytes)

def Faithful (w : Nat) (within : Int → Prop) (family : PatternClass) : Prop :=
  ∀ (value : BitVec w) entry location, within location → family.isPattern (toDictionaryEntry value) entry location = true →
    Restores (family.new (toDictionaryEntry value) location) entry location (toDictionaryEntry value)

section Families

variable {within : Int → Prop} {r n : Nat}

section

variable (whole : 8 ∣ w)
include whole

variable {entry : DictionaryEntry}

theorem decompress_masked (mask value : BitVec w) (same : value &&& mask = fromDictionaryEntry w entry &&& mask) :
    MaskedPattern.decompress mask (toDictionaryEntry value) entry = toDictionaryEntry value := by
  simp only [MaskedPattern.decompress, fromDictionaryEntry_toDictionaryEntry whole, ← same, recombine]

theorem isPattern_masked {mask value : BitVec w} {location : Int}
    (found : MaskedPattern.isPattern mask (toDictionaryEntry value) entry location = true) :
    0 ≤ location ∧ value &&& mask = fromDictionaryEntry w entry &&& mask := by
  simpa [MaskedPattern.isPattern, fromDictionaryEntry_toDictionaryEntry whole] using found

theorem masked_faithful (mask : BitVec w) (number metadataLength : Nat) (allocate : Bool)
    (bounded : ∀ location, within location → location < 256) :
    Faithful w within ⟨MaskedPattern.isPattern mask,
      fun bytes location => MaskedPattern.new mask number metadataLength location bytes allocate⟩ := by
  intro value entry location reached found
  obtain ⟨start, same⟩ := isPattern_masked whole found
  exact .located rfl start (bounded location reached) (decompress_masked whole mask value same)

theorem located_faithful (mask : BitVec w) (place : Int) (number metadataLength : Nat) (allocate : Bool) (near : place < 256) :
    Faithful w within ⟨LocatedMaskedPattern.isPattern mask place,
      fun bytes location => MaskedPattern.new mask number metadataLength location bytes allocate⟩ := by
  intro value entry location _ found
  simp only [LocatedMaskedPattern.isPattern, Bool.and_eq_true, beq_iff_eq] at found
  obtain ⟨here, found⟩ := found
  obtain ⟨start, same⟩ := isPattern_masked whole found
  exact .located rfl start (here ▸ near) (decompress_masked whole mask value same)

theorem valued_free {fixed mask value : BitVec w} (entry : DictionaryEntry) (location : Int)
    (found : MaskedValuePattern.isPattern fixed mask (toDictionaryEntry value) entry location = true) :
    MaskedPattern.decompress mask (toDictionaryEntry value) (toDictionaryEntry fixed) = toDictionaryEntry value := by
  have same : fixed &&& mask = value &&& mask := by
    simpa [MaskedValuePattern.isPattern, fromDictionaryEntry_toDictionaryEntry whole] using found
  apply decompress_masked whole
  rw [fromDictionaryEntry_toDictionaryEntry whole, same]

theorem valued_faithful (fixed mask : BitVec w) (number metadataLength : Nat) (allocate : Bool) :
    Faithful w within ⟨MaskedValuePattern.isPattern fixed mask,
      fun bytes location => MaskedValuePattern.new fixed mask number metadataLength location bytes allocate⟩ := by
  intro value entry location _ found
  exact .free fun _ => valued_free whole entry location found

end

theorem delta_faithful (deltaSizeBits number metadataLength : Nat) :
    Faithful w within ⟨DeltaPattern.isPattern w deltaSizeBits,
      fun bytes location => DeltaPattern.new deltaSizeBits number metadataLength location bytes⟩ :=
  fun _ _ _ _ _ => .free fun _ => rfl

theorem getLsbD_of_isRepeated (repValue : BitVec r) (times : Nat) (value : BitVec w)
    (holds : isRepeated repValue times value = true) {index : Nat} (inside : index < times * r) :
    value.getLsbD index = repValue.getLsbD (index % r) := by
  induction times generalizing value index with
  | zero => omega
  | succ times ih =>
    simp only [isRepeated, Bool.and_eq_true, beq_iff_eq] at holds
    obtain ⟨first, rest⟩ := holds
    have split : (times + 1) * r = times * r + r := Nat.succ_mul times r
    by_cases low : index < r
    · rw [Nat.mod_eq_of_lt low, ← first, getLsbD_setWidth]
      simp [low]
    · have shifted := ih _ rest (show index - r < times * r by omega)
      rw [getLsbD_ushiftRight, Nat.add_sub_cancel' (by omega)] at shifted
      rw [shifted, ← Nat.mod_eq_sub_mod (Nat.le_of_not_lt low)]

theorem getLsbD_repeated (value : BitVec r) (times index : Nat) (inside : index < w) :
    (repeated w value times).getLsbD index =
      (decide (index < times * r) && value.getLsbD (index % r)) := by
  induction times generalizing index with
  | zero => simp [repeated]
  | succ times ih =>
    have split : (times + 1) * r = times * r + r := Nat.succ_mul times r
    rw [repeated, getLsbD_or, getLsbD_shiftLeft, getLsbD_setWidth]
    by_cases low : index < r
    · simp [low, inside, Nat.mod_eq_of_lt low, split, show index < times * r + r by omega]
    · have past : value.getLsbD index = false := getLsbD_of_ge value index (by omega)
      have bound : index - r < times * r ↔ index < (times + 1) * r := by omega
      rw [ih (index - r) (by omega), ← Nat.mod_eq_sub_mod (Nat.le_of_not_lt low), past]
      simp [low, inside, bound]

theorem repeated_faithful (whole : 8 ∣ w) (parts : r ∣ w) (number metadataLength : Nat) (place : Int → Int) (allocate : Bool) :
    Faithful w within ⟨isPattern w r,
      fun bytes location => new w r number metadataLength (place location) bytes allocate⟩ := by
  intro value entry location _ found
  simp only [isPattern, fromDictionaryEntry_toDictionaryEntry whole] at found
  refine .free fun _ => ?_
  simp only [new, fromDictionaryEntry_toDictionaryEntry whole]
  congr 1
  apply eq_of_getLsbD_eq
  intro index inside
  have all : w / r * r = w := Nat.div_mul_cancel parts
  rw [getLsbD_repeated _ _ _ inside, getLsbD_of_isRepeated _ _ _ found (by omega)]
  simp [all, inside]

theorem sext_mask (some : 0 < n) (fits : n ≤ 64) (value : BitVec 64) : sext n (value &&& mask n) = szext n value := by
  have top : (value &&& mask n).getLsbD (n - 1) = value.getLsbD (n - 1) := by
    rw [getLsbD_and, getLsbD_mask]
    simp [show n - 1 < 64 by omega, show n - 1 < n by omega]
  simp only [sext, szext, top]
  split
  · apply eq_of_getLsbD_eq
    intro index inside
    simp only [getLsbD_or, getLsbD_and, getLsbD_not, inside, decide_true, Bool.true_and]
    cases value.getLsbD index <;> cases (mask n).getLsbD index <;> rfl
  · rfl

theorem szext_congr (some : 0 < n) {first second : BitVec 64}
    (same : ∀ index, index < n → first.getLsbD index = second.getLsbD index) : szext n first = szext n second := by
  simp only [szext, same (n - 1) (by omega)]
  split
  all_goals
    apply eq_of_getLsbD_eq
    intro index inside
    simp only [getLsbD_or, getLsbD_and, getLsbD_not, getLsbD_mask]
    by_cases low : index < n
    · simp [same index low]
    · simp [low, inside]

theorem signExtended_faithful (whole : 8 ∣ w) (some : 0 < n) (fits : n ≤ 64) (number metadataLength : Nat) :
    Faithful w within ⟨SignExtendedPattern.isPattern w n, fun bytes _ => SignExtendedPattern.new w n number metadataLength bytes⟩ := by
  intro value entry location _ found
  simp only [SignExtendedPattern.isPattern, fromDictionaryEntry_toDictionaryEntry whole, beq_iff_eq] at found
  refine .free fun _ => ?_
  simp only [SignExtendedPattern.new, fromDictionaryEntry_toDictionaryEntry whole]
  rw [sext_mask some fits, ← found]

theorem halfword_extends {half : BitVec 16} (same : half.toInt = ((szext 8 (half.signExtend 64)).setWidth 16).toNat) :
    (szext 8 ((half.setWidth 8).signExtend 64)).setWidth 16 = half := by
  have low : szext 8 ((half.setWidth 8).signExtend 64) = szext 8 (half.signExtend 64) := by
    apply szext_congr (by decide)
    intro index inside
    rw [getLsbD_signExtend, getLsbD_signExtend, if_pos inside, if_pos (by omega), getLsbD_setWidth]
    simp [inside]
  rw [low]
  apply eq_of_toNat_eq
  have positive := toInt_eq_toNat_cond half
  split at positive
  · omega
  · omega

theorem halfwords_join (value : BitVec 32) :
    ((value >>> 16).setWidth 16).setWidth 32 <<< 16 ||| (value.setWidth 16).setWidth 32 = value := by
  apply eq_of_getLsbD_eq
  intro index inside
  simp only [getLsbD_or, getLsbD_shiftLeft, getLsbD_setWidth, getLsbD_ushiftRight]
  by_cases low : index < 16
  · simp [low, inside]
  · simp [low, inside, show index - 16 < 32 by omega, show index - 16 < 16 by omega, show 16 + (index - 16) = index by omega]

theorem halfwords_faithful : Faithful 32 within FPC.signExtendedTwoHalfwords := by
  intro value entry location _ found
  simp only [FPC.signExtendedTwoHalfwords, fromDictionaryEntry_toDictionaryEntry (w := 32) (by decide), Bool.and_eq_true,
    beq_iff_eq] at found
  obtain ⟨low, high⟩ := found
  refine .free fun _ => ?_
  have lowByte : (value.setWidth 16).setWidth 8 = value.setWidth 8 := setWidth_setWidth_of_le _ (by decide)
  have highByte : ((value >>> 16).setWidth 16).setWidth 8 = (value >>> 16).setWidth 8 := setWidth_setWidth_of_le _ (by decide)
  simp only [FPC.signExtendedTwoHalfwords, fromDictionaryEntry_toDictionaryEntry (w := 32) (by decide)]
  rw [← lowByte, ← highByte, halfword_extends low, halfword_extends high, halfwords_join]

end Families

section Search

variable {within : Int → Prop} {factory : List PatternClass} {last : PatternClass}

theorem getPattern_restores (each : ∀ family ∈ factory, Faithful w within family)
    (plain : ∀ (value : BitVec w) location other,
      (last.new (toDictionaryEntry value) location).decompress other = toDictionaryEntry value)
    (value : BitVec w) (entry : DictionaryEntry) {location : Int} (reached : within location) :
    Restores (getPattern factory last (toDictionaryEntry value) entry location) entry location (toDictionaryEntry value) := by
  induction factory with
  | nil => exact .free (plain value location)
  | cons head _ ih =>
    rw [getPattern]
    split
    · case isTrue found => exact each head List.mem_cons_self value entry location reached found
    · exact ih fun family member => each family (List.mem_cons_of_mem _ member)

end Search

/-- The pattern gives its bytes by itself, or from an entry of the dictionary. -/
inductive Found (dict : Dictionary) (pattern : Pattern) (bytes : DictionaryEntry) : Prop where
  | free (gives : ∀ other, pattern.decompress other = bytes)
  | located (place : Nat) (entry : DictionaryEntry) (points : pattern.matchLocation = place) (near : place < 256)
      (held : dict.dictionary[place]? = some entry) (gives : pattern.decompress entry = bytes)

theorem Found.read {dict : Dictionary} {pattern : Pattern} {bytes : DictionaryEntry} (found : Found dict pattern bytes)
    (outside : DictionaryEntry) :
    pattern.decompress ((dict.dictionary[(pattern.matchLocation % 256).toNat]?).getD outside) = bytes := by
  cases found with
  | free gives => exact gives _
  | located place _ _ _ held gives =>
    have index : (pattern.matchLocation % 256).toNat = place := by omega
    rw [index, held, Option.getD_some, gives]

theorem Restores.found {dict : Dictionary} {pattern : Pattern} {bytes : DictionaryEntry} {place : Nat}
    (restores : Restores pattern entry place bytes) (held : dict.dictionary[place]? = some entry) : Found dict pattern bytes := by
  cases restores with
  | free gives => exact .free gives
  | located points _ _ gives => exact .located place entry points (by omega) held gives

def chosen (compressor : DictionaryCompressor) (dict : Dictionary) (value : BitVec compressor.width) : Pattern :=
  compressor.search (toDictionaryEntry value) (dict.dictionary.take dict.numEntries) 0
    (getPattern compressor.factory compressor.last (toDictionaryEntry value) (toDictionaryEntry (0 : BitVec compressor.width)) (-1))

structure Alike (first second : Pattern) : Prop where
  matchLocation : first.matchLocation = second.matchLocation
  allocate : first.allocate = second.allocate
  decompress : first.decompress = second.decompress

/-- What is asked of a compressor and its parameters for nothing to be lost. `fits` says that
so many more values can be compressed. -/
structure Coherent (compressor : DictionaryCompressor) (params : Params) (fits : Dictionary → Nat → Prop) (within : Int → Prop) :
    Prop where
  whole : 8 ∣ compressor.width
  each : ∀ family ∈ compressor.factory, Faithful compressor.width within family
  plain : ∀ (value : BitVec compressor.width) location other,
    (compressor.last.new (toDictionaryEntry value) location).decompress other = toDictionaryEntry value
  first : within (-1)
  near : ∀ {dict n}, fits dict (n + 1) → ∀ place : Nat, place < dict.numEntries → within place
  sized : ∀ {dict n}, fits dict n → dict.dictionary.length = params.dictionarySize
  reset : ∀ {dict : Dictionary}, dict.dictionary.length = params.dictionarySize →
    ∃ next, compressor.reset params dict = .ok next ∧ fits next (params.blkSize * 8 / params.chunkSizeBits)
  add : ∀ {dict n}, fits dict (n + 1) → ∀ bytes, ∃ next, compressor.addToDictionary params dict bytes = .ok next ∧ fits next n
  skip : ∀ {dict n}, fits dict (n + 1) → ∀ value, (chosen compressor dict value).allocate = false → fits dict n
  alike : ∀ data pattern, ∃ added, (compressor.addEntry params data pattern).entries = data.entries ++ [added] ∧ Alike added pattern
  finish : ∀ {dict}, fits dict 0 → ∀ chunks data,
    ∃ outcome, compressor.finish params dict chunks data = .ok outcome ∧ outcome.data.entries = data.entries

namespace Coherent

variable {compressor : DictionaryCompressor} {params : Params} {fits : Dictionary → Nat → Prop} {within : Int → Prop} {dict : Dictionary}
  {n : Nat}

section

variable (coherent : Coherent compressor params fits within)
include coherent

theorem search_found (value : BitVec compressor.width) (entries : List DictionaryEntry) (start : Nat) (pattern : Pattern)
    (held : ∀ (k : Nat) entry, entries[k]? = some entry →
      dict.dictionary[start + k]? = some entry ∧ within ((start + k : Nat) : Int))
    (found : Found dict pattern (toDictionaryEntry value)) :
    Found dict (compressor.search (toDictionaryEntry value) entries start pattern) (toDictionaryEntry value) := by
  induction entries generalizing start pattern with
  | nil => exact found
  | cons entry _ ih =>
    rw [DictionaryCompressor.search]
    apply ih
    · intro k other there
      have shifted := held (k + 1) other (by simpa using there)
      rwa [show start + (k + 1) = start + 1 + k by omega] at shifted
    · split
      · obtain ⟨here, reached⟩ := held 0 entry rfl
        exact (getPattern_restores coherent.each coherent.plain value entry reached).found here
      · exact found

theorem chosen_found (room : fits dict (n + 1))
    (value : BitVec compressor.width) : Found dict (chosen compressor dict value) (toDictionaryEntry value) := by
  apply coherent.search_found
  · intro k entry there
    have inside : k < dict.numEntries := by
      have bound := (List.getElem?_eq_some_iff.mp there).1
      rw [List.length_take] at bound
      omega
    rw [List.getElem?_take_of_lt inside] at there
    rw [Nat.zero_add]
    exact ⟨there, coherent.near room k inside⟩
  · cases getPattern_restores coherent.each coherent.plain value (toDictionaryEntry (0 : BitVec compressor.width)) coherent.first with
    | free gives => exact .free gives
    | located => omega

theorem allocated (room : fits dict (n + 1)) (value : BitVec compressor.width) :
    ∃ next, (if (chosen compressor dict value).allocate then compressor.addToDictionary params dict (toDictionaryEntry value)
      else .ok dict) = .ok next ∧ fits next n := by
  cases allocate : (chosen compressor dict value).allocate with
  | true => simpa using coherent.add room (toDictionaryEntry value)
  | false => exact ⟨dict, by simp, coherent.skip room value allocate⟩

theorem compressValue_spec (room : fits dict (n + 1)) (value : BitVec compressor.width) :
    ∃ next, compressor.compressValue params dict value = .ok (next, chosen compressor dict value) ∧ fits next n ∧
      ∀ outside pattern, Alike pattern (chosen compressor dict value) →
        compressor.decompressValue params outside dict pattern = .ok (next, value) := by
  obtain ⟨next, added, left⟩ := coherent.allocated room value
  refine ⟨next, ?_, left, ?_⟩
  · exact bind_of_ok added _
  · intro outside pattern alike
    have gives := (coherent.chosen_found room value).read outside
    simp only [DictionaryCompressor.decompressValue, alike.matchLocation, alike.allocate, alike.decompress, gives]
    rw [bind_of_ok added, fromDictionaryEntry_toDictionaryEntry coherent.whole]
    rfl

theorem compressEach_spec (values : List (BitVec 64)) (room : fits dict values.length) (data : CompData) :
    ∃ last final added, compressor.compressEach params values dict data = .ok (last, final) ∧ fits last 0 ∧
      final.entries = data.entries ++ added ∧
      ∀ outside, compressor.decompressEach params outside added dict =
        .ok (last, values.map fun value => value.setWidth compressor.width) := by
  induction values generalizing dict data with
  | nil => exact ⟨dict, data, [], rfl, room, by simp, fun _ => rfl⟩
  | cons value _ ih =>
    obtain ⟨_, compressed, left, decompressed⟩ := coherent.compressValue_spec room (value.setWidth compressor.width)
    obtain ⟨pattern, entries, alike⟩ := coherent.alike data (chosen compressor dict (value.setWidth compressor.width))
    obtain ⟨last, final, added, all, done, more, back⟩ :=
      ih left (compressor.addEntry params data (chosen compressor dict (value.setWidth compressor.width)))
    refine ⟨last, final, pattern :: added, ?_, done, ?_, ?_⟩
    · rw [DictionaryCompressor.compressEach, bind_of_ok compressed]
      exact all
    · rw [more, entries, List.append_assoc, List.singleton_append]
    · intro outside
      rw [DictionaryCompressor.decompressEach, bind_of_ok (decompressed outside pattern alike)]
      simp only [back outside, ok_bind]
      rfl

end

end Coherent

end ImcGem5.Mem.Proofs.Compressor

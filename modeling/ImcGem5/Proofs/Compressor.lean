import ImcGem5.Lib.Codec
import ImcGem5.Proofs.Patterns
import ImcGem5.Proofs.Chunks

/-! What is compressed comes back, from each of the compressors and from several of them, in
whatever order lines are compressed and decompressed. -/

namespace ImcGem5.Mem.Proofs.Compressor
open Lib Compression DictionaryCompressor
open List hiding toChunks

def Sized (params : Params) (dict : Dictionary) : Prop := dict.dictionary.length = params.dictionarySize

theorem constructed_sized (compressor : DictionaryCompressor) (params : Params) : Sized params (compressor.constructed params) := by
  rw [Sized, constructed, length_replicate]

variable {compressor : DictionaryCompressor} {dict : Dictionary} {line : List (BitVec 64)}

theorem compress_ok {params : Params} {start last : Dictionary}
    {final : CompData} {outcome : Outcome} (resets : compressor.reset params dict = .ok start)
    (each : compressor.compressEach params (toChunks params line) start {} = .ok (last, final))
    (finished : compressor.finish params last (toChunks params line) final = .ok outcome) :
    compressor.compress params dict line =
      .ok (last, { outcome with data := { outcome.data with sizeBits := thresholded params outcome.data.sizeBits } }) := by
  have ran : compressor.compressChunks params dict (toChunks params line) = .ok (last, outcome) := by
    rw [compressChunks, bind_of_ok resets, bind_of_ok each]
    exact bind_of_ok finished _
  exact bind_of_ok ran _

variable {outside : DictionaryEntry}

theorem decompress_ok {params : Params} {start last : Dictionary}
    {data : CompData} {values : List (BitVec compressor.width)} (resets : compressor.reset params dict = .ok start)
    (each : compressor.decompressEach params outside data.entries start = .ok (last, values))
    (enough : 64 / compressor.width * (params.blkSize / 8) ≤ values.length) :
    compressor.decompress params outside dict data = .ok (last, (range (params.blkSize / 8)).map
      fun i => joinValues values (64 / compressor.width * i) (64 / compressor.width)) := by
  rw [decompress, bind_of_ok resets, bind_of_ok each]
  simp only [if_neg (Nat.not_lt.mpr enough)]
  rfl

namespace Coherent

variable {compressor : DictionaryCompressor} {params : Params} {fits : Dictionary → Nat → Prop} {within : Int → Prop} {words : Nat}

theorem reset_same (coherent : Coherent compressor params fits within) :
    ∃ start, fits start (params.blkSize * 8 / params.chunkSizeBits) ∧
      ∀ dict, Sized params dict → compressor.reset params dict = .ok start := by
  have size : (Dictionary.mk (replicate params.dictionarySize []) 0).dictionary.length = params.dictionarySize :=
    length_replicate
  obtain ⟨start, first, room⟩ := coherent.reset size
  refine ⟨start, room, fun dict sized => ?_⟩
  rw [← first]
  simp only [DictionaryCompressor.reset, length_replicate, show dict.dictionary.length = params.dictionarySize from sized]

theorem round_trip (coherent : Coherent compressor params fits within) (cut : Cut params compressor.width words)
    (sized : Sized params dict) (length : line.length = words) :
    ∃ next outcome, compressor.compress params dict line = .ok (next, outcome) ∧ Sized params next ∧
      ∀ outside other, Sized params other → ∀ data : CompData, data.entries = outcome.data.entries →
        ∃ last, compressor.decompress params outside other data = .ok (last, line) ∧ Sized params last := by
  obtain ⟨_, room, resets⟩ := coherent.reset_same
  rw [← Cut.toChunks_length line] at room
  obtain ⟨last, final, added, compressed, done, entries, decompressed⟩ := coherent.compressEach_spec (toChunks params line) room {}
  obtain ⟨outcome, finished, kept⟩ := coherent.finish done (toChunks params line) final
  refine ⟨last, _, compress_ok (resets dict sized) compressed finished, coherent.sized done, ?_⟩
  intro outside other otherSized data same
  have all : data.entries = added := same.trans (by rw [kept, entries, nil_append])
  have back := decompressed outside
  rw [← all] at back
  refine ⟨last, ?_, coherent.sized done⟩
  have enough : 64 / compressor.width * (params.blkSize / 8) ≤
      ((toChunks params line).map fun value => value.setWidth compressor.width).length :=
    Nat.le_of_eq (by rw [length_map, Cut.toChunks_length, cut.count, cut.words_eq])
  rw [decompress_ok (resets other otherSized) back enough, cut.joinValues_toChunks length]

end Coherent

structure Room (params : Params) (cap : Nat) (dict : Dictionary) (n : Nat) : Prop where
  sized : Sized params dict
  left : dict.numEntries + n ≤ cap

section Room

variable {params : Params} {cap n : Nat} {dict : Dictionary}

theorem Room.skip (room : Room params cap dict (n + 1)) : Room params cap dict n :=
  ⟨room.sized, Nat.le_of_succ_le room.left⟩

theorem Room.cleared (sized : Sized params dict) (entry : DictionaryEntry) (fits : n ≤ cap) :
    Room params cap ⟨replicate dict.dictionary.length entry, 0⟩ n :=
  ⟨by simpa [Sized] using sized, by simpa using fits⟩

theorem push_ok (bytes : DictionaryEntry) (inside : dict.numEntries < dict.dictionary.length) :
    dict.push bytes = .ok ⟨dict.dictionary.set dict.numEntries bytes, dict.numEntries + 1⟩ := by
  simp only [Dictionary.push, Dictionary.write, if_pos inside]
  rfl

theorem addBounded_ok (text : String) (room : Room params cap dict (n + 1)) (large : cap ≤ params.dictionarySize)
    (bytes : DictionaryEntry) :
    ∃ next, addBounded text params dict bytes = .ok next ∧ Room params cap next n ∧ next.numEntries = dict.numEntries + 1 := by
  have left := room.left
  have sized : dict.dictionary.length = params.dictionarySize := room.sized
  refine ⟨⟨dict.dictionary.set dict.numEntries bytes, dict.numEntries + 1⟩, ?_, ⟨?_, ?_⟩, rfl⟩
  · simp only [addBounded, Fault.ensure, show dict.numEntries < params.dictionarySize by omega, decide_true]
    exact push_ok bytes (by omega)
  · simpa [Sized] using sized
  · simp only
    omega

theorem Room.add (room : Room params cap dict (n + 1)) (text : String) (large : cap ≤ params.dictionarySize) (bytes : DictionaryEntry) :
    ∃ next, addBounded text params dict bytes = .ok next ∧ Room params cap next n :=
  (addBounded_ok text room large bytes).imp fun _ => .imp_right And.left

theorem withLatencies_ok (comp : 0 < params.compChunksPerCycle) (decomp : 0 < params.decompChunksPerCycle) (dict : Dictionary)
    (chunks : List (BitVec 64)) (data : CompData) :
    ∃ outcome, withLatencies params dict chunks data = .ok outcome ∧ outcome.data = data := by
  simp only [withLatencies, show ¬(params.compChunksPerCycle = 0 ∨ params.decompChunksPerCycle = 0) by omega, if_false]
  exact ⟨_, rfl, rfl⟩

theorem alike_self (data : CompData) (pattern : Pattern) :
    ∃ added, (data.addEntry pattern).entries = data.entries ++ [added] ∧ Alike added pattern :=
  ⟨pattern, rfl, rfl, rfl, rfl⟩

end Room

section Kinds

variable {params : Params}

theorem cpack_coherent (small : params.blkSize * 8 / params.chunkSizeBits ≤ 256)
    (large : params.blkSize * 8 / params.chunkSizeBits ≤ params.dictionarySize)
    (comp : 0 < params.compChunksPerCycle) (decomp : 0 < params.decompChunksPerCycle) :
    Coherent CPack params (Room params (params.blkSize * 8 / params.chunkSizeBits)) (· < 256) where
  whole := by decide
  each := by
    have whole : 8 ∣ 32 := by decide
    intro family member
    simp only [CPack, mem_cons, not_mem_nil, or_false] at member
    obtain rfl | rfl | rfl | rfl | rfl := member
    · exact valued_faithful whole _ _ _ _ _
    · exact masked_faithful whole _ _ _ _ fun _ reached => reached
    · exact valued_faithful whole _ _ _ _ _
    · exact masked_faithful whole _ _ _ _ fun _ reached => reached
    · exact masked_faithful whole _ _ _ _ fun _ reached => reached
  plain _ _ _ := rfl
  first := by decide
  near {dict n} room place inside := by
    have left := room.left
    omega
  sized room := room.sized
  reset sized := ⟨_, rfl, .cleared sized _ (Nat.le_refl _)⟩
  add room bytes := room.add _ large bytes
  skip room _ _ := room.skip
  alike := alike_self
  finish {dict} _ chunks data := by
    obtain ⟨outcome, finished, same⟩ := withLatencies_ok comp decomp dict chunks data
    exact ⟨outcome, finished, by rw [same]⟩

theorem alike_fpc (data : CompData) (pattern : Pattern) :
    ∃ added, (FPC.addEntry params data pattern).entries = data.entries ++ [added] ∧ Alike added pattern := by
  refine ⟨_, rfl, ?_⟩
  split
  · exact ⟨rfl, rfl, rfl⟩
  · split
    · exact ⟨rfl, rfl, rfl⟩
    · split
      · exact ⟨rfl, rfl, rfl⟩
      · split
        · exact ⟨rfl, rfl, rfl⟩
        · exact ⟨rfl, rfl, rfl⟩

theorem fpc_coherent (comp : 0 < params.compChunksPerCycle) (decomp : 0 < params.decompChunksPerCycle) :
    Coherent FPC params (fun dict _ => Sized params dict) (fun _ => True) where
  whole := by decide
  each := by
    have whole : 8 ∣ 32 := by decide
    intro family member
    simp only [FPC, mem_cons, not_mem_nil, or_false] at member
    obtain rfl | rfl | rfl | rfl | rfl | rfl | rfl := member
    · exact fun _ entry location _ found => .free fun _ => valued_free whole entry location found
    · exact signExtended_faithful whole (by decide) (by decide) _ _
    · exact signExtended_faithful whole (by decide) (by decide) _ _
    · exact signExtended_faithful whole (by decide) (by decide) _ _
    · exact fun _ entry location _ found => .free fun _ => valued_free whole entry location found
    · exact halfwords_faithful
    · exact repeated_faithful whole (by decide) _ _ (fun _ => -1) _
  plain _ _ _ := rfl
  first := trivial
  near _ _ _ := trivial
  sized sized := sized
  reset sized := ⟨_, rfl, by simpa [Sized] using sized⟩
  add {dict _} sized _ := ⟨dict, rfl, sized⟩
  skip sized _ _ := sized
  alike := alike_fpc
  finish {dict} _ chunks data := by
    obtain ⟨outcome, finished, same⟩ := withLatencies_ok comp decomp dict chunks data
    exact ⟨outcome, finished, by rw [same]⟩

theorem fpcd_add (pair : params.dictionarySize = 2) (sized : Sized params dict) (few : dict.numEntries ≤ 2) (bytes : DictionaryEntry) :
    ∃ next, FPCD.addToDictionary params dict bytes = .ok next ∧ Sized params next ∧ next.numEntries ≤ 2 := by
  have two : dict.dictionary.length = 2 := by rw [← pair]; exact sized
  by_cases full : dict.numEntries = 2
  · refine ⟨{ dict with dictionary := (dict.dictionary.set 0 (dict.dictionary.get ⟨1, by omega⟩)).set 1 bytes }, ?_, ?_, ?_⟩
    · simp [FPCD.addToDictionary, full, Dictionary.write, two, FPCD.penultimateIndex, FPCD.previousIndex]
    · simpa [Sized] using sized
    · exact few
  · refine ⟨⟨dict.dictionary.set dict.numEntries bytes, dict.numEntries + 1⟩, ?_, ?_, ?_⟩
    · rw [FPCD.addToDictionary, if_neg full]
      exact push_ok bytes (by omega)
    · simpa [Sized] using sized
    · simp only
      omega

theorem fpcd_coherent (pair : params.dictionarySize = 2) (comp : 0 < params.compChunksPerCycle)
    (decomp : 0 < params.decompChunksPerCycle) :
    Coherent FPCD params (fun dict _ => Sized params dict ∧ dict.numEntries ≤ 2) (fun _ => True) where
  whole := by decide
  each := by
    have whole : 8 ∣ 32 := by decide
    intro family member
    simp only [FPCD, mem_cons, not_mem_nil, or_false] at member
    obtain rfl | rfl | rfl | rfl | rfl | rfl | rfl | rfl | rfl | rfl | rfl | rfl | rfl | rfl | rfl := member
    · exact valued_faithful whole _ _ _ _ _
    · exact valued_faithful whole _ _ _ _ _
    · exact located_faithful whole _ _ _ _ _ (by decide)
    · exact located_faithful whole _ _ _ _ _ (by decide)
    · exact valued_faithful whole _ _ _ _ _
    · exact valued_faithful whole _ _ _ _ _
    · exact repeated_faithful whole (by decide) _ _ id _
    · exact located_faithful whole _ _ _ _ _ (by decide)
    · exact located_faithful whole _ _ _ _ _ (by decide)
    · exact valued_faithful whole _ _ _ _ _
    · exact valued_faithful whole _ _ _ _ _
    · exact valued_faithful whole _ _ _ _ _
    · exact valued_faithful whole _ _ _ _ _
    · exact located_faithful whole _ _ _ _ _ (by decide)
    · exact located_faithful whole _ _ _ _ _ (by decide)
  plain _ _ _ := rfl
  first := trivial
  near _ _ _ := trivial
  sized fits := fits.1
  reset sized := ⟨_, rfl, by simpa [Sized] using sized, Nat.zero_le 2⟩
  add fits bytes := fpcd_add pair fits.1 fits.2 bytes
  skip fits _ _ := fits
  alike := alike_self
  finish {dict} _ chunks data := by
    obtain ⟨outcome, finished, same⟩ := withLatencies_ok comp decomp dict chunks data
    exact ⟨outcome, finished, by rw [same]⟩

theorem zero_coherent (large : params.blkSize * 8 / params.chunkSizeBits ≤ params.dictionarySize) :
    Coherent Compression.Zero params (Room params (params.blkSize * 8 / params.chunkSizeBits)) (fun _ => True) where
  whole := by decide
  each := by
    intro family member
    simp only [Compression.Zero, mem_cons, not_mem_nil, or_false] at member
    obtain rfl := member
    exact valued_faithful (by decide) _ _ _ _ _
  plain _ _ _ := rfl
  first := trivial
  near _ _ _ := trivial
  sized room := room.sized
  reset sized := ⟨_, rfl, .cleared sized _ (Nat.le_refl _)⟩
  add room bytes := room.add _ large bytes
  skip room _ _ := room.skip
  alike := alike_self
  finish {dict} _ _ data := by
    refine ⟨_, rfl, ?_⟩
    simp only [inOneCycle]
    split
    · rfl
    · rfl

theorem repeatedQwords_first (empty : dict.numEntries = 0) (value : BitVec RepeatedQwords.width) :
    (chosen RepeatedQwords dict value).allocate = true := by
  simp only [chosen, empty, take_zero]
  rfl

theorem repeatedQwords_coherent (some : 0 < params.blkSize * 8 / params.chunkSizeBits)
    (large : params.blkSize * 8 / params.chunkSizeBits ≤ params.dictionarySize) :
    Coherent RepeatedQwords params
      (fun dict n => Room params (params.blkSize * 8 / params.chunkSizeBits) dict n ∧ 0 < dict.numEntries + n) (fun _ => True) where
  whole := by decide
  each := by
    intro family member
    simp only [RepeatedQwords, mem_cons, not_mem_nil, or_false] at member
    obtain rfl := member
    exact located_faithful (by decide) _ _ _ _ _ (by decide)
  plain _ _ _ := rfl
  first := trivial
  near _ _ _ := trivial
  sized fits := fits.1.sized
  reset sized := ⟨_, rfl, .cleared sized _ (Nat.le_refl _), by simpa using some⟩
  add fits bytes := by
    obtain ⟨next, added, left, _⟩ := addBounded_ok _ fits.1 large bytes
    exact ⟨next, added, left, by omega⟩
  skip {dict n} fits value unallocated := by
    refine ⟨fits.1.skip, ?_⟩
    by_cases empty : dict.numEntries = 0
    · rw [repeatedQwords_first empty] at unallocated
      cases unallocated
    · omega
  alike := alike_self
  finish {dict} fits _ data := by
    have several : 1 ≤ dict.numEntries := by
      omega
    refine ⟨_, by simp [RepeatedQwords, Fault.ensure, several]; rfl, ?_⟩
    simp only [inOneCycle]
    split
    · rfl
    · rfl

theorem baseDelta_coherent {width deltaSizeBits : Nat} (whole : 8 ∣ width)
    (large : params.blkSize * 8 / params.chunkSizeBits + 1 ≤ params.dictionarySize)
    (comp : 0 < params.compChunksPerCycle) (decomp : 0 < params.decompChunksPerCycle) :
    Coherent (BaseDelta width deltaSizeBits) params (Room params (params.blkSize * 8 / params.chunkSizeBits + 1)) (fun _ => True) where
  whole := whole
  each := by
    intro family member
    simp only [BaseDelta, mem_cons, not_mem_nil, or_false] at member
    obtain rfl := member
    exact delta_faithful _ _ _
  plain _ _ _ := rfl
  first := trivial
  near _ _ _ := trivial
  sized room := room.sized
  reset sized :=
    (Room.cleared sized (toDictionaryEntry (0 : BitVec width)) (Nat.le_refl _)).add _ large (toDictionaryEntry (0 : BitVec width))
  add room bytes := room.add _ large bytes
  skip room _ _ := room.skip
  alike := alike_self
  finish {dict} _ chunks data := by
    obtain ⟨_, finished, same⟩ := withLatencies_ok comp decomp dict chunks data
    simp only [BaseDelta, bind_of_ok finished]
    split
    · exact ⟨_, rfl, by rw [same]⟩
    · exact ⟨_, rfl, by rw [same]⟩

end Kinds

def RoundTrip (sub : SubCompressor) (dict : Dictionary) (line : List (BitVec 64)) : Prop :=
  ∃ next outcome, sub.kind.compressor.compress sub.params dict line = .ok (next, outcome) ∧ Sized sub.params next ∧
    ∀ outside other, Sized sub.params other → ∀ data : CompData, data.entries = outcome.data.entries →
      ∃ last, sub.kind.compressor.decompress sub.params outside other data = .ok (last, line) ∧ Sized sub.params last

def InReach (cacheLineSize : Nat) (sub : SubCompressor) : Prop := sub.kind = .cpack → cacheLineSize ≤ 1024

section Single

variable {cacheLineSize words : Nat} {sub : SubCompressor}

theorem width_eq (kind : Kind) : kind.chunkSizeBits = kind.compressor.width := by
  cases kind <;> rfl

section

variable (default : sub.Default cacheLineSize)
include default

theorem Default.cut (whole : cacheLineSize = 8 * words) :
    Cut sub.params sub.kind.compressor.width words where
  chunk := by rw [default.chunkSizeBits, width_eq]
  whole := by
    cases sub.kind
    all_goals decide
  line := by rw [default.blkSize, whole]

theorem Default.count_le (whole : cacheLineSize = 8 * words) : sub.params.blkSize * 8 / sub.params.chunkSizeBits ≤ 4 * words := by
  rw [(Default.cut default whole).count]
  apply Nat.mul_le_mul_right
  cases sub.kind
  all_goals decide

theorem default_round_trip (whole : cacheLineSize = 8 * words) (some : 0 < words)
    (reach : InReach cacheLineSize sub) (sized : Sized sub.params dict) (length : line.length = words) : RoundTrip sub dict line := by
  have cut := Default.cut default whole
  have few := Default.count_le default whole
  have positive : 0 < sub.params.blkSize * 8 / sub.params.chunkSizeBits := by
    rw [cut.count]
    exact Nat.mul_pos cut.several some
  obtain ⟨kind, params⟩ := sub
  obtain ⟨-, -, dictionarySize, comp, decomp⟩ := default
  simp only at few positive dictionarySize comp decomp
  cases kind with
  | cpack =>
    have small := reach rfl
    have halves : params.blkSize * 8 / params.chunkSizeBits = 64 / 32 * words := cut.count
    simp only [Kind.dictionarySize] at dictionarySize
    exact (cpack_coherent (by omega) (by omega) comp decomp).round_trip cut sized length
  | fpc => exact (fpc_coherent comp decomp).round_trip cut sized length
  | fpcd => exact (fpcd_coherent dictionarySize comp decomp).round_trip cut sized length
  | zero =>
    simp only [Kind.dictionarySize] at dictionarySize
    have large : params.blkSize * 8 / params.chunkSizeBits ≤ params.dictionarySize := by omega
    exact (zero_coherent large).round_trip cut sized length
  | repeatedQwords =>
    simp only [Kind.dictionarySize] at dictionarySize
    have large : params.blkSize * 8 / params.chunkSizeBits ≤ params.dictionarySize := by omega
    exact (repeatedQwords_coherent positive large).round_trip cut sized length
  | _ =>
    simp only [Kind.dictionarySize] at dictionarySize
    exact (baseDelta_coherent (by decide) (by omega) comp decomp).round_trip cut sized length

end

end Single

/-- A compressor as a coder of lines. `outside` is what lies past its dictionary. -/
def coder (outside : DictionaryEntry) (sub : SubCompressor) : Codec Dictionary Outcome (List (BitVec 64)) Fault where
  encode dict line := sub.kind.compressor.compress sub.params dict line
  decode dict outcome := sub.kind.compressor.decompress sub.params outside dict outcome.data

def multiCoder (top : List Multi.Results → Option Multi.Results) (outside : DictionaryEntry) (multi : Multi.Compressor) :
    Codec (List Dictionary) Multi.Outcome (List (BitVec 64)) Fault where
  encode dicts line := Multi.compress top multi dicts line
  decode dicts outcome := Multi.decompress outside multi dicts outcome.data

variable {sub : SubCompressor}

theorem coder_lossless {cacheLineSize words : Nat} (default : sub.Default cacheLineSize)
    (whole : cacheLineSize = 8 * words) (some : 0 < words) (reach : InReach cacheLineSize sub) (outside : DictionaryEntry) :
    (coder outside sub).Lossless (Sized sub.params) (fun line => line.length = words) := by
  intro dict sized line length
  obtain ⟨next, outcome, compressed, kept, back⟩ := default_round_trip default whole some reach sized length
  exact ⟨next, outcome, compressed, kept, fun other good => back outside other good outcome.data rfl⟩

section Several

variable {cacheLineSize words : Nat} {subs : List SubCompressor} {dicts : List Dictionary}

abbrev AllSized (subs : List SubCompressor) (dicts : List Dictionary) : Prop :=
  List.Forall₂ (fun sub dict => Sized sub.params dict) subs dicts

def Kept (line : List (BitVec 64)) (subs : List SubCompressor) (start : Nat) (result : Multi.Results) : Prop :=
  ∃ k sub, subs[k]? = some sub ∧ result.index = start + k ∧ ∀ outside other, Sized sub.params other →
    ∃ last, sub.kind.compressor.decompress sub.params outside other result.compData = .ok (last, line) ∧ Sized sub.params last

theorem compressEach_multi (multi : Multi.Compressor) (whole : cacheLineSize = 8 * words) (some : 0 < words)
    (length : line.length = words) (sized : AllSized subs dicts)
    (each : ∀ sub ∈ subs, sub.Default cacheLineSize ∧ InReach cacheLineSize sub) (start : Nat) :
    ∃ next results latency, Multi.compressEach multi line subs dicts start = .ok (next, results, latency) ∧ AllSized subs next ∧
      results.length = subs.length ∧ ∀ result ∈ results, Kept line subs start result := by
  induction sized generalizing start with
  | nil => exact ⟨[], [], 0, rfl, .nil, rfl, by simp⟩
  | @cons sub dict subs dicts here _ ih =>
    obtain ⟨default, reach⟩ := each sub mem_cons_self
    obtain ⟨next, outcome, compressed, kept, back⟩ := default_round_trip default whole some reach here length
    obtain ⟨others, results, latency, rest, allKept, count, found⟩ :=
      ih (fun sub member => each sub (mem_cons_of_mem _ member)) (start + 1)
    let data := { outcome.data with sizeBits := outcome.data.sizeBits + multi.numEncodingBits }
    refine ⟨next :: others, ⟨start, data, outcome.decompLat, Multi.compressionFactor multi.params.blkSize data⟩ :: results,
      max outcome.compLat latency, ?_, .cons kept allKept, ?_, ?_⟩
    · rw [Multi.compressEach, bind_of_ok compressed]
      exact bind_of_ok rest _
    · rw [length_cons, length_cons, count]
    · intro result member
      rcases mem_cons.mp member with rfl | member
      · exact ⟨0, sub, rfl, rfl, fun outside other good => back outside other good _ rfl⟩
      · obtain ⟨k, found, there, _, gives⟩ := found result member
        exact ⟨k + 1, found, by simpa using there, by omega, gives⟩

theorem AllSized.set (sized : AllSized subs dicts) {k : Nat}
    (there : subs[k]? = some sub) (good : Sized sub.params dict) : AllSized subs (dicts.set k dict) := by
  induction sized generalizing k with
  | nil => simp at there
  | cons here rest ih =>
    cases k with
    | zero =>
      cases there
      exact .cons good rest
    | succ => exact .cons here (ih (by simpa using there))

theorem AllSized.get (sized : AllSized subs dicts) {k : Nat}
    (there : subs[k]? = some sub) : ∃ dict, dicts[k]? = some dict ∧ Sized sub.params dict := by
  induction sized generalizing k with
  | nil => simp at there
  | @cons _ dict _ _ here _ ih =>
    cases k with
    | zero =>
      cases there
      exact ⟨dict, rfl, here⟩
    | succ => exact ih (by simpa using there)

/-- A compressor of several, of which an index is a byte. -/
structure MultiDefault (multi : Multi.Compressor) (cacheLineSize : Nat) : Prop where
  blkSize : multi.params.blkSize = cacheLineSize
  chunkSizeBits : multi.params.chunkSizeBits ∣ 64
  some : multi.compressors ≠ []
  few : multi.compressors.length ≤ 256
  each : ∀ sub ∈ multi.compressors, sub.Default cacheLineSize

theorem multiCoder_lossless {top : List Multi.Results → Option Multi.Results} (isTop : Multi.IsTop top) {multi : Multi.Compressor}
    (default : MultiDefault multi cacheLineSize) (whole : cacheLineSize = 8 * words) (some : 0 < words)
    (reach : ∀ sub ∈ multi.compressors, InReach cacheLineSize sub) (outside : DictionaryEntry) :
    (multiCoder top outside multi).Lossless (AllSized multi.compressors) (fun line => line.length = words) := by
  intro dicts sized line length
  have cut : Cut multi.params multi.params.chunkSizeBits words := ⟨rfl, default.chunkSizeBits, by rw [default.blkSize, whole]⟩
  obtain ⟨next, results, latency, ran, kept, count, found⟩ :=
    compressEach_multi multi whole some length sized (fun sub member => ⟨default.each sub member, reach sub member⟩) 0
  obtain ⟨best, chosen, member⟩ := isTop.pushed results (by
    rintro rfl
    exact default.some (length_eq_zero_iff.mp count.symm))
  obtain ⟨k, sub, there, index, gives⟩ := found best member
  have inside : k < 256 := Nat.lt_of_lt_of_le (List.getElem?_eq_some_iff.mp there).1 default.few
  let outcome : Multi.Outcome := {
    data := ⟨BitVec.ofNat 8 best.index, best.compData, thresholded multi.params best.compData.sizeBits⟩
    compLat := latency + multi.params.compExtraLatency
    decompLat := best.decompLat + multi.params.decompExtraLatency }
  refine ⟨next, outcome, ?_, kept, ?_⟩
  · simp only [multiCoder, Multi.compress, cut.fromChunks_toChunks length]
    rw [bind_of_ok ran]
    simp only [chosen]
    rfl
  · intro other good
    obtain ⟨dict, here, dictSized⟩ := good.get there
    obtain ⟨last, back, lastSized⟩ := gives outside dict dictSized
    refine ⟨other.set k last, ?_, good.set there lastSized⟩
    have byte : (BitVec.ofNat 8 best.index).toNat = k := by
      rw [BitVec.toNat_ofNat, index, Nat.zero_add, Nat.mod_eq_of_lt inside]
    simp only [multiCoder, Multi.decompress, outcome, byte, there, here]
    rw [bind_of_ok back]
    rfl

end Several

section LongLines

variable {params : Params} {entry : DictionaryEntry} {value : BitVec CPack.width} {words : Nat}

def ones : BitVec CPack.width := 0x11111111

def twos : BitVec CPack.width := 0x22222222

def longLine (words : Nat) : List (BitVec 64) :=
  replicate 128 0x1111111111111111 ++ replicate (words - 128) 0x2222222222222222

def filled (params : Params) (front : List DictionaryEntry) : Dictionary :=
  ⟨front ++ replicate (params.dictionarySize - front.length) (toDictionaryEntry (0 : BitVec CPack.width)), front.length⟩

theorem add_filled (front : List DictionaryEntry) (left : front.length < params.dictionarySize) (bytes : DictionaryEntry) :
    CPack.addToDictionary params (filled params front) bytes = .ok (filled params (front ++ [bytes])) := by
  have inside : (filled params front).numEntries < (filled params front).dictionary.length := by
    simp only [filled, length_append, length_replicate]
    omega
  have below : decide ((filled params front).numEntries < params.dictionarySize) = true := decide_eq_true left
  obtain ⟨rest, space⟩ : ∃ rest, params.dictionarySize - front.length = rest + 1 :=
    ⟨params.dictionarySize - front.length - 1, by omega⟩
  simp only [CPack, addBounded, Fault.ensure, below, if_true, ok_bind]
  rw [push_ok bytes inside]
  simp [filled, space, replicate_succ, show params.dictionarySize - (front.length + 1) = rest by omega]

theorem search_append (bytes : DictionaryEntry) (first second : List DictionaryEntry) (start : Nat) (pattern : Pattern) :
    CPack.search bytes (first ++ second) start pattern =
      CPack.search bytes second (start + first.length) (CPack.search bytes first start pattern) := by
  induction first generalizing start pattern with
  | nil => rfl
  | cons _ _ ih =>
    rw [cons_append, search, search, ih, length_cons]
    congr 1
    omega

theorem search_replicate {bytes : DictionaryEntry} (pattern : Pattern)
    (longer : ∀ place : Nat, pattern.sizeBits ≤ (getPattern CPack.factory CPack.last bytes entry place).sizeBits) (count start : Nat) :
    CPack.search bytes (replicate count entry) start pattern = pattern := by
  induction count generalizing start with
  | zero => rfl
  | succ _ ih => rw [replicate_succ, search, if_neg (Nat.not_lt.mpr (longer start)), ih]

theorem getPattern_again (other : CPack.patternZZZZ.isPattern (toDictionaryEntry value) (toDictionaryEntry value) 0 = false)
    (place : Nat) : getPattern CPack.factory CPack.last (toDictionaryEntry value) (toDictionaryEntry value) place =
      CPack.patternMMMM.new (toDictionaryEntry value) place := by
  have found : CPack.patternMMMM.isPattern (toDictionaryEntry value) (toDictionaryEntry value) place = true := by
    have start : decide (0 ≤ (place : Int)) = true := decide_eq_true (Int.natCast_nonneg place)
    simp only [CPack.patternMMMM, MaskedPattern.isPattern, start, Bool.true_and, beq_self_eq_true]
  have other : CPack.patternZZZZ.isPattern (toDictionaryEntry value) (toDictionaryEntry value) place = false := other
  rw [show CPack.factory = CPack.patternZZZZ :: CPack.patternMMMM :: _ from rfl, getPattern,
    if_neg (by rw [other]; exact Bool.false_ne_true), getPattern, if_pos found]

/-- A value that none of the patterns of CPack shortens, and of which such an entry has nothing. -/
structure Strange (value : BitVec CPack.width) (entry : DictionaryEntry) : Prop where
  alone : getPattern CPack.factory CPack.last (toDictionaryEntry value) (toDictionaryEntry (0 : BitVec CPack.width)) (-1) =
    CPack.patternXXXX.new (toDictionaryEntry value) (-1)
  other : CPack.patternZZZZ.isPattern (toDictionaryEntry value) (toDictionaryEntry value) 0 = false
  longer : ∀ place : Nat, (getPattern CPack.factory CPack.last (toDictionaryEntry value) entry place).sizeBits = 34

namespace Strange

variable (params)

variable {value : BitVec CPack.width} {entry : DictionaryEntry}

section

variable (strange : Strange value entry)
include strange

theorem chosen_new (before : Nat) :
    chosen CPack (filled params (replicate before entry)) value = CPack.patternXXXX.new (toDictionaryEntry value) (-1) := by
  have early := search_replicate (CPack.patternXXXX.new (toDictionaryEntry value) (-1))
    (fun place => Nat.le_of_eq (strange.longer place).symm) before 0
  simp only [chosen, filled, take_left', strange.alone]
  exact early

theorem chosen_again (before after : Nat) :
    chosen CPack (filled params (replicate before entry ++ replicate (after + 1) (toDictionaryEntry value))) value =
      CPack.patternMMMM.new (toDictionaryEntry value) before := by
  have size (place : Nat) : (CPack.patternMMMM.new (toDictionaryEntry value) place).sizeBits = 6 := rfl
  have early := search_replicate (CPack.patternXXXX.new (toDictionaryEntry value) (-1))
    (fun place => Nat.le_of_eq (strange.longer place).symm) before 0
  have late := search_replicate (CPack.patternMMMM.new (toDictionaryEntry value) before)
    (fun place => Nat.le_of_eq (by rw [getPattern_again strange.other, size, size])) after (before + 1)
  have shorter : (CPack.patternMMMM.new (toDictionaryEntry value) before).sizeBits <
      (CPack.patternXXXX.new (toDictionaryEntry value) (-1)).sizeBits := show 6 < 34 by decide
  simp only [chosen, filled, take_left', strange.alone]
  rw [search_append, early, length_replicate, Nat.zero_add, replicate_succ, search,
    getPattern_again strange.other, if_pos shorter, late]

theorem compressValue_again (before after : Nat) (left : before + after + 1 < params.dictionarySize) :
    CPack.compressValue params
        (filled params (replicate before entry ++ replicate (after + 1) (toDictionaryEntry value))) value =
      .ok (filled params (replicate before entry ++ replicate (after + 2) (toDictionaryEntry value)),
        CPack.patternMMMM.new (toDictionaryEntry value) before) := by
  have pattern := strange.chosen_again params before after
  have added := add_filled (replicate before entry ++ replicate (after + 1) (toDictionaryEntry value))
    (by simp only [length_append, length_replicate]; omega) (toDictionaryEntry value)
  rw [append_assoc, ← replicate_succ'] at added
  have allocated : (if (CPack.patternMMMM.new (toDictionaryEntry value) before).allocate then
      CPack.addToDictionary params (filled params (replicate before entry ++ replicate (after + 1) (toDictionaryEntry value)))
        (toDictionaryEntry value)
      else .ok (filled params (replicate before entry ++ replicate (after + 1) (toDictionaryEntry value)))) =
        .ok (filled params (replicate before entry ++ replicate (after + 2) (toDictionaryEntry value))) := added
  rw [← pattern] at allocated ⊢
  exact bind_of_ok allocated _

theorem compressEach_again (word : BitVec 64) (low : word.setWidth CPack.width = value)
    (rest : List (BitVec 64)) (before after count : Nat) (left : before + after + 1 + count ≤ params.dictionarySize) (data : CompData) :
    CPack.compressEach params (replicate count word ++ rest)
        (filled params (replicate before entry ++ replicate (after + 1) (toDictionaryEntry value))) data =
      CPack.compressEach params rest
        (filled params (replicate before entry ++ replicate (after + 1 + count) (toDictionaryEntry value)))
        { entries := data.entries ++ replicate count (CPack.patternMMMM.new (toDictionaryEntry value) before)
          sizeBits := data.sizeBits + 6 * count } := by
  induction count generalizing after data with
  | zero => simp
  | succ count ih =>
    have ran := strange.compressValue_again params before after (by omega)
    rw [replicate_succ, cons_append, compressEach, low, bind_of_ok ran]
    have rest := ih (after + 1) (by omega) (data.addEntry (CPack.patternMMMM.new (toDictionaryEntry value) before))
    have entries : (data.addEntry (CPack.patternMMMM.new (toDictionaryEntry value) before)).entries ++
        replicate count (CPack.patternMMMM.new (toDictionaryEntry value) before) =
          data.entries ++ replicate (count + 1) (CPack.patternMMMM.new (toDictionaryEntry value) before) := by
      simp [CompData.addEntry, replicate_succ]
    have size : (data.addEntry (CPack.patternMMMM.new (toDictionaryEntry value) before)).sizeBits + 6 * count =
        data.sizeBits + 6 * (count + 1) := by
      change data.sizeBits + 6 + 6 * count = _
      omega
    rw [entries, size, show after + 1 + 1 + count = after + 1 + (count + 1) by omega] at rest
    exact rest

theorem compressEach_new (word : BitVec 64) (low : word.setWidth CPack.width = value) (before : Nat)
    (rest : List (BitVec 64)) (left : before < params.dictionarySize) (data : CompData) :
    CPack.compressEach params (word :: rest) (filled params (replicate before entry)) data =
      CPack.compressEach params rest (filled params (replicate before entry ++ replicate 1 (toDictionaryEntry value)))
        (data.addEntry (CPack.patternXXXX.new (toDictionaryEntry value) (-1))) := by
  have pattern := strange.chosen_new params before
  have added := add_filled (replicate before entry) (by simpa using left) (toDictionaryEntry value)
  have allocated : (if (CPack.patternXXXX.new (toDictionaryEntry value) (-1)).allocate then
      CPack.addToDictionary params (filled params (replicate before entry)) (toDictionaryEntry value)
      else .ok (filled params (replicate before entry))) =
        .ok (filled params (replicate before entry ++ [toDictionaryEntry value])) := added
  rw [← pattern] at allocated ⊢
  have ran : CPack.compressValue params (filled params (replicate before entry)) value = .ok (_, _) := bind_of_ok allocated _
  rw [compressEach, low, bind_of_ok ran]
  rfl

end

end Strange

theorem getPattern_last {factory : List PatternClass} {last : PatternClass} {bytes : DictionaryEntry} {location : Int}
    (none : factory.all (fun family => !family.isPattern bytes entry location) = true) :
    getPattern factory last bytes entry location = last.new bytes location := by
  induction factory with
  | nil => rfl
  | cons _ _ ih =>
    simp only [all_cons, Bool.and_eq_true, Bool.not_eq_true'] at none
    rw [getPattern, if_neg (by rw [none.1]; exact Bool.false_ne_true), ih none.2]

theorem isPattern_place (bytes entry : DictionaryEntry) (place : Nat) {family : PatternClass} (member : family ∈ CPack.factory) :
    family.isPattern bytes entry place = family.isPattern bytes entry 0 := by
  have start : decide (0 ≤ (place : Int)) = decide (0 ≤ (0 : Int)) := decide_eq_decide.mpr (by simp)
  simp only [CPack, mem_cons, not_mem_nil, or_false] at member
  obtain rfl | rfl | rfl | rfl | rfl := member
  · rfl
  · simp only [CPack.patternMMMM, MaskedPattern.isPattern, start]
  · rfl
  · simp only [CPack.patternMMMX, MaskedPattern.isPattern, start]
  · simp only [CPack.patternMMXX, MaskedPattern.isPattern, start]

theorem strange_of_differs (alone : CPack.factory.all (fun family =>
      !family.isPattern (toDictionaryEntry value) (toDictionaryEntry (0 : BitVec CPack.width)) (-1)) = true)
    (other : CPack.patternZZZZ.isPattern (toDictionaryEntry value) (toDictionaryEntry value) 0 = false)
    (differs : CPack.factory.all (fun family => !family.isPattern (toDictionaryEntry value) entry 0) = true) : Strange value entry where
  alone := getPattern_last alone
  other := other
  longer place := by
    rw [getPattern_last]
    · rfl
    · rw [all_eq_true] at differs ⊢
      intro family member
      rw [isPattern_place _ _ _ member, differs family member]

theorem ones_strange : Strange ones (toDictionaryEntry twos) := strange_of_differs (by decide) (by decide) (by decide)

theorem twos_strange : Strange twos (toDictionaryEntry ones) := strange_of_differs (by decide) (by decide) (by decide)

def longPatterns (more : Nat) : List Pattern :=
  CPack.patternXXXX.new (toDictionaryEntry ones) (-1) :: replicate 255 (CPack.patternMMMM.new (toDictionaryEntry ones) 0) ++
    CPack.patternXXXX.new (toDictionaryEntry twos) (-1) :: replicate more (CPack.patternMMMM.new (toDictionaryEntry twos) 256)

theorem toChunks_longLine (cut : Cut params 32 words) (long : 128 < words) :
    toChunks params (longLine words) = replicate 256 0x11111111 ++ replicate (2 * (words - 128)) 0x22222222 := by
  have count : (toChunks params (longLine words)).length = 2 * words := (Cut.toChunks_length _).trans cut.count
  apply ext_getElem
  · rw [count, length_append, length_replicate, length_replicate]
    omega
  intro index first second
  have word : (longLine words)[index / 2]? = some (if index < 256 then 0x1111111111111111 else 0x2222222222222222) := by
    simp only [longLine, getElem?_append, length_replicate, getElem?_replicate]
    grind
  have parity : index % 2 = 0 ∨ index % 2 = 1 := by omega
  simp only [toChunks, getElem_map, getElem_range, getElem_append, getElem_replicate, length_replicate,
    cut.chunk, show 64 / 32 = 2 from rfl, getD_eq_getElem?_getD, word, Option.getD_some]
  rcases parity with even | odd
  · rw [even]
    split
    · rfl
    · rfl
  · rw [odd]
    split
    · rfl
    · rfl

theorem compressEach_longLine {more : Nat} (cut : Cut params 32 words) (long : 2 * (words - 128) = more + 1)
    (large : 256 + 1 + more ≤ params.dictionarySize) : ∃ front final, front.length = 256 + (1 + more) ∧
    CPack.compressEach params (toChunks params (longLine words)) (filled params []) {} = .ok (filled params front, final) ∧
      final.entries = longPatterns more := by
  have first := ones_strange.compressEach_new params 0x11111111 rfl 0
  have firsts := ones_strange.compressEach_again params 0x11111111 rfl (replicate (more + 1) 0x22222222) 0 0 255
  have second := twos_strange.compressEach_new params 0x22222222 rfl 256
  have seconds := twos_strange.compressEach_again params 0x22222222 rfl [] 256 0 more
  simp only [replicate_zero, nil_append, append_nil, Nat.zero_add] at first firsts second seconds
  rw [toChunks_longLine cut (by omega), long, show 256 = 255 + 1 from rfl, replicate_succ, cons_append, first _ (by omega),
    firsts (by omega), replicate_succ, show 1 + 255 = 256 from rfl, second _ (by omega), seconds (by omega)]
  refine ⟨_, _, ?_, rfl, ?_⟩
  · rw [length_append, length_replicate, length_replicate]
  simp only [CompData.addEntry, longPatterns, nil_append, append_assoc, cons_append]
  rfl

theorem decompressEach_cons (value : BitVec CPack.width) {pattern : Pattern}
    (allocate : pattern.allocate = true) {front : List DictionaryEntry} (left : front.length < params.dictionarySize)
    (gives : pattern.decompress (((filled params front).dictionary[(pattern.matchLocation % 256).toNat]?).getD outside) =
      toDictionaryEntry value) {rest : List Pattern} {last : Dictionary} {values : List (BitVec CPack.width)}
    (others : CPack.decompressEach params outside rest (filled params (front ++ [toDictionaryEntry value])) = .ok (last, values)) :
    CPack.decompressEach params outside (pattern :: rest) (filled params front) = .ok (last, value :: values) := by
  have added := add_filled front left (toDictionaryEntry value)
  have ran : CPack.decompressValue params outside (filled params front) pattern =
      .ok (filled params (front ++ [toDictionaryEntry value]), value) := by
    simp only [decompressValue, gives, allocate, if_true]
    refine (bind_of_ok added _).trans ?_
    rw [fromDictionaryEntry_toDictionaryEntry (by decide)]
    rfl
  rw [decompressEach, bind_of_ok ran]
  exact bind_of_ok others _

theorem decompressEach_again {pattern : Pattern} (place : pattern.matchLocation % 256 = 0) (allocate : pattern.allocate = true)
    (gives : pattern.decompress (toDictionaryEntry value) = toDictionaryEntry value) {rest : List Pattern} {last : Dictionary}
    {values : List (BitVec CPack.width)} {count : Nat} (back : List DictionaryEntry)
    (left : back.length + 1 + count ≤ params.dictionarySize)
    (others : CPack.decompressEach params outside rest
      (filled params (toDictionaryEntry value :: back ++ replicate count (toDictionaryEntry value))) = .ok (last, values)) :
    CPack.decompressEach params outside (replicate count pattern ++ rest) (filled params (toDictionaryEntry value :: back)) =
      .ok (last, replicate count value ++ values) := by
  induction count generalizing back with
  | zero => simpa using others
  | succ _ ih =>
    rw [replicate_succ, replicate_succ, cons_append, cons_append]
    apply decompressEach_cons value allocate (by rw [length_cons]; omega)
    · rw [place]
      exact gives
    · apply ih (back ++ [toDictionaryEntry value])
      · rw [length_append, length_singleton]
        omega
      · simpa [replicate_succ] using others

theorem decompressEach_longPatterns {more : Nat} (large : 256 + 1 + more ≤ params.dictionarySize) (outside : DictionaryEntry) : ∃ last,
    CPack.decompressEach params outside (longPatterns more) (filled params []) =
      .ok (last, ones :: (replicate 255 ones ++ twos :: (replicate more ones ++ []))) := by
  rw [longPatterns, cons_append, ← append_nil (replicate more (CPack.patternMMMM.new (toDictionaryEntry twos) 256))]
  refine ⟨filled params (toDictionaryEntry ones :: (replicate 255 (toDictionaryEntry ones) ++ [toDictionaryEntry twos]) ++
    replicate more (toDictionaryEntry ones)), decompressEach_cons ones rfl (by rw [length_nil]; omega) rfl ?_⟩
  refine decompressEach_again rfl rfl (by decide) [] (by rw [length_nil]; omega) ?_
  refine decompressEach_cons twos rfl ?_ rfl ?_
  · rw [singleton_append, length_cons, length_replicate]
    omega
  refine decompressEach_again rfl rfl (by decide) (replicate 255 (toDictionaryEntry ones) ++ [toDictionaryEntry twos]) ?_ rfl
  rw [length_append, length_replicate, length_singleton]
  omega

theorem reset_filled (sized : Sized params dict) : CPack.reset params dict = .ok (filled params []) := by
  have length : dict.dictionary.length = params.dictionarySize := sized
  simp only [DictionaryCompressor.reset, length]
  rfl

theorem longLine_corrupted (cut : Cut params 32 words) (long : 128 < words) (large : params.dictionarySize = 8 * words)
    (comp : 0 < params.compChunksPerCycle) (decomp : 0 < params.decompChunksPerCycle) (outside : DictionaryEntry) :
    (coder outside ⟨.cpack, params⟩).decoded (CPack.constructed params) [] [.encode (longLine words), .decode 0] ≠
      .ok [longLine words] := by
  obtain ⟨more, several⟩ : ∃ more, 2 * (words - 128) = more + 1 + 1 := ⟨2 * (words - 128) - 2, by omega⟩
  obtain ⟨front, final, full, compressed, entries⟩ := compressEach_longLine cut several (by omega)
  have room : 256 + 1 + (more + 1) ≤ params.dictionarySize := by omega
  obtain ⟨last, decompressed⟩ := decompressEach_longPatterns room outside
  obtain ⟨outcome, finished, kept⟩ := withLatencies_ok comp decomp (filled params front) (toChunks params (longLine words)) final
  have sized : Sized params (filled params front) := by
    simp only [Sized, filled, length_append, length_replicate, full]
    omega
  have coded := compress_ok (reset_filled (constructed_sized CPack params)) compressed finished
  rw [← entries, ← kept] at decompressed
  have back : CPack.decompress params outside (filled params front)
      { outcome.data with sizeBits := thresholded params outcome.data.sizeBits } = .ok (last, _) :=
    decompress_ok (reset_filled sized) decompressed (by
      rw [cut.words_eq, show 64 / CPack.width = 2 from rfl]
      simp only [length_cons, length_append, length_replicate, length_nil]
      omega)
  have decodes : (coder outside ⟨.cpack, params⟩).decoded (CPack.constructed params) [] [.encode (longLine words), .decode 0] =
      .ok [_] :=
    (bind_of_ok coded _).trans (bind_of_ok back _)
  intro same
  rw [decodes] at same
  have line := head_eq_of_cons_eq (Except.ok.inj same)
  have word := congrArg (fun words : List (BitVec 64) => words[128]?) line
  have inside : 128 < params.blkSize / 8 := by
    rw [cut.words_eq]
    exact long
  simp only [getElem?_map, getElem?_range inside, Option.map_some] at word
  have twosRead : (ones :: (replicate 255 ones ++ twos :: (replicate (more + 1) ones ++ [])))[256 + 0]? = some twos := rfl
  have onesRead : (ones :: (replicate 255 ones ++ twos :: (replicate (more + 1) ones ++ [])))[256 + 1]? = some ones := rfl
  have wordOf : joinValues (ones :: (replicate 255 ones ++ twos :: (replicate (more + 1) ones ++ []))) 256 2 =
      0x1111111122222222 := by
    rw [joinValues, joinValues, joinValues, twosRead, onesRead]
    rfl
  have lineOf : (longLine words)[128]? = some 0x2222222222222222 := by
    rw [longLine, getElem?_append_right (Nat.le_of_eq length_replicate), length_replicate, getElem?_replicate, if_pos (by omega)]
  rw [lineOf] at word
  have differ := Option.some.inj (word.symm.trans (congrArg some wordOf))
  exact absurd differ (by decide)

end LongLines

section Queue

theorem less_iff (first second : Multi.Results) : first.less second = true ↔
    first.compressionFactor.toNat < second.compressionFactor.toNat ∨
      first.compressionFactor.toNat = second.compressionFactor.toNat ∧ second.decompLat < first.decompLat := by
  rw [Multi.Results.less]
  split
  · case isTrue same => simp [same]
  · case isFalse other =>
    have apart : first.compressionFactor.toNat ≠ second.compressionFactor.toNat := fun same => other (BitVec.eq_of_toNat_eq same)
    simp [BitVec.lt_def, apart]

def best : List Multi.Results → Option Multi.Results
  | [] => none
  | result :: rest =>
    match best rest with
    | none => some result
    | some other => if result.less other then some other else some result

theorem best_isTop : Multi.IsTop best where
  pushed results some := by
    induction results with
    | nil => exact absurd rfl some
    | cons result rest ih =>
      rw [best]
      cases found : best rest with
      | none => exact ⟨result, rfl, mem_cons_self⟩
      | some other =>
        have member : other ∈ rest := by
          cases rest with
          | nil => cases found
          | cons =>
            obtain ⟨_, chosen, member⟩ := ih (cons_ne_nil _ _)
            cases found.symm.trans chosen
            exact member
        simp only
        split
        · exact ⟨other, rfl, mem_cons_of_mem _ member⟩
        · exact ⟨result, rfl, mem_cons_self⟩
  greatest results top chosen := by
    induction results generalizing top with
    | nil => cases chosen
    | cons _ rest ih =>
      intro other member
      rw [Bool.eq_false_iff, Ne, less_iff]
      rw [best] at chosen
      cases found : best rest with
      | none =>
        rw [found] at chosen
        cases chosen
        cases rest with
        | nil =>
          rw [mem_singleton.mp member]
          omega
        | cons =>
          rw [best] at found
          split at found
          · cases found
          · split at found
            · cases found
            · cases found
      | some later =>
        have greatest := ih later found
        rw [found] at chosen
        simp only at chosen
        split at chosen
        · case isTrue less =>
          cases chosen
          rw [less_iff] at less
          rcases mem_cons.mp member with rfl | member
          · omega
          · have below := greatest other member
            rwa [Bool.eq_false_iff, Ne, less_iff] at below
        · case isFalse less =>
          cases chosen
          rw [less_iff] at less
          rcases mem_cons.mp member with rfl | member
          · omega
          · have below := greatest other member
            rw [Bool.eq_false_iff, Ne, less_iff] at below
            omega

end Queue

theorem compression_lossless {cacheLineSize words : Nat} (whole : cacheLineSize = 8 * words) (some : 0 < words)
    (outside : DictionaryEntry) :
    (∀ sub : SubCompressor, sub.Default cacheLineSize →
      ((∀ ops, (∀ line, .encode line ∈ ops → line.length = words) →
        (coder outside sub).decoded (sub.kind.compressor.constructed sub.params) [] ops = .ok (asked [] ops)) ↔
          InReach cacheLineSize sub)) ∧
    ∀ top, Multi.IsTop top → ∀ multi, MultiDefault multi cacheLineSize →
      (∀ sub ∈ multi.compressors, InReach cacheLineSize sub) → ∀ ops, (∀ line, .encode line ∈ ops → line.length = words) →
        (multiCoder top outside multi).decoded (multi.compressors.map fun sub => sub.kind.compressor.constructed sub.params) [] ops =
          .ok (asked [] ops) := by
  refine ⟨fun sub default => ⟨fun holds => ?_, fun reach ops lines => ?_⟩, ?_⟩
  · intro cpack
    by_contra long
    have cut := Default.cut default whole
    obtain ⟨kind, params⟩ := sub
    cases cpack
    apply longLine_corrupted cut (by omega) (by rw [default.dictionarySize, whole]; rfl) default.compChunksPerCycle
      default.decompChunksPerCycle outside
    apply holds
    intro line member
    simp only [mem_cons, CodecOp.encode.injEq, reduceCtorEq, not_mem_nil, or_false] at member
    rw [member, longLine, length_append, length_replicate, length_replicate]
    omega
  · exact (coder_lossless default whole some reach outside).decoded_eq (constructed_sized _ _) .nil ops lines
  · intro top isTop multi default reach ops lines
    refine (multiCoder_lossless isTop default whole some reach outside).decoded_eq ?_ .nil ops lines
    rw [AllSized, forall₂_map_right_iff, forall₂_same]
    exact fun sub _ => constructed_sized _ _

def smallCompressor (kind : Kind) : SubCompressor where
  kind := kind
  params := { blkSize := 64, chunkSizeBits := kind.chunkSizeBits, dictionarySize := kind.dictionarySize 64, sizeThreshold := 32
              compChunksPerCycle := 1, compExtraLatency := 1, decompChunksPerCycle := 1, decompExtraLatency := 1 }

def smallMulti : Multi.Compressor where
  params := (smallCompressor .cpack).params
  encodingInTags := false
  compressors := [smallCompressor .cpack, smallCompressor .zero]

def smallLine : List (BitVec 64) := [0, 1, 0, 0x1122334455667788, 0, 0, 0xFFFFFFFFFFFFFFFF, 0]

theorem compression_lossless_small :
    (coder [] (smallCompressor .fpc)).decoded (FPC.constructed (smallCompressor .fpc).params) [] [.encode smallLine, .decode 0] =
      .ok [smallLine] ∧
    (multiCoder best [] smallMulti).decoded [CPack.constructed (smallCompressor .cpack).params,
      Compression.Zero.constructed (smallCompressor .zero).params] [] [.encode smallLine, .decode 0] = .ok [smallLine] := by
  have both := @compression_lossless 64 8 rfl (by decide) []
  have lines : ∀ line, .encode line ∈ [CodecOp.encode smallLine, .decode 0] → line.length = 8 := by
    intro line member
    simp only [mem_cons, CodecOp.encode.injEq, reduceCtorEq, not_mem_nil, or_false] at member
    rw [member]
    rfl
  have default (kind : Kind) : (smallCompressor kind).Default 64 := ⟨rfl, rfl, rfl, Nat.one_pos, Nat.one_pos⟩
  refine ⟨(both.1 (smallCompressor .fpc) (default .fpc)).mpr (by rintro ⟨⟩) _ lines, ?_⟩
  refine both.2 best best_isTop smallMulti ⟨rfl, by decide, by simp [smallMulti], by decide, ?_⟩ (fun _ _ _ => by decide) _ lines
  intro sub member
  simp only [smallMulti, mem_cons, not_mem_nil, or_false] at member
  obtain rfl | rfl := member
  · exact default .cpack
  · exact default .zero

def longCPack : SubCompressor where
  kind := .cpack
  params := { blkSize := 2048, chunkSizeBits := 32, dictionarySize := 2048, sizeThreshold := 1024, compChunksPerCycle := 2
              compExtraLatency := 5, decompChunksPerCycle := 2, decompExtraLatency := 1 }

/-- Past 256 entries the location that was found is cut to a byte. -/
theorem long_line_corrupted :
    (coder [] longCPack).decoded (CPack.constructed longCPack.params) [] [.encode (longLine 256), .decode 0] ≠ .ok [longLine 256] :=
  longLine_corrupted ⟨rfl, by decide, rfl⟩ (by decide) rfl (by decide) (by decide) []

end ImcGem5.Mem.Proofs.Compressor

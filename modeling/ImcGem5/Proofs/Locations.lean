import ImcGem5.Proofs.Compressor

/-! The places of the dictionary that decompressing looks at. A pattern that was not found in
the dictionary is at -1, which is handed out as the byte 255, and the first chunk of a line
is never found but where there is an entry of zeros from the start. -/

namespace ImcGem5.Mem.Proofs.Locations
open Lib Compression Proofs.Compressor List

variable {compressor : DictionaryCompressor} {params : Params} {dict last : Dictionary} {data final : CompData} {values : List (BitVec 64)}

def position (pattern : Pattern) : Nat := (pattern.matchLocation % 256).toNat

def positions (compressor : DictionaryCompressor) (params : Params) (outside : DictionaryEntry) : List Pattern → Dictionary → List Nat
  | [], _ => []
  | pattern :: rest, dict =>
    position pattern ::
      match compressor.decompressValue params outside dict pattern with
      | .ok (dict, _) => positions compressor params outside rest dict
      | .error _ => []

def formed (compressor : DictionaryCompressor) (params : Params) (outside : DictionaryEntry) (dict : Dictionary) (data : CompData) :
    List Nat :=
  match compressor.reset params dict with
  | .ok start => positions compressor params outside data.entries start
  | .error _ => []

theorem position_lt (pattern : Pattern) : position pattern < 256 := by
  unfold position
  omega

theorem position_unfound {pattern : Pattern} (unfound : pattern.matchLocation = -1) : position pattern = 255 := by
  rw [position, unfound]
  rfl

structure Plain (compressor : DictionaryCompressor) : Prop where
  each : ∀ family ∈ compressor.factory, ∀ bytes, (family.new bytes (-1)).matchLocation = -1
  last : ∀ bytes, (compressor.last.new bytes (-1)).matchLocation = -1
  alike : ∀ params data pattern, ∃ added,
    (compressor.addEntry params data pattern).entries = data.entries ++ [added] ∧ Alike added pattern
  finish : ∀ params dict chunks data outcome, compressor.finish params dict chunks data = .ok outcome →
    outcome.data.entries = data.entries

theorem getPattern_unfound {factory : List PatternClass} {last : PatternClass}
    (each : ∀ family ∈ factory, ∀ bytes, (family.new bytes (-1)).matchLocation = -1)
    (plain : ∀ bytes, (last.new bytes (-1)).matchLocation = -1) (bytes entry : DictionaryEntry) :
    (getPattern factory last bytes entry (-1)).matchLocation = -1 := by
  induction factory with
  | nil => exact plain bytes
  | cons head _ ih =>
    rw [getPattern]
    split
    · exact each head mem_cons_self bytes
    · exact ih fun family member => each family (mem_cons_of_mem _ member)

theorem Plain.chosen_empty (plain : Plain compressor) (empty : dict.numEntries = 0) (value : BitVec compressor.width) :
    (chosen compressor dict value).matchLocation = -1 := by
  rw [chosen, empty, take_zero]
  exact getPattern_unfound plain.each plain.last _ _

theorem compressEach_cons {value : BitVec 64} (ran : compressor.compressEach params (value :: values) dict data = .ok (last, final)) :
    ∃ next, (if (chosen compressor dict (value.setWidth compressor.width)).allocate
        then compressor.addToDictionary params dict (toDictionaryEntry (value.setWidth compressor.width)) else .ok dict) = .ok next ∧
      compressor.compressEach params values next
        (compressor.addEntry params data (chosen compressor dict (value.setWidth compressor.width))) = .ok (last, final) := by
  obtain ⟨⟨next, _⟩, compressed, rest⟩ := of_bind ran
  obtain ⟨_, adds, same⟩ := of_bind compressed
  cases same
  exact ⟨_, adds, rest⟩

theorem mem_positions {outside : DictionaryEntry} {patterns : List Pattern} {place : Nat}
    (member : place ∈ positions compressor params outside patterns dict) : ∃ pattern ∈ patterns, place = position pattern := by
  induction patterns generalizing dict with
  | nil => cases member
  | cons pattern _ ih =>
    rcases mem_cons.mp member with rfl | later
    · exact ⟨pattern, mem_cons_self, rfl⟩
    · split at later
      · obtain ⟨other, inside, same⟩ := ih later
        exact ⟨other, mem_cons_of_mem _ inside, same⟩
      · cases later

theorem positions_reach (outside : DictionaryEntry) {front : List Pattern} (none : ∀ pattern ∈ front, pattern.allocate = false)
    (pattern : Pattern) (back : List Pattern) :
    position pattern ∈ positions compressor params outside (front ++ pattern :: back) dict := by
  induction front with
  | nil => exact mem_cons_self
  | cons head _ ih =>
    obtain ⟨value, passed⟩ : ∃ value, compressor.decompressValue params outside dict head = .ok (dict, value) := by
      rw [DictionaryCompressor.decompressValue, none head mem_cons_self]
      exact ⟨_, rfl⟩
    rw [cons_append, positions, passed]
    exact mem_cons_of_mem _ (ih fun other member => none other (mem_cons_of_mem _ member))

theorem Plain.grows (plain : Plain compressor)
    (ran : compressor.compressEach params values dict data = .ok (last, final)) : ∃ more, final.entries = data.entries ++ more := by
  induction values generalizing dict data with
  | nil =>
    cases ran
    exact ⟨[], (append_nil _).symm⟩
  | cons value _ ih =>
    obtain ⟨_, _, rest⟩ := compressEach_cons ran
    obtain ⟨added, entries, _⟩ := plain.alike params data (chosen compressor dict (value.setWidth compressor.width))
    obtain ⟨more, all⟩ := ih rest
    exact ⟨added :: more, by rw [all, entries, append_assoc, singleton_append]⟩

theorem Plain.added (plain : Plain compressor) {value : BitVec 64}
    (ran : compressor.compressEach params (value :: values) dict data = .ok (last, final)) :
    ∃ added more, final.entries = data.entries ++ added :: more ∧
      Alike added (chosen compressor dict (value.setWidth compressor.width)) := by
  obtain ⟨_, _, rest⟩ := compressEach_cons ran
  obtain ⟨added, entries, alike⟩ := plain.alike params data (chosen compressor dict (value.setWidth compressor.width))
  obtain ⟨more, all⟩ := plain.grows rest
  exact ⟨added, more, by rw [all, entries, append_assoc, singleton_append], alike⟩

theorem withLatencies_keeps (params : Params) (dict : Dictionary) (chunks : List (BitVec 64)) (data : CompData) (outcome : Outcome)
    (finished : withLatencies params dict chunks data = .ok outcome) : outcome.data.entries = data.entries := by
  unfold withLatencies at finished
  split at finished
  · cases finished
  · cases finished
    rfl

section Delta
variable {width deltaSizeBits : Nat}

structure ZeroBase (width : Nat) (dict : Dictionary) : Prop where
  numEntries : dict.numEntries = 1
  entry : dict.dictionary.take 1 = [toDictionaryEntry (0 : BitVec width)]

def nearZero (width deltaSizeBits : Nat) (value : BitVec 64) : Bool :=
  DeltaPattern.isValidDelta width deltaSizeBits (toDictionaryEntry (value.setWidth width)) (toDictionaryEntry (0 : BitVec width))

theorem chosen_delta (some : 0 < width) (zero : ZeroBase width dict) (value : BitVec 64) :
    chosen (BaseDelta width deltaSizeBits) dict (value.setWidth (BaseDelta width deltaSizeBits).width) =
      if nearZero width deltaSizeBits value then DeltaPattern.new deltaSizeBits 1 1 0 (toDictionaryEntry (value.setWidth width))
      else UncompressedPattern.new width 0 (1 + deltaSizeBits) (-1) (toDictionaryEntry (value.setWidth width)) := by
  have unfound : getPattern (BaseDelta width deltaSizeBits).factory (BaseDelta width deltaSizeBits).last
      (toDictionaryEntry (value.setWidth width)) (toDictionaryEntry (0 : BitVec width)) (-1) =
        UncompressedPattern.new width 0 (1 + deltaSizeBits) (-1) (toDictionaryEntry (value.setWidth width)) := by
    simp [BaseDelta, getPattern, DeltaPattern.isPattern]
  have found : getPattern (BaseDelta width deltaSizeBits).factory (BaseDelta width deltaSizeBits).last
      (toDictionaryEntry (value.setWidth width)) (toDictionaryEntry (0 : BitVec width)) ((0 : Nat) : Int) =
        if nearZero width deltaSizeBits value then DeltaPattern.new deltaSizeBits 1 1 0 (toDictionaryEntry (value.setWidth width))
        else UncompressedPattern.new width 0 (1 + deltaSizeBits) 0 (toDictionaryEntry (value.setWidth width)) := by
    simp only [BaseDelta, getPattern, DeltaPattern.isPattern, Int.natCast_nonneg, decide_true, Bool.true_and, nearZero]
    rfl
  have searched : chosen (BaseDelta width deltaSizeBits) dict (value.setWidth (BaseDelta width deltaSizeBits).width) =
      (BaseDelta width deltaSizeBits).search (toDictionaryEntry (value.setWidth width)) (dict.dictionary.take dict.numEntries) 0
        (getPattern (BaseDelta width deltaSizeBits).factory (BaseDelta width deltaSizeBits).last
          (toDictionaryEntry (value.setWidth width)) (toDictionaryEntry (0 : BitVec width)) (-1)) := rfl
  rw [searched, zero.numEntries, zero.entry, DictionaryCompressor.search, DictionaryCompressor.search, unfound, found]
  split
  · exact if_pos (show deltaSizeBits + 1 < width + (1 + deltaSizeBits) by omega)
  · exact if_neg (Nat.lt_irrefl _)

theorem delta_plain (width deltaSizeBits : Nat) : Plain (BaseDelta width deltaSizeBits) where
  each := forall_mem_singleton.mpr fun _ => rfl
  last _ := rfl
  alike _ := alike_self
  finish params dict chunks data outcome finished := by
    obtain ⟨_, latencies, rest⟩ := of_bind finished
    rw [← withLatencies_keeps _ _ _ _ _ latencies]
    split at rest
    · cases rest
      rfl
    · cases rest
      rfl

theorem compressEach_delta (some : 0 < width) (zero : ZeroBase width dict) {values : List (BitVec 64)}
    (ran : (BaseDelta width deltaSizeBits).compressEach params values dict data = .ok (last, final)) :
    (∀ value ∈ values, nearZero width deltaSizeBits value = true) ∧
        (∃ more, final.entries = data.entries ++ more ∧ ∀ pattern ∈ more, pattern.matchLocation = 0) ∨
      (∃ value ∈ values, nearZero width deltaSizeBits value = false) ∧
        ∃ front pattern back, final.entries = data.entries ++ (front ++ pattern :: back) ∧
          (∀ passed ∈ front, passed.allocate = false) ∧ pattern.matchLocation = -1 := by
  have plain := delta_plain width deltaSizeBits
  induction values generalizing data with
  | nil =>
    cases ran
    exact .inl ⟨nofun, [], (append_nil _).symm, nofun⟩
  | cons value _ ih =>
    cases near : nearZero width deltaSizeBits value with
    | true =>
      obtain ⟨next, adds, rest⟩ := compressEach_cons ran
      rw [chosen_delta some zero, near, if_pos rfl] at adds rest
      have same : dict = next := by
        cases adds
        rfl
      rw [← same] at rest
      obtain ⟨added, entries, alike⟩ := plain.alike params data
        (DeltaPattern.new deltaSizeBits 1 1 0 (toDictionaryEntry (value.setWidth width)))
      obtain ⟨all, more, grown, places⟩ | ⟨⟨other, member, far⟩, front, pattern, back, grown, passed, unfound⟩ := ih rest
      · refine .inl ⟨forall_mem_cons.mpr ⟨near, all⟩, added :: more, ?_, forall_mem_cons.mpr ⟨alike.matchLocation, places⟩⟩
        rw [grown, entries, append_assoc, singleton_append]
      · refine .inr ⟨⟨other, mem_cons_of_mem _ member, far⟩, added :: front, pattern, back, ?_,
          forall_mem_cons.mpr ⟨alike.allocate, passed⟩, unfound⟩
        rw [grown, entries, append_assoc, singleton_append, cons_append]
    | false =>
      obtain ⟨added, more, entries, alike⟩ := plain.added ran
      rw [chosen_delta some zero, near] at alike
      exact .inr ⟨⟨value, mem_cons_self, near⟩, [], added, more, entries, nofun, alike.matchLocation⟩

theorem reset_delta {dict start : Dictionary} (sized : Sized params dict)
    (ran : (BaseDelta width deltaSizeBits).reset params dict = .ok start) :
    ZeroBase width start ∧ 0 < params.dictionarySize := by
  obtain ⟨_, ensured, pushed⟩ := of_bind ran
  have room : 0 < params.dictionarySize := by
    by_contra none
    rw [Fault.ensure, if_neg (by simpa using none)] at ensured
    cases ensured
  obtain ⟨_, wrote, same⟩ := of_bind pushed
  cases same
  unfold Dictionary.write at wrote
  split at wrote
  · cases wrote
    refine ⟨⟨rfl, ?_⟩, room⟩
    obtain ⟨_, size⟩ := Nat.exists_eq_add_one_of_ne_zero (Nat.ne_of_gt room)
    rw [sized, size, replicate_succ]
    rfl
  · cases wrote

end Delta

theorem cpack_plain : Plain CPack where
  each := by
    intro family member bytes
    simp only [CPack, mem_cons, not_mem_nil, or_false] at member
    obtain rfl | rfl | rfl | rfl | rfl := member <;> rfl
  last _ := rfl
  alike _ := alike_self
  finish := withLatencies_keeps

theorem fpc_plain : Plain FPC where
  each := by
    intro family member bytes
    simp only [FPC, mem_cons, not_mem_nil, or_false] at member
    obtain rfl | rfl | rfl | rfl | rfl | rfl | rfl := member <;> rfl
  last _ := rfl
  alike _ := alike_fpc
  finish := withLatencies_keeps

theorem fpcd_plain : Plain FPCD where
  each := by
    intro family member bytes
    simp only [FPCD, mem_cons, not_mem_nil, or_false] at member
    obtain rfl | rfl | rfl | rfl | rfl | rfl | rfl | rfl | rfl | rfl | rfl | rfl | rfl | rfl | rfl := member <;> rfl
  last _ := rfl
  alike _ := alike_self
  finish := withLatencies_keeps

theorem zero_plain : Plain Compression.Zero where
  each := forall_mem_singleton.mpr fun _ => rfl
  last _ := rfl
  alike _ := alike_self
  finish _ _ _ _ _ finished := by
    cases finished
    rw [inOneCycle]
    split
    · rfl
    · rfl

theorem repeatedQwords_plain : Plain RepeatedQwords where
  each := forall_mem_singleton.mpr fun _ => rfl
  last _ := rfl
  alike _ := alike_self
  finish _ _ _ _ _ finished := by
    obtain ⟨_, _, same⟩ := of_bind finished
    cases same
    rw [inOneCycle]
    split
    · rfl
    · rfl

theorem kind_plain : ∀ kind : Kind, Plain kind.compressor
  | .cpack => cpack_plain
  | .fpc => fpc_plain
  | .fpcd => fpcd_plain
  | .zero => zero_plain
  | .repeatedQwords => repeatedQwords_plain
  | .base64Delta8 => delta_plain 64 8
  | .base64Delta16 => delta_plain 64 16
  | .base64Delta32 => delta_plain 64 32
  | .base32Delta8 => delta_plain 32 8
  | .base32Delta16 => delta_plain 32 16
  | .base16Delta8 => delta_plain 16 8

def baseDelta : Kind → Option (Nat × Nat)
  | .base64Delta8 => some (64, 8)
  | .base64Delta16 => some (64, 16)
  | .base64Delta32 => some (64, 32)
  | .base32Delta8 => some (32, 8)
  | .base32Delta16 => some (32, 16)
  | .base16Delta8 => some (16, 8)
  | _ => none

theorem baseDelta_some {kind : Kind} {width deltaSizeBits : Nat} (is : baseDelta kind = some (width, deltaSizeBits)) :
    kind.compressor = BaseDelta width deltaSizeBits ∧ 0 < width := by
  cases kind <;> cases is <;> exact ⟨rfl, by decide⟩

theorem baseDelta_none {kind : Kind} (is : baseDelta kind = none) {start : Dictionary}
    (ran : kind.compressor.reset params dict = .ok start) : start.numEntries = 0 := by
  cases kind <;> cases is <;> cases ran <;> rfl

theorem compress_parts (plain : Plain compressor) {line : List (BitVec 64)} {next : Dictionary} {outcome : Outcome}
    (ran : compressor.compress params dict line = .ok (next, outcome)) :
    ∃ start final, compressor.reset params dict = .ok start ∧
      compressor.compressEach params (toChunks params line) start {} = .ok (next, final) ∧ outcome.data.entries = final.entries := by
  obtain ⟨⟨_, inner⟩, chunks, same⟩ := of_bind ran
  cases same
  obtain ⟨start, resets, rest⟩ := of_bind chunks
  obtain ⟨⟨_, final⟩, each, rest⟩ := of_bind rest
  obtain ⟨_, finished, same⟩ := of_bind rest
  cases same
  exact ⟨start, final, resets, each, plain.finish _ _ _ _ inner finished⟩

def AllNearZero (sub : SubCompressor) (line : List (BitVec 64)) : Prop :=
  ∃ width deltaSizeBits, baseDelta sub.kind = some (width, deltaSizeBits) ∧
    ∀ value ∈ toChunks sub.params line, nearZero width deltaSizeBits value = true

/-- The first chunk of a line is not found anywhere, and so the byte 255 is looked at, unless the
base of zeros is there for all the chunks. -/
theorem positions_in_range (outside : DictionaryEntry) (sub : SubCompressor) {dict other next : Dictionary} {line : List (BitVec 64)}
    {outcome : Outcome} (sized : Sized sub.params dict) (otherSized : Sized sub.params other)
    (ran : sub.kind.compressor.compress sub.params dict line = .ok (next, outcome)) :
    (∀ place ∈ formed sub.kind.compressor sub.params outside other outcome.data, place < sub.params.dictionarySize) ↔
      256 ≤ sub.params.dictionarySize ∨ toChunks sub.params line = [] ∨ AllNearZero sub line := by
  have plain := kind_plain sub.kind
  obtain ⟨start, final, resets, each, entries⟩ := compress_parts plain ran
  have again : sub.kind.compressor.reset sub.params other = .ok start := by
    rw [← resets]
    simp only [DictionaryCompressor.reset, show other.dictionary.length = sub.params.dictionarySize from otherSized,
      show dict.dictionary.length = sub.params.dictionarySize from sized]
  simp only [formed, again, entries]
  -- One pattern at the byte 255 is enough for both directions.
  have outOfRange {front back : List Pattern} {pattern : Pattern} (split : final.entries = front ++ pattern :: back)
      (passed : ∀ passed ∈ front, passed.allocate = false) (unfound : pattern.matchLocation = -1) :
      255 ∈ positions sub.kind.compressor sub.params outside final.entries start := by
    rw [split, ← position_unfound unfound]
    exact positions_reach outside passed pattern back
  by_cases large : 256 ≤ sub.params.dictionarySize
  · refine iff_of_true (fun place member => ?_) (.inl large)
    obtain ⟨pattern, _, rfl⟩ := mem_positions member
    exact Nat.lt_of_lt_of_le (position_lt pattern) large
  cases chunks : toChunks sub.params line with
  | nil =>
    rw [chunks] at each
    cases each
    exact iff_of_true (by simp [positions]) (.inr (.inl rfl))
  | cons =>
    rw [chunks] at each
    cases is : baseDelta sub.kind with
    | none =>
      obtain ⟨added, more, split, alike⟩ := plain.added each
      have unfound := alike.matchLocation.trans (plain.chosen_empty (baseDelta_none is resets) _)
      refine iff_of_false (fun within => ?_) ?_
      · have := within 255 (outOfRange split (by simp) unfound)
        omega
      · rintro (large' | empty | ⟨width, deltaSizeBits, isSome, _⟩)
        · exact large large'
        · cases empty
        · rw [is] at isSome
          cases isSome
    | some widths =>
      obtain ⟨width, deltaSizeBits⟩ := widths
      obtain ⟨same, some⟩ := baseDelta_some is
      rw [same] at each resets
      obtain ⟨zero, room⟩ := reset_delta sized resets
      obtain ⟨all, more, grown, places⟩ | ⟨⟨far, member, notNear⟩, front, pattern, back, split, passed, unfound⟩ :=
        compressEach_delta some zero each
      · refine iff_of_true (fun place member => ?_) (.inr (.inr ⟨width, deltaSizeBits, is, chunks ▸ all⟩))
        obtain ⟨pattern, inside, rfl⟩ := mem_positions member
        rw [grown] at inside
        rw [position, places pattern inside]
        exact room
      · refine iff_of_false (fun within => ?_) ?_
        · have := within 255 (outOfRange split passed unfound)
          omega
        · rintro (large' | empty | ⟨width, deltaSizeBits, isSome, near⟩)
          · exact large large'
          · cases empty
          · rw [is] at isSome
            cases isSome
            rw [near far (chunks ▸ member)] at notNear
            cases notNear

def nearLine : List (BitVec 64) := [0, 1, 2, 3, 4, 5, 6, 127]

theorem positions_in_range_near : ∃ next outcome,
    Kind.base64Delta8.compressor.compress (smallCompressor .base64Delta8).params
      (Kind.base64Delta8.compressor.constructed (smallCompressor .base64Delta8).params) nearLine = .ok (next, outcome) ∧
    ∀ place ∈ formed Kind.base64Delta8.compressor (smallCompressor .base64Delta8).params []
      (Kind.base64Delta8.compressor.constructed (smallCompressor .base64Delta8).params) outcome.data, place < 64 := by
  have sized := constructed_sized Kind.base64Delta8.compressor (smallCompressor .base64Delta8).params
  have all : (toChunks (smallCompressor .base64Delta8).params nearLine).all (nearZero 64 8) = true := by decide
  have near : AllNearZero (smallCompressor .base64Delta8) nearLine := ⟨64, 8, rfl, all_eq_true.mp all⟩
  have compressed : (Kind.base64Delta8.compressor.compress (smallCompressor .base64Delta8).params
      (Kind.base64Delta8.compressor.constructed (smallCompressor .base64Delta8).params) nearLine).isOk = true := by decide
  cases ran : Kind.base64Delta8.compressor.compress (smallCompressor .base64Delta8).params
      (Kind.base64Delta8.compressor.constructed (smallCompressor .base64Delta8).params) nearLine with
  | error fault =>
    rw [ran] at compressed
    cases compressed
  | ok result =>
    exact ⟨result.1, result.2, rfl, (positions_in_range [] (smallCompressor .base64Delta8) sized sized ran).mpr (.inr (.inr near))⟩

/-- The first chunk of any line, here one that is zero. -/
theorem position_past_dictionary : ∃ next outcome,
    CPack.compress (smallCompressor .cpack).params (CPack.constructed (smallCompressor .cpack).params) smallLine = .ok (next, outcome) ∧
    255 ∈ formed CPack (smallCompressor .cpack).params [] next outcome.data ∧ (smallCompressor .cpack).params.dictionarySize = 64 := by
  refine ⟨_, _, rfl, ?_, rfl⟩
  decide

end ImcGem5.Mem.Proofs.Locations

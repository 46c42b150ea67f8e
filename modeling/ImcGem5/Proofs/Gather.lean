import ImcGem5.Lib.Overlay
import ImcGem5.Mem.Packet

/-! A functional read is gathered from buffers that each have some of its bytes. The marks of
the packet are the union of the buffers it has met, and a byte is the one of the last buffer
that has it. -/

namespace ImcGem5.Mem.Proofs.Gather
open Lib Overlay List BitVec
open BitVec (ofNat ult)

variable {size : Nat} {bytes : List Byte} {pkt : Packet}

theorem intSize_of_small (small : size < 2 ^ 31) : intSize size = ofNat 64 size := by
  apply eq_of_toNat_eq
  unfold intSize
  rw [signExtend_eq_setWidth_of_msb_false]
  · simp only [toNat_setWidth, toNat_ofNat]
    omega
  · rw [msb_eq_false_iff_two_mul_lt, toNat_ofNat]
    omega

theorem last_toNat {start : Addr} (positive : 0 < size) (unwrapped : start.toNat + size ≤ 2 ^ 64) :
    (start + ofNat 64 size - 1).toNat = start.toNat + size - 1 := by
  have one : (1 : Addr).toNat = 1 := rfl
  rw [toNat_sub, toNat_add, toNat_ofNat, one]
  omega

theorem splice_length_le (buffer : List Byte) (offset : Nat) (bytes : List Byte) :
    buffer.length ≤ (splice buffer offset bytes).length := by
  simp only [splice, length_append, length_take, length_drop]
  omega

theorem splice_length {buffer : List Byte} {offset : Nat} (fits : offset + bytes.length ≤ buffer.length) :
    (splice buffer offset bytes).length = buffer.length := by
  simp only [splice, length_append, length_take, length_drop]
  omega

theorem splice_getD {buffer : List Byte} {offset : Nat} (fits : offset + bytes.length ≤ buffer.length)
    (position : Nat) : (splice buffer offset bytes).getD position 0 =
      if offset ≤ position ∧ position < offset + bytes.length then bytes.getD (position - offset) 0
      else buffer.getD position 0 := by
  have front : (buffer.take offset).length = offset := by
    rw [length_take]
    omega
  unfold splice
  by_cases before : position < offset
  · rw [if_neg (by omega), List.append_assoc, getD_append _ _ _ _ (by omega)]
    simp only [getD_eq_getElem?_getD, getElem?_take, if_pos before]
  by_cases inside : position < offset + bytes.length
  · rw [if_pos (by omega), List.append_assoc, getD_append_right _ _ _ _ (by omega), front, getD_append _ _ _ _ (by omega)]
  · rw [if_neg (by omega), getD_append_right _ _ _ _ (by rw [length_append]; omega)]
    simp only [getD_eq_getElem?_getD, getElem?_drop, length_append, front]
    congr 2
    omega

theorem segment_getD {start length position : Nat} (inside : position < length) :
    ((bytes.drop start).take length).getD position 0 = bytes.getD (start + position) 0 := by
  simp only [getD_eq_getElem?_getD, getElem?_take, if_pos inside, getElem?_drop]

structure Block (base : Addr) (size : Nat) : Prop where
  positive : 0 < size
  unwrapped : base.toNat + size ≤ 2 ^ 64

section
variable {pkt : Packet} {base : Addr} {isSecure : Bool} {size : Nat} (block : Block pkt.addr pkt.size)
  (other : Block base size) (small : size < 2 ^ 31)
include block other small

theorem trySatisfyData_apart {data : Option (List Byte)} (apart : isSecure ≠ pkt.isSecure ∨
      base.toNat + size ≤ pkt.addr.toNat ∨ pkt.addr.toNat + pkt.size ≤ base.toNat) :
    pkt.trySatisfyData base isSecure size data = .ok ⟨false, pkt, data⟩ := by
  have ends := last_toNat block.positive block.unwrapped
  have otherEnds := last_toNat other.positive other.unwrapped
  have := block.positive
  have := other.positive
  unfold Packet.trySatisfyData
  rw [intSize_of_small small]
  rw [if_pos]
  simp only [Bool.or_eq_true, bne_iff_ne, ult, decide_eq_true_eq, ends, otherEnds]
  obtain secure | before | behind := apart
  · exact .inl (.inl secure)
  · exact .inl (.inr (by omega))
  · exact .inr (by omega)

theorem trySatisfyData_meet (secure : isSecure = pkt.isSecure) (below : pkt.addr.toNat < base.toNat + size)
    (above : base.toNat < pkt.addr.toNat + pkt.size) (visible : pkt.cmd.isPrint = false) (bytes : List Byte) :
    pkt.trySatisfyData base isSecure size (some bytes) =
      if pkt.isRead then
        let length := min (pkt.addr.toNat + pkt.size) (base.toNat + size) - max pkt.addr.toNat base.toNat
        let offset := base.toNat - pkt.addr.toNat
        let marked := (if pkt.bytesValid.isEmpty then List.replicate pkt.size false else pkt.bytesValid).mapIdx
          fun i old => old || (decide (offset ≤ i) && decide (i < offset + length))
        .ok ⟨marked.all (· == true), { pkt with
          data := splice pkt.data offset ((bytes.drop (pkt.addr.toNat - base.toNat)).take length)
          bytesValid := marked }, some bytes⟩
      else if pkt.isWrite then
        let length := min (pkt.addr.toNat + pkt.size) (base.toNat + size) - max pkt.addr.toNat base.toNat
        .ok ⟨false, pkt, some (splice bytes (pkt.addr.toNat - base.toNat)
          ((pkt.data.drop (base.toNat - pkt.addr.toNat)).take length))⟩
      else .error (.panic "Don't know how to handle command") := by
  have ends := last_toNat block.positive block.unwrapped
  have otherEnds := last_toNat other.positive other.unwrapped
  unfold Packet.trySatisfyData
  rw [intSize_of_small small]
  generalize pkt.addr + ofNat 64 pkt.size - 1 = funcEnd at *
  generalize base + ofNat 64 size - 1 = valEnd at *
  have valOffset : (if base.ult pkt.addr then (pkt.addr - base).toNat else 0) = pkt.addr.toNat - base.toNat := by
    simp only [ult, decide_eq_true_eq, toNat_sub]
    split <;> omega
  have funcOffset : (if pkt.addr.ult base then (base - pkt.addr).toNat else 0) = base.toNat - pkt.addr.toNat := by
    simp only [ult, decide_eq_true_eq, toNat_sub]
    split <;> omega
  have overlapSize : ((if funcEnd.ult valEnd then funcEnd else valEnd) + 1 - (if base.ult pkt.addr then pkt.addr else base)).toNat =
      min (pkt.addr.toNat + pkt.size) (base.toNat + size) - max pkt.addr.toNat base.toNat := by
    have one : (1 : Addr).toNat = 1 := rfl
    simp only [ult, decide_eq_true_eq, toNat_sub, toNat_add, ends, otherEnds, one]
    split <;> split <;> omega
  dsimp only
  rw [valOffset, funcOffset, overlapSize, if_neg, if_neg (by rw [visible]; exact Bool.false_ne_true)]
  simp only [Bool.or_eq_true, bne_iff_ne, ult, decide_eq_true_eq, ends, otherEnds, secure, ne_eq,
    not_true_eq_false, false_or]
  omega

end

theorem trySatisfyData_none (addr : Addr) (isSecure : Bool) (size : Nat) (visible : pkt.cmd.isPrint = false) :
    pkt.trySatisfyData addr isSecure size none = .ok ⟨false, pkt, none⟩ := by
  unfold Packet.trySatisfyData
  dsimp only
  rw [visible]
  split
  · rfl
  · rfl

section

variable (marks : pkt.bytesValid = [] ∨ pkt.bytesValid.length = pkt.size)
include marks

theorem marked_getD (test : Nat → Bool) {position : Nat} (inside : position < pkt.size) :
    ((if pkt.bytesValid.isEmpty then List.replicate pkt.size false else pkt.bytesValid).mapIdx
      fun i old => old || test i).getD position false = (pkt.bytesValid.getD position false || test position) := by
  rcases marks with empty | full
  · simp [empty, getD_eq_getElem?_getD, inside]
  · have bound : position < pkt.bytesValid.length := by omega
    have started : pkt.bytesValid.isEmpty = false := by
      rw [isEmpty_eq_false_iff_exists_mem]
      exact ⟨_, getElem_mem bound⟩
    simp [started, getD_eq_getElem?_getD, bound]

theorem marked_length (test : Nat → Bool → Bool) :
    ((if pkt.bytesValid.isEmpty then List.replicate pkt.size false else pkt.bytesValid).mapIdx test).length =
      pkt.size := by
  rw [length_mapIdx]
  rcases marks with empty | full
  · simp [empty]
  · split
    · exact length_replicate
    · exact full

end

def inBlock (base : Addr) (size address : Nat) : Bool := decide (base.toNat ≤ address) && decide (address < base.toNat + size)

theorem inBlock_iff {base : Addr} {address : Nat} :
    inBlock base size address = true ↔ base.toNat ≤ address ∧ address < base.toNat + size := by
  simp only [inBlock, Bool.and_eq_true, decide_eq_true_eq]

structure Reader (pkt : Packet) : Prop where
  read : pkt.isRead = true
  block : Block pkt.addr pkt.size
  buffered : pkt.size ≤ pkt.data.length
  marks : pkt.bytesValid = [] ∨ pkt.bytesValid.length = pkt.size

theorem Reader.visible (reader : Reader pkt) : pkt.cmd.isPrint = false := by
  have read := reader.read
  unfold Packet.isRead at read
  cases same : pkt.cmd <;> first | rfl | (rw [same] at read; cases read)

structure Supply (pkt : Packet) (held : Nat → Bool) (value : Nat → Byte) (done : Bool) (data : List Byte) (marks : List Bool) :
    Prop where
  length : data.length = pkt.data.length
  shape : marks = [] ∨ marks.length = pkt.size
  marked : ∀ i < pkt.size, marks.getD i false = (pkt.bytesValid.getD i false || held (pkt.addr.toNat + i))
  bytes : ∀ i, data.getD i 0 =
    if i < pkt.size ∧ held (pkt.addr.toNat + i) = true then value (pkt.addr.toNat + i) else pkt.data.getD i 0
  complete : done = true ↔ (∃ i < pkt.size, held (pkt.addr.toNat + i) = true) ∧ ∀ i < pkt.size, marks.getD i false = true

section
variable {pkt : Packet} {held : Nat → Bool} {value : Nat → Byte} {done : Bool} {data : List Byte} {marks : List Bool}

theorem Supply.reader (supply : Supply pkt held value done data marks) (reader : Reader pkt) :
    Reader { pkt with data, bytesValid := marks } where
  read := reader.read
  block := reader.block
  buffered := by
    have same : data.length = pkt.data.length := supply.length
    have buffered := reader.buffered
    change pkt.size ≤ data.length
    omega
  marks := supply.shape

theorem Supply.nothing (reader : Reader pkt) (elsewhere : ∀ i < pkt.size, held (pkt.addr.toNat + i) = false) :
    Supply pkt held value false pkt.data pkt.bytesValid where
  length := rfl
  shape := reader.marks
  marked i inside := by rw [elsewhere i inside, Bool.or_false]
  bytes i := by
    rw [if_neg]
    rintro ⟨inside, holds⟩
    rw [elsewhere i inside] at holds
    cases holds
  complete := by
    refine ⟨nofun, ?_⟩
    rintro ⟨⟨i, inside, holds⟩, _⟩
    rw [elsewhere i inside] at holds
    cases holds

theorem Supply.overlap (reader : Reader pkt) {base : Addr} {size : Nat} {bytes : List Byte} (some : 0 < size) (filled : size ≤ bytes.length)
    (below : pkt.addr.toNat < base.toNat + size) (above : base.toNat < pkt.addr.toNat + pkt.size) {offset length : Nat}
    (offset_eq : offset = base.toNat - pkt.addr.toNat)
    (length_eq : length = min (pkt.addr.toNat + pkt.size) (base.toNat + size) - max pkt.addr.toNat base.toNat)
    (data_eq : data = splice pkt.data offset ((bytes.drop (pkt.addr.toNat - base.toNat)).take length))
    (marks_eq : marks = (if pkt.bytesValid.isEmpty then List.replicate pkt.size false else pkt.bytesValid).mapIdx
      fun i old => old || (decide (offset ≤ i) && decide (i < offset + length))) :
    Supply pkt (inBlock base size) (fun address => bytes.getD (address - base.toNat) 0) (marks.all (· == true)) data marks := by
  have buffered := reader.buffered
  have positive := reader.block.positive
  have marks_length : marks.length = pkt.size := by
    rw [marks_eq]
    exact marked_length reader.marks _
  have span : ∀ i, (offset ≤ i ∧ i < offset + length) ↔ i < pkt.size ∧ inBlock base size (pkt.addr.toNat + i) = true := by
    intro i
    rw [inBlock_iff]
    omega
  have copied : ((bytes.drop (pkt.addr.toNat - base.toNat)).take length).length = length := by
    rw [length_take, length_drop]
    omega
  have fits : offset + ((bytes.drop (pkt.addr.toNat - base.toNat)).take length).length ≤ pkt.data.length := by
    rw [copied]
    omega
  have marked : ∀ i < pkt.size, marks.getD i false = (pkt.bytesValid.getD i false || inBlock base size (pkt.addr.toNat + i)) := by
    intro i inside
    rw [marks_eq, marked_getD reader.marks _ inside]
    congr 1
    rw [Bool.eq_iff_iff, Bool.and_eq_true, decide_eq_true_eq, decide_eq_true_eq, span i]
    exact and_iff_right inside
  refine ⟨?_, .inr marks_length, marked, fun i => ?_, ?_⟩
  · rw [data_eq, splice_length fits]
  · rw [data_eq, splice_getD fits, copied]
    by_cases taken : offset ≤ i ∧ i < offset + length
    · rw [if_pos taken, if_pos ((span i).mp taken), segment_getD (by omega)]
      congr 1
      omega
    · rw [if_neg taken, if_neg (fun holding => taken ((span i).mpr holding))]
  · have met : ∃ i < pkt.size, inBlock base size (pkt.addr.toNat + i) = true :=
      ⟨offset, (span offset).mp (by omega)⟩
    rw [and_iff_right met, all_eq_true]
    constructor
    · intro all i inside
      rw [getD_eq_getElem _ _ (by omega)]
      exact eq_of_beq (all _ (getElem_mem _))
    · intro all mark member
      obtain ⟨i, bound, rfl⟩ := getElem_of_mem member
      have set := all i (by omega)
      rw [getD_eq_getElem _ _ bound] at set
      rw [set]
      rfl

theorem satisfy_read (reader : Reader pkt) {base : Addr} {size : Nat} (other : Block base size) (small : size < 2 ^ 31)
    (isSecure : Bool) {bytes : List Byte} (filled : size ≤ bytes.length) :
    ∃ done data marks, pkt.trySatisfyData base isSecure size (some bytes) =
        .ok ⟨done, { pkt with data, bytesValid := marks }, some bytes⟩ ∧
      Supply pkt (fun address => isSecure == pkt.isSecure && inBlock base size address)
        (fun address => bytes.getD (address - base.toNat) 0) done data marks := by
  by_cases apart : isSecure ≠ pkt.isSecure ∨ base.toNat + size ≤ pkt.addr.toNat ∨ pkt.addr.toNat + pkt.size ≤ base.toNat
  · refine ⟨false, pkt.data, pkt.bytesValid, trySatisfyData_apart reader.block other small apart, .nothing reader ?_⟩
    intro i inside
    rw [Bool.and_eq_false_iff, beq_eq_false_iff_ne, ← Bool.not_eq_true, inBlock_iff]
    obtain domain | elsewhere := apart
    · exact Or.inl domain
    · exact Or.inr (by omega)
  · have secure : isSecure = pkt.isSecure := by
      by_contra domain
      exact apart (Or.inl domain)
    have below : pkt.addr.toNat < base.toNat + size := by omega
    have above : base.toNat < pkt.addr.toNat + pkt.size := by omega
    have met := trySatisfyData_meet reader.block other small secure below above reader.visible bytes
    rw [reader.read, if_pos rfl] at met
    have same : (isSecure == pkt.isSecure) = true := beq_iff_eq.mpr secure
    simp only [same, Bool.true_and]
    exact ⟨_, _, _, met, .overlap reader other.positive filled below above rfl rfl rfl rfl⟩

end

def Covered {β : Type} (pkt : Packet) (holds : β → Nat → Bool) (seen : List β) : Prop :=
  ∀ i < pkt.size, pkt.bytesValid.getD i false = true ∨ covered holds seen (pkt.addr.toNat + i) = true

def Completes {β : Type} (pkt : Packet) (holds : β → Nat → Bool) (seen : List β) (piece : β) : Prop :=
  (∃ i < pkt.size, holds piece (pkt.addr.toNat + i) = true) ∧ Covered pkt holds (seen ++ [piece])

theorem completes_iff {β : Type} {holds : β → Nat → Bool} {seen : List β} {piece : β}
    (uncovered : ¬Covered pkt holds seen) : Completes pkt holds seen piece ↔ Covered pkt holds (seen ++ [piece]) := by
  refine and_iff_right_of_imp fun whole => ?_
  by_contra none
  apply uncovered
  intro i inside
  refine (whole i inside).imp_right fun both => ?_
  rw [covered_append, covered_singleton, Bool.or_eq_true] at both
  exact both.resolve_right fun held => none ⟨i, inside, held⟩

structure Gathered {β : Type} (pkt : Packet) (holds : β → Nat → Bool) (value : β → Nat → Byte) (seen : List β)
    (data : List Byte) (marks : List Bool) : Prop where
  length : data.length = pkt.data.length
  shape : marks = [] ∨ marks.length = pkt.size
  marked : ∀ i < pkt.size, marks.getD i false = (pkt.bytesValid.getD i false || covered holds seen (pkt.addr.toNat + i))
  inside : ∀ i < pkt.size, data.getD i 0 = shown holds value (fun _ => pkt.data.getD i 0) seen (pkt.addr.toNat + i)
  outside : ∀ i, pkt.size ≤ i → data.getD i 0 = pkt.data.getD i 0

theorem gathered_nothing {β : Type} (reader : Reader pkt) (holds : β → Nat → Bool) (value : β → Nat → Byte) :
    Gathered pkt holds value [] pkt.data pkt.bytesValid where
  length := rfl
  shape := reader.marks
  marked _ _ := (Bool.or_false _).symm
  inside _ _ := rfl
  outside _ _ := rfl

section
variable {β : Type} {pkt : Packet} {holds : β → Nat → Bool} {value : β → Nat → Byte} {seen : List β} {piece : β}
  {data newData : List Byte} {marks newMarks : List Bool} {done : Bool}

theorem Gathered.reader (gathered : Gathered pkt holds value seen data marks) (reader : Reader pkt) :
    Reader { pkt with data, bytesValid := marks } where
  read := reader.read
  block := reader.block
  buffered := Nat.le_trans reader.buffered (Nat.le_of_eq gathered.length.symm)
  marks := gathered.shape

theorem Gathered.supply (gathered : Gathered pkt holds value seen data marks)
    (supply : Supply { pkt with data, bytesValid := marks } (holds piece) (value piece) done newData newMarks) :
    Gathered pkt holds value (seen ++ [piece]) newData newMarks ∧ (done = true ↔ Completes pkt holds seen piece) := by
  have marked : ∀ i < pkt.size, newMarks.getD i false =
      (pkt.bytesValid.getD i false || covered holds (seen ++ [piece]) (pkt.addr.toNat + i)) := by
    intro i inside
    rw [covered_append, covered_singleton, ← Bool.or_assoc, ← gathered.marked i inside]
    exact supply.marked i inside
  refine ⟨⟨supply.length.trans gathered.length, supply.shape, marked, fun i inside => ?_, fun i outside => ?_⟩, ?_⟩
  · have byte := supply.bytes i
    rw [shown_snoc, byte, gathered.inside i inside]
    simp only [inside, true_and]
  · have byte := supply.bytes i
    rw [if_neg (fun both => absurd both.1 (Nat.not_lt.mpr outside))] at byte
    exact byte.trans (gathered.outside i outside)
  · rw [supply.complete]
    refine and_congr_right fun _ => forall₂_congr fun i inside => ?_
    rw [marked i inside, Bool.or_eq_true]

end

/-- A buffer that is passed to trySatisfyFunctional: a base address, a size, which is an int,
and the data. -/
structure Buffer where
  base : Addr
  size : Nat
  data : List Byte
  block : Block base size
  small : size < 2 ^ 31
  filled : size ≤ data.length

def Buffer.holds (buffer : Buffer) (address : Nat) : Bool := inBlock buffer.base buffer.size address

def Buffer.byteAt (buffer : Buffer) (address : Nat) : Byte := buffer.data.getD (address - buffer.base.toNat) 0

/-- The calls of trySatisfyFunctional for one buffer after another, in the domain of the
packet. -/
def gather (pkt : Packet) : List Buffer → Except Abort Packet
  | [] => .ok pkt
  | buffer :: rest => do
    let result ← pkt.trySatisfyData buffer.base pkt.isSecure buffer.size (some buffer.data)
    gather result.pkt rest

section
variable {pkt : Packet} {seen : List Buffer} {data : List Byte} {marks : List Bool}

theorem Gathered.call (gathered : Gathered pkt Buffer.holds Buffer.byteAt seen data marks) (reader : Reader pkt) (buffer : Buffer) :
    ∃ done newData newMarks, Packet.trySatisfyData { pkt with data, bytesValid := marks } buffer.base pkt.isSecure buffer.size
        (some buffer.data) = .ok ⟨done, { pkt with data := newData, bytesValid := newMarks }, some buffer.data⟩ ∧
      Gathered pkt Buffer.holds Buffer.byteAt (seen ++ [buffer]) newData newMarks ∧
      (done = true ↔ Completes pkt Buffer.holds seen buffer) := by
  obtain ⟨done, newData, newMarks, call, supply⟩ :=
    satisfy_read (gathered.reader reader) buffer.block buffer.small pkt.isSecure buffer.filled
  simp only [beq_self_eq_true, Bool.true_and] at supply
  exact ⟨done, newData, newMarks, call, gathered.supply supply⟩

theorem gather_run (reader : Reader pkt) (gathered : Gathered pkt Buffer.holds Buffer.byteAt seen data marks) (buffers : List Buffer) :
    ∃ newData newMarks, gather { pkt with data, bytesValid := marks } buffers =
        .ok { pkt with data := newData, bytesValid := newMarks } ∧
      Gathered pkt Buffer.holds Buffer.byteAt (seen ++ buffers) newData newMarks := by
  induction buffers generalizing seen data marks with
  | nil =>
    rw [append_nil]
    exact ⟨data, marks, rfl, gathered⟩
  | cons buffer rest ih =>
    obtain ⟨_, newData, newMarks, call, next, _⟩ := gathered.call reader buffer
    obtain ⟨lastData, lastMarks, ran, last⟩ := ih next
    refine ⟨lastData, lastMarks, ?_, ?_⟩
    · rw [gather]
      change (Packet.trySatisfyData { pkt with data, bytesValid := marks } buffer.base pkt.isSecure buffer.size
        (some buffer.data) >>= _) = _
      rw [call]
      exact ran
    · rwa [List.append_assoc, singleton_append] at last

end

/-- Gathering is exact: whatever buffers were passed, the packet has the byte of the last
buffer that covers it and its own bytes elsewhere; and as long as they did not cover it, the
next call returns true exactly when they do with its buffer. -/
theorem gather_exact (pkt : Packet) (read : pkt.isRead = true) (block : Block pkt.addr pkt.size)
    (buffered : pkt.size ≤ pkt.data.length) (fresh : pkt.bytesValid = []) (seen : List Buffer) (buffer : Buffer) :
    let isCovered := fun buffers => ∀ i < pkt.size, covered Buffer.holds buffers (pkt.addr.toNat + i) = true
    ∃ now done data marks, gather pkt seen = .ok now ∧
      now.trySatisfyData buffer.base now.isSecure buffer.size (some buffer.data) =
        .ok ⟨done, { pkt with data, bytesValid := marks }, some buffer.data⟩ ∧
      (¬isCovered seen → (done = true ↔ isCovered (seen ++ [buffer]))) ∧
      data.length = pkt.data.length ∧
      (∀ i < pkt.size, data.getD i 0 = match newest Buffer.holds (seen ++ [buffer]) (pkt.addr.toNat + i) with
        | some last => last.byteAt (pkt.addr.toNat + i)
        | none => pkt.data.getD i 0) ∧
      (∀ i, pkt.size ≤ i → data.getD i 0 = pkt.data.getD i 0) := by
  intro isCovered
  have reader : Reader pkt := ⟨read, block, buffered, .inl fresh⟩
  have same : ∀ buffers, Covered pkt Buffer.holds buffers ↔ isCovered buffers := by
    intro buffers
    simp [Covered, isCovered, fresh]
  obtain ⟨_, _, ran, gathered⟩ := gather_run reader (gathered_nothing reader _ _) seen
  rw [nil_append] at gathered
  obtain ⟨done, data, marks, call, next, complete⟩ := gathered.call reader buffer
  refine ⟨_, done, data, marks, ran, call, fun uncovered => ?_, next.length, fun i inside => ?_, next.outside⟩
  · rw [complete, completes_iff (mt (same seen).mp uncovered), same]
  · rw [next.inside i inside, shown]
    cases newest Buffer.holds (seen ++ [buffer]) (pkt.addr.toNat + i) <;> rfl

def quad : Packet := .ofRequest { id := 0, paddr := 0x100, size := 4, flags := 0 } .readReq [0, 0, 0, 0]

def lower : Buffer := ⟨0xfe, 4, [1, 2, 3, 4], ⟨by decide, by decide⟩, by decide, by decide⟩

def upper : Buffer := ⟨0x101, 8, [5, 6, 7, 8, 9, 10, 11, 12], ⟨by decide, by decide⟩, by decide, by decide⟩

theorem gather_exact_quad : ∃ now done data marks, gather quad [lower] = .ok now ∧
    now.trySatisfyData upper.base now.isSecure upper.size (some upper.data) =
      .ok ⟨done, { quad with data, bytesValid := marks }, some upper.data⟩ ∧ data.length = 4 := by
  obtain ⟨now, done, data, marks, ran, call, _, length, _⟩ :=
    gather_exact quad rfl ⟨by decide, by decide⟩ (by decide) rfl [lower] upper
  exact ⟨now, done, data, marks, ran, call, length⟩

end ImcGem5.Mem.Proofs.Gather

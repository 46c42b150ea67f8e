import ImcGem5.Lib.Smear
import ImcGem5.Mem.CompressedTags
import Mathlib.Algebra.Order.BigOperators.Group.Finset
import Mathlib.Tactic.Ring

/-! Whether the compressed blocks of a superblock fit in its data entry. -/

namespace ImcGem5.Mem.Proofs.Superblocks
open Lib Mem.Sectors List Function Finset SuperBlk
open BitVec (ofNat toNat_ofNat)

variable {n : Nat} {size : Nat} {i : Fin n} {isSecure : Bool} {tag : Addr} {next : SuperBlk n}

/-! The compression factor -/

theorem align_smeared (val : BitVec 64) : ∃ smeared, Smeared 64 (val - 1#64) smeared ∧ alignToPowerOfTwo val = smeared + 1#64 :=
  ⟨_, (smeared_one (val - 1#64)).double.double.double.double.double.double, rfl⟩

theorem alignToPowerOfTwo_toNat {value : Nat} (positive : 0 < value) (small : value ≤ 2 ^ 63) :
    (alignToPowerOfTwo (ofNat 64 value)).toNat = 2 ^ Nat.clog 2 value := by
  obtain ⟨_, all, aligned⟩ := align_smeared (ofNat 64 value)
  have before : (ofNat 64 value - 1#64).toNat + 1 = value := by
    rw [BitVec.toNat_sub, toNat_ofNat, toNat_ofNat]
    omega
  have rounded := all.toNat_clog before
  have narrow : 2 ^ Nat.clog 2 value ≤ 2 ^ 63 :=
    Nat.pow_le_pow_right Nat.two_pos ((Nat.clog_le_iff_le_pow Nat.one_lt_two).mpr small)
  rw [aligned, BitVec.toNat_add, toNat_ofNat, ← rounded]
  omega

/-- How many blocks of a size would fit, before any rounding. A block that is not
compressed takes all of the entry. -/
def quotient (blkSizeBits size : Nat) : Nat :=
  if blkSizeBits < size then 1 else if size = 0 then blkSizeBits else blkSizeBits / size

theorem quotient_pos {blkSizeBits : Nat} (positive : 0 < blkSizeBits) : 0 < quotient blkSizeBits size := by
  unfold quotient
  split
  · exact Nat.one_pos
  · split
    · exact positive
    · exact Nat.div_pos (by omega) (by omega)

theorem quotient_mul_le {blkSizeBits : Nat} (fits : size ≤ blkSizeBits) : size * quotient blkSizeBits size ≤ blkSizeBits := by
  unfold quotient
  rw [if_neg (by omega)]
  split
  next none => simp [none]
  next => exact Nat.mul_div_le blkSizeBits size

def Exact (blkSizeBits numBlocksPerSector size : Nat) : Prop :=
  (2 ^ Nat.log2 (quotient blkSizeBits size) = quotient blkSizeBits size ∨ numBlocksPerSector ≤ quotient blkSizeBits size) ∧
    min (quotient blkSizeBits size) numBlocksPerSector < 2 ^ 8

instance (blkSizeBits numBlocksPerSector size : Nat) : Decidable (Exact blkSizeBits numBlocksPerSector size) :=
  inferInstanceAs (Decidable (_ ∧ _))

/-- The size of an entry in bits is a power of two, and the width of a word is enough for it. -/
structure EntrySize (blkSize : Nat) : Prop where
  power : ∃ exponent, CHAR_BIT * blkSize = 2 ^ exponent
  small : CHAR_BIT * blkSize ≤ 2 ^ 63

theorem EntrySize.pos {blkSize : Nat} (entry : EntrySize blkSize) : 0 < CHAR_BIT * blkSize := by
  obtain ⟨exponent, power⟩ := entry.power
  rw [power]
  exact Nat.two_pow_pos exponent

theorem factor_eq {superblock : SuperBlk n} (entry : EntrySize superblock.blkSize) (size : Nat) :
    superblock.calculateCompressionFactor size =
      uint8 (min (2 ^ Nat.clog 2 (quotient (CHAR_BIT * superblock.blkSize) size)) n) := by
  unfold calculateCompressionFactor quotient
  dsimp only
  split
  · simp
  next fits =>
    split
    · obtain ⟨exponent, power⟩ := entry.power
      rw [power, Nat.clog_pow 2 exponent Nat.one_lt_two]
    next some =>
      have positive : 0 < CHAR_BIT * superblock.blkSize / size := Nat.div_pos (by omega) (by omega)
      rw [alignToPowerOfTwo_toNat positive ((Nat.div_le_self _ _).trans entry.small)]

theorem factor_of_exact {superblock : SuperBlk n} (entry : EntrySize superblock.blkSize)
    (exact : Exact (CHAR_BIT * superblock.blkSize) n size) :
    superblock.calculateCompressionFactor size = min (quotient (CHAR_BIT * superblock.blkSize) size) n := by
  rw [factor_eq entry]
  obtain ⟨power | capped, small⟩ := exact
  · rw [← power, Nat.clog_pow 2 _ Nat.one_lt_two, power]
    exact Nat.mod_eq_of_lt small
  · have above := Nat.le_pow_clog Nat.one_lt_two (quotient (CHAR_BIT * superblock.blkSize) size)
    rw [Nat.min_eq_right capped] at small ⊢
    rw [Nat.min_eq_right (capped.trans above)]
    exact Nat.mod_eq_of_lt small

theorem uint8_two_pow {exponent : Nat} (wide : 8 ≤ exponent) : uint8 (2 ^ exponent) = 0 := by
  rw [uint8, ← Nat.dvd_iff_mod_eq_zero]
  exact Nat.pow_dvd_pow 2 wide

/-- Nothing less will do: a size whose quotient is not exact has a factor of zero, or so
large a factor that the others do not fit in when each fills its share. -/
theorem overcommits_of_not_exact {superblock : SuperBlk n} (entry : EntrySize superblock.blkSize)
    (sectors : ∃ exponent, n = 2 ^ exponent) (inexact : ¬Exact (CHAR_BIT * superblock.blkSize) n size) :
    superblock.calculateCompressionFactor size = 0 ∨
      CHAR_BIT * superblock.blkSize < size + (superblock.calculateCompressionFactor size - 1) *
        (CHAR_BIT * superblock.blkSize / superblock.calculateCompressionFactor size) := by
  obtain ⟨width, bits⟩ := entry.power
  obtain ⟨sector, rfl⟩ := sectors
  have factor := factor_eq entry size
  generalize quotientIs : quotient (CHAR_BIT * superblock.blkSize) size = q at factor
  rw [Exact, quotientIs] at inexact
  have above : q ≤ 2 ^ Nat.clog 2 q := Nat.le_pow_clog Nat.one_lt_two q
  obtain ⟨exponent, rounded⟩ : ∃ exponent, min (2 ^ Nat.clog 2 q) (2 ^ sector) = 2 ^ exponent := by
    obtain least | least := min_choice (2 ^ Nat.clog 2 q) (2 ^ sector)
    · exact ⟨_, least⟩
    · exact ⟨_, least⟩
  rw [rounded] at factor
  obtain wide | narrow := Nat.lt_or_ge exponent 8 |>.symm
  · exact .inl (factor.trans (uint8_two_pow wide))
  · right
    have small : 2 ^ exponent < 2 ^ 8 := Nat.pow_lt_pow_right Nat.one_lt_two narrow
    rw [uint8, Nat.mod_eq_of_lt small] at factor
    have least : min q (2 ^ sector) ≤ 2 ^ exponent := rounded ▸ min_le_min_right _ above
    obtain ⟨uneven, capped⟩ : 2 ^ Nat.log2 q ≠ q ∧ q < 2 ^ sector := by
      rw [← not_le, ← not_or]
      exact fun either => inexact ⟨either, least.trans_lt small⟩
    have rises : q < 2 ^ exponent := by
      rw [← rounded]
      refine lt_min (lt_of_le_of_ne above fun power => uneven ?_) capped
      rw [power, Nat.log2_two_pow]
    rw [factor, bits]
    rw [bits] at quotientIs
    unfold quotient at quotientIs
    split at quotientIs
    · subst quotientIs
      exact absurd rfl uneven
    · split at quotientIs
      · subst quotientIs
        exact absurd (by rw [Nat.log2_two_pow]) uneven
      next some =>
        subst quotientIs
        have fewer : exponent ≤ width := by
          have least : 2 ^ exponent ≤ 2 ^ Nat.clog 2 (2 ^ width / size) := rounded ▸ min_le_left _ _
          have bound := (Nat.clog_le_iff_le_pow Nat.one_lt_two).mpr (Nat.div_le_self (2 ^ width) size)
          exact ((Nat.pow_le_pow_iff_right Nat.one_lt_two).mp least).trans bound
        have shares : 2 ^ width = 2 ^ exponent * 2 ^ (width - exponent) := by rw [← Nat.pow_add, Nat.add_sub_cancel' fewer]
        have large := (Nat.div_lt_iff_lt_mul (Nat.pos_of_ne_zero some)).mp rises
        rw [shares] at large ⊢
        rw [Nat.mul_div_cancel_left _ (Nat.two_pow_pos exponent)]
        have share : 2 ^ (width - exponent) < size := Nat.lt_of_mul_lt_mul_left large
        calc 2 ^ exponent * 2 ^ (width - exponent)
            = 2 ^ (width - exponent) + (2 ^ exponent - 1) * 2 ^ (width - exponent) := by
              obtain ⟨_, one⟩ := Nat.exists_eq_add_of_le' (Nat.one_le_two_pow (n := exponent))
              rw [one, Nat.add_sub_cancel, Nat.succ_mul, Nat.add_comm]
          _ < size + (2 ^ exponent - 1) * 2 ^ (width - exponent) := Nat.add_lt_add_right share _

/-! The blocks of a superblock -/

def held (superblock : SuperBlk n) : Finset (Fin n) := {i | (superblock.blks i).valid}

theorem mem_held {superblock : SuperBlk n} : i ∈ held superblock ↔ (superblock.blks i).valid = true := by
  simp [held]

theorem isCompressed_eq {superblock : SuperBlk n} {ignored : Option (Fin n)} {compressed : Bool}
    (present : i ∈ held superblock) (considered : some i ≠ ignored)
    (alike : ∀ j ∈ held superblock, some j ≠ ignored → (superblock.blks j).compressed = compressed) :
    superblock.isCompressed ignored = compressed := by
  unfold isCompressed
  split
  next j found =>
    have satisfied := find?_some found
    rw [Bool.and_eq_true, bne_iff_ne] at satisfied
    exact alike j (mem_held.mpr satisfied.1) satisfied.2
  next missing =>
    have absent := find?_eq_none.mp missing i (mem_finRange i)
    rw [Bool.and_eq_true, bne_iff_ne] at absent
    exact absurd ⟨mem_held.mp present, considered⟩ absent

structure Shared (superblock : SuperBlk n) : Prop where
  each : ∀ i ∈ held superblock, (superblock.blks i).compressed = true ∧
    (superblock.blks i).size * superblock.compressionFactor ≤ CHAR_BIT * superblock.blkSize
  few : (held superblock).card ≤ superblock.compressionFactor
  byte : superblock.compressionFactor < 2 ^ 8

structure Single (superblock : SuperBlk n) : Prop where
  each : ∀ i ∈ held superblock, (superblock.blks i).compressed = false
  few : (held superblock).card ≤ 1

/-- The blocks share the superblock, or one has it alone. -/
structure Sound (blkSize : Nat) (superblock : SuperBlk n) : Prop where
  blkSize_eq : superblock.blkSize = blkSize
  counted : superblock.validCounter = (held superblock).card
  divided : Shared superblock ∨ Single superblock

variable {superblock : SuperBlk n} {blkSize : Nat}

theorem Sound.init : Sound blkSize { blkSize : SuperBlk n } where
  blkSize_eq := rfl
  counted := by simp [held]
  divided := .inr ⟨by simp [held], by simp [held]⟩

theorem Sound.few (sound : Sound blkSize superblock) : (held superblock).card < 2 ^ 8 := by
  obtain shared | single := sound.divided
  · exact shared.few.trans_lt shared.byte
  · have := single.few
    omega

def Fits (superblock : SuperBlk n) : Prop :=
  (held superblock).Nonempty → superblock.isCompressed none = true →
    ∑ i ∈ held superblock, (superblock.blks i).size ≤ superblock.blkSize * 8 ∧
      (held superblock).card ≤ superblock.compressionFactor

theorem Shared.sum_le (shared : Shared superblock) :
    ∑ i ∈ held superblock, (superblock.blks i).size ≤ CHAR_BIT * superblock.blkSize := by
  obtain none | some := Nat.eq_zero_or_pos superblock.compressionFactor
  · have empty := shared.few
    rw [none, Nat.le_zero, card_eq_zero] at empty
    simp [empty]
  · calc ∑ i ∈ held superblock, (superblock.blks i).size
        ≤ (held superblock).card • (CHAR_BIT * superblock.blkSize / superblock.compressionFactor) :=
          Finset.sum_le_card_nsmul _ _ _ fun i present => (Nat.le_div_iff_mul_le some).mpr (shared.each i present).2
      _ ≤ superblock.compressionFactor * (CHAR_BIT * superblock.blkSize / superblock.compressionFactor) :=
          Nat.mul_le_mul_right _ shared.few
      _ ≤ CHAR_BIT * superblock.blkSize := Nat.mul_div_le _ _

theorem Sound.fits (sound : Sound blkSize superblock) : Fits superblock := by
  rintro ⟨i, present⟩ compressed
  obtain shared | single := sound.divided
  · have total := shared.sum_le
    rw [Nat.mul_comm, CHAR_BIT] at total
    exact ⟨total, shared.few⟩
  · rw [isCompressed_eq present (Option.some_ne_none i) fun j held _ => single.each j held] at compressed
    cases compressed

/-! Eviction -/

theorem invalidateBlk_eq (superblock : SuperBlk n) (i : Fin n) :
    (superblock.invalidateBlk i).blks =
      update superblock.blks i { superblock.blks i with valid := false, secure := false, tag := MaxAddr, compressed := false } ∧
    (superblock.invalidateBlk i).blkSize = superblock.blkSize ∧
    (superblock.invalidateBlk i).validCounter = uint8 (superblock.validCounter + 2 ^ 8 - 1) ∧
    (superblock.invalidateBlk i).compressionFactor =
      if uint8 (superblock.validCounter + 2 ^ 8 - 1) = 0 then 1 else superblock.compressionFactor := by
  unfold SuperBlk.invalidateBlk invalidateSubBlk writeBlk
  dsimp only
  split <;> exact ⟨rfl, rfl, rfl, rfl⟩

theorem held_invalidateBlk (superblock : SuperBlk n) (i : Fin n) : held (superblock.invalidateBlk i) = (held superblock).erase i := by
  ext j
  rw [mem_erase, mem_held, mem_held, (invalidateBlk_eq superblock i).1, update_apply]
  split
  next same => simp [same]
  next other => simp [other]

theorem invalidateBlk_other {j : Fin n} (present : j ∈ held (superblock.invalidateBlk i)) :
    j ∈ held superblock ∧ (superblock.invalidateBlk i).blks j = superblock.blks j := by
  rw [held_invalidateBlk, mem_erase] at present
  rw [(invalidateBlk_eq superblock i).1, update_of_ne present.1]
  exact ⟨present.2, rfl⟩

theorem Sound.invalidateBlk (sound : Sound blkSize superblock) (present : i ∈ held superblock) :
    Sound blkSize (superblock.invalidateBlk i) := by
  obtain ⟨_, size, counter, factor⟩ := invalidateBlk_eq superblock i
  have fewer : (held (superblock.invalidateBlk i)).card + 1 = (held superblock).card := by
    rw [held_invalidateBlk, card_erase_add_one present]
  have wrapped : uint8 (superblock.validCounter + 2 ^ 8 - 1) = (held (superblock.invalidateBlk i)).card := by
    have few := sound.few
    rw [sound.counted, uint8]
    omega
  rw [wrapped] at counter factor
  refine ⟨size.trans sound.blkSize_eq, counter, ?_⟩
  obtain shared | single := sound.divided
  · left
    split at factor
    next empty =>
      rw [card_eq_zero] at empty
      constructor
      · simp [empty]
      · simp [empty]
      · rw [factor]
        decide
    next =>
      constructor
      · intro j later
        obtain ⟨earlier, same⟩ := invalidateBlk_other later
        rw [same, factor, size]
        exact shared.each j earlier
      · have few := shared.few
        omega
      · rw [factor]
        exact shared.byte
  · right
    constructor
    · intro j later
      obtain ⟨earlier, same⟩ := invalidateBlk_other later
      rw [same]
      exact single.each j earlier
    · have few := single.few
      omega

/-! Insertion -/

theorem ensure_bind_eq_ok {condition : Bool} {text : String} {α : Type} {next : Unit → Except Fault α} {result : α} :
    (Fault.ensure condition text >>= next) = .ok result ↔ condition = true ∧ next () = .ok result := by
  cases condition <;> simp [Fault.ensure]

theorem TaggedEntry.insert_valid {entry next : TaggedEntry} {isValid : Bool}
    (ran : entry.insert isValid tag isSecure = .ok next) : next.valid = true := by
  obtain ⟨_, ran⟩ := ensure_bind_eq_ok.mp ran
  cases ran
  rfl

theorem insertTag_eq (ran : superblock.insertTag tag isSecure = .ok next) : ∃ entry, next = { superblock with toTaggedEntry := entry } := by
  unfold insertTag at ran
  split at ran
  · split at ran
    · cases ran
      exact ⟨_, rfl⟩
    · cases ran
  · split at ran
    · cases ran
      exact ⟨_, rfl⟩
    · obtain ⟨entry, _, ran⟩ := of_bind ran
      cases ran
      exact ⟨entry, rfl⟩

theorem insertBlk_eq (ran : superblock.insertBlk i tag isSecure = .ok next) :
    (∃ entry : TaggedEntry, entry.valid = true ∧ next.blks = update superblock.blks i { superblock.blks i with toTaggedEntry := entry }) ∧
      next.blkSize = superblock.blkSize ∧ next.validCounter = uint8 (superblock.validCounter + 1) ∧
      next.compressionFactor = superblock.compressionFactor := by
  obtain ⟨_, chosen, ran⟩ := of_bind ran
  obtain ⟨_, rfl⟩ := insertTag_eq chosen
  obtain ⟨entry, inserted, ran⟩ := of_bind ran
  cases ran
  exact ⟨⟨entry, TaggedEntry.insert_valid inserted, rfl⟩, rfl, rfl, rfl⟩

@[simp] theorem setCompressionFactor_eq (superblock : SuperBlk n) (factor : Nat) : superblock.setCompressionFactor factor =
    { superblock with compressionFactor := if superblock.validCounter ≤ 1 then factor else superblock.compressionFactor } := by
  unfold setCompressionFactor
  split <;> rfl

theorem isCompressed_writeBlk (superblock : SuperBlk n) (factor : Nat) (i : Fin n) (blk : CompressionBlk) :
    { superblock.writeBlk i blk with compressionFactor := factor }.isCompressed (some i) = superblock.isCompressed (some i) := by
  have same : (fun j => (update superblock.blks i blk j).valid && some j != some i) =
      fun j => (superblock.blks j).valid && some j != some i := by
    funext j
    by_cases written : j = i
    · simp [written]
    · rw [update_of_ne written]
  unfold isCompressed writeBlk
  dsimp only
  rw [same]
  split
  next j found =>
    have satisfied := find?_some found
    simp only [Bool.and_eq_true, bne_iff_ne, ne_eq, Option.some.injEq] at satisfied
    rw [update_of_ne satisfied.2]
  next => rfl

theorem setSizeBits_eq (ran : superblock.setSizeBits i size = .ok next) :
    next.blks = update superblock.blks i { superblock.blks i with
        size, compressed := if superblock.validCounter = 1 then superblock.calculateCompressionFactor size != 1
          else superblock.isCompressed (some i) } ∧
      next.blkSize = superblock.blkSize ∧ next.validCounter = superblock.validCounter ∧
      next.compressionFactor =
        if superblock.validCounter ≤ 1 then superblock.calculateCompressionFactor size else superblock.compressionFactor := by
  unfold setSizeBits at ran
  simp only [setCompressionFactor_eq, isCompressed_writeBlk] at ran
  obtain ⟨_, ran⟩ := ensure_bind_eq_ok.mp ran
  cases ran
  refine ⟨?_, rfl, rfl, rfl⟩
  simp [writeBlk, update_idem]
  rfl

structure Inserted (superblock next : SuperBlk n) (i : Fin n) (size : Nat) : Prop where
  held_eq : held next = insert i (held superblock)
  size_eq : (next.blks i).size = size
  other : ∀ j ≠ i, next.blks j = superblock.blks j
  blkSize_eq : next.blkSize = superblock.blkSize
  counter : next.validCounter = uint8 (superblock.validCounter + 1)
  factor : next.compressionFactor =
    if next.validCounter ≤ 1 then superblock.calculateCompressionFactor size else superblock.compressionFactor
  alone : next.validCounter = 1 → (next.blks i).compressed = (superblock.calculateCompressionFactor size != 1)
  joined : next.validCounter ≠ 1 → ∀ j ∈ held superblock, j ≠ i →
    (∀ k ∈ held superblock, (superblock.blks k).compressed = true) → (next.blks i).compressed = true

theorem inserted {tagged : SuperBlk n}
    (tagging : superblock.insertBlk i tag isSecure = .ok tagged) (sizing : tagged.setSizeBits i size = .ok next) :
    Inserted superblock next i size := by
  obtain ⟨⟨_, valid, blks⟩, blkSize, counter, factor⟩ := insertBlk_eq tagging
  obtain ⟨sizedBlks, sizedBlkSize, sizedCounter, sizedFactor⟩ := setSizeBits_eq sizing
  have same : tagged.calculateCompressionFactor size = superblock.calculateCompressionFactor size := by
    unfold calculateCompressionFactor
    rw [blkSize]
  rw [same] at sizedFactor sizedBlks
  have here : (next.blks i).valid = true := by
    rw [sizedBlks, blks, update_self, update_self]
    exact valid
  have other : ∀ j ≠ i, next.blks j = superblock.blks j := by
    intro j different
    rw [sizedBlks, blks, update_of_ne different, update_of_ne different]
  constructor
  · ext j
    rw [Finset.mem_insert, mem_held, mem_held]
    by_cases written : j = i
    · simp only [written, here, true_or]
    · simp only [written, other j written, false_or]
  · rw [sizedBlks, update_self]
  · exact other
  · rw [sizedBlkSize, blkSize]
  · rw [sizedCounter, counter]
  · rw [sizedFactor, sizedCounter, factor]
  · intro first
    rw [sizedBlks, update_self, if_pos (sizedCounter ▸ first)]
  · intro later j present different compressed
    have tagged_of : ∀ k ≠ i, tagged.blks k = superblock.blks k := by
      intro k distinct
      rw [blks, update_of_ne distinct]
    rw [sizedBlks, update_self, if_neg (sizedCounter ▸ later)]
    refine isCompressed_eq (mem_held.mpr ?_) (fun impossible => different (Option.some_inj.mp impossible)) ?_
    · rw [tagged_of j different]
      exact mem_held.mp present
    · intro k held distinct
      have apart : k ≠ i := fun impossible => distinct (congrArg some impossible)
      rw [mem_held, tagged_of k apart] at held
      rw [tagged_of k apart]
      exact compressed k (mem_held.mpr held)

theorem Sound.start (sound : Sound blkSize superblock) (empty : held superblock = ∅)
    (entry : EntrySize blkSize) (exact : Exact (CHAR_BIT * blkSize) n size) (done : Inserted superblock next i size) :
    Sound blkSize next := by
  have same := sound.blkSize_eq
  have first : next.validCounter = 1 := by
    rw [done.counter, sound.counted, empty]
    rfl
  have only : held next = {i} := by rw [done.held_eq, empty, insert_empty_eq]
  have one : (held next).card = 1 := by rw [only, card_singleton]
  have chosen : superblock.calculateCompressionFactor size = min (quotient (CHAR_BIT * blkSize) size) n := by
    rw [← same] at entry exact ⊢
    exact factor_of_exact entry exact
  have factor := done.factor
  have compressed := done.alone first
  rw [first, if_pos le_rfl, chosen] at factor
  rw [chosen, ← factor] at compressed
  refine ⟨done.blkSize_eq.trans same, by rw [first, one], ?_⟩
  by_cases uncompressed : next.compressionFactor = 1
  · right
    rw [uncompressed] at compressed
    exact ⟨by simp [only, compressed], one.le⟩
  · left
    have positive : 0 < next.compressionFactor := by
      rw [factor]
      exact lt_min (quotient_pos entry.pos) i.pos
    have small : size ≤ CHAR_BIT * blkSize := by
      by_contra large
      rw [quotient, if_pos (not_le.mp large)] at factor
      omega
    constructor
    · intro j present
      rw [only, Finset.mem_singleton] at present
      rw [present, compressed, done.size_eq, done.blkSize_eq, same]
      refine ⟨by simpa using uncompressed, ?_⟩
      calc size * next.compressionFactor ≤ size * quotient (CHAR_BIT * blkSize) size := by
            rw [factor]
            exact Nat.mul_le_mul_left _ (min_le_left _ _)
        _ ≤ CHAR_BIT * blkSize := quotient_mul_le small
    · rw [one]
      exact positive
    · rw [factor]
      exact exact.2

theorem Sound.join (sound : Sound blkSize superblock) (valid : superblock.isValid = true)
    (absent : i ∉ held superblock) (compressed : superblock.isCompressed none = true) (room : superblock.canCoAllocate size = true)
    (done : Inserted superblock next i size) : Sound blkSize next := by
  have counted := sound.counted
  obtain ⟨j, present⟩ : (held superblock).Nonempty := by
    rw [← card_pos, ← counted]
    exact of_decide_eq_true valid
  have apart : j ≠ i := fun impossible => absent (impossible ▸ present)
  obtain shared | single := sound.divided
  · obtain ⟨fewer, small⟩ : superblock.validCounter < superblock.compressionFactor ∧
        size ≤ superblock.blkSize * CHAR_BIT / superblock.compressionFactor := by
      simpa [canCoAllocate] using room
    have byte := shared.byte
    have more : (held next).card = superblock.validCounter + 1 := by
      rw [done.held_eq, card_insert_of_notMem absent, counted]
    have counter : next.validCounter = superblock.validCounter + 1 := by
      rw [done.counter, uint8]
      omega
    have several : 1 < next.validCounter := by
      have positive := card_pos.mpr ⟨j, present⟩
      omega
    have factor := done.factor
    rw [if_neg (by omega)] at factor
    refine ⟨done.blkSize_eq.trans sound.blkSize_eq, by rw [counter, more], .inl ⟨?_, by omega, by omega⟩⟩
    intro k held
    rw [done.held_eq, Finset.mem_insert] at held
    rw [factor, done.blkSize_eq]
    obtain rfl | earlier := held
    · rw [done.size_eq]
      refine ⟨done.joined (by omega) j present apart fun k held => (shared.each k held).1, ?_⟩
      rw [Nat.mul_comm superblock.blkSize] at small
      exact (Nat.le_div_iff_mul_le (by omega)).mp small
    · rw [done.other k fun impossible => absent (impossible ▸ earlier)]
      exact shared.each k earlier
  · rw [isCompressed_eq present (Option.some_ne_none j) fun k held _ => single.each k held] at compressed
    cases compressed

/-! The tags -/

variable {tags : CompressedTags} {superBlks : tags.SuperBlks}

theorem entrySize (tags : CompressedTags) : EntrySize tags.blkSize := by
  obtain ⟨exponent, _, _, power⟩ := tags.blkSize_isPowerOf2
  have shifted : CHAR_BIT * tags.blkSize = 2 ^ (3 + exponent) := by rw [power, Nat.pow_add, CHAR_BIT]
  refine ⟨⟨3 + exponent, shifted⟩, ?_⟩
  rw [shifted]
  exact Nat.pow_le_pow_right Nat.two_pos (by omega)

def AllSound (superBlks : tags.SuperBlks) : Prop := ∀ entry, Sound tags.blkSize (superBlks entry)

variable {blk : tags.Location}

theorem isValid_iff : tags.isValid superBlks blk = true ↔ blk.2 ∈ held (superBlks blk.1) := mem_held.symm

theorem AllSound.update (sound : AllSound superBlks) {entry : Fin tags.numSectors} {superblock : SuperBlk tags.numBlocksPerSector}
    (next : Sound tags.blkSize superblock) : AllSound (update superBlks entry superblock) := by
  intro other
  rw [update_apply]
  split
  · exact next
  · exact sound other

theorem invalidate_sound {next : tags.SuperBlks} (sound : AllSound superBlks)
    (ran : tags.invalidate superBlks blk = .ok next) : AllSound next := by
  obtain ⟨valid, ran⟩ := ensure_bind_eq_ok.mp ran
  cases ran
  exact sound.update ((sound blk.1).invalidateBlk (isValid_iff.mp valid))

theorem invalidate_gone {next : tags.SuperBlks} (ran : tags.invalidate superBlks blk = .ok next) (entry : Fin tags.numSectors) :
    held (next entry) = if entry = blk.1 then (held (superBlks entry)).erase blk.2 else held (superBlks entry) := by
  obtain ⟨_, ran⟩ := ensure_bind_eq_ok.mp ran
  cases ran
  rw [update_apply]
  split
  next same => rw [held_invalidateBlk, same]
  next => rfl

theorem evictions_gone {evictBlks : List tags.Location} {next : tags.SuperBlks} (sound : AllSound superBlks)
    (ran : evictBlks.foldlM (fun superBlks blk =>
      if tags.isValid superBlks blk then tags.invalidate superBlks blk else return superBlks) superBlks = .ok next) :
    AllSound next ∧ ∀ blk, tags.isValid next blk = true → tags.isValid superBlks blk = true ∧ blk ∉ evictBlks := by
  induction evictBlks generalizing superBlks with
  | nil =>
    cases ran
    exact ⟨sound, fun _ valid => ⟨valid, not_mem_nil⟩⟩
  | cons _ _ ih =>
    obtain ⟨_, taken, ran⟩ := of_bind ran
    dsimp only at taken
    split at taken
    next valid =>
      obtain ⟨kept, rest⟩ := ih (invalidate_sound sound taken) ran
      refine ⟨kept, fun blk stays => ?_⟩
      obtain ⟨before, absent⟩ := rest blk stays
      rw [isValid_iff, invalidate_gone taken] at before
      rw [isValid_iff, List.mem_cons, not_or]
      split at before
      next same =>
        rw [mem_erase] at before
        exact ⟨before.2, fun impossible => before.1 (congrArg Prod.snd impossible), absent⟩
      next other => exact ⟨before, fun impossible => other (congrArg Prod.fst impossible), absent⟩
    next invalid =>
      cases taken
      obtain ⟨kept, rest⟩ := ih sound ran
      refine ⟨kept, fun blk stays => ?_⟩
      obtain ⟨before, absent⟩ := rest blk stays
      refine ⟨before, ?_⟩
      rw [List.mem_cons, not_or]
      refine ⟨?_, absent⟩
      rintro rfl
      exact invalid before

/-- The allocation of a block is clear if it joins a superblock, if it is given up, or if
the quotient of the size is exact. -/
def Clear (tags : CompressedTags) (superBlks : tags.SuperBlks) : tags.Op → Prop
  | .allocateBlock addr isSecure size getVictim mshr =>
    (tags.indexingPolicy.getPossibleEntries addr).any (tags.coAllocates superBlks addr isSecure size) = true ∨
      (tags.findVictim superBlks addr isSecure size getVictim).2.any mshr = true ∨
      Exact (CHAR_BIT * tags.blkSize) tags.numBlocksPerSector size
  | .invalidate _ => True

theorem insert_eq_ok {next : tags.SuperBlks} {addr : Addr} (ran : tags.insert superBlks blk addr isSecure size = .ok next) :
    ∃ superblock, next = update superBlks blk.1 superblock ∧ Inserted (superBlks blk.1) superblock blk.2 size := by
  obtain ⟨_, ran⟩ := ensure_bind_eq_ok.mp ran
  obtain ⟨_, tagging, ran⟩ := of_bind ran
  obtain ⟨superblock, sizing, ran⟩ := of_bind ran
  cases ran
  exact ⟨superblock, rfl, inserted tagging sizing⟩

theorem findVictim_cases (superBlks : tags.SuperBlks) (addr : Addr) (isSecure : Bool) (size : Nat)
    (getVictim : List (Fin tags.numSectors) → Fin tags.numSectors) :
    (tags.coAllocates superBlks addr isSecure size (tags.findVictim superBlks addr isSecure size getVictim).1.1 = true ∧
        (tags.findVictim superBlks addr isSecure size getVictim).1.2 = tags.extractSectorOffset addr ∧
        (tags.findVictim superBlks addr isSecure size getVictim).2 = []) ∨
      ((tags.indexingPolicy.getPossibleEntries addr).any (tags.coAllocates superBlks addr isSecure size) = false ∧
        ∀ blk, blk ∈ (tags.findVictim superBlks addr isSecure size getVictim).2 ↔
          blk.1 = (tags.findVictim superBlks addr isSecure size getVictim).1.1 ∧ tags.isValid superBlks blk = true) := by
  unfold CompressedTags.findVictim
  dsimp only
  split
  next victim found => exact .inl ⟨find?_some found, rfl, rfl⟩
  next missing =>
    right
    refine ⟨?_, fun blk => ?_⟩
    · rw [any_eq_false]
      exact find?_eq_none.mp missing
    · rw [List.mem_filter, List.mem_map]
      constructor
      · rintro ⟨⟨i, _, rfl⟩, valid⟩
        exact ⟨rfl, valid⟩
      · rintro ⟨same, valid⟩
        exact ⟨⟨blk.2, mem_finRange _, Prod.ext same.symm rfl⟩, valid⟩

instance : ∀ op, Decidable (Clear tags superBlks op)
  | .allocateBlock .. => inferInstanceAs (Decidable (_ ∨ _ ∨ _))
  | .invalidate _ => .isTrue trivial

theorem perform_sound {op : tags.Op} {next : tags.SuperBlks} {evicted : List tags.Location} (sound : AllSound superBlks)
    (clear : Clear tags superBlks op) (ran : tags.perform superBlks op = .ok (next, evicted)) : AllSound next := by
  cases op with
  | invalidate =>
    obtain ⟨_, invalidated, ran⟩ := of_bind ran
    cases ran
    exact invalidate_sound sound invalidated
  | allocateBlock addr isSecure size getVictim mshr =>
    have cases := findVictim_cases superBlks addr isSecure size getVictim
    unfold Clear at clear
    unfold CompressedTags.perform at ran
    dsimp only at ran clear
    generalize tags.findVictim superBlks addr isSecure size getVictim = found at *
    obtain ⟨victim, _⟩ := found
    obtain ⟨_, evicting, ran⟩ := of_bind ran
    unfold CompressedTags.handleEvictions at evicting
    split at evicting
    next =>
      cases evicting
      cases ran
      exact sound
    next free =>
      obtain ⟨remaining, evictions, evicting⟩ := of_bind evicting
      cases evicting
      obtain ⟨_, inserting, ran⟩ := of_bind ran
      cases ran
      obtain ⟨kept, gone⟩ := evictions_gone sound evictions
      obtain ⟨_, rfl, done⟩ := insert_eq_ok inserting
      apply kept.update
      obtain ⟨joins, offset, rfl⟩ | ⟨alone, evicted⟩ := cases
      · cases evictions
        simp only [CompressedTags.coAllocates, Bool.and_eq_true, Bool.not_eq_true', ← offset] at joins
        obtain ⟨⟨⟨matched, invalid⟩, compressed⟩, room⟩ := joins
        have valid : (superBlks victim.1).isValid = true := by
          simp only [matchTag, Bool.and_eq_true] at matched
          exact matched.1.1
        have absent : victim.2 ∉ held (superBlks victim.1) := by
          rw [mem_held, invalid]
          exact Bool.false_ne_true
        exact (sound victim.1).join valid absent compressed room done
      · have empty : held (remaining victim.1) = ∅ := by
          rw [eq_empty_iff_forall_notMem]
          intro i present
          obtain ⟨before, absent⟩ := gone (victim.1, i) (isValid_iff.mpr present)
          exact absent ((evicted _).mpr ⟨rfl, before⟩)
        have exact : Exact (CHAR_BIT * tags.blkSize) tags.numBlocksPerSector size := by
          obtain joins | blocked | exact := clear
          · rw [alone] at joins
            cases joins
          · obtain ⟨blk, member, mshr⟩ := any_eq_true.mp blocked
            exact absurd (any_eq_true.mpr ⟨blk, member, by rw [((evicted blk).mp member).2, mshr]; rfl⟩) free
          · exact exact
        exact (kept victim.1).start empty (entrySize tags) exact done

theorem init_sound (tags : CompressedTags) : AllSound tags.init := fun _ => Sound.init

/-- In a run of clear operations every superblock fits in its data entry. -/
theorem superblocks_fit {ops : List tags.Op} {final : tags.SuperBlks} {evicted : List tags.Location}
    (clear : Each tags.perform (Clear tags) tags.init ops) (ran : run tags.perform tags.init ops = .ok (final, evicted))
    (entry : Fin tags.numSectors) : Fits (final entry) := by
  refine (run_keeps (Clear tags) AllSound ?_ (init_sound tags) clear ran entry).fits
  intro superBlks op next evicted sound clear ran
  exact perform_sound sound clear ran

instance (superblock : SuperBlk n) : Decidable (Fits superblock) := inferInstanceAs (Decidable (_ → _ → _))

def quad : CompressedTags where
  blkSize := 64
  numBlocksPerSector := 4
  numSectors := 1
  blkSize_isPowerOf2 := ⟨6, by decide, by decide, rfl⟩
  numBlocksPerSector_isPowerOf2 := ⟨2, rfl⟩
  indexingPolicy := { getPossibleEntries := fun _ => [⟨0, Nat.one_pos⟩], extractTag := fun addr => addr >>> 8 }

def first : Fin quad.numSectors := ⟨0, Nat.one_pos⟩

def fill (sizes : List Nat) : List quad.Op :=
  sizes.mapIdx fun i size => .allocateBlock (ofNat 64 (64 * i)) false size (fun _ => first) (fun _ => false)

theorem superblocks_fit_quarters : ∃ final evicted, run quad.perform quad.init (fill [100, 128, 64, 5]) = .ok (final, evicted) ∧
    Fits (final first) := by
  have clear : Each quad.perform (Clear quad) quad.init (fill [100, 128, 64, 5]) := by decide +kernel
  exact ⟨_, _, rfl, superblocks_fit clear rfl first⟩

/-- A block that is larger than a quarter starts a superblock of four. -/
theorem superblock_overcommits : ∃ final evicted, run quad.perform quad.init (fill [170, 128, 128, 128]) = .ok (final, evicted) ∧
    ¬Fits (final first) :=
  ⟨_, _, rfl, by decide +kernel⟩

end ImcGem5.Mem.Proofs.Superblocks

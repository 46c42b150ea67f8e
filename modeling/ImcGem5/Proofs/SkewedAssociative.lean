import ImcGem5.Lib.FeedbackRegister
import ImcGem5.Mem.SkewedAssociative
import Mathlib.Tactic.IntervalCases

/-! Skewed indexing loses nothing. The hash is a feedback register over the bits of a set
index, so each way's skewing function of these bits can be undone, given the same tag. -/

namespace ImcGem5.Mem.Proofs.Skewed
open Lib Mem.Skewed BitVec Bool

section Fields
variable {val : Addr} {index : Nat}

theorem getLsbD_mask (nbits index : Nat) : (mask nbits).getLsbD index = (decide (index < nbits) && decide (index < 64)) := by
  unfold mask
  split
  next wide =>
    rw [getLsbD_allOnes, Bool.eq_iff_iff, and_eq_true, decide_eq_true_iff, decide_eq_true_iff]
    omega
  next narrow =>
    have power : (1#64 <<< nbits) - 1 = BitVec.ofNat 64 (2 ^ nbits - 1) := by
      apply eq_of_toNat_eq
      have positive := Nat.two_pow_pos nbits
      have one : BitVec.toNat (1 : BitVec 64) = 1 := rfl
      rw [toNat_sub, toNat_shiftLeft, one, toNat_ofNat, toNat_ofNat, Nat.shiftLeft_eq, show 1 % 2 ^ 64 = 1 from rfl, Nat.one_mul]
      omega
    rw [power, getLsbD_ofNat, Nat.testBit_two_pow_sub_one, Bool.and_comm]

theorem getLsbD_bits (val : Addr) {first last : Nat} (order : last ≤ first) (index : Nat) :
    (bits val first last).getLsbD index = (decide (last + index ≤ first) && val.getLsbD (last + index)) := by
  rw [bits, getLsbD_and, getLsbD_ushiftRight, getLsbD_mask, Bool.and_comm]
  by_cases inside : last + index < 64
  · rw [decide_eq_true (show index < 64 by omega), Bool.and_true]
    congr 1
    rw [decide_eq_decide]
    omega
  · rw [getLsbD_of_ge val _ (by omega), Bool.and_false, Bool.and_false]

theorem getLsbD_mbits (val : Addr) (first last index : Nat) :
    (mbits val first last).getLsbD index = (decide (last ≤ index ∧ index ≤ first) && val.getLsbD index) := by
  rw [mbits, getLsbD_and, getLsbD_and, getLsbD_not, getLsbD_mask, getLsbD_mask, Bool.and_comm]
  by_cases inside : index < 64
  · congr 1
    rw [decide_eq_true inside, Bool.and_true, Bool.and_true, Bool.true_and, Bool.eq_iff_iff]
    simp only [and_eq_true, not_eq_true', decide_eq_true_iff, decide_eq_false_iff_not]
    omega
  · rw [getLsbD_of_ge val _ (by omega), Bool.and_false, Bool.and_false]

theorem getLsbD_insertBit (val : Addr) {bit : Nat} (bitVal : BitVec 8) (inside : bit < 64) (index : Nat) :
    (insertBit val bit bitVal).getLsbD index = if index = bit then bitVal.getLsbD 0 else val.getLsbD index := by
  have ones : (mbits (BitVec.allOnes 64) bit bit).getLsbD index = decide (index = bit) := by
    rw [getLsbD_mbits, getLsbD_allOnes, Bool.eq_iff_iff]
    simp only [and_eq_true, decide_eq_true_iff]
    omega
  rw [insertBit, getLsbD_or, getLsbD_and, getLsbD_and, getLsbD_not, getLsbD_shiftLeft, ones]
  split
  next same =>
    subst same
    simp [inside]
  next other =>
    rw [decide_eq_false other]
    by_cases wide : index < 64
    · simp [wide]
    · simp [getLsbD_of_ge val _ (Nat.le_of_not_lt wide)]

theorem getLsbD_bit (val : Addr) (bit : Nat) : ((bits val bit bit).setWidth 8).getLsbD 0 = val.getLsbD bit := by
  rw [getLsbD_setWidth, getLsbD_bits val (Nat.le_refl bit)]
  simp

theorem narrow_bits (val : Addr) {count last : Nat} (some : 0 < count) : Narrow count (bits val (last + count - 1) last) := by
  intro index outside
  rw [getLsbD_bits val (by omega), decide_eq_false (by omega), Bool.false_and]

end Fields

/-- What the constructor makes: `2 ^ n` sets, and room for two indices in an address. -/
structure Built (policy : SkewedAssociative) (n : Nat) : Prop where
  numSets : policy.numSets.toNat = 2 ^ n
  setMask : policy.setMask = policy.numSets - 1
  tagShift : policy.tagShift = policy.setShift + n
  msbShift : policy.msbShift + 1 = n
  several : 1 < n
  room : policy.setShift + 2 * n ≤ 64

section Build
variable {params : BaseIndexingPolicyParams} {policy : SkewedAssociative}

theorem ensure_ok {condition : Bool} {text : String} {α : Type} {next : Unit → Except Fault α} {result : α}
    (ran : (Fault.ensure condition text >>= next) = .ok result) : condition = true ∧ next () = .ok result := by
  cases condition with
  | true => exact ⟨rfl, ran⟩
  | false => cases ran

theorem isPowerOf2_iff {n : BitVec 32} : Skewed.isPowerOf2 n = true → ∃ k, n.toNat = 2 ^ k := by
  intro power
  rw [Skewed.isPowerOf2, and_eq_true, bne_iff_ne, beq_iff_eq] at power
  obtain ⟨some, lone⟩ := power
  refine ⟨Nat.log2 n.toNat, ?_⟩
  have positive : n.toNat ≠ 0 := fun none => some (eq_of_toNat_eq none)
  by_contra more
  have low := Nat.log2_self_le positive
  have high : n.toNat < 2 ^ (Nat.log2 n.toNat + 1) := Nat.lt_log2_self
  -- the highest bit stays when one is taken away
  have minus : (n - 1).toNat = n.toNat - 1 := by
    rw [toNat_sub]
    have one : (1#32).toNat = 1 := rfl
    show (2 ^ 32 - (1#32).toNat + n.toNat) % 2 ^ 32 = _
    rw [one]
    omega
  have bit : ∀ m : Nat, 2 ^ Nat.log2 n.toNat ≤ m → m < 2 ^ (Nat.log2 n.toNat + 1) → m.testBit (Nat.log2 n.toNat) = true := by
    intro m least most
    rw [Nat.testBit_eq_decide_div_mod_eq, decide_eq_true_iff, Nat.div_eq_of_lt_le (k := 1) (by omega) (by omega)]
  have both : (n &&& (n - 1)).getLsbD (Nat.log2 n.toNat) = true := by
    rw [getLsbD_and, BitVec.getLsbD, BitVec.getLsbD, minus, bit _ low high, bit _ (by omega) (by omega)]
    rfl
  rw [lone] at both
  simp at both

theorem new_built (accepted : SkewedAssociative.new params = .ok policy) : ∃ n, Built policy n := by
  unfold SkewedAssociative.new at accepted
  dsimp only at accepted
  obtain ⟨_, accepted⟩ := ensure_ok accepted
  obtain ⟨_, accepted⟩ := ensure_ok accepted
  obtain ⟨_, accepted⟩ := ensure_ok accepted
  generalize (params.size / (params.entrySize * params.assoc).setWidth 64).setWidth 32 = numSets at accepted
  generalize Nat.log2 params.entrySize.toNat = setShift at accepted
  split at accepted
  · cases accepted
  next power =>
    split at accepted
    · cases accepted
    split at accepted
    · cases accepted
    next room =>
      split at accepted
      · cases accepted
      next larger =>
        cases accepted
        rw [not_eq_true, not_eq_false'] at power
        obtain ⟨n, sets⟩ := isPowerOf2_iff power
        rw [le_def, sets] at larger
        rw [sets, Nat.log2_two_pow] at room
        have several : 1 < n := by
          by_contra few
          have small : 2 ^ n ≤ 2 ^ 1 := Nat.pow_le_pow_right Nat.two_pos (Nat.le_of_not_lt few)
          exact larger small
        refine ⟨n, sets, rfl, ?_, ?_, several, ?_⟩
        · rw [sets, Nat.log2_two_pow]
        · dsimp only
          rw [sets, Nat.log2_two_pow]
          omega
        · dsimp only
          omega

end Build

section Hash
variable {policy : SkewedAssociative} {n : Nat} {addr : Addr}

section

variable (built : Built policy n)
include built

theorem getLsbD_hash (addr : Addr) (index : Nat) : (policy.hash addr).getLsbD index =
    if index = n - 1 then addr.getLsbD (n - 1) ^^ addr.getLsbD 0 else addr.getLsbD (index + 1) := by
  have room := built.room
  have msb : policy.msbShift = n - 1 := by
    have width := built.msbShift
    omega
  unfold SkewedAssociative.hash
  rw [getLsbD_insertBit _ _ (by omega), getLsbD_xor, getLsbD_bit, getLsbD_bit, getLsbD_ushiftRight, msb, Nat.add_comm 1]

theorem getLsbD_dehash (addr : Addr) (index : Nat) : (policy.dehash addr).getLsbD index =
    if index = 0 then addr.getLsbD (n - 2) ^^ addr.getLsbD (n - 1)
    else decide (index < n) && addr.getLsbD (index - 1) := by
  have room := built.room
  have several := built.several
  have msb : policy.msbShift = n - 1 := by
    have width := built.msbShift
    omega
  unfold SkewedAssociative.dehash
  rw [getLsbD_insertBit _ _ (by omega), getLsbD_xor, getLsbD_bit, getLsbD_bit, msb, show n - 1 - 1 = n - 2 by omega]
  split
  · rfl
  next some =>
    rw [getLsbD_shiftLeft, getLsbD_mbits, decide_eq_false (show ¬ index < 1 by omega), Bool.not_false, Bool.and_true]
    by_cases inside : index < n
    · rw [decide_eq_true (show index < 64 by omega), decide_eq_true inside, decide_eq_true (by omega), Bool.true_and]
    · rw [decide_eq_false inside, decide_eq_false (show ¬ (0 ≤ index - 1 ∧ index - 1 ≤ n - 2) by omega)]
      simp

theorem hash_feeds : Feeds n policy.hash where
  several := built.several
  narrow := by
    intro state narrow index outside
    have several := built.several
    rw [getLsbD_hash built, if_neg (by omega), narrow _ (by omega)]
  shifts := by
    intro state index inside
    rw [getLsbD_hash built, if_neg (by omega)]
  feeds := by
    intro state
    rw [getLsbD_hash built, if_pos rfl]

theorem dehash_narrow (addr : Addr) : Narrow n (policy.dehash addr) := by
  intro index outside
  have several := built.several
  rw [getLsbD_dehash built, if_neg (by omega), decide_eq_false (by omega), Bool.false_and]

theorem dehash_hash (narrow : Narrow n addr) : policy.dehash (policy.hash addr) = addr := by
  have several := built.several
  apply (dehash_narrow built _).ext narrow
  intro index inside
  rw [getLsbD_dehash built, decide_eq_true inside, Bool.true_and]
  split
  next low =>
    rw [getLsbD_hash built, getLsbD_hash built, if_neg (by omega), if_pos rfl, show n - 2 + 1 = n - 1 by omega, low,
      ← Bool.xor_assoc, Bool.xor_self, false_xor]
  next high => rw [getLsbD_hash built, if_neg (by omega), Nat.sub_add_cancel (Nat.pos_of_ne_zero high)]

theorem hash_dehash (narrow : Narrow n addr) : policy.hash (policy.dehash addr) = addr := by
  have several := built.several
  apply ((hash_feeds built).narrow (dehash_narrow built _)).ext narrow
  intro index inside
  rw [getLsbD_hash built]
  split
  next top =>
    rw [getLsbD_dehash built, getLsbD_dehash built, if_neg (by omega), if_pos rfl, decide_eq_true (by omega), Bool.true_and,
      show n - 1 - 1 = n - 2 by omega, ← Bool.xor_assoc, Bool.xor_self, false_xor, top]
  next below =>
    rw [getLsbD_dehash built, if_neg (by omega), decide_eq_true (by omega), Bool.true_and, Nat.add_sub_cancel]

end

end Hash

section Skew
variable {policy : SkewedAssociative} {n : Nat} {addr other : Addr}

def indexOf (n : Nat) (addr : Addr) : Addr := bits addr (n - 1) 0

def salt (n : Nat) (addr : Addr) : Addr := bits addr (n + n - 1) n

theorem indexOf_narrow (built : Built policy n) (addr : Addr) : Narrow n (indexOf n addr) := by
  have narrow : Narrow n (bits addr (0 + n - 1) 0) := narrow_bits addr (Nat.lt_trans Nat.zero_lt_one built.several)
  rwa [Nat.zero_add] at narrow

theorem salt_narrow (built : Built policy n) (addr : Addr) : Narrow n (salt n addr) :=
  narrow_bits addr (Nat.lt_trans Nat.zero_lt_one built.several)

def skewing (policy : SkewedAssociative) (function : Nat) (addr1 addr2 : Addr) : Addr :=
  match function with
  | 0 => policy.hash addr1 ^^^ policy.hash addr2 ^^^ addr2
  | 1 => policy.hash addr1 ^^^ policy.hash addr2 ^^^ addr1
  | 2 => policy.hash addr1 ^^^ policy.dehash addr2 ^^^ addr2
  | 3 => policy.hash addr1 ^^^ policy.dehash addr2 ^^^ addr1
  | 4 => policy.dehash addr1 ^^^ policy.hash addr2 ^^^ addr2
  | 5 => policy.dehash addr1 ^^^ policy.hash addr2 ^^^ addr1
  | 6 => policy.dehash addr1 ^^^ policy.dehash addr2 ^^^ addr2
  | _ => policy.dehash addr1 ^^^ policy.dehash addr2 ^^^ addr1

theorem skew_eq (built : Built policy n) (addr : Addr) (way : BitVec 32) : policy.skew addr way =
    policy.hash^[way.toNat / 8] (skewing policy (way.toNat % 8) (indexOf n addr) (salt n addr)) := by
  obtain rfl := built.msbShift
  have first : bits addr policy.msbShift 0 = indexOf (policy.msbShift + 1) addr := rfl
  have second : bits addr (2 * (policy.msbShift + 1) - 1) (policy.msbShift + 1) = salt (policy.msbShift + 1) addr := by
    rw [salt]
    congr 1
    omega
  unfold SkewedAssociative.skew
  rw [first, second]
  rfl

theorem skewing_narrow (built : Built policy n) (function : Nat) {addr1 addr2 : Addr} (narrow : Narrow n addr1)
    (narrow' : Narrow n addr2) : Narrow n (skewing policy function addr1 addr2) := by
  have hashes : ∀ {addr}, Narrow n addr → Narrow n (policy.hash addr) := (hash_feeds built).narrow
  have dehashes := dehash_narrow built
  unfold skewing
  split
  · exact ((hashes narrow).xor (hashes narrow')).xor narrow'
  · exact ((hashes narrow).xor (hashes narrow')).xor narrow
  · exact ((hashes narrow).xor (dehashes _)).xor narrow'
  · exact ((hashes narrow).xor (dehashes _)).xor narrow
  · exact ((dehashes _).xor (hashes narrow')).xor narrow'
  · exact ((dehashes _).xor (hashes narrow')).xor narrow
  · exact ((dehashes _).xor (dehashes _)).xor narrow'
  · exact ((dehashes _).xor (dehashes _)).xor narrow

theorem skew_narrow (built : Built policy n) (addr : Addr) (way : BitVec 32) : Narrow n (policy.skew addr way) := by
  rw [skew_eq built]
  exact (hash_feeds built).iterate_narrow (skewing_narrow built _ (indexOf_narrow built addr) (salt_narrow built addr)) _

theorem xor_cancel (one two three : Addr) : one ^^^ two ^^^ three ^^^ two ^^^ three = one := by
  have twice : two ^^^ (three ^^^ (two ^^^ three)) = 0 := by
    rw [← BitVec.xor_assoc, BitVec.xor_self]
    rfl
  rw [BitVec.xor_assoc one, BitVec.xor_assoc, BitVec.xor_assoc, BitVec.xor_assoc, twice]
  exact BitVec.xor_zero

theorem xor_swap (one two three : Addr) : one ^^^ two ^^^ three ^^^ two = one ^^^ three := by
  rw [BitVec.xor_assoc one, BitVec.xor_comm two, BitVec.xor_assoc, BitVec.xor_assoc, BitVec.xor_self]
  simp

theorem deskew_skew (built : Built policy n) {way : BitVec 32} (index : indexOf n other = policy.skew addr way)
    (salts : salt n other = salt n addr) : policy.deskew other way = indexOf n addr := by
  have narrow := indexOf_narrow built addr
  have feeds := hash_feeds built
  have count := built.msbShift
  have first : bits other policy.msbShift 0 = policy.skew addr way := by
    rw [← index, ← count]
    rfl
  have second : bits other (2 * (policy.msbShift + 1) - 1) (policy.msbShift + 1) = salt n addr := by
    rw [← salts, ← count, salt]
    congr 1
    omega
  have kept := skewing_narrow built (way.toNat % 8) narrow (salt_narrow built addr)
  have piled : (if NUM_SKEWING_FUNCTIONS ≤ way.toNat then policy.dehash^[way.toNat / NUM_SKEWING_FUNCTIONS] (policy.skew addr way)
      else policy.skew addr way) = skewing policy (way.toNat % 8) (indexOf n addr) (salt n addr) := by
    have unpiled : policy.dehash^[way.toNat / 8] (policy.skew addr way) =
        skewing policy (way.toNat % 8) (indexOf n addr) (salt n addr) := by
      rw [skew_eq built]
      exact iterate_inverse (Narrow n) (fun _ => feeds.narrow) (fun _ => dehash_hash built) kept _
    split
    · exact unpiled
    next few =>
      have none : way.toNat / 8 = 0 := Nat.div_eq_of_lt (Nat.lt_of_not_le few)
      rw [none] at unpiled
      exact unpiled
  have recovers : policy.hash^[policy.msbShift] (policy.hash (indexOf n addr) ^^^ indexOf n addr) = indexOf n addr := by
    rw [show policy.msbShift = n - 1 by omega]
    exact feeds.recovers narrow
  have recovers' : policy.hash^[policy.msbShift + 1] (policy.dehash (indexOf n addr) ^^^ indexOf n addr) = indexOf n addr := by
    rw [count]
    exact feeds.recovers_back (dehash_narrow built _) (hash_dehash built narrow)
  unfold SkewedAssociative.deskew
  dsimp only
  rw [first, second, piled]
  have below : way.toNat % 8 < 8 := Nat.mod_lt _ (by decide)
  interval_cases way.toNat % 8
  · simp only [skewing, xor_cancel, dehash_hash built narrow]
  · simp only [skewing, xor_swap, recovers]
  · simp only [skewing, xor_cancel, dehash_hash built narrow]
  · simp only [skewing, xor_swap, recovers]
  · simp only [skewing, xor_cancel, hash_dehash built narrow]
  · simp only [skewing, xor_swap, recovers']
  · simp only [skewing, xor_cancel, hash_dehash built narrow]
  · simp only [skewing, xor_swap, recovers']

end Skew

section Regenerate
variable {params : BaseIndexingPolicyParams} {policy : SkewedAssociative} {n : Nat}

theorem setMask_narrow (built : Built policy n) (index : Nat) : (policy.setMask.setWidth 64).getLsbD index = decide (index < n) := by
  have bound := policy.numSets.isLt
  have below : n < 32 := by
    rw [built.numSets] at bound
    exact (Nat.pow_lt_pow_iff_right (by decide)).mp bound
  have minus : policy.setMask = BitVec.ofNat 32 (2 ^ n - 1) := by
    apply eq_of_toNat_eq
    have one : BitVec.toNat (1 : BitVec 32) = 1 := rfl
    have positive := Nat.two_pow_pos n
    rw [built.setMask, toNat_sub, one, built.numSets, toNat_ofNat]
    omega
  rw [getLsbD_setWidth, minus, getLsbD_ofNat, Nat.testBit_two_pow_sub_one, Bool.eq_iff_iff]
  simp only [and_eq_true, decide_eq_true_iff]
  omega

theorem masked (built : Built policy n) {index : Addr} (narrow : Narrow n index) : index &&& policy.setMask.setWidth 64 = index := by
  apply eq_of_getLsbD_eq
  intro place _
  rw [getLsbD_and, setMask_narrow built]
  by_cases inside : place < n
  · rw [decide_eq_true inside, Bool.and_true]
  · rw [narrow place (Nat.le_of_not_lt inside), Bool.false_and]

theorem extractSet_eq (built : Built policy n) (addr : Addr) (way : BitVec 32) :
    (policy.extractSet addr way).setWidth 64 = policy.skew (addr >>> policy.setShift) way := by
  have narrow := skew_narrow built (addr >>> policy.setShift) way
  have bound := policy.numSets.isLt
  have below : n < 32 := by
    rw [built.numSets] at bound
    exact (Nat.pow_lt_pow_iff_right (by decide)).mp bound
  rw [SkewedAssociative.extractSet, masked built narrow]
  apply eq_of_getLsbD_eq
  intro place inside
  rw [getLsbD_setWidth, getLsbD_setWidth, decide_eq_true inside, Bool.true_and]
  by_cases low : place < 32
  · rw [decide_eq_true low, Bool.true_and]
  · rw [narrow place (by omega), Bool.and_false]

def blockOf (policy : SkewedAssociative) (addr : Addr) : Addr := (addr >>> policy.setShift) <<< policy.setShift

theorem regenerateAddr_eq (built : Built policy n) (addr : Addr) (way : BitVec 32) :
    policy.regenerateAddr (policy.extractTag addr) ⟨policy.extractSet addr way, way⟩ = blockOf policy addr := by
  have room := built.room
  have several := built.several
  have narrow := skew_narrow built (addr >>> policy.setShift) way
  -- the address that deskew gets has the skewed index below the tag
  have lower : ∀ place < n, ((policy.extractTag addr <<< (policy.msbShift + 1)) |||
      (policy.extractSet addr way).setWidth 64).getLsbD place = (policy.skew (addr >>> policy.setShift) way).getLsbD place := by
    intro place inside
    rw [getLsbD_or, getLsbD_shiftLeft, built.msbShift, decide_eq_true inside, extractSet_eq built]
    simp
  have upper : ∀ place, n ≤ place → place < 64 → ((policy.extractTag addr <<< (policy.msbShift + 1)) |||
      (policy.extractSet addr way).setWidth 64).getLsbD place = (addr >>> policy.setShift).getLsbD place := by
    intro place outside inside
    rw [getLsbD_or, getLsbD_shiftLeft, built.msbShift, decide_eq_false (Nat.not_lt.mpr outside), extractSet_eq built,
      narrow place outside, decide_eq_true inside, SkewedAssociative.extractTag, getLsbD_ushiftRight,
      getLsbD_ushiftRight, built.tagShift, show policy.setShift + n + (place - n) = policy.setShift + place by omega]
    simp
  have deskewed : policy.deskew ((policy.extractTag addr <<< (policy.msbShift + 1)) ||| (policy.extractSet addr way).setWidth 64) way =
      indexOf n (addr >>> policy.setShift) := by
    apply deskew_skew built
    · apply (indexOf_narrow built _).ext narrow
      intro place inside
      rw [indexOf, getLsbD_bits _ (Nat.zero_le _), Nat.zero_add, decide_eq_true (by omega), Bool.true_and, lower place inside]
    · apply (salt_narrow built _).ext (salt_narrow built _)
      intro place inside
      rw [salt, salt, getLsbD_bits _ (by omega), getLsbD_bits _ (by omega), upper (n + place) (by omega) (by omega)]
  rw [SkewedAssociative.regenerateAddr]
  rw [deskewed, masked built (indexOf_narrow built _), blockOf]
  apply eq_of_getLsbD_eq
  intro place inside
  rw [getLsbD_or, getLsbD_shiftLeft, getLsbD_shiftLeft, getLsbD_shiftLeft, decide_eq_true inside,
    Bool.true_and, Bool.true_and, indexOf, getLsbD_bits _ (Nat.zero_le _), SkewedAssociative.extractTag,
    getLsbD_ushiftRight, getLsbD_ushiftRight, getLsbD_ushiftRight, built.tagShift, Nat.zero_add]
  by_cases offset : place < policy.setShift
  · rw [decide_eq_true offset, decide_eq_true (show place < policy.setShift + n by omega)]
    simp
  · rw [decide_eq_false offset]
    by_cases set : place < policy.setShift + n
    · rw [decide_eq_true set, decide_eq_true (by omega)]
      simp
    · rw [decide_eq_false set, decide_eq_false (show ¬ place - policy.setShift ≤ n - 1 by omega),
        show policy.setShift + n + (place - (policy.setShift + n)) = policy.setShift + (place - policy.setShift) by omega]
      simp

/-- Whatever way a block is in, its address comes back from its tag and its place, so two
blocks of one tag are never in the same place. -/
theorem regenerates (accepted : SkewedAssociative.new params = .ok policy) (addr : Addr) (way : BitVec 32) :
    policy.regenerateAddr (policy.extractTag addr) ⟨policy.extractSet addr way, way⟩ = blockOf policy addr ∧
    (∀ other, policy.extractTag other = policy.extractTag addr → policy.extractSet other way = policy.extractSet addr way →
      blockOf policy other = blockOf policy addr) ∧
    ∀ entry ∈ policy.getPossibleEntries addr, policy.regenerateAddr (policy.extractTag addr) entry = blockOf policy addr := by
  obtain ⟨n, built⟩ := new_built accepted
  refine ⟨regenerateAddr_eq built addr way, fun other tags sets => ?_, fun entry member => ?_⟩
  · rw [← regenerateAddr_eq built other way, tags, sets, regenerateAddr_eq built addr way]
  · obtain ⟨_, _, rfl⟩ := List.mem_map.mp member
    exact regenerateAddr_eq built addr _

theorem regenerates_example : ∃ policy, SkewedAssociative.new ⟨2048, 64, 4⟩ = .ok policy ∧
    policy.regenerateAddr (policy.extractTag 0x80001234) ⟨policy.extractSet 0x80001234 3, 3⟩ = 0x80001200 := by
  obtain ⟨policy, accepted⟩ : ∃ policy, SkewedAssociative.new ⟨2048, 64, 4⟩ = .ok policy := ⟨⟨4, 8, 6, 7, 9, 2⟩, by rfl⟩
  refine ⟨policy, accepted, (regenerates accepted _ 3).1.trans ?_⟩
  cases accepted
  rfl

end Regenerate

end ImcGem5.Mem.Proofs.Skewed

import ImcGem5.Base.AddrRange
import ImcGem5.Lib.Parities
import Mathlib.Data.Set.Function

/-! Interleaved ranges. The loops over sorted mask bits take bits out and make room for them;
the parities under the masks then decide the bits that were taken out. -/

namespace ImcGem5.Base.Interleaving.Proofs
open Lib BitGaps Parities Mem List BitVec AddrRange
open BitVec (ofNat)

variable {a b : Addr} {masks : List Addr} {intlvMatch : BitVec 8} {index : Nat}

theorem getLsbD_mask (nbits : BitVec 32) (bound : index < 64) : (mask nbits).getLsbD index = decide (index < nbits.toNat) := by
  rw [mask]
  split
  next whole =>
    rw [getLsbD_allOnes, decide_eq_true bound, decide_eq_true (by omega)]
  next part =>
    have power : (1#64 <<< nbits.toNat).toNat = 2 ^ nbits.toNat := by
      rw [toNat_shiftLeft, Nat.shiftLeft_eq, toNat_ofNat, Nat.mod_eq_of_lt]
      · simp
      · have below : 2 ^ nbits.toNat < 2 ^ 64 := Nat.pow_lt_pow_right (by decide) (by omega)
        simpa using below
    have value : ((1#64 <<< nbits.toNat) - 1).toNat = 2 ^ nbits.toNat - 1 := by
      rw [toNat_sub_of_le, power]
      · rfl
      · rw [le_def, power]
        exact Nat.one_le_two_pow
    rw [BitVec.getLsbD, value, Nat.testBit_two_pow_sub_one]

theorem getLsbD_insertBits (val bitVal : BitVec 64) (first last : BitVec 32) (bound : index < 64) :
    (insertBits val first last bitVal).getLsbD index =
      if last.toNat ≤ index ∧ index < (first + 1).toNat then bitVal.getLsbD (index - last.toNat) else val.getLsbD index := by
  simp only [insertBits, mbits, getLsbD_or, getLsbD_and, getLsbD_not, getLsbD_allOnes,
    getLsbD_shiftLeft, getLsbD_mask _ bound, bound, decide_true, Bool.true_and]
  generalize (first + 1).toNat = past
  by_cases low : last.toNat ≤ index
  · have above : ¬index < last.toNat := by omega
    by_cases high : index < past
    · simp [low, high, above]
    · simp [high]
  · have below : index < last.toNat := by omega
    simp [low, below]

theorem insertBits_low (val bitVal : BitVec 64) {first : BitVec 32} {length : Nat} (end_eq : first + 1 = ofNat 32 length)
    (short : length ≤ 64) : insertBits val first 0 bitVal = insertField val 0 (bitVal.setWidth length) := by
  apply eq_of_getLsbD_eq
  intro index bound
  have size : (first + 1).toNat = length := by
    rw [end_eq, toNat_ofNat, Nat.mod_eq_of_lt (by omega)]
  have zero : (0 : BitVec 32).toNat = 0 := rfl
  rw [getLsbD_insertBits _ _ _ _ bound, getLsbD_insertField _ _ _ _ bound, size, zero, Nat.zero_add]
  by_cases below : index < length
  · simp [below]
  · simp [below]

theorem insertBit_eq (val bitVal : BitVec 64) {bit : Nat} (short : bit < 64) :
    insertBit val bit bitVal = insertField val bit (BitVec.ofBool (bitVal.getLsbD 0)) := by
  apply eq_of_getLsbD_eq
  intro index bound
  have last : (ofNat 32 bit).toNat = bit := by
    rw [toNat_ofNat, Nat.mod_eq_of_lt (by omega)]
  have first : (ofNat 32 bit + 1).toNat = bit + 1 := by
    have one : (1 : BitVec 32).toNat = 1 := rfl
    rw [toNat_add, last, one]
    exact Nat.mod_eq_of_lt (by omega)
  rw [insertBit, getLsbD_insertBits _ _ _ _ bound, getLsbD_insertBit _ _ _ bound, last, first]
  by_cases same : index = bit
  · rw [if_pos (by omega), if_pos same, same, Nat.sub_self]
  · rw [if_neg (by omega), if_neg same]

theorem dropBit_zero (word : BitVec 64) : dropBit 0 word = word >>> 1 := by
  apply eq_of_getLsbD_eq
  intro index _
  rw [getLsbD_dropBit, if_neg (Nat.not_lt_zero _), getLsbD_ushiftRight, Nat.add_comm]

theorem openBit_zero (word : BitVec 64) : openBit 0 word = word <<< 1 := by
  apply eq_of_getLsbD_eq
  intro index bound
  rw [getLsbD_openBit _ _ bound, if_neg (Nat.not_lt_zero _), getLsbD_shiftLeft, decide_eq_true bound, Bool.true_and]
  by_cases zero : index = 0
  · simp [zero]
  · have positive : 0 < index := Nat.pos_of_ne_zero zero
    simp [positive, zero]

theorem removeLoop_eq {positions : List Nat} (ascending : Ascending positions) {i : Nat}
    (room : ∀ position ∈ positions, i ≤ position ∧ position < 64) (a : Addr) :
    removeLoop i positions a = dropFrom i positions a := by
  induction positions generalizing i a with
  | nil => rfl
  | cons intlvBit _ ih =>
    obtain ⟨below, ascending⟩ := pairwise_cons.mp ascending
    obtain ⟨_, _⟩ := room intlvBit mem_cons_self
    have step : (if 0 < intlvBit then insertBits (a >>> 1) (ofNat 32 intlvBit - ofNat 32 i - 1) 0 a else a >>> 1) =
        dropBit (intlvBit - i) a := by
      split
      next positive =>
        have length : ofNat 32 intlvBit - ofNat 32 i - 1 + 1 = ofNat 32 (intlvBit - i) := by
          rw [BitVec.sub_add_cancel]
          apply eq_of_toNat_eq
          rw [toNat_sub, toNat_ofNat, toNat_ofNat, toNat_ofNat]
          omega
        rw [insertBits_low _ _ length (by omega), dropBit]
      next zero =>
        have none : intlvBit - i = 0 := by omega
        rw [none, dropBit_zero]
    rw [removeLoop, step, ih ascending, dropFrom]
    intro other member
    have order := below other member
    exact ⟨by omega, (room other (mem_cons_of_mem _ member)).2⟩

theorem addLoop_eq {positions : List Nat} (room : ∀ position ∈ positions, position < 64) (a : Addr) :
    addLoop positions a = openAll positions a := by
  induction positions generalizing a with
  | nil => rfl
  | cons intlvBit _ ih =>
    have high := room intlvBit mem_cons_self
    have step : (if 0 < intlvBit then insertBits (a <<< 1) (ofNat 32 (intlvBit - 1)) 0 a else a <<< 1) =
        openBit intlvBit a := by
      split
      next positive =>
        have length : ofNat 32 (intlvBit - 1) + 1 = ofNat 32 intlvBit := by
          have one : (1 : BitVec 32).toNat = 1 := rfl
          apply eq_of_toNat_eq
          rw [toNat_add, toNat_ofNat, toNat_ofNat, one]
          omega
        rw [insertBits_low _ _ length (Nat.le_of_lt high), openBit]
      next zero =>
        have none : intlvBit = 0 := by omega
        rw [none, openBit_zero]
    rw [addLoop, step, ih fun other member => room other (mem_cons_of_mem _ member), openAll]

structure Separated (masks : List Addr) : Prop where
  nonzero : ∀ mask ∈ masks, mask ≠ 0
  disjoint : masks.Pairwise fun one other => one &&& other = 0

theorem Separated.pivoted (separated : Separated masks) : Pivoted ctz64 masks where
  set mask member := getLsbD_true_ctz_of_ne_zero (separated.nonzero mask member)
  disjoint := separated.disjoint

theorem Separated.nodup (separated : Separated masks) : (masks.map ctz64).Nodup := by
  have pivoted := separated.pivoted
  clear separated
  induction masks with
  | nil => exact nodup_nil
  | cons mask _ ih =>
    rw [map_cons, nodup_cons]
    refine ⟨fun member => ?_, ih pivoted.tail⟩
    obtain ⟨_, inside, same⟩ := mem_map.mp member
    have apart := (pivoted.apart inside).1
    rw [same, pivoted.set mask mem_cons_self] at apart
    cases apart

variable {range : AddrRange}

theorem mem_masksLsb {position : Nat} : position ∈ range.masksLsb ↔ position ∈ range.masks.map ctz64 :=
  (perm_insertionSort (· ≤ ·) (range.masks.map ctz64)).mem_iff

theorem length_masksLsb (range : AddrRange) : range.masksLsb.length = range.masks.length := by
  rw [masksLsb, length_insertionSort, length_map]

theorem ascending_masksLsb (separated : Separated range.masks) : Ascending range.masksLsb := by
  have sorted := pairwise_insertionSort (· ≤ ·) (range.masks.map ctz64)
  have distinct := (perm_insertionSort (· ≤ ·) (range.masks.map ctz64)).nodup_iff.mpr separated.nodup
  exact (sorted.and distinct).imp fun both => Nat.lt_of_le_of_ne both.1 both.2

theorem masksLsb_lt (separated : Separated range.masks) : ∀ position ∈ range.masksLsb, position < 64 := by
  intro position member
  obtain ⟨_, inside, rfl⟩ := mem_map.mp (mem_masksLsb.mp member)
  exact separated.pivoted.bound inside

theorem agree_masksLsb : Agree range.masksLsb a b ↔ Agree (range.masks.map ctz64) a b := by
  constructor
  · exact fun agree => agree.mono fun gap member => mem_masksLsb.mp member
  · exact fun agree => agree.mono fun gap member => mem_masksLsb.mpr member

theorem removeIntlvBits_eq (separated : Separated range.masks) (a : Addr) : range.removeIntlvBits a = dropAll range.masksLsb a := by
  rw [removeIntlvBits]
  split
  next interleaved =>
    have below := masksLsb_lt separated
    rw [removeLoop_eq (ascending_masksLsb separated) fun position member => ⟨Nat.zero_le _, below position member⟩,
      dropFrom_eq (ascending_masksLsb separated) fun position _ => Nat.zero_le _]
    congr 1
    exact map_id _
  next plain =>
    have none : range.masks = [] := by simpa [AddrRange.interleaved] using plain
    rw [masksLsb, none]
    rfl

theorem odd_zero : odd 0#64 = false := by decide

theorem odd_bit (count index : Nat) :
    (ofNat 32 (count % 2)).getLsbD index = (decide (index = 0) && count % 2 == 1) := by
  obtain even | uneven := Nat.mod_two_eq_zero_or_one count
  · simp [even]
  · rw [uneven]
    simp

theorem getLsbD_selLoop (a : Addr) (i : Nat) (masks : List Addr) (sel : BitVec 32) (bound : index < 32) :
    (selLoop a i masks sel).getLsbD index =
      (sel.getLsbD index || decide (i ≤ index) && odd (a &&& masks.getD (index - i) 0#64)) := by
  induction masks generalizing i sel with
  | nil =>
    have none : odd (a &&& ([] : List Addr).getD (index - i) 0#64) = false := by simp [odd_zero]
    rw [selLoop, none, Bool.and_false, Bool.or_false]
  | cons mask _ ih =>
    have here : (ofNat 32 (popCount (a &&& mask) % 2) <<< i).getLsbD index = (decide (index = i) && odd (a &&& mask)) := by
      rw [getLsbD_shiftLeft, decide_eq_true bound, Bool.true_and]
      by_cases low : index < i
      · simp [low, Nat.ne_of_lt low]
      · rw [odd_bit]
        by_cases same : index = i
        · simp [same, odd, ones, popCount]
        · have above : ¬index - i = 0 := by omega
          simp [same, above]
    rw [selLoop, ih, getLsbD_or, here, Bool.or_assoc]
    congr 1
    obtain low | same | high := Nat.lt_trichotomy index i
    · simp [Nat.ne_of_lt low, Nat.not_le.mpr low, Nat.not_le.mpr (Nat.lt_succ_of_lt low)]
    · simp [same]
    · have next : index - i = index - (i + 1) + 1 := by omega
      have before : ¬index = i := by omega
      rw [next, getD_cons_succ, decide_eq_true (Nat.succ_le_of_lt high), decide_eq_true (Nat.le_of_lt high)]
      simp [before]

theorem sel_eq_iff (range : AddrRange) (a : Addr) : range.sel a = range.intlvMatch.setWidth 32 ↔
    ∀ index < 32, odd (a &&& range.masks.getD index 0#64) = range.intlvMatch.getLsbD index := by
  have bits : ∀ index < 32, (range.sel a).getLsbD index = odd (a &&& range.masks.getD index 0#64) := by
    intro index bound
    rw [sel, getLsbD_selLoop _ _ _ _ bound]
    simp
  constructor
  · intro same index bound
    rw [← bits index bound, same, getLsbD_setWidth, decide_eq_true bound, Bool.true_and]
  · intro parities
    apply eq_of_getLsbD_eq
    intro index bound
    rw [bits index bound, parities index bound, getLsbD_setWidth, decide_eq_true bound, Bool.true_and]

theorem sel_eq_of_masks (fits : range.intlvMatch.toNat < 2 ^ range.masks.length)
    (parities : ∀ index (inside : index < range.masks.length), odd (a &&& range.masks[index]) = range.intlvMatch.getLsbD index) :
    range.sel a = range.intlvMatch.setWidth 32 := by
  rw [sel_eq_iff]
  intro index _
  by_cases inside : index < range.masks.length
  · rw [getD_eq_getElem _ _ inside, parities index inside]
  · have top : range.intlvMatch.getLsbD index = false :=
      Nat.testBit_lt_two_pow (Nat.lt_of_lt_of_le fits (Nat.pow_le_pow_right (by decide) (by omega)))
    have none : range.masks.getD index 0#64 = 0#64 := getD_eq_default _ _ (by omega)
    rw [top, none, and_zero]
    exact odd_zero

theorem masked_eq {lsb : Nat} (small : lsb < 31) (word : Addr) : word &&& (~~~(1#32 <<< lsb)).signExtend 64 = without lsb word := by
  rw [without]
  congr 1
  apply eq_of_getLsbD_eq
  intro index bound
  have power : ∀ width, lsb < width → ∀ index < width, (ofNat width 1 <<< lsb).getLsbD index = decide (index = lsb) := by
    intro width inside index below
    rw [getLsbD_shiftLeft, getLsbD_one, Bool.eq_iff_iff]
    simp only [Bool.and_eq_true, Bool.not_eq_true', decide_eq_true_eq, decide_eq_false_iff_not]
    omega
  have sign : (~~~(1#32 <<< lsb)).msb = true := by
    have other : ¬31 = lsb := by omega
    rw [msb_eq_getLsbD_last, getLsbD_not, power 32 (by omega) 31 (by decide)]
    simp [other]
  rw [getLsbD_not, power 64 (by omega) index bound, getLsbD_signExtend, decide_eq_true bound, Bool.true_and, Bool.true_and]
  split
  next below => rw [getLsbD_not, power 32 (by omega) index below, decide_eq_true below, Bool.true_and]
  next above =>
    have other : ¬index = lsb := by omega
    rw [decide_eq_false other]
    exact sign

theorem bits_zero (val : BitVec 8) (bit : Nat) : (bits val bit).getLsbD 0 = val.getLsbD bit := by
  have one : (mask 1).getLsbD 0 = true := by decide
  rw [bits, getLsbD_and, one, Bool.and_true, getLsbD_setWidth, getLsbD_ushiftRight]
  simp

theorem popCount_zero (val : Addr) : (ofNat 64 (popCount val)).getLsbD 0 = odd val := by
  rw [getLsbD_ofNat, Nat.testBit_zero, odd]
  rfl

theorem selectLoop_eq (small : ∀ mask ∈ masks, ctz64 mask < 31) (intlvMatch : BitVec 8) (i : Nat) (a : Addr) :
    selectLoop intlvMatch i masks a = settle ctz64 intlvMatch.getLsbD i masks a := by
  induction masks generalizing i a with
  | nil => rfl
  | cons mask _ ih =>
    have low := small mask mem_cons_self
    rw [selectLoop, settle, ih fun other member => small other (mem_cons_of_mem _ member)]
    rw [insertBit_eq _ _ (by omega), masked_eq low, getLsbD_xor, bits_zero, popCount_zero]

theorem addIntlvBits_eq (separated : Separated range.masks) (small : ∀ mask ∈ range.masks, ctz64 mask < 31) (a : Addr) :
    range.addIntlvBits a = settle ctz64 range.intlvMatch.getLsbD 0 range.masks (openAll range.masksLsb a) := by
  rw [addIntlvBits]
  split
  next interleaved => rw [selectLoop_eq small, addLoop_eq (masksLsb_lt separated)]
  next plain =>
    have none : range.masks = [] := by simpa [AddrRange.interleaved] using plain
    rw [masksLsb, none]
    rfl

/-- An address with the bits of another between those that are taken out, and any parities. -/
def spread (range : AddrRange) (a : Addr) : Addr :=
  settle ctz64 range.intlvMatch.getLsbD 0 range.masks (openAll range.masksLsb a)

theorem spread_agree (range : AddrRange) (a : Addr) : Agree range.masksLsb (spread range a) (openAll range.masksLsb a) :=
  agree_masksLsb.mpr (settle_agree _ _ _ _ _)

theorem sel_spread (fits : range.intlvMatch.toNat < 2 ^ range.masks.length) (separated : Separated range.masks) (a : Addr) :
    range.sel (spread range a) = range.intlvMatch.setWidth 32 := by
  apply sel_eq_of_masks fits
  intro index inside
  rw [spread, odd_settle separated.pivoted _ _ _ inside, Nat.zero_add]

section

variable (separated : Separated range.masks)
include separated

theorem masks_room {bound : Nat} (below : ∀ position ∈ range.masksLsb, position < bound) : range.masks.length ≤ bound := by
  rw [← length_masksLsb]
  have ascending := ascending_masksLsb separated
  cases positions : range.masksLsb with
  | nil => exact Nat.zero_le _
  | cons =>
    rw [positions] at ascending below
    have room := ascending_room ascending below
    rw [length_cons]
    omega

theorem removeIntlvBits_spread (fits : a.toNat < 2 ^ (64 - range.masks.length)) : range.removeIntlvBits (spread range a) = a := by
  have room := masks_room separated (masksLsb_lt separated)
  rw [removeIntlvBits_eq separated, dropAll_congr (ascending_masksLsb separated) (spread_agree range a)]
  apply dropAll_openAll (short_iff.mpr fits)
  rw [length_masksLsb]
  omega

theorem removeIntlvBits_lt (a : Addr) : (range.removeIntlvBits a).toNat < 2 ^ (64 - range.masks.length) := by
  have below := masksLsb_lt separated
  have whole : 64 - range.masks.length + range.masksLsb.length = 64 := by
    have room := masks_room separated below
    rw [length_masksLsb]
    omega
  have high := dropAll_div a (64 - range.masks.length) (ascending_masksLsb separated) (by rwa [whole])
  rw [whole, Nat.div_eq_of_lt a.isLt, ← removeIntlvBits_eq separated] at high
  exact Nat.lt_of_div_eq_zero (Nat.two_pow_pos _) high

theorem eq_of_removeIntlvBits (few : range.masks.length ≤ 32)
    (selectedA : range.sel a = range.intlvMatch.setWidth 32) (selectedB : range.sel b = range.intlvMatch.setWidth 32)
    (same : range.removeIntlvBits a = range.removeIntlvBits b) : a = b := by
  rw [removeIntlvBits_eq separated, removeIntlvBits_eq separated] at same
  have ascending := ascending_masksLsb separated
  have back := (openAll_dropAll ascending a).symm
  rw [same] at back
  have agree := agree_masksLsb.mp (back.trans (openAll_dropAll ascending b))
  apply eq_of_odd separated.pivoted agree
  intro mask member
  obtain ⟨index, inside, rfl⟩ := getElem_of_mem member
  have parityA := (sel_eq_iff range a).mp selectedA index (by omega)
  have parityB := (sel_eq_iff range b).mp selectedB index (by omega)
  rw [getD_eq_getElem _ _ inside] at parityA parityB
  rw [parityA, parityB]

end

/-- Removing the interleaving bits and adding them again is the identity on the addresses the
range selects; adding and removing them is on the addresses that leave room, and what is added
selects the range. -/
theorem intlvBits_round_trip (interleaved : range.masks ≠ []) (separated : Separated range.masks)
    (small : ∀ mask ∈ range.masks, ctz64 mask < 31) (a : Addr) :
    (range.sel a = range.intlvMatch.setWidth 32 → range.addIntlvBits (range.removeIntlvBits a) = a) ∧
    (a.toNat < 2 ^ (64 - range.masks.length) → range.removeIntlvBits (range.addIntlvBits a) = a ∧
      range.sel (range.addIntlvBits a) = range.intlvMatch.setWidth 32) := by
  have added : ∀ word, range.addIntlvBits word = spread range word := addIntlvBits_eq separated small
  have few : range.masks.length ≤ 31 := by
    apply masks_room separated
    intro position member
    obtain ⟨mask, inside, rfl⟩ := mem_map.mp (mem_masksLsb.mp member)
    exact small mask inside
  constructor
  · intro selected
    rw [added]
    have chosen := sel_spread (range.fits interleaved) separated (range.removeIntlvBits a)
    apply eq_of_removeIntlvBits separated (by omega) chosen selected
    exact removeIntlvBits_spread separated (removeIntlvBits_lt separated a)
  · intro fits
    rw [added]
    exact ⟨removeIntlvBits_spread separated fits, sel_spread (range.fits interleaved) separated a⟩

theorem ctz64_le {mask : Addr} (set : mask.getLsbD index = true) : ctz64 mask ≤ index := by
  by_contra above
  have zero : mask.getLsbD index = false := getLsbD_false_of_lt_ctz (Nat.lt_of_not_le above)
  rw [set] at zero
  cases zero

def twoMasks : AddrRange := ⟨0, 0x100000, [0x900#64, 0x28000#64], 2, fun _ => by decide⟩

theorem twoMasks_separated : Separated twoMasks.masks where
  nonzero := by simp [twoMasks]
  disjoint := by simp [twoMasks]

theorem twoMasks_small : ∀ mask ∈ twoMasks.masks, ctz64 mask < 31 := by
  intro mask member
  have first : (0x900#64).getLsbD 8 = true := rfl
  have second : (0x28000#64).getLsbD 15 = true := rfl
  obtain rfl | rfl : mask = 0x900#64 ∨ mask = 0x28000#64 := by simpa [twoMasks] using member
  · exact Nat.lt_of_le_of_lt (ctz64_le first) (by decide)
  · exact Nat.lt_of_le_of_lt (ctz64_le second) (by decide)

theorem twoMasks_round_trip : twoMasks.removeIntlvBits (twoMasks.addIntlvBits 0x12345#64) = 0x12345#64 :=
  ((intlvBits_round_trip (cons_ne_nil _ _) twoMasks_separated twoMasks_small 0x12345#64).2 (by decide)).1

def stripe (start stop : Addr) (masks : List Addr) (intlvMatch : Fin (2 ^ masks.length)) : AddrRange where
  start
  stop
  masks
  intlvMatch := ofNat 8 intlvMatch
  fits _ := by
    rw [BitVec.toNat_ofNat]
    exact Nat.lt_of_le_of_lt (Nat.mod_le _ _) intlvMatch.isLt

theorem selLoop_lt (a : Addr) (masks : List Addr) : (selLoop a 0 masks 0).toNat < 2 ^ masks.length := by
  apply Nat.lt_pow_two_of_testBit
  intro index above
  by_cases bound : index < 32
  · have bit := getLsbD_selLoop a 0 masks 0 bound
    rw [getD_eq_default _ _ (by omega), and_zero, odd_zero, Bool.and_false, Bool.or_false] at bit
    exact bit.trans (by simp)
  · exact getLsbD_of_ge _ _ (by omega)

theorem contained_once {start stop : Addr} {masks : List Addr} (few : masks.length ≤ 8) {a : Addr} (above : start ≤ a)
    (below : a < stop) : ∃! intlvMatch, (stripe start stop masks intlvMatch).contains a = true := by
  have inside : ∀ intlvMatch, (stripe start stop masks intlvMatch).inRange a = true := by
    intro intlvMatch
    simp only [AddrRange.inRange, stripe, Bool.and_eq_true]
    exact ⟨ule_iff_le.mpr above, ult_iff_lt.mpr below⟩
  have limit : 2 ^ masks.length ≤ 2 ^ 8 := Nat.pow_le_pow_right (by decide) few
  have contained : ∀ intlvMatch : Fin (2 ^ masks.length), (stripe start stop masks intlvMatch).contains a = true ↔
      (selLoop a 0 masks 0).toNat = intlvMatch := by
    intro intlvMatch
    rw [AddrRange.contains, if_pos (inside intlvMatch), beq_iff_eq, ← toNat_inj, toNat_setWidth]
    have word : (stripe start stop masks intlvMatch).intlvMatch.toNat = intlvMatch := by
      rw [stripe, toNat_ofNat, Nat.mod_eq_of_lt (by omega)]
    rw [word, Nat.mod_eq_of_lt (by omega)]
    rfl
  refine ⟨⟨_, selLoop_lt a masks⟩, (contained _).mpr rfl, fun other held => ?_⟩
  exact Fin.ext ((contained other).mp held).symm

structure Aligned (range : AddrRange) (bits : Nat) : Prop where
  valid : range.start ≤ range.stop
  masks : ∀ mask ∈ range.masks, mask.toNat < 2 ^ bits
  start : 2 ^ bits ∣ range.start.toNat
  stop : 2 ^ bits ∣ range.stop.toNat

structure Blocks (range : AddrRange) (bits low : Nat) : Prop where
  bits_eq : bits = low + range.masks.length
  removed : ∀ a : Addr, (range.removeIntlvBits a).toNat / 2 ^ low = a.toNat / 2 ^ bits
  start : (range.removeIntlvBits range.start).toNat = 2 ^ low * (range.start.toNat / 2 ^ bits)
  size : range.size.toNat = 2 ^ low * (range.stop.toNat / 2 ^ bits - range.start.toNat / 2 ^ bits)
  stop : 2 ^ low * (range.stop.toNat / 2 ^ bits) < 2 ^ (64 - range.masks.length)

variable {bits : Nat}

theorem Aligned.blocks (aligned : Aligned range bits) (separated : Separated range.masks) : ∃ low, Blocks range bits low := by
  have below : ∀ position ∈ range.masksLsb, position < bits := by
    intro position member
    obtain ⟨mask, inside, rfl⟩ := mem_map.mp (mem_masksLsb.mp member)
    by_contra above
    have set := separated.pivoted.set mask inside
    have zero := short_iff.mpr (aligned.masks mask inside) (ctz64 mask) (by omega)
    rw [set] at zero
    cases zero
  obtain ⟨low, bits_eq⟩ : ∃ low, bits = low + range.masks.length :=
    ⟨bits - range.masks.length, (Nat.sub_add_cancel (masks_room separated below)).symm⟩
  have removed : ∀ a : Addr, (range.removeIntlvBits a).toNat / 2 ^ low = a.toNat / 2 ^ bits := by
    intro a
    have divided := dropAll_div a low (ascending_masksLsb separated)
      (by rw [length_masksLsb, ← bits_eq]; exact below)
    rwa [length_masksLsb, ← bits_eq, ← removeIntlvBits_eq separated] at divided
  have start : 2 ^ low ∣ (range.removeIntlvBits range.start).toNat := by
    rw [removeIntlvBits_eq separated]
    apply dvd_dropAll
    rw [length_masksLsb, ← bits_eq]
    exact aligned.start
  have power : 2 ^ bits = 2 ^ low * 2 ^ range.masks.length := by rw [bits_eq, Nat.pow_add]
  obtain ⟨_, first_eq⟩ := aligned.start
  obtain ⟨_, last_eq⟩ := aligned.stop
  have positive : 0 < 2 ^ bits := Nat.two_pow_pos bits
  refine ⟨low, bits_eq, removed, ?_, ?_, ?_⟩
  · rw [← removed, Nat.mul_div_cancel' start]
  · rw [first_eq, last_eq, Nat.mul_div_cancel_left _ positive, Nat.mul_div_cancel_left _ positive, AddrRange.size,
      toNat_ushiftRight, toNat_sub_of_le aligned.valid, first_eq, last_eq, Nat.shiftRight_eq_div_pow, power,
      ← Nat.mul_sub, Nat.mul_assoc, Nat.mul_comm (2 ^ range.masks.length), ← Nat.mul_assoc,
      Nat.mul_div_cancel _ (Nat.two_pow_pos _)]
  · have room := masks_room separated (masksLsb_lt separated)
    have width := range.stop.isLt
    rw [last_eq, power, Nat.mul_assoc, Nat.mul_comm (2 ^ range.masks.length), ← Nat.mul_assoc] at width
    have whole : 2 ^ 64 = 2 ^ (64 - range.masks.length) * 2 ^ range.masks.length := by
      rw [← Nat.pow_add, Nat.sub_add_cancel room]
    rw [whole] at width
    rw [last_eq, Nat.mul_div_cancel_left _ positive]
    exact Nat.lt_of_mul_lt_mul_right width

theorem Aligned.inRange_iff (aligned : Aligned range bits) (a : Addr) : range.inRange a = true ↔
    range.start.toNat / 2 ^ bits ≤ a.toNat / 2 ^ bits ∧ a.toNat / 2 ^ bits < range.stop.toNat / 2 ^ bits := by
  have positive : 0 < 2 ^ bits := Nat.two_pow_pos bits
  rw [AddrRange.inRange, Bool.and_eq_true, ule_iff_le, ult_iff_lt, le_def, lt_def,
    Nat.le_div_iff_mul_le positive, Nat.div_mul_cancel aligned.start, Nat.div_lt_iff_lt_mul positive,
    Nat.div_mul_cancel aligned.stop]

theorem getOffset_eq {a : Addr} (inside : range.inRange a = true) :
    range.getOffset a = range.removeIntlvBits a - range.removeIntlvBits range.start := by
  rw [AddrRange.getOffset, inside]
  cases interleaved : range.interleaved with
  | true => rfl
  | false => simp [removeIntlvBits, interleaved]

theorem Blocks.offset {low : Nat} (blocks : Blocks range bits low) (aligned : Aligned range bits) {a : Addr}
    (inside : range.inRange a = true) : range.getOffset a < range.size ∧
      (range.removeIntlvBits a).toNat = (range.getOffset a).toNat + (range.removeIntlvBits range.start).toNat := by
  obtain ⟨above, below⟩ := (aligned.inRange_iff a).mp inside
  have positive : 0 < 2 ^ low := Nat.two_pow_pos low
  rw [← blocks.removed a, Nat.le_div_iff_mul_le positive, Nat.mul_comm] at above
  rw [← blocks.removed a, Nat.div_lt_iff_lt_mul positive, Nat.mul_comm] at below
  have order : range.removeIntlvBits range.start ≤ range.removeIntlvBits a := by
    rw [le_def, blocks.start]
    exact above
  rw [getOffset_eq inside, lt_def, toNat_sub_of_le order, blocks.size, Nat.mul_sub, blocks.start]
  omega

theorem Blocks.reached {low : Nat} (blocks : Blocks range bits low) (aligned : Aligned range bits)
    (separated : Separated range.masks) (fits : range.intlvMatch.toNat < 2 ^ range.masks.length) {offset : Addr}
    (below : offset < range.size) : ∃ a, range.inRange a = true ∧ range.sel a = range.intlvMatch.setWidth 32 ∧
      range.getOffset a = offset := by
  have positive : 0 < 2 ^ low := Nat.two_pow_pos low
  rw [lt_def, blocks.size, Nat.mul_sub, ← blocks.start] at below
  have short : offset.toNat + (range.removeIntlvBits range.start).toNat < 2 ^ (64 - range.masks.length) :=
    Nat.lt_trans (by omega) blocks.stop
  have sum : (offset + range.removeIntlvBits range.start).toNat = offset.toNat + (range.removeIntlvBits range.start).toNat := by
    rw [toNat_add, Nat.mod_eq_of_lt]
    exact Nat.lt_of_lt_of_le short (Nat.pow_le_pow_right (by decide) (Nat.sub_le _ _))
  have removed := removeIntlvBits_spread separated (a := offset + range.removeIntlvBits range.start) (by rwa [sum])
  have inside : range.inRange (spread range (offset + range.removeIntlvBits range.start)) = true := by
    rw [aligned.inRange_iff, ← blocks.removed (spread _ _), removed, sum]
    constructor
    · rw [Nat.le_div_iff_mul_le positive, Nat.mul_comm, ← blocks.start]
      omega
    · rw [Nat.div_lt_iff_lt_mul positive, Nat.mul_comm]
      omega
  refine ⟨_, inside, sel_spread fits separated _, ?_⟩
  rw [getOffset_eq inside, removed, BitVec.add_sub_cancel]

theorem offsets_bijective {start stop : Addr} {masks : List Addr} (few : masks.length ≤ 8)
    (separated : Separated masks) (valid : start ≤ stop) (bounded : ∀ mask ∈ masks, mask.toNat < 2 ^ bits)
    (alignedStart : 2 ^ bits ∣ start.toNat) (alignedStop : 2 ^ bits ∣ stop.toNat) (intlvMatch : Fin (2 ^ masks.length)) :
    Set.BijOn (stripe start stop masks intlvMatch).getOffset {a | (stripe start stop masks intlvMatch).contains a = true}
      {offset | offset < (stripe start stop masks intlvMatch).size} := by
  have fits : (stripe start stop masks intlvMatch).intlvMatch.toNat < 2 ^ masks.length := by
    rw [stripe, toNat_ofNat]
    exact Nat.lt_of_le_of_lt (Nat.mod_le _ _) intlvMatch.isLt
  have aligned : Aligned (stripe start stop masks intlvMatch) bits := ⟨valid, bounded, alignedStart, alignedStop⟩
  have length : (stripe start stop masks intlvMatch).masks.length = masks.length := rfl
  have apart : Separated (stripe start stop masks intlvMatch).masks := separated
  generalize stripe start stop masks intlvMatch = range at *
  obtain ⟨_, blocks⟩ := aligned.blocks apart
  have contained : ∀ a, range.contains a = true ↔ range.inRange a = true ∧ range.sel a = range.intlvMatch.setWidth 32 := by
    intro a
    rw [AddrRange.contains]
    split
    next inside => rw [beq_iff_eq, and_iff_right inside]
    next outside => exact iff_of_false nofun fun both => outside both.1
  refine ⟨fun a member => ?_, fun a memberA b memberB same => ?_, fun offset below => ?_⟩
  · exact (blocks.offset aligned ((contained a).mp member).1).1
  · obtain ⟨insideA, selectedA⟩ := (contained a).mp memberA
    obtain ⟨insideB, selectedB⟩ := (contained b).mp memberB
    apply eq_of_removeIntlvBits apart (by omega) selectedA selectedB
    apply eq_of_toNat_eq
    rw [(blocks.offset aligned insideA).2, (blocks.offset aligned insideB).2, same]
  · obtain ⟨a, inside, selected, same⟩ := blocks.reached aligned apart (length ▸ fits) below
    exact ⟨a, (contained a).mpr ⟨inside, selected⟩, same⟩

/-- The ranges with the same ends and masks share out the addresses between the ends, and each
numbers its own without gaps. -/
theorem stripes_partition {start stop : Addr} {masks : List Addr} (few : masks.length ≤ 8) :
    (∀ a, start ≤ a → a < stop → ∃! intlvMatch, (stripe start stop masks intlvMatch).contains a = true) ∧
    (Separated masks → start ≤ stop → ∀ bits, (∀ mask ∈ masks, mask.toNat < 2 ^ bits) → 2 ^ bits ∣ start.toNat →
      2 ^ bits ∣ stop.toNat → ∀ intlvMatch, Set.BijOn (stripe start stop masks intlvMatch).getOffset
        {a | (stripe start stop masks intlvMatch).contains a = true}
        {offset | offset < (stripe start stop masks intlvMatch).size}) := by
  constructor
  · intro a above below
    exact contained_once few above below
  · intro separated valid bits bounded alignedStart alignedStop intlvMatch
    exact offsets_bijective few separated valid bounded alignedStart alignedStop intlvMatch

/-- A range that ends before it starts has a size, and no addresses. -/
theorem reversed_not_bijective : ¬∀ (start stop : Addr) (masks : List Addr), masks.length ≤ 8 →
    (∀ a, start ≤ a → a < stop → ∃! intlvMatch, (stripe start stop masks intlvMatch).contains a = true) ∧
    (Separated masks → ∀ bits, (∀ mask ∈ masks, mask.toNat < 2 ^ bits) → 2 ^ bits ∣ start.toNat →
      2 ^ bits ∣ stop.toNat → ∀ intlvMatch, Set.BijOn (stripe start stop masks intlvMatch).getOffset
        {a | (stripe start stop masks intlvMatch).contains a = true}
        {offset | offset < (stripe start stop masks intlvMatch).size}) := by
  intro claimed
  have separated : Separated [0x100#64] := ⟨by simp, by simp⟩
  have bijective := (claimed 0x200#64 0#64 [0x100#64] (by decide)).2 separated 9 (by simp) (by decide) (by decide)
    ⟨0, by decide⟩
  have sized : 0#64 < (stripe 0x200#64 0#64 [0x100#64] ⟨0, by decide⟩).size := by decide
  obtain ⟨a, contained, _⟩ := bijective.surjOn sized
  have inside : (stripe 0x200#64 0#64 [0x100#64] ⟨0, by decide⟩).inRange a = true := by
    by_contra outside
    rw [Set.mem_ofPred_eq, AddrRange.contains, if_neg outside] at contained
    cases contained
  rw [AddrRange.inRange, Bool.and_eq_true, ult_iff_lt, lt_def] at inside
  exact absurd inside.2 (Nat.not_lt_zero _)

theorem twoMasks_partition : Set.BijOn (stripe 0#64 0x100000#64 twoMasks.masks ⟨1, by decide⟩).getOffset
    {a | (stripe 0#64 0x100000#64 twoMasks.masks ⟨1, by decide⟩).contains a = true}
    {offset | offset < (stripe 0#64 0x100000#64 twoMasks.masks ⟨1, by decide⟩).size} :=
  (stripes_partition (by decide)).2 twoMasks_separated (by decide) 20 (by simp [twoMasks]) (by decide) (by decide) _

end ImcGem5.Base.Interleaving.Proofs

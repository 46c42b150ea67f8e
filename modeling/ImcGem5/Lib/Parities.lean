import ImcGem5.Lib.BitGaps

/-! Parities of the bits under disjoint masks. With a bit of each mask set aside as its pivot,
every choice of parities has exactly one solution that keeps all other bits. -/

namespace ImcGem5.Lib.Parities
open BitGaps List
open BitVec hiding not_or

variable {width : Nat} {mask : BitVec width}

def ones (word : BitVec width) : Nat := (List.range width).countP word.getLsbD

def odd (word : BitVec width) : Bool := ones word % 2 == 1

def without (position : Nat) (word : BitVec width) : BitVec width := word &&& ~~~(BitVec.ofNat width 1 <<< position)

theorem getLsbD_without (position : Nat) (word : BitVec width) (index : Nat) :
    (without position word).getLsbD index = (word.getLsbD index && decide (index ≠ position)) := by
  by_cases bound : index < width
  · have single : (BitVec.ofNat width 1 <<< position).getLsbD index = decide (index = position) := by
      rw [getLsbD_shiftLeft, getLsbD_one]
      rw [Bool.eq_iff_iff]
      simp only [Bool.and_eq_true, Bool.not_eq_true', decide_eq_true_eq, decide_eq_false_iff_not]
      omega
    rw [without, getLsbD_and, getLsbD_not, single, decide_eq_true bound, Bool.true_and, decide_not]
  · rw [getLsbD_of_ge _ _ (by omega), getLsbD_of_ge _ _ (by omega), Bool.false_and]

theorem countP_split {items : List Nat} {item : Nat} (holds : Nat → Bool) (member : item ∈ items) (nodup : items.Nodup) :
    items.countP holds = items.countP (fun other => holds other && decide (other ≠ item)) + (holds item).toNat := by
  induction items with
  | nil => cases member
  | cons first rest ih =>
    obtain ⟨fresh, nodup⟩ := nodup_cons.mp nodup
    rw [countP_cons, countP_cons]
    obtain rfl | member := mem_cons.mp member
    · have same : rest.countP (fun other => holds other && decide (other ≠ item)) = rest.countP holds := by
        apply countP_congr
        intro other inside
        have different : other ≠ item := fun equal => fresh (equal ▸ inside)
        simp [different]
      rw [same]
      cases holds item <;> simp
    · have different : first ≠ item := fun equal => fresh (equal ▸ member)
      rw [ih member nodup]
      cases holds first <;> simp [different]
      omega

theorem odd_eq {position : Nat} (bound : position < width) (word : BitVec width) :
    odd word = (word.getLsbD position ^^ odd (without position word)) := by
  have split : ones word = ones (without position word) + (word.getLsbD position).toNat := by
    rw [ones, countP_split word.getLsbD (mem_range.mpr bound) nodup_range, ones]
    congr 1
    apply countP_congr
    intro index _
    rw [getLsbD_without]
  rw [odd, odd, split]
  have parity := Nat.mod_two_eq_zero_or_one (ones (without position word))
  cases word.getLsbD position with
  | false => simp
  | true =>
    obtain even | uneven := parity
    · simp [Nat.add_mod, even]
    · simp [Nat.add_mod, uneven]

variable {masks : List (BitVec width)} {pivot : BitVec width → Nat} {first second word : BitVec width}

/-- Masks that share no bit, each with a bit of its own set aside. -/
structure Pivoted (pivot : BitVec width → Nat) (masks : List (BitVec width)) : Prop where
  set : ∀ mask ∈ masks, mask.getLsbD (pivot mask) = true
  disjoint : masks.Pairwise fun one other => one &&& other = 0

theorem Pivoted.tail (pivoted : Pivoted pivot (mask :: masks)) : Pivoted pivot masks where
  set other member := pivoted.set other (mem_cons_of_mem _ member)
  disjoint := (pairwise_cons.mp pivoted.disjoint).2

theorem Pivoted.bound (pivoted : Pivoted pivot masks) (member : mask ∈ masks) : pivot mask < width := by
  by_contra outside
  have set := pivoted.set mask member
  rw [getLsbD_of_ge _ _ (by omega)] at set
  cases set

theorem Pivoted.apart {other : BitVec width} (pivoted : Pivoted pivot (mask :: masks)) (member : other ∈ masks) :
    mask.getLsbD (pivot other) = false ∧ other.getLsbD (pivot mask) = false := by
  have disjoint := (pairwise_cons.mp pivoted.disjoint).1 other member
  have bits : ∀ index, (mask.getLsbD index && other.getLsbD index) = false := by
    intro index
    rw [← getLsbD_and, disjoint]
    simp
  have here := bits (pivot other)
  have there := bits (pivot mask)
  rw [pivoted.set other (mem_cons_of_mem _ member), Bool.and_true] at here
  rw [pivoted.set mask mem_cons_self, Bool.true_and] at there
  exact ⟨here, there⟩

/-- Words that differ in pivots of other masks only are the same under a mask. -/
theorem Pivoted.and_congr (pivoted : Pivoted pivot (mask :: masks))
    (agree : Agree (masks.map pivot) first second) : first &&& mask = second &&& mask := by
  apply eq_of_getLsbD_eq
  intro index _
  rw [getLsbD_and, getLsbD_and]
  by_cases inside : index ∈ masks.map pivot
  · obtain ⟨_, member, rfl⟩ := mem_map.mp inside
    rw [(pivoted.apart member).1, Bool.and_false, Bool.and_false]
  · rw [agree index inside]

/-- Set each pivot to what makes the parity under its mask the chosen one. -/
def settle (pivot : BitVec width → Nat) (chosen : Nat → Bool) : Nat → List (BitVec width) → BitVec width → BitVec width
  | _, [], word => word
  | number, mask :: rest, word =>
    settle pivot chosen (number + 1) rest (insertField word (pivot mask)
      (BitVec.ofBool (chosen number ^^ odd (without (pivot mask) (word &&& mask)))))

theorem getLsbD_insertBit (word : BitVec width) (position : Nat) (value : Bool) {index : Nat} (bound : index < width) :
    (insertField word position (BitVec.ofBool value)).getLsbD index = if index = position then value else word.getLsbD index := by
  rw [getLsbD_insertField _ _ _ _ bound]
  by_cases same : index = position
  · rw [if_pos (by omega), if_pos same, same, Nat.sub_self]
    cases value <;> rfl
  · rw [if_neg (by omega), if_neg same]

theorem settle_agree (pivot : BitVec width → Nat) (chosen : Nat → Bool) (number : Nat) (masks : List (BitVec width))
    (word : BitVec width) : Agree (masks.map pivot) (settle pivot chosen number masks word) word := by
  induction masks generalizing number word with
  | nil => exact Agree.refl _ _
  | cons _ _ ih =>
    rw [settle, map_cons]
    refine Agree.trans ((ih _ _).mono fun _ member => mem_cons_of_mem _ member) ?_
    intro index outside
    rw [mem_cons, not_or] at outside
    by_cases bound : index < width
    · rw [getLsbD_insertBit _ _ _ bound, if_neg outside.1]
    · rw [getLsbD_of_ge _ _ (by omega), getLsbD_of_ge _ _ (by omega)]

theorem odd_settle (pivoted : Pivoted pivot masks) (chosen : Nat → Bool) (number : Nat) (word : BitVec width) {index : Nat}
    (inside : index < masks.length) : odd (settle pivot chosen number masks word &&& masks[index]) = chosen (number + index) := by
  induction masks generalizing number word index with
  | nil => cases inside
  | cons mask rest ih =>
    rw [settle]
    cases index with
    | succ =>
      have later := ih pivoted.tail (number + 1) (insertField word (pivot mask)
        (BitVec.ofBool (chosen number ^^ odd (without (pivot mask) (word &&& mask))))) (Nat.lt_of_succ_lt_succ inside)
      rw [Nat.add_assoc, Nat.add_comm 1] at later
      exact later
    | zero =>
      have bound := pivoted.bound mem_cons_self
      have set := pivoted.set mask mem_cons_self
      rw [getElem_cons_zero, pivoted.and_congr (settle_agree pivot chosen _ rest _), odd_eq bound, getLsbD_and,
        getLsbD_insertBit _ _ _ bound, if_pos rfl, set, Bool.and_true]
      have others : without (pivot mask) (insertField word (pivot mask)
          (BitVec.ofBool (chosen number ^^ odd (without (pivot mask) (word &&& mask)))) &&& mask) =
          without (pivot mask) (word &&& mask) := by
        apply eq_of_getLsbD_eq
        intro index below
        rw [getLsbD_without, getLsbD_without, getLsbD_and, getLsbD_and, getLsbD_insertBit _ _ _ below]
        by_cases here : index = pivot mask
        · simp [here]
        · rw [if_neg here]
      rw [others, Bool.xor_assoc, Bool.xor_self, Bool.xor_false, Nat.add_zero]

theorem eq_of_odd (pivoted : Pivoted pivot masks) (agree : Agree (masks.map pivot) first second)
    (same : ∀ mask ∈ masks, odd (first &&& mask) = odd (second &&& mask)) : first = second := by
  induction masks generalizing first second with
  | nil => exact agree.eq
  | cons mask rest ih =>
    have bound := pivoted.bound mem_cons_self
    have set := pivoted.set mask mem_cons_self
    have others : without (pivot mask) (first &&& mask) = without (pivot mask) (second &&& mask) := by
      apply eq_of_getLsbD_eq
      intro index _
      rw [getLsbD_without, getLsbD_without, getLsbD_and, getLsbD_and]
      by_cases here : index = pivot mask
      · simp [here]
      · by_cases inside : index ∈ rest.map pivot
        · obtain ⟨other, member, rfl⟩ := mem_map.mp inside
          rw [(pivoted.apart member).1, Bool.and_false, Bool.and_false]
        · rw [agree index]
          rw [map_cons, mem_cons, not_or]
          exact ⟨here, inside⟩
    have pivots : first.getLsbD (pivot mask) = second.getLsbD (pivot mask) := by
      have parities := same mask mem_cons_self
      rw [odd_eq bound (first &&& mask), odd_eq bound (second &&& mask), others, getLsbD_and, getLsbD_and, set,
        Bool.and_true, Bool.and_true] at parities
      exact Bool.xor_left_inj.mp parities
    refine ih pivoted.tail ?_ fun other member => same other (mem_cons_of_mem _ member)
    intro index outside
    by_cases here : index = pivot mask
    · rw [here, pivots]
    · apply agree
      rw [map_cons, mem_cons, not_or]
      exact ⟨here, outside⟩

end ImcGem5.Lib.Parities

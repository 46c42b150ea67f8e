import ImcGem5.Lib.Bits

/-! Taking bits out of a word and making room for them again. Positions are sorted; bits are
taken out from the highest on, or from the lowest on with positions that have moved. Words are
compared outside the positions, since what stands in an open one is left to the caller. -/

namespace ImcGem5.Lib.BitGaps
open List
open BitVec (getLsbD_of_ge)

variable {width : Nat} {bits low : Nat}

/-- Without one bit; what is above moves down. -/
def dropBit (position : Nat) (word : BitVec width) : BitVec width :=
  insertField (word >>> 1) 0 (word.setWidth position)

/-- With room at one position; what is there and above moves up. -/
def openBit (position : Nat) (word : BitVec width) : BitVec width :=
  insertField (word <<< 1) 0 (word.setWidth position)

theorem getLsbD_dropBit (position : Nat) (word : BitVec width) (index : Nat) :
    (dropBit position word).getLsbD index = if index < position then word.getLsbD index else word.getLsbD (index + 1) := by
  by_cases bound : index < width
  · rw [dropBit, getLsbD_insertField _ _ _ _ bound]
    by_cases below : index < position
    · simp [below]
    · simp [below, Nat.add_comm]
  · rw [getLsbD_of_ge _ _ (by omega), getLsbD_of_ge _ _ (by omega), getLsbD_of_ge _ _ (by omega)]
    split <;> rfl

theorem getLsbD_openBit (position : Nat) (word : BitVec width) {index : Nat} (bound : index < width) :
    (openBit position word).getLsbD index =
      if index < position then word.getLsbD index else decide (0 < index) && word.getLsbD (index - 1) := by
  rw [openBit, getLsbD_insertField _ _ _ _ bound]
  by_cases below : index < position
  · simp [below]
  · rw [if_neg (by omega), if_neg below, BitVec.getLsbD_shiftLeft, decide_eq_true bound, Bool.true_and]
    by_cases zero : index = 0
    · simp [zero]
    · have positive : 0 < index := Nat.pos_of_ne_zero zero
      simp [positive, zero]

/-- The bits at these positions may differ. -/
def Agree (gaps : List Nat) (first second : BitVec width) : Prop :=
  ∀ index, index ∉ gaps → first.getLsbD index = second.getLsbD index

variable {gaps positions : List Nat} {first second third word : BitVec width} {position : Nat}

theorem Agree.refl (gaps : List Nat) (word : BitVec width) : Agree gaps word word := fun _ _ => rfl

theorem Agree.symm (agree : Agree gaps first second) : Agree gaps second first :=
  fun index outside => (agree index outside).symm

theorem Agree.trans (one : Agree gaps first second) (two : Agree gaps second third) : Agree gaps first third :=
  fun index outside => (one index outside).trans (two index outside)

theorem Agree.mono {more : List Nat} (agree : Agree gaps first second) (sub : ∀ gap ∈ gaps, gap ∈ more) : Agree more first second :=
  fun index outside => agree index fun inside => outside (sub index inside)

theorem Agree.eq (agree : Agree [] first second) : first = second :=
  BitVec.eq_of_getLsbD_eq fun index _ => agree index not_mem_nil

theorem Agree.dropBit (agree : Agree (position :: gaps) first second) (below : ∀ gap ∈ gaps, gap < position) :
    Agree gaps (dropBit position first) (dropBit position second) := by
  intro index outside
  rw [getLsbD_dropBit, getLsbD_dropBit]
  split
  next low =>
    apply agree
    rw [mem_cons, not_or]
    exact ⟨Nat.ne_of_lt low, outside⟩
  next high =>
    apply agree
    rw [mem_cons, not_or]
    refine ⟨by omega, fun inside => ?_⟩
    have bound := below _ inside
    omega

theorem Agree.openBit (agree : Agree gaps first second) (below : ∀ gap ∈ gaps, gap < position) :
    Agree (position :: gaps) (openBit position first) (openBit position second) := by
  intro index outside
  rw [mem_cons, not_or] at outside
  by_cases bound : index < width
  · rw [getLsbD_openBit _ _ bound, getLsbD_openBit _ _ bound]
    split
    next low => exact agree index outside.2
    next high =>
      rw [agree (index - 1)]
      intro inside
      have less := below _ inside
      omega
  · rw [getLsbD_of_ge _ _ (by omega), getLsbD_of_ge _ _ (by omega)]

theorem openBit_dropBit (position : Nat) (word : BitVec width) : Agree [position] (openBit position (dropBit position word)) word := by
  intro index outside
  have other : index ≠ position := fun same => outside (by rw [same]; exact mem_singleton_self _)
  by_cases bound : index < width
  · rw [getLsbD_openBit _ _ bound]
    split
    next low => rw [getLsbD_dropBit, if_pos low]
    next high =>
      have positive : 0 < index := by omega
      rw [getLsbD_dropBit, if_neg (by omega), decide_eq_true positive, Bool.true_and, Nat.sub_add_cancel positive]
  · rw [getLsbD_of_ge _ _ (by omega), getLsbD_of_ge _ _ (by omega)]

def Short (bits : Nat) (word : BitVec width) : Prop := ∀ index, bits ≤ index → word.getLsbD index = false

theorem short_iff : Short bits word ↔ word.toNat < 2 ^ bits := by
  constructor
  · intro short
    exact Nat.lt_pow_two_of_testBit _ fun index above => short index above
  · intro small index above
    exact Nat.testBit_lt_two_pow (Nat.lt_of_lt_of_le small (Nat.pow_le_pow_right (by decide) above))

theorem Short.openBit (short : Short bits word) (position : Nat) : Short (bits + 1) (openBit position word) := by
  intro index above
  by_cases bound : index < width
  · rw [getLsbD_openBit _ _ bound, short index (by omega), short (index - 1) (by omega)]
    split <;> simp
  · exact getLsbD_of_ge _ _ (by omega)

theorem dropBit_openBit (short : Short bits word) (room : bits < width) : dropBit position (openBit position word) = word := by
  apply BitVec.eq_of_getLsbD_eq
  intro index bound
  rw [getLsbD_dropBit]
  split
  next low => rw [getLsbD_openBit _ _ bound, if_pos low]
  next high =>
    by_cases inside : index + 1 < width
    · rw [getLsbD_openBit _ _ inside, if_neg (by omega)]
      simp
    · rw [short index (by omega), getLsbD_of_ge _ _ (by omega)]

/-- Without the bits at all positions, the highest first. -/
def dropAll : List Nat → BitVec width → BitVec width
  | [], word => word
  | position :: above, word => dropBit position (dropAll above word)

/-- With room at all positions, the lowest first. -/
def openAll : List Nat → BitVec width → BitVec width
  | [], word => word
  | position :: above, word => openAll above (openBit position word)

/-- The same with the lowest first: every position has moved down by the bits taken out. -/
def dropFrom : Nat → List Nat → BitVec width → BitVec width
  | _, [], word => word
  | gone, position :: above, word => dropFrom (gone + 1) above (dropBit (position - gone) word)

abbrev Ascending (positions : List Nat) : Prop := positions.Pairwise (· < ·)

theorem dropBit_comm {high : Nat} (order : low < high) (word : BitVec width) :
    dropBit (high - 1) (dropBit low word) = dropBit low (dropBit high word) := by
  apply BitVec.eq_of_getLsbD_eq
  intro index bound
  simp only [getLsbD_dropBit]
  split
  next below =>
    split
    next lower => rw [if_pos (by omega)]
    next higher => rw [if_pos (by omega)]
  next above => rw [if_neg (by omega), if_neg (by omega), if_neg (by omega)]

theorem dropAll_dropBit (below : ∀ high ∈ positions, low < high) (word : BitVec width) :
    dropAll (positions.map (· - 1)) (dropBit low word) = dropBit low (dropAll positions word) := by
  induction positions with
  | nil => rfl
  | cons position _ ih =>
    rw [map_cons, dropAll, ih fun high member => below high (mem_cons_of_mem _ member),
      dropBit_comm (below position mem_cons_self), dropAll]

theorem dropFrom_eq (ascending : Ascending positions) {gone : Nat} (room : ∀ position ∈ positions, gone ≤ position)
    (word : BitVec width) : dropFrom gone positions word = dropAll (positions.map (· - gone)) word := by
  induction positions generalizing gone word with
  | nil => rfl
  | cons position above ih =>
    obtain ⟨below, ascending⟩ := pairwise_cons.mp ascending
    have here := room position mem_cons_self
    have moved : above.map (· - (gone + 1)) = (above.map (· - gone)).map (· - 1) := by
      rw [map_map]
      apply map_congr_left
      intro high _
      exact Nat.sub_sub high gone 1 |>.symm
    rw [dropFrom, ih ascending, moved, dropAll_dropBit, map_cons, dropAll]
    · intro high member
      obtain ⟨other, inside, rfl⟩ := mem_map.mp member
      have order := below other inside
      omega
    · intro high member
      have order := below high member
      omega

theorem Agree.dropAll (agree : Agree (positions ++ gaps) first second) (ascending : Ascending positions)
    (below : ∀ gap ∈ gaps, ∀ position ∈ positions, gap < position) :
    Agree gaps (dropAll positions first) (dropAll positions second) := by
  induction positions generalizing gaps with
  | nil => exact agree
  | cons position above ih =>
    obtain ⟨order, ascending⟩ := pairwise_cons.mp ascending
    have rest : Agree (position :: gaps) (BitGaps.dropAll above first) (BitGaps.dropAll above second) := by
      apply ih _ ascending
      · intro gap member high inside
        obtain rfl | member := mem_cons.mp member
        · exact order high inside
        · exact below gap member high (mem_cons_of_mem _ inside)
      · apply agree.mono
        intro gap member
        simp only [cons_append, mem_cons, mem_append] at member ⊢
        tauto
    exact rest.dropBit fun gap member => below gap member position mem_cons_self

theorem dropAll_congr (ascending : Ascending positions) (agree : Agree positions first second) :
    dropAll positions first = dropAll positions second := by
  have rest : Agree [] (dropAll positions first) (dropAll positions second) := by
    apply Agree.dropAll _ ascending
    · intro gap member
      cases member
    · rw [append_nil]
      exact agree
  exact rest.eq

theorem Agree.openAll (agree : Agree gaps first second) (ascending : Ascending positions)
    (below : ∀ gap ∈ gaps, ∀ position ∈ positions, gap < position) :
    Agree (positions ++ gaps) (openAll positions first) (openAll positions second) := by
  induction positions generalizing gaps first second with
  | nil => exact agree
  | cons position _ ih =>
    obtain ⟨order, ascending⟩ := pairwise_cons.mp ascending
    have opened := agree.openBit fun gap member => below gap member position mem_cons_self
    have rest := ih opened ascending fun gap member high inside => by
      obtain rfl | member := mem_cons.mp member
      · exact order high inside
      · exact below gap member high (mem_cons_of_mem _ inside)
    apply rest.mono
    intro gap member
    simp only [cons_append, mem_cons, mem_append] at member ⊢
    tauto

theorem openAll_dropAll (ascending : Ascending positions) (word : BitVec width) :
    Agree positions (openAll positions (dropAll positions word)) word := by
  induction positions with
  | nil => exact Agree.refl _ _
  | cons position above ih =>
    obtain ⟨order, ascending⟩ := pairwise_cons.mp ascending
    have opened := (openBit_dropBit position (dropAll above word)).openAll ascending fun gap member high inside => by
      rw [mem_singleton.mp member]
      exact order high inside
    have lower : Agree (position :: above) _ _ := opened.mono fun gap member => by
      simp only [mem_append, mem_cons] at member ⊢
      tauto
    exact lower.trans ((ih ascending).mono fun gap member => mem_cons_of_mem _ member)

theorem dropAll_openAll (short : Short bits word) (room : bits + positions.length ≤ width) :
    dropAll positions (openAll positions word) = word := by
  induction positions generalizing bits word with
  | nil => rfl
  | cons position _ ih =>
    rw [length_cons] at room
    rw [openAll, dropAll, ih (short.openBit position) (by omega)]
    exact dropBit_openBit short (by omega)

theorem ascending_room {above : List Nat} {bound : Nat} (ascending : Ascending (position :: above))
    (below : ∀ other ∈ position :: above, other < bound) : position + above.length < bound := by
  induction above generalizing position with
  | nil => exact below position mem_cons_self
  | cons next _ ih =>
    obtain ⟨order, ascending⟩ := pairwise_cons.mp ascending
    have room := ih ascending fun other member => below other (mem_cons_of_mem _ member)
    have less := order next mem_cons_self
    rw [length_cons]
    omega

theorem getLsbD_dropAll (word : BitVec width) {index : Nat} (ascending : Ascending positions)
    (below : ∀ position ∈ positions, position < index + positions.length) :
    (dropAll positions word).getLsbD index = word.getLsbD (index + positions.length) := by
  induction positions generalizing index with
  | nil => rfl
  | cons _ _ ih =>
    have room := ascending_room ascending below
    rw [length_cons] at room below
    rw [dropAll, getLsbD_dropBit, if_neg (by omega), ih (pairwise_cons.mp ascending).2, length_cons]
    · congr 1
      omega
    · intro other member
      have bound := below other (mem_cons_of_mem _ member)
      omega

theorem dropAll_source (positions : List Nat) (word : BitVec width) (index : Nat) :
    ∃ source, source ≤ index + positions.length ∧ (dropAll positions word).getLsbD index = word.getLsbD source := by
  induction positions generalizing index with
  | nil => exact ⟨index, Nat.le_refl _, rfl⟩
  | cons _ _ ih =>
    rw [dropAll, getLsbD_dropBit, length_cons]
    split
    · obtain ⟨source, bound, same⟩ := ih index
      exact ⟨source, by omega, same⟩
    · obtain ⟨source, bound, same⟩ := ih (index + 1)
      exact ⟨source, by omega, same⟩

theorem dropAll_div (word : BitVec width) (low : Nat) (ascending : Ascending positions)
    (below : ∀ position ∈ positions, position < low + positions.length) :
    (dropAll positions word).toNat / 2 ^ low = word.toNat / 2 ^ (low + positions.length) := by
  apply Nat.eq_of_testBit_eq
  intro index
  rw [Nat.testBit_div_two_pow, Nat.testBit_div_two_pow]
  have bits : (dropAll positions word).getLsbD (index + low) = word.getLsbD (index + low + positions.length) := by
    apply getLsbD_dropAll word ascending
    intro position member
    have bound := below position member
    omega
  rw [Nat.add_assoc] at bits
  exact bits

theorem dvd_iff_testBit {value : Nat} : 2 ^ bits ∣ value ↔ ∀ index < bits, value.testBit index = false := by
  constructor
  · rintro ⟨_, rfl⟩ index below
    rw [Nat.testBit_two_pow_mul]
    simp [Nat.not_le.mpr below]
  · intro zero
    apply Nat.dvd_of_mod_eq_zero
    apply Nat.eq_of_testBit_eq
    intro index
    rw [Nat.testBit_mod_two_pow, Nat.zero_testBit]
    by_cases below : index < bits
    · rw [zero index below, Bool.and_false]
    · simp [below]

theorem dvd_dropAll (zero : 2 ^ (low + positions.length) ∣ word.toNat) : 2 ^ low ∣ (dropAll positions word).toNat := by
  rw [dvd_iff_testBit] at zero ⊢
  intro index below
  obtain ⟨source, _, same⟩ := dropAll_source positions word index
  exact same.trans (zero source (by omega))

end ImcGem5.Lib.BitGaps

import Mathlib.InformationTheory.Coding.KraftMcMillan

/-! Binary prefix codes, and what their lengths have to satisfy. -/

namespace ImcGem5.Lib
open List Multiset Finset

universe u

variable {α : Type u}

/-- No word of the items is the beginning of another one's. -/
def PrefixFree (items : Multiset α) (code : α → List Bool) : Prop :=
  ∀ first ∈ items, ∀ second ∈ items, code first <+: code second → first = second

theorem prefixFree_uniquelyDecodable {words : Set (List Bool)} (empty : [] ∉ words)
    (free : ∀ first ∈ words, ∀ second ∈ words, first <+: second → first = second) :
    InformationTheory.UniquelyDecodable words := by
  intro firsts
  induction firsts with
  | nil =>
    intro seconds _ within same
    cases seconds with
    | nil => rfl
    | cons second =>
      have nothing : second = [] := (append_eq_nil_iff.mp same.symm).1
      exact absurd (nothing ▸ within second List.mem_cons_self) empty
  | cons first firsts ih =>
    intro seconds inside within same
    cases seconds with
    | nil =>
      have nothing : first = [] := (append_eq_nil_iff.mp same).1
      exact absurd (nothing ▸ inside first List.mem_cons_self) empty
    | cons second seconds =>
      rw [flatten_cons, flatten_cons] at same
      obtain ⟨here, others⟩ := List.forall_mem_cons.mp inside
      obtain ⟨there, more⟩ := List.forall_mem_cons.mp within
      have agree : first = second := by
        rcases prefix_or_prefix_of_prefix (prefix_append first firsts.flatten) (same ▸ prefix_append second seconds.flatten)
          with before | before
        · exact free first here second there before
        · exact (free second there first here before).symm
      subst agree
      rw [ih seconds others more (append_cancel_left same)]

/-- The lengths fit under the root of a binary tree. -/
def Kraft (lengths : Multiset ℕ) : Prop := (lengths.map fun length => (1 / 2 : ℝ) ^ length).sum ≤ 1

theorem PrefixFree.kraft {items : Multiset α} {code : α → List Bool} (distinct : items.Nodup) (free : PrefixFree items code) :
    Kraft (items.map fun item => (code item).length) := by
  classical
  let all : Finset α := ⟨items, distinct⟩
  have injective : Set.InjOn code all := fun first here second there same =>
    free first here second there (same ▸ prefix_rfl)
  have sums : ((items.map fun item => (code item).length).map fun length => (1 / 2 : ℝ) ^ length).sum =
      ∑ word ∈ all.image code, (1 / 2 : ℝ) ^ word.length := by
    rw [sum_image injective, Multiset.map_map]
    rfl
  rw [Kraft, sums]
  by_cases empty : [] ∈ all.image code
  · have alone : all.image code = {[]} := by
      obtain ⟨item, here, none⟩ := mem_image.mp empty
      refine eq_singleton_iff_unique_mem.mpr ⟨empty, fun word member => ?_⟩
      obtain ⟨other, there, rfl⟩ := mem_image.mp member
      have same := free item here other there (none ▸ nil_prefix)
      rw [← same, none]
    rw [alone, Finset.sum_singleton, length_nil, pow_zero]
  · have decodable : InformationTheory.UniquelyDecodable (all.image code : Set (List Bool)) := by
      refine prefixFree_uniquelyDecodable empty ?_
      intro first here second there before
      obtain ⟨item, inside, rfl⟩ := mem_image.mp here
      obtain ⟨other, within, rfl⟩ := mem_image.mp there
      rw [free item inside other within before]
    have bound := InformationTheory.kraft_mcmillan_inequality decodable
    rwa [Fintype.card_bool, Nat.cast_ofNat] at bound

theorem exists_parts {lengths : Multiset ℕ} {limit : ℕ} (short : ∀ length ∈ lengths, length ≤ limit) :
    ∃ parts : ℕ, (lengths.map fun length => (1 / 2 : ℝ) ^ length).sum = parts * (1 / 2 : ℝ) ^ limit := by
  induction lengths using Multiset.induction with
  | empty => exact ⟨0, by rw [Multiset.map_zero, sum_zero, Nat.cast_zero, zero_mul]⟩
  | cons length _ ih =>
    rw [Multiset.forall_mem_cons] at short
    obtain ⟨parts, same⟩ := ih short.2
    refine ⟨2 ^ (limit - length) + parts, ?_⟩
    rw [Multiset.map_cons, Multiset.sum_cons, same, Nat.cast_add, add_mul, Nat.cast_pow, Nat.cast_ofNat]
    congr 1
    obtain ⟨_, rfl⟩ := Nat.exists_eq_add_of_le short.1
    rw [Nat.add_sub_cancel_left, pow_add, mul_left_comm, ← mul_pow]
    norm_num

theorem Kraft.siblings {lengths : Multiset ℕ} {longest next : ℕ} (kraft : Kraft (longest ::ₘ next ::ₘ lengths)) (order : next ≤ longest)
    (short : ∀ length ∈ lengths, length ≤ next) : ∃ parent, next = parent + 1 ∧ Kraft (parent ::ₘ lengths) := by
  obtain ⟨parts, same⟩ := exists_parts short
  rw [Kraft, Multiset.map_cons, Multiset.sum_cons, Multiset.map_cons, Multiset.sum_cons, same] at kraft
  have unit : (2 : ℝ) ^ next * (1 / 2) ^ next = 1 := by
    rw [← mul_pow]
    norm_num
  have positive : (0 : ℝ) < (1 / 2) ^ longest := by positivity
  have room : parts + 1 < 2 ^ next := by
    have below : ((parts : ℝ) + 1) * (1 / 2) ^ next < 2 ^ next * (1 / 2) ^ next := by
      rw [unit]
      linarith
    have cast := lt_of_mul_lt_mul_right below (by positivity)
    exact_mod_cast cast
  cases next with
  | zero => omega
  | succ parent =>
    refine ⟨parent, rfl, ?_⟩
    have cast : ((parts + 2 : ℕ) : ℝ) ≤ ((2 ^ (parent + 1) : ℕ) : ℝ) := Nat.cast_le.mpr room
    push_cast at cast
    rw [Kraft, Multiset.map_cons, Multiset.sum_cons, same]
    calc (1 / 2 : ℝ) ^ parent + parts * (1 / 2) ^ (parent + 1) = (parts + 2) * (1 / 2) ^ (parent + 1) := by
          rw [pow_succ]
          ring
      _ ≤ 2 ^ (parent + 1) * (1 / 2) ^ (parent + 1) := mul_le_mul_of_nonneg_right cast (by positivity)
      _ = 1 := unit

end ImcGem5.Lib

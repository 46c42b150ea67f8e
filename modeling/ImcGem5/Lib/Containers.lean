import Mathlib.Algebra.GroupWithZero.Nat
import Mathlib.Order.Basic
import Mathlib.Data.List.FinRange
import Mathlib.Tactic.Common

/-! Two pieces of the C++ library: a map kept in the order of its keys, as a list, and the
search for the first largest element of a vector. -/

namespace ImcGem5.Lib
open List

universe u

variable {α : Type u} {key : Nat} {value : α} {entries : List (Nat × α)}

def InKeyOrder (entries : List (Nat × α)) : Prop := entries.Pairwise fun earlier later => earlier.1 < later.1

/-- map[key] = value -/
def assign (key : Nat) (value : α) : List (Nat × α) → List (Nat × α)
  | [] => [(key, value)]
  | first :: rest =>
    if first.1 < key then first :: assign key value rest
    else if first.1 = key then (key, value) :: rest
    else (key, value) :: first :: rest

theorem assign_ne_nil (key : Nat) (value : α) (entries : List (Nat × α)) : assign key value entries ≠ [] := by
  cases entries with
  | nil => simp [assign]
  | cons =>
    unfold assign
    split
    · simp
    · split <;> simp

theorem mem_assign {entry : Nat × α} (member : entry ∈ assign key value entries) : entry = (key, value) ∨ entry ∈ entries := by
  induction entries with
  | nil => exact .inl (by simpa [assign] using member)
  | cons _ _ ih =>
    unfold assign at member
    split at member
    · obtain same | later := mem_cons.mp member
      · exact .inr (by simp [same])
      · rcases ih later with new | old
        · exact .inl new
        · exact .inr (mem_cons_of_mem _ old)
    · split at member
      · rcases mem_cons.mp member with new | old
        · exact .inl new
        · exact .inr (mem_cons_of_mem _ old)
      · rcases mem_cons.mp member with new | old
        · exact .inl new
        · exact .inr old

theorem InKeyOrder.assign (inOrder : InKeyOrder entries) (key : Nat) (value : α) : InKeyOrder (assign key value entries) := by
  induction entries with
  | nil => exact pairwise_singleton _ _
  | cons _ _ ih =>
    obtain ⟨before, later⟩ := pairwise_cons.mp inOrder
    unfold Lib.assign
    split
    next below =>
      apply pairwise_cons.mpr
      refine ⟨?_, ih later⟩
      intro entry member
      rcases mem_assign member with rfl | old
      · exact below
      · exact before entry old
    next notBelow =>
      split
      next same =>
        apply pairwise_cons.mpr
        refine ⟨?_, later⟩
        intro entry member
        have above := before entry member
        change key < entry.1
        omega
      next other =>
        apply pairwise_cons.mpr
        refine ⟨?_, inOrder⟩
        intro entry member
        change key < entry.1
        rcases mem_cons.mp member with rfl | old
        · omega
        · have above := before entry old
          omega

theorem assign_append (above : ∀ entry ∈ entries, entry.1 < key) : assign key value entries = entries ++ [(key, value)] := by
  induction entries with
  | nil => rfl
  | cons first _ ih =>
    unfold assign
    rw [if_pos (above first mem_cons_self), ih (fun entry member => above entry (mem_cons_of_mem _ member))]
    rfl

theorem assign_last {key : Nat} {value : α} {entries : List (Nat × α)} (inOrder : InKeyOrder entries)
    (bounded : ∀ entry ∈ entries, entry.1 ≤ key) : ∃ front, assign key value entries = front ++ [(key, value)] ∧
      (entries = front ∨ ∃ old, entries = front ++ [(key, old)]) := by
  induction entries with
  | nil => exact ⟨[], rfl, .inl rfl⟩
  | cons first rest ih =>
    obtain ⟨before, later⟩ := pairwise_cons.mp inOrder
    have low := bounded first mem_cons_self
    unfold assign
    split
    next below =>
      obtain ⟨front, shape, old⟩ := ih later fun entry member => bounded entry (mem_cons_of_mem _ member)
      refine ⟨first :: front, by rw [shape]; rfl, ?_⟩
      obtain rfl | ⟨old, rfl⟩ := old
      · exact .inl rfl
      · exact .inr ⟨old, rfl⟩
    next notBelow =>
      have same : first.1 = key := by omega
      have alone : rest = [] := by
        apply eq_nil_iff_forall_not_mem.mpr
        intro entry member
        have above := before entry member
        have under := bounded entry (mem_cons_of_mem _ member)
        omega
      rw [if_pos same, alone]
      exact ⟨[], rfl, .inr ⟨first.2, by rw [← same]; rfl⟩⟩

theorem assign_getLast (inOrder : InKeyOrder entries)
    (bounded : ∀ entry ∈ entries, entry.1 ≤ key) : (assign key value entries).getLast? = some (key, value) := by
  obtain ⟨front, whole, _⟩ := assign_last inOrder bounded
  rw [whole, getLast?_concat]

theorem assign_assign (key : Nat) (first second : α) (entries : List (Nat × α)) :
    assign key second (assign key first entries) = assign key second entries := by
  induction entries with
  | nil => simp [assign]
  | cons entry _ ih =>
    by_cases below : entry.1 < key
    · simp only [assign, if_pos below, ih]
    · by_cases same : entry.1 = key
      · simp [assign, same]
      · simp [assign, below, same]

theorem assign_head {first : Nat × α} {rest : List (Nat × α)} (bounded : first.1 ≤ key) :
    ((assign key value (first :: rest)).head?.map Prod.fst) = some first.1 := by
  unfold assign
  split
  next => rfl
  next notBelow =>
    have same : first.1 = key := by omega
    rw [if_pos same, same]
    rfl

variable [LinearOrder α] {n : Nat} {values : Fin n → α}

/-- The comparison of max_element: only a larger element takes the place of the largest. -/
def larger (values : Fin n → α) (largest : Option (Fin n)) (next : Fin n) : Option (Fin n) :=
  match largest with
  | none => some next
  | some found => if values found < values next then some next else some found

def maxElement (values : Fin n → α) : Option (Fin n) := (List.finRange n).foldl (larger values) none

theorem larger_isSome (values : Fin n → α) (largest : Option (Fin n)) (next : Fin n) :
    ∃ found, larger values largest next = some found ∧ values next ≤ values found ∧
      ∀ before, largest = some before → values before ≤ values found := by
  cases largest with
  | none => exact ⟨next, rfl, le_rfl, nofun⟩
  | some before =>
    by_cases below : values before < values next
    · refine ⟨next, if_pos below, le_rfl, ?_⟩
      intro other same
      cases same
      exact below.le
    · refine ⟨before, if_neg below, not_lt.mp below, ?_⟩
      intro other same
      cases same
      exact le_rfl

theorem foldl_larger (values : Fin n → α) (items : List (Fin n)) (largest : Option (Fin n)) :
    (∀ found, items.foldl (larger values) largest = some found →
      (∀ before, largest = some before → values before ≤ values found) ∧ ∀ item ∈ items, values item ≤ values found) ∧
    (items.foldl (larger values) largest = none → largest = none ∧ items = []) := by
  induction items generalizing largest with
  | nil =>
    refine ⟨?_, fun none => ⟨none, rfl⟩⟩
    intro found same
    refine ⟨?_, nofun⟩
    intro before earlier
    cases same.symm.trans earlier
    exact le_rfl
  | cons item _ ih =>
    obtain ⟨middle, taken, above, kept⟩ := larger_isSome values largest item
    rw [foldl_cons, taken]
    obtain ⟨found, absent⟩ := ih (some middle)
    constructor
    · intro last same
      obtain ⟨top, rest⟩ := found last same
      have dominated := top middle rfl
      refine ⟨fun before earlier => (kept before earlier).trans dominated, ?_⟩
      intro other member
      rcases mem_cons.mp member with rfl | later
      · exact above.trans dominated
      · exact rest other later
    · intro none
      cases (absent none).1

theorem maxElement_le {found : Fin n} (largest : maxElement values = some found) (i : Fin n) : values i ≤ values found :=
  ((foldl_larger values _ none).1 found largest).2 i (mem_finRange i)

theorem foldl_larger_flat {first : Fin n} (items : List (Fin n)) (flat : ∀ item ∈ items, values item ≤ values first) :
    items.foldl (larger values) (some first) = some first := by
  induction items with
  | nil => rfl
  | cons item _ ih =>
    have kept : larger values (some first) item = some first := if_neg (not_lt.mpr (flat item mem_cons_self))
    rw [foldl_cons, kept]
    exact ih fun other member => flat other (mem_cons_of_mem _ member)

theorem maxElement_flat {found : Fin n} (largest : maxElement values = some found)
    (flat : ∀ i, values found ≤ values i) : found.val = 0 := by
  cases n with
  | zero => exact found.elim0
  | succ n =>
    have kept := foldl_larger_flat ((List.finRange n).map Fin.succ) fun item _ => (maxElement_le largest item).trans (flat 0)
    have first : maxElement values = some 0 := by
      unfold maxElement
      rw [finRange_succ]
      exact kept
    rw [largest] at first
    cases first
    rfl

theorem maxElement_isSome (values : Fin n → α) (i : Fin n) : ∃ found, maxElement values = some found := by
  cases largest : maxElement values with
  | some found => exact ⟨found, rfl⟩
  | none =>
    have empty := ((foldl_larger values _ none).2 largest).2
    have member := mem_finRange i
    rw [empty] at member
    cases member

end ImcGem5.Lib

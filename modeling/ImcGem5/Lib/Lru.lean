import Mathlib.Algebra.GroupWithZero.Nat
import Mathlib.Data.List.Basic
import Mathlib.Tactic.Common

/-! Fully associative caches that replace what was used least recently. Caches of every
capacity are beginnings of one list, that of all keys by when they were last used, so a
larger cache has what a smaller one has. -/

namespace ImcGem5.Lib.Lru
open List

variable {α : Type} [DecidableEq α] {key : α} {recent : List α} {small large : Nat}

/-- A cache after an access, what was used last being first. -/
def access (capacity : Nat) (cache : List α) (key : α) : List α :=
  if key ∈ cache then key :: cache.erase key else (key :: cache).take capacity

def hits (capacity : Nat) : List α → List α → Nat
  | _, [] => 0
  | cache, key :: accesses => (if key ∈ cache then 1 else 0) + hits capacity (access capacity cache key) accesses

def touch (recent : List α) (key : α) : List α := key :: recent.erase key

theorem take_erase_of_mem {count : Nat} (inside : key ∈ recent.take (count + 1)) :
    (recent.erase key).take count = (recent.take (count + 1)).erase key := by
  induction recent generalizing count with
  | nil => cases inside
  | cons first recent ih =>
    by_cases same : first = key
    · subst same
      simp
    · have apart : ¬ (first == key) = true := by simpa using same
      rw [take_succ_cons, erase_cons_tail apart, erase_cons_tail apart]
      have later : key ∈ recent.take count := by simpa [Ne.symm same] using inside
      cases count with
      | zero => simp at later
      | succ => rw [take_succ_cons, ih later]

theorem take_erase_of_not_mem {count : Nat} (outside : key ∉ recent.take (count + 1)) :
    (recent.erase key).take count = recent.take count := by
  induction recent generalizing count with
  | nil => rfl
  | cons first recent ih =>
    have apart : first ≠ key := by
      rintro rfl
      simp at outside
    rw [erase_cons_tail (by simpa using apart)]
    cases count with
    | zero => rfl
    | succ count =>
      have later : key ∉ recent.take (count + 1) := fun member => outside (by simp [member])
      rw [take_succ_cons, take_succ_cons, ih later]

theorem take_touch {capacity : Nat} (positive : 0 < capacity) (recent : List α) (key : α) :
    (touch recent key).take capacity = access capacity (recent.take capacity) key := by
  obtain ⟨count, rfl⟩ := Nat.exists_eq_add_one.mpr positive
  unfold touch access
  rw [take_succ_cons]
  split
  next inside => rw [take_erase_of_mem inside]
  next outside => rw [take_erase_of_not_mem outside, take_succ_cons, take_take, Nat.min_eq_left (Nat.le_succ count)]

/-- Every access that finds its key among so many recent ones finds it among fewer. -/
def Near (small large : Nat) (recent accesses : List α) : Prop := ∀ past key rest, accesses = past ++ key :: rest →
  key ∈ (past.foldl touch recent).take large → key ∈ (past.foldl touch recent).take small

theorem near_cons {accesses : List α} : Near small large recent (key :: accesses) ↔
    (key ∈ recent.take large → key ∈ recent.take small) ∧ Near small large (touch recent key) accesses := by
  constructor
  · intro near
    refine ⟨near [] key accesses rfl, fun past other rest split => ?_⟩
    exact near (key :: past) other rest (by rw [split]; rfl)
  · intro ⟨here, later⟩ past other rest split
    cases past with
    | nil =>
      obtain ⟨rfl, rfl⟩ := List.cons.inj split
      exact here
    | cons _ past =>
      obtain ⟨rfl, remaining⟩ := List.cons.inj split
      exact later past other rest remaining

theorem hits_le (positive : 0 < small) (le : small ≤ large) (recent accesses : List α) :
    hits small (recent.take small) accesses ≤ hits large (recent.take large) accesses := by
  induction accesses generalizing recent with
  | nil => exact Nat.le_refl 0
  | cons key _ ih =>
    simp only [hits, ← take_touch positive, ← take_touch (Nat.lt_of_lt_of_le positive le)]
    have rest := ih (touch recent key)
    by_cases inside : key ∈ recent.take small
    · simp only [inside, (take_sublist_take_left le).subset inside, if_true]
      omega
    · simp only [inside, if_false]
      omega

theorem hits_eq_iff (positive : 0 < small) (le : small ≤ large) (recent accesses : List α) :
    hits small (recent.take small) accesses = hits large (recent.take large) accesses ↔ Near small large recent accesses := by
  induction accesses generalizing recent with
  | nil => exact ⟨fun _ _ key rest split => absurd split (by simp), fun _ => rfl⟩
  | cons key accesses ih =>
    simp only [hits, ← take_touch positive, ← take_touch (Nat.lt_of_lt_of_le positive le)]
    rw [near_cons, ← ih]
    have rest := hits_le positive le (touch recent key) accesses
    by_cases inside : key ∈ recent.take small
    · simp only [inside, (take_sublist_take_left le).subset inside, if_true, implies_true, true_and]
      omega
    · by_cases larger : key ∈ recent.take large
      · simp only [inside, larger, if_true, if_false, true_implies, false_and, iff_false]
        omega
      · simp only [inside, larger, if_false, false_implies, true_and]
        omega

end ImcGem5.Lib.Lru

import ImcGem5.Lib.Runs
import Mathlib.Logic.Function.Basic

/-! Programs over objects in memory that refer to each other by address. The null
pointer is `none`. -/

namespace ImcGem5.Lib
open Function

universe u

/-- Why a program over a heap does not return: it followed a pointer that leads
nowhere, a loop did not end in the turns it was given, or the program gave up. -/
inductive Fault where
  | wild
  | stuck
  | assertion (condition : String)
  | panic (message : String)
  deriving DecidableEq, Repr

def Fault.ensure (condition : Bool) (text : String) : Except Fault Unit :=
  if condition then .ok () else .error (.assertion text)

/-- No address from `next` on was ever handed out. -/
@[ext] structure Heap (α : Type u) where
  cell : Nat → Option α
  next : Nat

namespace Heap

variable {α : Type u} {heap : Heap α} {address : Nat} {object : α}

def read (heap : Heap α) (address : Nat) : Except Fault α :=
  match heap.cell address with
  | some object => .ok object
  | none => .error .wild

def write (heap : Heap α) (address : Nat) (object : α) : Heap α :=
  { heap with cell := update heap.cell address (some object) }

def modify (heap : Heap α) (address : Nat) (assign : α → α) : Except Fault (Heap α) := do
  let object ← heap.read address
  return heap.write address (assign object)

def alloc (heap : Heap α) (object : α) : Heap α × Nat :=
  ({ cell := update heap.cell heap.next (some object), next := heap.next + 1 }, heap.next)

def free (heap : Heap α) (address : Nat) : Heap α :=
  { heap with cell := update heap.cell address none }

def Bounded (heap : Heap α) : Prop := ∀ address object, heap.cell address = some object → address < heap.next

theorem read_eq_ok : heap.read address = .ok object ↔ heap.cell address = some object := by
  unfold read
  cases heap.cell address with
  | none => exact ⟨nofun, nofun⟩
  | some found => rw [Except.ok.injEq, Option.some.injEq]

theorem read_of_cell (held : heap.cell address = some object) : heap.read address = .ok object := read_eq_ok.mpr held

theorem modify_of_cell (held : heap.cell address = some object)
    (assign : α → α) : heap.modify address assign = .ok (heap.write address (assign object)) := by
  rw [modify, read_of_cell held]
  rfl

@[simp] theorem write_cell (heap : Heap α) (address other : Nat) (object : α) :
    (heap.write address object).cell other = if other = address then some object else heap.cell other := by
  simp [write, update_apply]

@[simp] theorem write_next (heap : Heap α) (address : Nat) (object : α) : (heap.write address object).next = heap.next := rfl

@[simp] theorem alloc_cell (heap : Heap α) (object : α) (other : Nat) :
    (heap.alloc object).1.cell other = if other = heap.next then some object else heap.cell other := by
  simp [alloc, update_apply]

@[simp] theorem alloc_next (heap : Heap α) (object : α) : (heap.alloc object).1.next = heap.next + 1 := rfl

@[simp] theorem alloc_address (heap : Heap α) (object : α) : (heap.alloc object).2 = heap.next := rfl

@[simp] theorem free_cell (heap : Heap α) (address other : Nat) :
    (heap.free address).cell other = if other = address then none else heap.cell other := by
  simp [free, update_apply]

theorem write_write (heap : Heap α) (address : Nat) (object after : α) :
    (heap.write address object).write address after = heap.write address after := by
  refine Heap.ext (funext fun _ => ?_) rfl
  simp only [write_cell]
  split <;> rfl

theorem free_free (heap : Heap α) (address other : Nat) : (heap.free address).free other = (heap.free other).free address := by
  refine Heap.ext (funext fun _ => ?_) rfl
  simp only [free_cell]
  split <;> split <;> rfl

theorem read_of_free {gone : Nat} (ran : (heap.free gone).read address = .ok object) : heap.read address = .ok object := by
  rw [read_eq_ok, free_cell] at ran
  split at ran
  · cases ran
  · exact read_of_cell ran

theorem modify_of_free {after : Heap α} {gone : Nat} {assign : α → α} (ran : (heap.free gone).modify address assign = .ok after) :
    ∃ whole, heap.modify address assign = .ok whole ∧ whole.free gone = after := by
  obtain ⟨_, found, wrote⟩ := of_bind ran
  cases wrote
  refine ⟨_, modify_of_cell (read_eq_ok.mp (read_of_free found)) assign, Heap.ext (funext fun other => ?_) rfl⟩
  rw [read_eq_ok, free_cell] at found
  have present : address ≠ gone := by
    intro same
    rw [if_pos same] at found
    cases found
  simp only [write_cell, free_cell]
  by_cases here : other = address
  · rw [if_pos here, if_pos here, if_neg (here ▸ present)]
  · rw [if_neg here, if_neg here]

theorem Bounded.write {old : α} (bounded : heap.Bounded) (held : heap.cell address = some old) (object : α) :
    (heap.write address object).Bounded := by
  intro other found here
  rw [write_cell] at here
  split at here
  · next same => exact same ▸ bounded address old held
  · exact bounded other found here

theorem Bounded.alloc (bounded : heap.Bounded) (object : α) : (heap.alloc object).1.Bounded := by
  intro other found here
  rw [alloc_cell] at here
  split at here
  · next same => exact same ▸ Nat.lt_succ_self _
  · exact Nat.lt_succ_of_lt (bounded other found here)

theorem Bounded.free (bounded : heap.Bounded) (address : Nat) : (heap.free address).Bounded := by
  intro other found here
  rw [free_cell] at here
  split at here
  · cases here
  · exact bounded other found here

theorem Bounded.fresh (bounded : heap.Bounded) : heap.cell heap.next = none := by
  by_contra held
  obtain ⟨_, held⟩ := Option.ne_none_iff_exists'.mp held
  exact Nat.lt_irrefl _ (bounded _ _ held)

end Heap

end ImcGem5.Lib

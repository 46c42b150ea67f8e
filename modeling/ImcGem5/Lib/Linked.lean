import ImcGem5.Lib.Heap
import Mathlib.Data.List.Perm.Subperm

/-! Lists that are linked by a field of their objects. What such a list says about the
heap it says about that field only, so writes elsewhere, or to other fields, keep it. -/

namespace ImcGem5.Lib.Heap
open List

universe u v

variable {α : Type u} {β : Type v} {heap after : Heap α} {address : Nat} {get : α → β} {list : List Nat}

def field (heap : Heap α) (get : α → β) (address : Nat) : Option β := (heap.cell address).map get

theorem field_of_cell {object : α} (held : heap.cell address = some object) (get : α → β) : heap.field get address = some (get object) := by
  rw [field, held]
  rfl

theorem field_eq_some {value : β} (is : heap.field get address = some value) :
    ∃ object, heap.cell address = some object ∧ get object = value := Option.map_eq_some_iff.mp is

@[simp] theorem field_write (heap : Heap α) (address other : Nat) (object : α) (get : α → β) :
    (heap.write address object).field get other = if other = address then some (get object) else heap.field get other := by
  rw [field, write_cell]
  split <;> rfl

theorem field_write_of_same {object object' : α} (held : heap.cell address = some object)
    (same : get object' = get object) (other : Nat) : (heap.write address object').field get other = heap.field get other := by
  rw [field_write]
  split
  · next here => rw [here, field_of_cell held, same]
  · rfl

theorem field_congr {through : α → α}
    (same : after.field through address = heap.field through address) (blind : ∀ object, get (through object) = get object) :
    after.field get address = heap.field get address := by
  have mapped := congrArg (Option.map get) same
  have composed : get ∘ through = get := funext blind
  rw [field, field, Option.map_map, Option.map_map, composed] at mapped
  exact mapped

def Linked (heap : Heap α) (link : α → Option Nat) : List Nat → Option Nat → Prop
  | [], start => start = none
  | address :: rest, start => start = some address ∧ ∃ onward, heap.field link address = some onward ∧ Linked heap link rest onward

variable {link : α → Option Nat}

theorem Linked.start {start : Option Nat} (linked : heap.Linked link list start) : start = list.head? := by
  cases list with
  | nil => exact linked
  | cons => exact linked.1

theorem Linked.frame {start : Option Nat} (linked : heap.Linked link list start)
    (same : ∀ address ∈ list, after.field link address = heap.field link address) : after.Linked link list start := by
  induction list generalizing start with
  | nil => exact linked
  | cons address _ ih =>
    obtain ⟨here, onward, points, linked⟩ := linked
    refine ⟨here, onward, ?_, ih linked fun other member => same other (mem_cons_of_mem _ member)⟩
    rw [same address mem_cons_self]
    exact points

theorem Linked.splice {before rest fresh : List Nat} {last : Nat} {start onward : Option Nat}
    (linked : heap.Linked link (before ++ last :: rest) start)
    (same : ∀ address ∈ before, after.field link address = heap.field link address)
    (points : after.field link last = some onward) (linked' : after.Linked link fresh onward) :
    after.Linked link (before ++ last :: fresh) start := by
  induction before generalizing start with
  | nil => exact ⟨linked.1, onward, points, linked'⟩
  | cons address before ih =>
    obtain ⟨here, next, leads, linked⟩ := linked
    refine ⟨here, next, ?_, ih linked fun other member => same other (mem_cons_of_mem _ member)⟩
    rw [same address mem_cons_self]
    exact leads

theorem Linked.rest {before rest : List Nat} {last : Nat} {start : Option Nat}
    (linked : heap.Linked link (before ++ last :: rest) start) :
    ∃ onward, heap.field link last = some onward ∧ heap.Linked link rest onward := by
  induction before generalizing start with
  | nil => exact linked.2
  | cons address before ih =>
    obtain ⟨_, next, _, linked⟩ := linked
    exact ih linked

theorem Linked.held {start : Option Nat} (linked : heap.Linked link list start)
    (member : address ∈ list) : ∃ object, heap.cell address = some object := by
  obtain ⟨_, rest, rfl⟩ := append_of_mem member
  obtain ⟨_, points, _⟩ := linked.rest
  obtain ⟨object, held, _⟩ := field_eq_some points
  exact ⟨object, held⟩

theorem Bounded.length_le (bounded : heap.Bounded) (distinct : list.Nodup)
    (held : ∀ address ∈ list, ∃ object, heap.cell address = some object) : list.length ≤ heap.next := by
  have inside : list ⊆ range heap.next := by
    intro address member
    obtain ⟨object, found⟩ := held address member
    exact List.mem_range.mpr (bounded address object found)
  have short := (subperm_of_subset distinct inside).length_le
  rwa [length_range] at short

end ImcGem5.Lib.Heap

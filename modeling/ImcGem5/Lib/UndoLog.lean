import Mathlib.Algebra.GroupWithZero.Nat
import Mathlib.Data.List.Basic

/-! A state whose changes are logged, the latest first, so that they can be taken back. Each
entry has a time, and knows the state before it. The changes of one time are written
together; the oldest entries may be dropped for good; and whatever is later than some time
may be rolled back. -/

namespace ImcGem5.Lib.UndoLog
open List

universe u v

variable {σ : Type u} {α : Type v} (time : α → Nat) (back : α → σ → σ)

/-- Takes back what is later than a time. -/
def undo : List α → Nat → σ → σ
  | [], _, state => state
  | entry :: log, bound, state => if bound < time entry then undo log bound (back entry state) else state

/-- The log that is left then. -/
def remaining : List α → Nat → List α
  | [], _ => []
  | entry :: log, bound => if bound < time entry then remaining log bound else entry :: log

def latest (saved : List (Nat × σ)) (bound : Nat) (initial : σ) : σ :=
  match saved with
  | [] => initial
  | (saving, state) :: saved => if saving ≤ bound then state else latest saved bound initial

/-- A log takes its state back to whatever was saved after what was dropped for good. -/
structure Undoes (log : List α) (state : σ) (saved : List (Nat × σ)) (initial : σ) (dropped next : Nat) : Prop where
  returns : ∀ bound, dropped ≤ bound → undo time back log bound state = latest saved bound initial
  earlier : ∀ entry ∈ log, time entry < next

variable {time back} {log new kept old : List α} {state after initial : σ} {saved : List (Nat × σ)} {dropped next now bound : Nat}

theorem undo_of_earlier (earlier : ∀ entry ∈ log, time entry ≤ bound) : undo time back log bound state = state := by
  cases log with
  | nil => rfl
  | cons entry => exact if_neg (Nat.not_lt.mpr (earlier entry mem_cons_self))

theorem undo_append_later (later : ∀ entry ∈ new, bound < time entry) :
    undo time back (new ++ log) bound state = undo time back log bound (new.foldl (fun state entry => back entry state) state) := by
  induction new generalizing state with
  | nil => rfl
  | cons entry _ ih =>
    rw [cons_append, undo, if_pos (later entry mem_cons_self)]
    exact ih fun other member => later other (mem_cons_of_mem _ member)

theorem undo_append_earlier (earlier : ∀ entry ∈ old, time entry ≤ bound) :
    undo time back (kept ++ old) bound state = undo time back kept bound state := by
  induction kept generalizing state with
  | nil => exact undo_of_earlier earlier
  | cons _ _ ih =>
    rw [cons_append, undo, undo]
    split
    · exact ih
    · rfl

theorem undo_remaining (le : dropped ≤ bound) :
    undo time back (remaining time log bound) dropped (undo time back log bound state) = undo time back log dropped state := by
  induction log generalizing state with
  | nil => rfl
  | cons _ _ ih =>
    rw [remaining, undo]
    split
    next later =>
      rw [ih, undo, if_pos (by omega)]
    next => rfl

theorem remaining_earlier (le : bound ≤ now) (state : σ) : undo time back (remaining time log bound) now state = state := by
  induction log with
  | nil => rfl
  | cons _ _ ih =>
    rw [remaining]
    split
    · exact ih
    · exact if_neg (by omega)

theorem mem_remaining {entry : α} (member : entry ∈ remaining time log bound) : entry ∈ log := by
  induction log with
  | nil => exact member
  | cons _ _ ih =>
    rw [remaining] at member
    split at member
    · exact mem_cons_of_mem _ (ih member)
    · exact member

theorem latest_filter (saved : List (Nat × σ)) (limit bound : Nat) (initial : σ) :
    latest (saved.filter fun entry => decide (entry.1 ≤ limit)) bound initial = latest saved (min limit bound) initial := by
  induction saved with
  | nil => rfl
  | cons entry _ ih =>
    by_cases within : entry.1 ≤ limit
    · rw [filter_cons_of_pos (by simpa using within), latest, latest, ih]
      by_cases early : entry.1 ≤ bound
      · rw [if_pos early, if_pos (Nat.le_min.mpr ⟨within, early⟩)]
      · rw [if_neg early, if_neg fun both => early (Nat.le_min.mp both).2]
    · rw [filter_cons_of_neg (by simpa using within), latest, ih, if_neg fun both => within (Nat.le_min.mp both).1]

theorem undoes_initial (state : σ) : Undoes time back [] state [] state 0 0 :=
  ⟨fun _ _ => rfl, fun _ member => absurd member not_mem_nil⟩

theorem Undoes.write (undoes : Undoes time back log state saved initial dropped next) (le : next ≤ now)
    (times : ∀ entry ∈ new, time entry = now) (goesBack : new.foldl (fun state entry => back entry state) after = state) :
    Undoes time back (new ++ log) after ((now, after) :: saved) initial dropped (now + 1) where
  returns bound bounded := by
    rw [latest]
    split
    next reached =>
      apply undo_of_earlier
      intro entry member
      obtain new | old := mem_append.mp member
      · rw [times entry new]
        exact reached
      · have := undoes.earlier entry old
        omega
    next later =>
      rw [undo_append_later, goesBack, undoes.returns bound bounded]
      intro entry member
      rw [times entry member]
      omega
  earlier entry member := by
    obtain new | old := mem_append.mp member
    · rw [times entry new]
      exact Nat.lt_succ_self _
    · have := undoes.earlier entry old
      omega

theorem Undoes.drop (undoes : Undoes time back (kept ++ old) state saved initial dropped next)
    (gone : ∀ entry ∈ old, time entry ≤ now) : Undoes time back kept state saved initial (max dropped now) next where
  returns bound bounded := by
    rw [← undoes.returns bound (by omega), undo_append_earlier]
    intro entry member
    have := gone entry member
    omega
  earlier entry member := undoes.earlier entry (mem_append_left _ member)

theorem Undoes.rollBack (undoes : Undoes time back log state saved initial dropped next) (le : dropped ≤ bound) :
    Undoes time back (remaining time log bound) (undo time back log bound state) (saved.filter fun entry => decide (entry.1 ≤ bound))
      initial dropped next where
  returns other bounded := by
    rw [latest_filter]
    by_cases less : other ≤ bound
    · rw [undo_remaining less, Nat.min_eq_right less]
      exact undoes.returns other bounded
    · rw [remaining_earlier (by omega), Nat.min_eq_left (by omega)]
      exact undoes.returns bound le
  earlier entry member := undoes.earlier entry (mem_remaining member)

end ImcGem5.Lib.UndoLog

import Mathlib.Algebra.GroupWithZero.Nat
import Mathlib.Data.List.Nodup

/-! A line of clients that wait to be served. Clients join at the back, one whose
service came to nothing may return to the front, and only the front is served. -/

namespace ImcGem5.Lib
open List

universe u

inductive Turn (π : Type u) where
  | join (client : π)
  | rejoin (client : π)
  | serve (client : π)
  deriving DecidableEq, Repr

variable {π : Type u} [DecidableEq π]

namespace Turn

def apply (line : List π) : Turn π → Option (List π)
  | .join client => if client ∈ line then none else some (line ++ [client])
  | .rejoin client => if client ∈ line then none else some (client :: line)
  | .serve client =>
    match line with
    | [] => none
    | front :: rest => if front = client then some rest else none

def applyAll : List π → List (Turn π) → Option (List π)
  | line, [] => some line
  | line, turn :: turns => (turn.apply line).bind fun next => applyAll next turns

def enters (client : π) : Turn π → Bool
  | .join other | .rejoin other => other = client
  | .serve _ => false

def isRejoin : Turn π → Bool
  | .rejoin _ => true
  | _ => false

def isServe : Turn π → Bool
  | .serve _ => true
  | _ => false

variable {line final : List π} {turn : Turn π} {turns : List (Turn π)}

theorem applyAll_cons :
    applyAll line (turn :: turns) = some final ↔ ∃ next, turn.apply line = some next ∧ applyAll next turns = some final :=
  Option.bind_eq_some_iff

theorem applyAll_singleton (line : List π) (turn : Turn π) : applyAll line [turn] = turn.apply line := by
  simp [applyAll]

theorem applyAll_append (line : List π) (early late : List (Turn π)) :
    applyAll line (early ++ late) = (applyAll line early).bind fun next => applyAll next late := by
  induction early generalizing line with
  | nil => rfl
  | cons _ _ ih =>
    simp only [cons_append, applyAll, Option.bind_assoc]
    exact Option.bind_congr fun next _ => ih next

theorem apply_cases {next : List π} (moved : turn.apply line = some next) :
    (∃ client, turn = .join client ∧ client ∉ line ∧ next = line ++ [client]) ∨
    (∃ client, turn = .rejoin client ∧ client ∉ line ∧ next = client :: line) ∨
    (∃ client, turn = .serve client ∧ line = client :: next) := by
  cases turn with
  | join client =>
    by_cases present : client ∈ line
    · simp [apply, present] at moved
    · simp only [apply, present, if_false, Option.some.injEq] at moved
      exact .inl ⟨client, rfl, present, moved.symm⟩
  | rejoin client =>
    by_cases present : client ∈ line
    · simp [apply, present] at moved
    · simp only [apply, present, if_false, Option.some.injEq] at moved
      exact .inr (.inl ⟨client, rfl, present, moved.symm⟩)
  | serve client =>
    cases line with
    | nil => cases moved
    | cons front =>
      by_cases same : front = client
      · simp only [apply, same, if_true, Option.some.injEq] at moved
        exact .inr (.inr ⟨client, rfl, by rw [same, moved]⟩)
      · simp [apply, same] at moved

theorem apply_nodup {next : List π} (nodup : line.Nodup) (moved : turn.apply line = some next) : next.Nodup := by
  obtain ⟨client, rfl, absent, rfl⟩ | ⟨client, rfl, absent, rfl⟩ | ⟨client, rfl, rfl⟩ := apply_cases moved
  · refine nodup_append.mpr ⟨nodup, nodup_singleton client, ?_⟩
    rintro _ present _ same rfl
    exact absent (mem_singleton.mp same ▸ present)
  · exact nodup_cons.mpr ⟨absent, nodup⟩
  · exact (nodup_cons.mp nodup).2

theorem applyAll_balance (client : π) (moved : applyAll line turns = some final) :
    line.count client + turns.countP (enters client) = turns.count (.serve client) + final.count client := by
  induction turns generalizing line with
  | nil =>
    cases moved
    simp
  | cons _ _ ih =>
    obtain ⟨_, first, rest⟩ := applyAll_cons.mp moved
    have later := ih rest
    obtain ⟨other, rfl, absent, rfl⟩ | ⟨other, rfl, absent, rfl⟩ | ⟨other, rfl, rfl⟩ := apply_cases first
    · simp only [count_append, count_nil, countP_cons, count_cons, enters, beq_iff_eq,
        reduceCtorEq, if_false, decide_eq_true_eq] at later ⊢
      omega
    · simp only [countP_cons, count_cons, enters, beq_iff_eq, reduceCtorEq, if_false, decide_eq_true_eq] at later ⊢
      omega
    · simp only [countP_cons, count_cons, enters, beq_iff_eq, Turn.serve.injEq, Bool.false_eq_true, if_false]
        at later ⊢
      omega

/-- A client that is not served keeps its place: it moves up by one for each that
is served, and down by one for each that returns to the front. -/
theorem applyAll_rank {client : π} (nodup : line.Nodup)
    (waiting : client ∈ line) (unserved : Turn.serve client ∉ turns) (moved : applyAll line turns = some final) :
    client ∈ final ∧
      final.idxOf client + turns.countP isServe = line.idxOf client + turns.countP isRejoin := by
  induction turns generalizing line with
  | nil =>
    cases moved
    exact ⟨waiting, by simp⟩
  | cons _ turns ih =>
    obtain ⟨next, first, rest⟩ := applyAll_cons.mp moved
    have unserved' : Turn.serve client ∉ turns := fun served => unserved (mem_cons_of_mem _ served)
    have nodup' : next.Nodup := apply_nodup nodup first
    obtain ⟨other, rfl, absent, rfl⟩ | ⟨other, rfl, absent, rfl⟩ | ⟨other, rfl, rfl⟩ := apply_cases first
    · obtain ⟨present, place⟩ := ih nodup' (mem_append_left _ waiting) unserved' rest
      refine ⟨present, ?_⟩
      rw [idxOf_append_of_mem waiting] at place
      simpa [countP_cons, isServe, isRejoin] using place
    · have different : other ≠ client := by
        rintro rfl
        exact absent waiting
      obtain ⟨present, place⟩ := ih nodup' (mem_cons_of_mem _ waiting) unserved' rest
      refine ⟨present, ?_⟩
      rw [idxOf_cons_ne _ different] at place
      simp only [countP_cons, isServe, isRejoin, if_true, Bool.false_eq_true, if_false]
      omega
    · have different : other ≠ client := by
        rintro rfl
        exact unserved mem_cons_self
      have behind : client ∈ next := (mem_cons.mp waiting).resolve_left fun same => different same.symm
      obtain ⟨present, place⟩ := ih nodup' behind unserved' rest
      refine ⟨present, ?_⟩
      rw [idxOf_cons_ne _ different]
      simp only [countP_cons, isServe, isRejoin, if_true, Bool.false_eq_true, if_false]
      omega

end Turn

end ImcGem5.Lib

import Mathlib.Algebra.GroupWithZero.Nat
import Mathlib.Tactic.Common

/-! Runs of a machine whose steps may stop the whole simulation. A step reports
what it did in labels, and a run keeps the labels in the order they were made, so
history needs no extra field in the state. -/

namespace ImcGem5.Lib
open List

universe u v x

variable {α : Type u} {list : List α} {last value : α}

theorem mem_concat : value ∈ list ++ [last] ↔ value ∈ list ∨ value = last :=
  mem_append.trans (or_congr_right mem_singleton)

theorem pairwise_concat {relation : α → α → Prop} :
    (list ++ [last]).Pairwise relation ↔ list.Pairwise relation ∧ ∀ earlier ∈ list, relation earlier last := by
  simp [pairwise_append]

variable {φ : Type u} {α : Type v} {β : Type v} {first : Except φ α} {next : α → Except φ β}

theorem bind_eq_ok {result : β} : (first >>= next) = .ok result ↔ ∃ value, first = .ok value ∧ next value = .ok result := by
  cases first with
  | error =>
    refine ⟨?_, ?_⟩
    · intro impossible; cases impossible
    · rintro ⟨_, impossible, _⟩; cases impossible
  | ok value =>
    refine ⟨fun ran => ⟨value, rfl, ran⟩, ?_⟩
    rintro ⟨_, same, ran⟩
    cases same
    exact ran

theorem of_bind {result : β} (ran : (first >>= next) = .ok result) : ∃ value, first = .ok value ∧ next value = .ok result :=
  bind_eq_ok.mp ran

theorem bind_eq_error {failure : φ} :
    (first >>= next) = .error failure ↔
      first = .error failure ∨ ∃ value, first = .ok value ∧ next value = .error failure := by
  cases first with
  | error =>
    refine ⟨fun failed => ?_, ?_⟩
    · cases failed
      exact .inl rfl
    · rintro (failed | ⟨_, impossible, _⟩)
      · cases failed
        rfl
      · cases impossible
  | ok value =>
    refine ⟨fun failed => .inr ⟨value, rfl, failed⟩, ?_⟩
    rintro (impossible | ⟨_, same, failed⟩)
    · cases impossible
    · cases same
      exact failed

@[simp] theorem ok_bind (value : α) (next : α → Except φ β) :
    (Except.ok value >>= next) = next value := rfl

theorem bind_of_ok {value : α} (ran : first = .ok value) (next : α → Except φ β) : (first >>= next) = next value := by
  rw [ran, ok_bind]

@[simp] theorem error_bind (failure : φ) (next : α → Except φ β) :
    (Except.error failure >>= next) = .error failure := rfl

theorem mapError_eq_ok {ψ : Type x} {wrap : φ → ψ} {result : Except φ α} {value : α} :
    result.mapError wrap = .ok value ↔ result = .ok value := by
  cases result with
  | error => exact ⟨nofun, nofun⟩
  | ok =>
    constructor
    · intro same
      cases same
      rfl
    · intro same
      cases same
      rfl

/-- A computation that does not end in a given failure. -/
def Avoids {φ : Type u} {α : Type v} (failure : φ) (result : Except φ α) : Prop := result ≠ .error failure

theorem avoids_ok (failure : φ) (value : α) : Avoids failure (.ok value) := nofun

theorem Avoids.bind {failure : φ} (avoids : Avoids failure first) (rest : ∀ value, first = .ok value → Avoids failure (next value)) :
    Avoids failure (first >>= next) := by
  intro failed
  obtain stopped | ⟨value, ran, stopped⟩ := bind_eq_error.mp failed
  · exact avoids stopped
  · exact rest value ran stopped

/-- A computation that ends as it should, unless it stops for an excused reason. -/
def Yields {φ : Type u} {α : Type v} (excused : φ → Prop) (result : Except φ α) (post : α → Prop) : Prop :=
  match result with
  | .ok value => post value
  | .error failure => excused failure

theorem Yields.bind {excused : φ → Prop} {middle : α → Prop} {post : β → Prop} (yields : Yields excused first middle)
    (rest : ∀ value, middle value → Yields excused (next value) post) : Yields excused (first >>= next) post := by
  cases first with
  | error => exact yields
  | ok value => exact rest value yields

theorem Yields.mono {excused : φ → Prop} {result : Except φ α} {post weaker : α → Prop}
    (yields : Yields excused result post) (implies : ∀ value, post value → weaker value) : Yields excused result weaker := by
  cases result with
  | error => exact yields
  | ok value => exact implies value yields

/-- A step takes the machine to its next state, or reports why it cannot go on. -/
abbrev Step (σ : Type u) (ε : Type v) (ω : Type u) (φ : Type x) := σ → ε → Except φ (σ × List ω)

variable {σ : Type u} {ε : Type v} {ω : Type u} {φ : Type x}

def run (step : Step σ ε ω φ) : σ → List ε → Except φ (σ × List ω)
  | state, [] => .ok (state, [])
  | state, event :: events =>
    step state event >>= fun taken => run step taken.1 events >>= fun rest => .ok (rest.1, taken.2 ++ rest.2)

/-- Every event of a run is taken in a state that allows it. Nothing is asked of
what would follow a step that stops the simulation. -/
def Each (step : Step σ ε ω φ) (allowed : σ → ε → Prop) : σ → List ε → Prop
  | _, [] => True
  | state, event :: events => allowed state event ∧
      match step state event with
      | .ok taken => Each step allowed taken.1 events
      | .error _ => True

instance Each.decidable (step : Step σ ε ω φ) (allowed : σ → ε → Prop) [∀ state event, Decidable (allowed state event)] :
    ∀ state events, Decidable (Each step allowed state events)
  | _, [] => .isTrue trivial
  | state, event :: events =>
    have : Decidable (match step state event with
        | .ok taken => Each step allowed taken.1 events
        | .error _ => True) :=
      match step state event with
      | .ok taken => Each.decidable step allowed taken.1 events
      | .error _ => .isTrue trivial
    inferInstanceAs (Decidable (_ ∧ _))

variable {step : Step σ ε ω φ}

variable {state final : σ} {labels : List ω}

theorem run_cons {event : ε} {events : List ε} : run step state (event :: events) = .ok (final, labels) ↔
      ∃ middle first rest, step state event = .ok (middle, first) ∧
        run step middle events = .ok (final, rest) ∧ labels = first ++ rest := by
  simp only [run, bind_eq_ok]
  constructor
  · rintro ⟨⟨middle, first⟩, taken, ⟨_, rest⟩, ran, equal⟩
    cases equal
    exact ⟨middle, first, rest, taken, ran, rfl⟩
  · rintro ⟨middle, first, rest, taken, ran, rfl⟩
    exact ⟨(middle, first), taken, (final, rest), ran, rfl⟩

theorem Each.cons {allowed : σ → ε → Prop} {state middle : σ} {event : ε} {events : List ε} {labels : List ω}
    (each : Each step allowed state (event :: events)) (taken : step state event = .ok (middle, labels)) :
    Each step allowed middle events := by
  have rest := each.2
  rw [taken] at rest
  exact rest

section

variable (allowed : σ → ε → Prop)
include allowed

/-- What one allowed step preserves, a run of allowed steps preserves. The
property may speak of the labels of the whole past. -/
theorem run_preserves (holds : σ → List ω → Prop)
    (preserved : ∀ state past event final labels, holds state past → allowed state event →
      step state event = .ok (final, labels) → holds final (past ++ labels))
    {state final : σ} {past labels : List ω} {events : List ε} (start : holds state past)
    (each : Each step allowed state events) (ran : run step state events = .ok (final, labels)) :
    holds final (past ++ labels) := by
  induction events generalizing state past labels with
  | nil =>
    cases ran
    simpa using start
  | cons _ _ ih =>
    obtain ⟨_, _, _, taken, remaining, rfl⟩ := run_cons.mp ran
    have reached := preserved _ _ _ _ _ start each.1 taken
    rw [← append_assoc]
    exact ih reached (each.cons taken) remaining

theorem run_keeps (holds : σ → Prop)
    (preserved : ∀ state event final labels, holds state → allowed state event →
      step state event = .ok (final, labels) → holds final)
    {events : List ε} (start : holds state)
    (each : Each step allowed state events) (ran : run step state events = .ok (final, labels)) : holds final := by
  induction events generalizing state labels with
  | nil =>
    cases ran
    exact start
  | cons _ _ ih =>
    obtain ⟨_, _, _, taken, remaining, rfl⟩ := run_cons.mp ran
    exact ih (preserved _ _ _ _ start each.1 taken) (each.cons taken) remaining

theorem run_total (holds : σ → List ω → Prop)
    (advances : ∀ state past event, holds state past → allowed state event →
      ∃ final labels, step state event = .ok (final, labels) ∧ holds final (past ++ labels))
    {past : List ω} {events : List ε} (start : holds state past) (each : Each step allowed state events) :
    ∃ final labels, run step state events = .ok (final, labels) ∧ holds final (past ++ labels) := by
  induction events generalizing state past with
  | nil => exact ⟨state, [], rfl, by simpa using start⟩
  | cons _ _ ih =>
    obtain ⟨middle, first, taken, reached⟩ := advances _ _ _ start each.1
    obtain ⟨final, rest, ran, kept⟩ := ih reached (each.cons taken)
    refine ⟨final, first ++ rest, run_cons.mpr ⟨middle, first, rest, taken, ran, rfl⟩, ?_⟩
    rw [← append_assoc]
    exact kept

theorem run_advances (holds : σ → List ω → Prop)
    (advances : ∀ state past event, holds state past → allowed state event →
      ∃ final labels, step state event = .ok (final, labels) ∧ holds final (past ++ labels))
    {events : List ε} (start : holds state []) (each : Each step allowed state events) :
    ∃ final labels, run step state events = .ok (final, labels) ∧ holds final labels :=
  run_total allowed holds advances start each

end

theorem run_yields (excused : φ → Prop) (allowed : σ → ε → Prop) (holds : σ → List ω → Prop)
    (advances : ∀ state past event, holds state past → allowed state event →
      Yields excused (step state event) fun taken => holds taken.1 (past ++ taken.2))
    {state : σ} {past : List ω} {events : List ε} (start : holds state past) (each : Each step allowed state events) :
    Yields excused (run step state events) fun ended => holds ended.1 (past ++ ended.2) := by
  induction events generalizing state past with
  | nil =>
    change holds state (past ++ [])
    rw [append_nil]
    exact start
  | cons event _ ih =>
    have taken := advances state past event start each.1
    unfold run
    cases ran : step state event with
    | error =>
      rw [ran] at taken
      exact taken
    | ok =>
      rw [ran] at taken
      rw [ok_bind]
      have rest := ih taken (each.cons ran)
      apply rest.bind
      intro ended reached
      rw [append_assoc] at reached
      exact reached

theorem each_of_forall {allowed : σ → ε → Prop} {events : List ε}
    (always : ∀ state, ∀ event ∈ events, allowed state event) (state : σ) : Each step allowed state events := by
  induction events generalizing state with
  | nil => trivial
  | cons event _ ih =>
    refine ⟨always state event mem_cons_self, ?_⟩
    cases step state event with
    | error => trivial
    | ok taken => exact ih (fun later other member => always later other (mem_cons_of_mem _ member)) taken.1

theorem run_invariant (holds : σ → List ω → Prop)
    (preserved : ∀ state past event final labels, holds state past →
      step state event = .ok (final, labels) → holds final (past ++ labels))
    {events : List ε} (start : holds state []) (ran : run step state events = .ok (final, labels)) : holds final labels := by
  have reached : holds final ([] ++ labels) := by
    refine run_preserves (fun _ _ => True) holds ?_ start (each_of_forall (fun _ _ _ => trivial) state) ran
    intro before past event after made kept _ taken
    exact preserved before past event after made kept taken
  simpa using reached

theorem run_eq_error {events : List ε} {failure : φ} (failed : run step state events = .error failure) :
    ∃ before event after middle labels, events = before ++ event :: after ∧
      run step state before = .ok (middle, labels) ∧ step middle event = .error failure := by
  induction events generalizing state with
  | nil => cases failed
  | cons event events ih =>
    obtain stopped | ⟨⟨next, first⟩, taken, stopped⟩ := bind_eq_error.mp failed
    · exact ⟨[], event, events, state, [], rfl, rfl, stopped⟩
    · obtain later | ⟨_, _, impossible⟩ := bind_eq_error.mp stopped
      · obtain ⟨before, cause, after, middle, rest, rfl, ran, stops⟩ := ih later
        exact ⟨event :: before, cause, after, middle, first ++ rest, rfl, run_cons.mpr ⟨next, first, rest, taken, ran, rfl⟩, stops⟩
      · cases impossible

/-- When a step is allowed exactly if its labels are quiet, so it is with runs. -/
theorem run_quiet_iff (allowed : σ → ε → Prop) (quiet : List ω → Prop) (nil : quiet [])
    (append : ∀ early late, quiet (early ++ late) ↔ quiet early ∧ quiet late)
    (exact : ∀ state event final labels, step state event = .ok (final, labels) → (quiet labels ↔ allowed state event))
    {events : List ε} (ran : run step state events = .ok (final, labels)) : quiet labels ↔ Each step allowed state events := by
  induction events generalizing state labels with
  | nil =>
    cases ran
    exact ⟨fun _ => trivial, fun _ => nil⟩
  | cons _ _ ih =>
    obtain ⟨_, early, late, taken, remaining, rfl⟩ := run_cons.mp ran
    rw [append, exact _ _ _ _ taken, ih remaining]
    simp only [Each, taken]

/-- When a step succeeds exactly if it is clear, so does a run. -/
theorem run_ok_iff (legal clear : σ → ε → Prop) (holds : σ → Prop)
    (exact : ∀ state event, holds state → legal state event → ((∃ taken, step state event = .ok taken) ↔ clear state event))
    (keeps : ∀ state event final labels, holds state → legal state event → step state event = .ok (final, labels) → holds final)
    {events : List ε} (start : holds state) (each : Each step legal state events) :
    (∃ ended, run step state events = .ok ended) ↔ Each step clear state events := by
  induction events generalizing state with
  | nil => exact ⟨fun _ => trivial, fun _ => ⟨_, rfl⟩⟩
  | cons event _ ih =>
    have here := exact state event start each.1
    unfold run Each
    cases ran : step state event with
    | error =>
      refine ⟨fun ⟨_, failed⟩ => (nomatch failed), fun both => ?_⟩
      obtain ⟨taken, succeeded⟩ := here.mpr both.1
      rw [ran] at succeeded
      cases succeeded
    | ok taken =>
      have rest := ih (keeps _ _ taken.1 taken.2 start each.1 ran) (each.cons ran)
      dsimp only
      rw [← rest]
      simp only [ok_bind, here.mp ⟨taken, ran⟩, true_and, bind_eq_ok]
      constructor
      · rintro ⟨_, ended, ran, _⟩
        exact ⟨ended, ran⟩
      · rintro ⟨ended, ran⟩
        exact ⟨_, ended, ran, rfl⟩

/-- When a step from a good state leads to a good state exactly if it is clear, a run stays in good
states exactly if all its steps are clear. -/
theorem run_always_iff (legal clear : σ → ε → Prop) (kept good : σ → Prop)
    (keeps : ∀ state event final labels, kept state → good state → legal state event → step state event = .ok (final, labels) → kept final)
    (exact : ∀ state event final labels, kept state → good state → legal state event → step state event = .ok (final, labels) →
      (good final ↔ clear state event))
    {events : List ε} (start : kept state) (first : good state)
    (each : Each step legal state events) (ran : run step state events = .ok (final, labels)) :
    (∀ before after middle past, events = before ++ after → run step state before = .ok (middle, past) → good middle) ↔
      Each step clear state events := by
  induction events generalizing state labels with
  | nil =>
    refine iff_of_true ?_ trivial
    intro before after middle past split reached
    obtain ⟨rfl, rfl⟩ := append_eq_nil_iff.mp split.symm
    cases reached
    exact first
  | cons event events ih =>
    obtain ⟨next, early, _, taken, remaining, rfl⟩ := run_cons.mp ran
    have here := exact _ _ _ _ start first each.1 taken
    have rest (goes : good next) := ih (keeps _ _ _ _ start first each.1 taken) goes (each.cons taken) remaining
    simp only [Each, taken]
    constructor
    · intro always
      have goes : good next := by
        refine always [event] events next early rfl ?_
        rw [run, taken, ok_bind, run, ok_bind, append_nil]
      refine ⟨here.mp goes, (rest goes).mp ?_⟩
      rintro before after middle past rfl reached
      exact always (event :: before) after middle (early ++ past) rfl (run_cons.mpr ⟨next, early, past, taken, reached, rfl⟩)
    · rintro ⟨clears, others⟩ before after middle past split reached
      cases before with
      | nil =>
        cases reached
        exact first
      | cons _ before =>
        obtain ⟨rfl, rfl⟩ := cons_eq_cons.mp split
        obtain ⟨_, _, _, taken', reached, _⟩ := run_cons.mp reached
        cases taken.symm.trans taken'
        exact (rest (here.mpr clears)).mpr others before after middle _ rfl reached

/-- A step whose labels keep the event they were made at, so that the labels of a run
are the log of its events, one entry for each. -/
def logged {ε : Type u} (step : Step σ ε ω φ) : Step σ ε (ε × List ω) φ := fun state event =>
  step state event >>= fun taken => .ok (taken.1, [(event, taken.2)])

theorem logged_eq_ok {ε : Type u} {step : Step σ ε ω φ} {event : ε} {entries : List (ε × List ω)} :
    logged step state event = .ok (final, entries) ↔
      ∃ labels, step state event = .ok (final, labels) ∧ entries = [(event, labels)] := by
  unfold logged
  rw [bind_eq_ok]
  constructor
  · rintro ⟨⟨_, labels⟩, taken, same⟩
    cases same
    exact ⟨labels, taken, rfl⟩
  · rintro ⟨labels, taken, rfl⟩
    exact ⟨(final, labels), taken, rfl⟩

theorem logged_events {ε : Type u} {step : Step σ ε ω φ} {events : List ε} {log : List (ε × List ω)}
    (ran : run (logged step) state events = .ok (final, log)) : log.map Prod.fst = events := by
  induction events generalizing state log with
  | nil =>
    cases ran
    rfl
  | cons _ _ ih =>
    obtain ⟨_, _, _, taken, remaining, rfl⟩ := run_cons.mp ran
    obtain ⟨_, _, rfl⟩ := logged_eq_ok.mp taken
    simp [ih remaining]

end ImcGem5.Lib

import Mathlib.Data.List.Basic

/-!
# Guarded executable transition systems

A transition system is given by an executable step function that returns `none`
when an event is not enabled. Reachability carries a condition on each step, so
one development covers both the unrestricted runs and the runs all of whose
steps meet some assumption. Concrete runs are replayed by evaluation.
-/

namespace Dolma
namespace Library

section

variable {σ ε : Type*}

/-- States reachable from `initial` through enabled steps that all satisfy
`allowed`. -/
inductive Reachable
    (step : σ → ε → Option σ) (allowed : σ → ε → Prop) (initial : σ) : σ → Prop where
  | init : Reachable step allowed initial initial
  | step {state next : σ} (event : ε) :
      Reachable step allowed initial state →
      allowed state event →
      step state event = some next →
      Reachable step allowed initial next

variable {allowed : σ → ε → Prop} {initial state : σ}

/-- An invariant that every allowed step keeps holds in every run. -/
theorem Reachable.invariant
    {step : σ → ε → Option σ} {property : σ → Prop} (base : property initial)
    (preserved : ∀ state event next,
      property state → allowed state event → step state event = some next → property next)
    (reachable : Reachable step allowed initial state) :
    property state := by
  induction reachable with
  | init => exact base
  | step event _ permitted enabled ih =>
      exact preserved _ event _ ih permitted enabled

/-- A run goes on from a state that a run has reached. -/
theorem Reachable.trans
    {step : σ → ε → Option σ} {middle : σ} (first : Reachable step allowed initial middle)
    (second : Reachable step allowed middle state) :
    Reachable step allowed initial state := by
  induction second with
  | init => exact first
  | step event _ permitted stepped ih =>
      exact .step event ih permitted stepped

/-- Replay a list of events, requiring the step condition at each of them. -/
def replay
    (step : σ → ε → Option σ) (allowed : σ → ε → Prop)
    [∀ state event, Decidable (allowed state event)] : σ → List ε → Option σ
  | state, [] => some state
  | state, event :: events =>
      if allowed state event then
        match step state event with
        | none => none
        | some next => replay step allowed next events
      else none

/-- The final state of a successful replay is reachable through steps that meet
the condition. -/
theorem Reachable.of_replay
    {step : σ → ε → Option σ} [∀ state event, Decidable (allowed state event)] {events : List ε}
    {final : σ} (start : Reachable step allowed initial state)
    (replayed : replay step allowed state events = some final) :
    Reachable step allowed initial final := by
  induction events generalizing state with
  | nil =>
      simp only [replay, Option.some.injEq] at replayed
      exact replayed ▸ start
  | cons event events ih =>
      simp only [replay] at replayed
      split at replayed
      next permitted =>
        split at replayed
        next => cases replayed
        next next enabled =>
          exact ih (.step event start permitted enabled) replayed
      next => cases replayed

/-- A replay that ends in a state satisfying a Boolean test shows that such a
state is reachable. -/
theorem Reachable.exists_of_replay
    {step : σ → ε → Option σ} [∀ state event, Decidable (allowed state event)] (events : List ε)
    (test : σ → Bool) (replayed : (replay step allowed initial events).any test = true) :
    ∃ state, Reachable step allowed initial state ∧ test state = true := by
  cases final : replay step allowed initial events with
  | none => simp [final] at replayed
  | some state =>
      refine ⟨state, .of_replay .init final, ?_⟩
      simpa [final] using replayed

section Witness

variable {step : σ → ε → Option σ} [∀ state event, Decidable (allowed state event)]
  {goal p q : σ → Prop}

/-- What is shown of reachable states that pass a test holds of the last state of a replay that
passes it. -/
theorem Reachable.exists_imp_of_replay
    (events : List ε) (test : σ → Prop) [DecidablePred test]
    (replayed : ((replay step allowed initial events).any fun state => decide (test state)) = true)
    (shows : ∀ state, Reachable step allowed initial state → test state → goal state) :
    ∃ state, Reachable step allowed initial state ∧ goal state := by
  obtain ⟨state, reachable, passed⟩ := exists_of_replay events _ replayed
  exact ⟨state, reachable, shows state reachable (of_decide_eq_true passed)⟩

/-- The test is itself a part of what is shown. -/
theorem Reachable.exists_and_of_replay
    (events : List ε) [DecidablePred p]
    (replayed : ((replay step allowed initial events).any fun state => decide (p state)) = true)
    (shows : ∀ state, Reachable step allowed initial state → p state → q state) :
    ∃ state, Reachable step allowed initial state ∧ p state ∧ q state :=
  exists_imp_of_replay events p replayed fun state reachable passed =>
    ⟨passed, shows state reachable passed⟩

end Witness

end

section History

variable {σ ε η : Type*}

/-- The transition system together with a history that each step records and
that no step reads. -/
def withHistory
    (step : σ → ε → Option σ) (record : σ → ε → η → η) (state : σ × η)
    (event : ε) : Option (σ × η) :=
  (step state.1 event).map fun next => (next, record state.1 event state.2)

theorem withHistory_eq_some {event : ε} :
    withHistory step record state event = some next ↔
      step state.1 event = some next.1 ∧ record state.1 event state.2 = next.2 := by
  rw [withHistory, Option.map_eq_some_iff]
  constructor
  · rintro ⟨reached, enabled, rfl⟩
    exact ⟨enabled, rfl⟩
  · rintro ⟨enabled, recorded⟩
    exact ⟨next.1, enabled, Prod.ext rfl recorded⟩

end History

end Library
end Dolma

import Mathlib.Init

/-!
# Loops

A loop runs its body until the body returns. The body of a loop takes the local variables to
a result, or to the local variables of the next iteration. A loop that never returns has no
result; a number of iterations bounds the search for one.
-/

namespace Dolma
namespace Library

variable {σ ρ : Type*}

/-- Run a loop for a number of iterations at most. -/
def loop (body : σ → ρ ⊕ σ) : Nat → σ → Option ρ
  | 0, _ => none
  | fuel + 1, state =>
      match body state with
      | .inl result => some result
      | .inr next => loop body fuel next

/-- The loop returns a result. -/
def Returns (body : σ → ρ ⊕ σ) (state : σ) (result : ρ) : Prop :=
  ∃ fuel, loop body fuel state = some result

section

variable {body : σ → ρ ⊕ σ} {state next : σ} {result other : ρ}

theorem loop_inl (returned : body state = .inl result) (fuel : Nat) :
    loop body (fuel + 1) state = some result := by
  unfold loop
  rw [returned]

theorem loop_inr (stepped : body state = .inr next) (fuel : Nat) :
    loop body (fuel + 1) state = loop body fuel next := by
  rw [loop, stepped]

/-- A loop whose body returns at once has this one result. -/
theorem returns_inl (returned : body state = .inl result) :
    Returns body state other ↔ other = result := by
  constructor
  · rintro ⟨fuel, found⟩
    cases fuel with
    | zero => cases found
    | succ fuel =>
        rw [loop_inl returned] at found
        exact (Option.some.inj found).symm
  · rintro rfl
    exact ⟨1, loop_inl returned 0⟩

/-- A loop has the results of its next iteration. -/
theorem returns_inr (stepped : body state = .inr next) :
    Returns body state result ↔ Returns body next result := by
  constructor
  · rintro ⟨fuel, found⟩
    cases fuel with
    | zero => cases found
    | succ fuel => exact ⟨fuel, loop_inr stepped fuel ▸ found⟩
  · rintro ⟨fuel, found⟩
    exact ⟨fuel + 1, (loop_inr stepped fuel).trans found⟩

/-- A loop that keeps an invariant and makes a variant smaller returns, and its result is
that of an iteration from a state with the invariant. -/
theorem exists_loop
    {invariant : σ → Prop} (variant : σ → Nat)
    (kept : ∀ state next, invariant state → body state = .inr next →
      invariant next ∧ variant next < variant state)
    {bound : Nat} (enough : variant state < bound) (holds : invariant state) :
    ∃ last result, invariant last ∧ body last = .inl result ∧
      loop body bound state = some result := by
  induction bound generalizing state with
  | zero => cases enough
  | succ bound ih =>
      cases outcome : body state with
      | inl result => exact ⟨state, result, holds, outcome, loop_inl outcome bound⟩
      | inr next =>
          obtain ⟨stays, smaller⟩ := kept state next holds outcome
          rw [loop_inr outcome]
          exact ih (by omega) stays

end

end Library
end Dolma

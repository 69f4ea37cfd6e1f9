import Mathlib.Data.List.Basic

/-!
# Invariants of left folds

A left fold over a list is a run over its elements. The invariant may mention
the part of the list that has been processed, so what holds at the end may
depend on the position of each element.
-/

namespace Dolma
namespace Library

variable {α β : Type*}
variable {motive : List α → β → Prop} {start : β}

/-- An invariant of the processed prefix and the accumulator that each element
of the list extends holds of the whole list at the end of the fold. -/
theorem foldl_processed
    (list : List α) (base : motive [] start)
    (extend : ∀ processed element rest accumulator,
      list = processed ++ element :: rest →
      motive processed accumulator →
      motive (processed ++ [element]) (f accumulator element)) :
    motive list (list.foldl f start) := by
  suffices general : ∀ rest processed accumulator,
      list = processed ++ rest → motive processed accumulator →
      motive list (rest.foldl f accumulator) from
    general list [] start rfl base
  intro rest
  induction rest with
  | nil =>
      intro processed accumulator split holds
      simpa [split] using holds
  | cons element rest ih =>
      intro processed accumulator split holds
      refine ih (processed ++ [element]) _ ?_ ?_
      · simpa using split
      · exact extend processed element rest accumulator split holds

/-- An invariant of the processed part of the list and the accumulator holds at
the end of a fold that does not fail. -/
theorem foldlM_processed
    (list : List α) (base : motive [] start)
    (extend : ∀ processed element rest accumulator next,
      list = processed ++ element :: rest →
      motive processed accumulator →
      f accumulator element = some next →
      motive (processed ++ [element]) next)
    (succeeds : list.foldlM f start = some final) :
    motive list final := by
  suffices general : ∀ rest processed accumulator,
      list = processed ++ rest → motive processed accumulator →
      rest.foldlM f accumulator = some final → motive list final from
    general list [] start rfl base succeeds
  intro rest
  induction rest with
  | nil =>
      intro processed accumulator split holds ended
      simp only [List.foldlM_nil, Option.pure_def, Option.some.injEq] at ended
      simpa [split, ended] using holds
  | cons element rest ih =>
      intro processed accumulator split holds ended
      rw [List.foldlM_cons, Option.bind_eq_bind, Option.bind_eq_some_iff] at ended
      obtain ⟨next, stepped, ended⟩ := ended
      refine ih (processed ++ [element]) next ?_ ?_ ended
      · simpa using split
      · exact extend processed element rest accumulator next split holds stepped

end Library
end Dolma

import Mathlib.Data.List.Basic
import Dolma.Library.Ring

/-!
# Walking around a ring

A walk goes from one index of a ring to another, wrapping at the size of the ring. The walk
between two indices inside the ring visits the indices between them. A walk never comes to an
index outside the ring, and from an index outside the ring it continues at zero. So the size of
a ring can be changed without changing a walk in few cases only.
-/

namespace Dolma
namespace Library
namespace Ring

/-- The indices visited on the way to an index, within a number of steps. -/
def walk (size stop : Nat) : Nat → Nat → Option (List Nat)
  | 0, idx => if idx = stop then some [] else none
  | fuel + 1, idx =>
      if idx = stop then some [] else (walk size stop fuel (next size idx)).map (idx :: ·)

/-- A walk comes to its end. -/
def Walks (size start stop : Nat) (visited : List Nat) : Prop :=
  ∃ fuel, walk size stop fuel start = some visited

section

variable {size start stop idx : Nat} {visited rest other before after : List Nat}

theorem Walks.nil (size idx : Nat) : Walks size idx idx [] := ⟨0, if_pos rfl⟩

theorem Walks.cons (apart : idx ≠ stop) (walks : Walks size (next size idx) stop rest) :
    Walks size idx stop (idx :: rest) := by
  obtain ⟨fuel, walks⟩ := walks
  refine ⟨fuel + 1, ?_⟩
  unfold walk
  rw [if_neg apart, walks]
  rfl

theorem Walks.cases (walks : Walks size idx stop visited) :
    idx = stop ∧ visited = [] ∨
      idx ≠ stop ∧ ∃ rest, visited = idx :: rest ∧ Walks size (next size idx) stop rest := by
  obtain ⟨fuel, walks⟩ := walks
  by_cases atEnd : idx = stop
  · cases fuel with
    | zero =>
        unfold walk at walks
        rw [if_pos atEnd] at walks
        cases walks
        exact .inl ⟨atEnd, rfl⟩
    | succ fuel =>
        unfold walk at walks
        rw [if_pos atEnd] at walks
        cases walks
        exact .inl ⟨atEnd, rfl⟩
  · cases fuel with
    | zero =>
        unfold walk at walks
        rw [if_neg atEnd] at walks
        cases walks
    | succ fuel =>
        unfold walk at walks
        rw [if_neg atEnd] at walks
        obtain ⟨rest, later, rfl⟩ := Option.map_eq_some_iff.mp walks
        exact .inr ⟨atEnd, rest, rfl, fuel, later⟩

theorem Walks.unique
    (first : Walks size start stop visited) (second : Walks size start stop other) :
    visited = other := by
  induction visited generalizing start other with
  | nil =>
      rcases first.cases with ⟨atEnd, -⟩ | ⟨-, rest, same, -⟩
      · rcases second.cases with ⟨-, same⟩ | ⟨apart, -⟩
        · exact same.symm
        · exact absurd atEnd apart
      · cases same
  | cons idx visited ih =>
      rcases first.cases with ⟨-, same⟩ | ⟨apart, rest, same, walks⟩
      · cases same
      · cases same
        rcases second.cases with ⟨atEnd, -⟩ | ⟨-, rest, rfl, walks'⟩
        · exact absurd atEnd apart
        · rw [ih walks walks']

theorem Walks.split
    (walks : Walks size start stop (before ++ idx :: after)) (first : idx ∉ before) :
    Walks size start idx before ∧ Walks size idx stop (idx :: after) := by
  induction before generalizing start with
  | nil =>
      rcases walks.cases with ⟨-, same⟩ | ⟨-, rest, same, -⟩
      · cases same
      · cases same
        exact ⟨Walks.nil size _, walks⟩
  | cons visited before ih =>
      rcases walks.cases with ⟨-, same⟩ | ⟨-, rest, same, walks⟩
      · cases same
      · cases same
        rw [List.mem_cons, not_or] at first
        obtain ⟨earlier, later⟩ := ih walks first.2
        exact ⟨earlier.cons fun same => first.1 same.symm, later⟩

theorem walks_up (upwards : start ≤ stop) (inside : stop < size) :
    Walks size start stop (List.range' start (stop - start)) := by
  obtain ⟨distance, rfl⟩ := Nat.exists_eq_add_of_le upwards
  rw [Nat.add_sub_cancel_left]
  induction distance generalizing start with
  | zero => exact Walks.nil size start
  | succ distance ih =>
      have later := @ih (start + 1) (by omega) (by omega)
      rw [Nat.add_right_comm] at later
      apply Walks.cons
      · omega
      · unfold next
        rw [if_neg (by omega)]
        exact later

theorem walks_wrap (downwards : stop < start) (inside : start < size) :
    Walks size start stop (List.range' start (size - start) ++ List.range' 0 stop) := by
  obtain ⟨distance, rfl⟩ := Nat.exists_eq_add_of_lt inside
  have length : start + distance + 1 - start = distance + 1 := by omega
  rw [length]
  induction distance generalizing start with
  | zero =>
      apply Walks.cons
      · omega
      · unfold next
        rw [if_pos (Nat.le_refl _)]
        exact walks_up (Nat.zero_le stop) (by omega)
  | succ distance ih =>
      have later := @ih (start + 1) (by omega) (by omega) (by omega)
      have total : start + 1 + distance + 1 = start + (distance + 1) + 1 := by omega
      rw [total] at later
      apply Walks.cons
      · omega
      · unfold next
        rw [if_neg (by omega)]
        exact later

/-- The walk from an index outside the ring continues at zero. -/
theorem walks_outside (inside : stop < size) (outside : size ≤ start) :
    Walks size start stop (start :: List.range' 0 stop) := by
  apply Walks.cons
  · omega
  · unfold next
    rw [if_pos (Nat.le_succ_of_le outside)]
    exact walks_up (Nat.zero_le stop) inside

/-- No walk comes to an index outside the ring. -/
theorem not_walks_outside (outside : size ≤ stop) (positive : 0 < size) (apart : start ≠ stop) :
    ¬ Walks size start stop visited := by
  intro walks
  induction visited generalizing start with
  | nil =>
      rcases walks.cases with ⟨atEnd, -⟩ | ⟨-, rest, same, -⟩
      · exact apart atEnd
      · cases same
  | cons idx visited ih =>
      rcases walks.cases with ⟨atEnd, -⟩ | ⟨-, rest, same, walks⟩
      · exact apart atEnd
      · cases same
        refine ih ?_ walks
        unfold next
        split
        · omega
        · omega

end

/-! ## A change of the size -/

/-- The walk between two indices of a ring stays the same when the size of the ring changes. -/
def keepsWalk (size newSize start stop : Nat) : Bool :=
  decide (start = stop) || decide (start < stop) && decide (stop < newSize) ||
    decide (stop < start) &&
      (decide (newSize = size) || decide (newSize ≤ start) && decide (start + 1 = size) &&
        decide (stop < newSize))

section

variable {size newSize start stop : Nat} {visited other : List Nat}

theorem Walks.resize
    (startInside : start < size) (stopInside : stop < size)
    (keeps : keepsWalk size newSize start stop = true) (walks : Walks size start stop visited) :
    Walks newSize start stop visited := by
  simp only [keepsWalk, Bool.or_eq_true, Bool.and_eq_true, decide_eq_true_eq] at keeps
  rcases keeps with (rfl | ⟨upwards, inside⟩) | ⟨downwards, rfl | ⟨⟨outside, last⟩, inside⟩⟩
  · rw [walks.unique (Walks.nil size start)]
    exact Walks.nil newSize start
  · rw [walks.unique (walks_up (Nat.le_of_lt upwards) stopInside)]
    exact walks_up (Nat.le_of_lt upwards) inside
  · exact walks
  · have length : size - start = 1 := by omega
    rw [walks.unique (walks_wrap downwards startInside), length]
    exact walks_outside inside outside

/-- A walk of the same length is kept. -/
theorem Walks.keepsWalk_of_length
    (startInside : start < size) (positive : 0 < newSize) (walks : Walks size start stop visited)
    (resized : Walks newSize start stop other) (length : other.length = visited.length) :
    keepsWalk size newSize start stop = true := by
  simp only [keepsWalk, Bool.or_eq_true, Bool.and_eq_true, decide_eq_true_eq]
  rcases Nat.lt_trichotomy start stop with upwards | same | downwards
  · refine .inl (.inr ⟨upwards, ?_⟩)
    by_contra outside
    exact not_walks_outside (Nat.le_of_not_lt outside) positive (Nat.ne_of_lt upwards) resized
  · exact .inl (.inl same)
  · refine .inr ⟨downwards, ?_⟩
    have steps := congrArg List.length (walks.unique (walks_wrap downwards startInside))
    rw [List.length_append, List.length_range', List.length_range'] at steps
    by_cases inside : stop < newSize
    · by_cases outside : newSize ≤ start
      · have newSteps := congrArg List.length (resized.unique (walks_outside inside outside))
        rw [List.length_cons, List.length_range'] at newSteps
        exact .inr ⟨⟨outside, by omega⟩, inside⟩
      · have newSteps := congrArg List.length
          (resized.unique (walks_wrap downwards (Nat.lt_of_not_le outside)))
        rw [List.length_append, List.length_range', List.length_range'] at newSteps
        exact .inl (by omega)
    · exact absurd resized
        (not_walks_outside (Nat.le_of_not_lt inside) positive (Nat.ne_of_gt downwards))

end

/-! ## Offsets -/

/-- The number of steps from one index inside the ring to another. -/
def offset (size start idx : Nat) : Nat :=
  if start ≤ idx then idx - start else idx + size - start

section

variable {size start stop idx : Nat}

/-- Between two indices inside the ring there is a walk, which visits the indices with a
smaller offset than its end. -/
theorem exists_walks (startInside : start < size) (stopInside : stop < size) :
    ∃ visited, Walks size start stop visited ∧ visited.length = offset size start stop ∧
      ∀ idx, idx ∈ visited ↔ idx < size ∧ offset size start idx < offset size start stop := by
  unfold offset
  by_cases upwards : start ≤ stop
  · refine ⟨_, walks_up upwards stopInside, ?_, fun idx => ?_⟩
    · rw [List.length_range', if_pos upwards]
    · rw [List.mem_range'_1, if_pos upwards]
      split
      · omega
      · omega
  · refine ⟨_, walks_wrap (Nat.lt_of_not_le upwards) startInside, ?_, fun idx => ?_⟩
    · rw [List.length_append, List.length_range', List.length_range', if_neg upwards]
      omega
    · rw [List.mem_append, List.mem_range'_1, List.mem_range'_1, if_neg upwards]
      split
      · omega
      · omega

theorem next_lt (inside : idx < size) : next size idx < size := by
  unfold next
  split
  · omega
  · omega

theorem prev_lt (inside : idx < size) : prev size idx < size := by
  unfold prev
  split
  · omega
  · omega

theorem offset_next
    (startInside : start < size) (inside : idx < size) (notFull : next size idx ≠ start) :
    offset size start (next size idx) = offset size start idx + 1 := by
  unfold next at notFull ⊢
  unfold offset
  split at notFull
  case isTrue wraps =>
    rw [if_pos wraps, if_neg (by omega)]
    split
    · omega
    · omega
  case isFalse inner =>
    rw [if_neg inner]
    split
    · split
      · omega
      · omega
    · rw [if_neg (by omega)]
      omega

theorem offset_prev (startInside : start < size) (inside : idx < size) (nonempty : start ≠ idx) :
    offset size start (prev size idx) + 1 = offset size start idx := by
  have next_prev : next size (prev size idx) = idx := by
    unfold next prev
    split
    · split
      · omega
      · omega
    · split
      · omega
      · omega
  have stepped := offset_next startInside (prev_lt inside)
    (fun same => nonempty (same.symm.trans next_prev))
  rw [next_prev] at stepped
  exact stepped.symm

/-- From the next index there is one step less. -/
theorem offset_next_start
    (startInside : start < size) (inside : idx < size) (nonempty : start ≠ idx) :
    offset size (next size start) idx + 1 = offset size start idx := by
  unfold next offset
  split
  case isTrue wraps =>
    rw [if_pos (Nat.zero_le idx), if_neg (by omega)]
    omega
  case isFalse =>
    split
    · rw [if_pos (by omega)]
      omega
    · rw [if_neg (by omega)]
      omega

/-- The number of steps tells indices inside the ring apart. -/
theorem offset_inj
    (startInside : start < size) (inside : idx < size) (stopInside : stop < size)
    (same : offset size start idx = offset size start stop) :
    idx = stop := by
  unfold offset at same
  split at same
  · split at same
    · omega
    · omega
  · split at same
    · omega
    · omega

/-- The number of steps between the slots of two items in the ring. -/
theorem offset_mod (before : i ≤ j) (near : j < i + size) :
    offset size (i % size) (j % size) = j - i := by
  have positive : 0 < size := by omega
  have first := Nat.mod_lt i positive
  have second := Nat.mod_lt j positive
  have steps := distance before near
  generalize i % size = start at first steps ⊢
  generalize j % size = stop at second steps ⊢
  unfold offset
  split
  case isTrue upwards =>
    have around : stop + size - start = stop - start + size := by omega
    rw [around, Nat.add_mod_right, Nat.mod_eq_of_lt (by omega)] at steps
    exact steps
  case isFalse =>
    rw [Nat.mod_eq_of_lt (by omega)] at steps
    exact steps

end

end Ring
end Library
end Dolma

import Mathlib.Data.List.Sort

/-!
# Lists with positions

What holds of all items of a list that is changed at one position, extended or sorted into, and
how lists with the same projections are related.
-/

namespace Dolma
namespace Library

variable {α β : Type*} {list : List α} {i : Nat} {item : α}

/-- What holds of the other items and of the new one holds of all items. -/
theorem forall_set
    (property : Nat → α → Prop)
    (others : ∀ j (inside : j < list.length), j ≠ i → property j list[j])
    (changed : i < list.length → property i item) (j : Nat)
    (inside : j < (list.set i item).length) :
    property j (list.set i item)[j] := by
  rw [List.length_set] at inside
  rw [List.getElem_set]
  split
  case isTrue same =>
    subst same
    exact changed inside
  case isFalse distinct => exact others j inside (Ne.symm distinct)

/-- What holds of the items and of an added one holds of all. -/
theorem forall_append
    (property : Nat → α → Prop) (others : ∀ j (inside : j < list.length), property j list[j])
    (added : property list.length item) (j : Nat) (inside : j < (list ++ [item]).length) :
    property j (list ++ [item])[j] := by
  rw [List.length_append, List.length_singleton] at inside
  rcases Nat.lt_or_ge j list.length with old | new
  · rw [List.getElem_append_left old]
    exact others j old
  · obtain rfl : j = list.length := by omega
    rw [List.getElem_concat_length rfl]
    exact added

/-- An item that agrees with the old one under a projection keeps the projections. -/
theorem map_set_eq
    (project : α → β) (inside : i < list.length) (same : project item = project list[i]) :
    (list.set i item).map project = list.map project := by
  have inside' : i < (list.map project).length := by simpa using inside
  have old : project list[i] = (list.map project)[i] := (List.getElem_map project).symm
  rw [List.map_set, same, old, List.set_getElem_self]

/-- Lists with the same projections agree at each position. -/
theorem getElem_of_map_eq
    {project : α → β} {list' : List α} {k : Nat} (same : list'.map project = list.map project)
    (inside : k < list'.length) :
    ∃ inside' : k < list.length, project list'[k] = project list[k] := by
  have lengths := congrArg List.length same
  rw [List.length_map, List.length_map] at lengths
  refine ⟨by omega, ?_⟩
  have both := List.getElem_of_eq same (i := k) (by simpa using inside)
  simpa using both

/-- Tests that agree on a list take the same part of it. -/
theorem takeWhile_congr (agree : ∀ item ∈ list, first item = second item) :
    list.takeWhile first = list.takeWhile second := by
  induction list with
  | nil => rfl
  | cons item rest ih =>
      rw [List.takeWhile_cons, List.takeWhile_cons, agree item List.mem_cons_self,
        ih fun other member => agree other (List.mem_cons_of_mem _ member)]

variable {position : Nat}

/-- A list is split at an item. -/
theorem split_at (found : list[position]? = some entry) :
    list = list.take position ++ entry :: list.drop (position + 1) := by
  obtain ⟨inside, rfl⟩ := List.getElem?_eq_some_iff.mp found
  rw [List.getElem_cons_drop, List.take_append_drop]

/-- Erasing the last of the first items leaves the others. -/
theorem eraseIdx_take_append (inside : position < list.length) (behind : List α) :
    (list.take (position + 1) ++ behind).eraseIdx position = list.take position ++ behind := by
  have length : position < (list.take (position + 1)).length := by
    rw [List.length_take]
    omega
  rw [List.eraseIdx_append_of_lt_length length, List.eraseIdx_eq_take_drop_succ, List.take_take,
    List.drop_eq_nil_of_le (List.length_take_le _ _), List.append_nil,
    Nat.min_eq_left (Nat.le_succ position)]

/-- Insertion in order keeps a list sorted by keys that agree with the order. -/
theorem pairwise_orderedInsert
    {key : α → Nat} {before : α → α → Prop} [DecidableRel before]
    (goesBefore : ∀ new old, before new old → key new ≤ key old)
    (goesAfter : ∀ new old, ¬ before new old → key old ≤ key new)
    (sorted : list.Pairwise fun first second => key first ≤ key second) (new : α) :
    (list.orderedInsert before new).Pairwise fun first second => key first ≤ key second := by
  induction list with
  | nil => exact List.pairwise_singleton _ _
  | cons old rest ih =>
      obtain ⟨least, sorted⟩ := List.pairwise_cons.mp sorted
      rw [List.orderedInsert]
      by_cases stops : before new old
      · rw [if_pos stops, List.pairwise_cons, List.pairwise_cons]
        have first := goesBefore new old stops
        refine ⟨?_, least, sorted⟩
        intro other member
        rcases List.mem_cons.mp member with rfl | later
        · exact first
        · exact Nat.le_trans first (least other later)
      · rw [if_neg stops, List.pairwise_cons]
        refine ⟨?_, ih sorted⟩
        intro other member
        rw [(List.perm_orderedInsert before new rest).mem_iff, List.mem_cons] at member
        rcases member with rfl | later
        · exact goesAfter other old stops
        · exact least other later

end Library
end Dolma

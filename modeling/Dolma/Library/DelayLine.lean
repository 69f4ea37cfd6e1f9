import Mathlib.Algebra.BigOperators.Intervals
import Mathlib.Data.List.Range
import Mathlib.Logic.Function.Basic

/-!
# Delay lines

A wire between two parties that act once a cycle. What is written in a cycle is read a
fixed number of cycles later. The entries that have been written and not yet read form a
queue: reading takes its oldest entry, writing appends the newest.
-/

namespace Dolma
namespace Library
namespace DelayLine

variable {α : Type*}

/-- The entry that is read in a cycle, if one has been written early enough. -/
def read (delay now : Nat) (entries : Nat → α) : Option α :=
  if delay ≤ now then some (entries (now - delay)) else none

/-- The cycles before `now` whose entries are not read before `now`. -/
def unreadCycles (delay now : Nat) : List Nat :=
  List.range' (now - delay) (now - (now - delay))

/-- The entries written before `now` that are not read before `now`, the oldest first. -/
def unread (delay now : Nat) (entries : Nat → α) : List α :=
  (unreadCycles delay now).map entries

theorem mem_unreadCycles {delay now cycle : Nat} :
    cycle ∈ unreadCycles delay now ↔ cycle < now ∧ now ≤ cycle + delay := by
  rw [unreadCycles, List.mem_range'_1]
  omega

variable {delay : Nat}

theorem unread_congr (same : ∀ cycle < now, others cycle = entries cycle) :
    unread delay now others = unread delay now entries := by
  apply List.map_congr_left
  intro cycle inside
  exact same cycle (mem_unreadCycles.mp inside).1

/-- Reading takes the oldest entry and writing appends the newest. -/
theorem read_append_unread (delay now : Nat) (entries : Nat → α) (sent : α) :
    (read delay now (Function.update entries now sent)).toList ++
        unread delay (now + 1) (Function.update entries now sent) =
      unread delay now entries ++ [sent] := by
  have kept : unread delay now (Function.update entries now sent) = unread delay now entries := by
    apply unread_congr
    intro cycle earlier
    exact Function.update_of_ne (Nat.ne_of_lt earlier) _ _
  have appended : unread delay now entries ++ [sent] =
      (unreadCycles delay now ++ [now]).map (Function.update entries now sent) := by
    rw [List.map_append, ← kept]
    simp [unread]
  rw [appended]
  unfold read
  split
  case isTrue early =>
    -- The first unread cycle is the one that is due.
    have cycles : unreadCycles delay now ++ [now] =
        (now - delay) :: unreadCycles delay (now + 1) := by
      have first : now + 1 - (now - delay) = now + 1 - (now + 1 - delay) + 1 := by omega
      have last : now + 1 - (now - delay) = now - (now - delay) + 1 := by omega
      have next : now + 1 - delay = now - delay + 1 := by omega
      have whole : unreadCycles delay now ++ [now] =
          List.range' (now - delay) (now + 1 - (now - delay)) := by
        rw [last, List.range'_concat, unreadCycles]
        congr 2
        omega
      rw [whole, first, List.range'_succ, unreadCycles, next]
    rw [cycles]
    rfl
  case isFalse late =>
    have cycles : unreadCycles delay now ++ [now] = unreadCycles delay (now + 1) := by
      have start : now - delay = 0 := by omega
      have next : now + 1 - delay = 0 := by omega
      rw [unreadCycles, unreadCycles, start, next, Nat.sub_zero, Nat.sub_zero, List.range'_concat]
      congr 2
      omega
    rw [cycles]
    rfl

theorem read_update_of_pos (positive : 0 < delay) (now : Nat) (entries : Nat → α) (sent : α) :
    read delay now (Function.update entries now sent) = read delay now entries := by
  unfold read
  split
  case isTrue early =>
    rw [Function.update_of_ne (by omega)]
  case isFalse => rfl

/-- What has been written is what has been read and what is unread. -/
theorem sum_unread (delay now : Nat) (amounts : Nat → Nat) :
    ∑ cycle ∈ Finset.range (now - delay), amounts cycle + (unread delay now amounts).sum =
      ∑ cycle ∈ Finset.range now, amounts cycle := by
  have split : List.range now = List.range (now - delay) ++ unreadCycles delay now := by
    rw [unreadCycles, List.range_eq_range', List.range_eq_range']
    have joined := List.range'_append_1 (s := 0) (m := now - delay) (n := now - (now - delay))
    rw [Nat.zero_add] at joined
    rw [joined]
    congr 1
    omega
  change ((List.range (now - delay)).map amounts).sum + (unread delay now amounts).sum =
    ((List.range now).map amounts).sum
  rw [split, List.map_append, List.sum_append, unread]

/-- What is read in a cycle joins what has been read before. -/
theorem sum_read (delay now : Nat) (amounts : Nat → Nat) :
    ∑ cycle ∈ Finset.range (now - delay), amounts cycle + (read delay now amounts).getD 0 =
      ∑ cycle ∈ Finset.range (now + 1 - delay), amounts cycle := by
  unfold read
  split
  case isTrue early =>
    have next : now + 1 - delay = now - delay + 1 := by omega
    rw [next, Finset.sum_range_succ]
    rfl
  case isFalse late =>
    have start : now - delay = 0 := by omega
    have next : now + 1 - delay = 0 := by omega
    rw [start, next]
    rfl

end DelayLine
end Library
end Dolma

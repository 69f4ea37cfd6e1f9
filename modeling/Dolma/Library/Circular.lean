import Dolma.Library.Loop
import Mathlib.Data.List.Nodup

/-!
# Circular queues and circular searches

A circular queue hands out its items in turn. A circular search takes items from the queue until
one is acceptable or the first one comes round again, and misses no acceptable item. The number
of items to look at is bounded.
-/

namespace Dolma
namespace Library

variable {α : Type*}

/-- A queue that hands out its items in turn. It is never empty, and no item is in
it twice. -/
structure CircularQueue (α : Type*) where
  items : List α
  distinct : items.Nodup
  idx : Fin items.length

namespace CircularQueue

/-- The item a number of places after the next one. -/
def ahead (queue : CircularQueue α) (offset : Nat) : α :=
  queue.items.get
    ⟨(queue.idx + offset) % queue.items.length,
      Nat.mod_lt _ (Nat.lt_of_le_of_lt (Nat.zero_le _) queue.idx.isLt)⟩

/-- The queue after the next item is taken. -/
def advance (queue : CircularQueue α) : CircularQueue α where
  items := queue.items
  distinct := queue.distinct
  idx :=
    ⟨if queue.idx + 1 = queue.items.length then 0 else queue.idx + 1, by
      have bound := queue.idx.isLt
      split <;> omega⟩

/-- The next item, and the queue after it is taken. -/
def take (queue : CircularQueue α) : α × CircularQueue α :=
  (queue.items.get queue.idx, queue.advance)

theorem take_fst (queue : CircularQueue α) : queue.take.1 = queue.ahead 0 := by
  have bound := queue.idx.isLt
  simp only [take, ahead, Nat.add_zero, Nat.mod_eq_of_lt bound]

theorem ahead_mem (queue : CircularQueue α) (offset : Nat) : queue.ahead offset ∈ queue.items :=
  List.get_mem _ _

/-- Taking an item brings the others one place nearer. -/
theorem ahead_advance (queue : CircularQueue α) (offset : Nat) :
    queue.advance.ahead offset = queue.ahead (offset + 1) := by
  have bound := queue.idx.isLt
  unfold ahead
  congr 2
  simp only [advance]
  split
  case isTrue wraps =>
    have shifted : (queue.idx : Nat) + (offset + 1) = offset + queue.items.length := by omega
    rw [shifted, Nat.add_mod_right, Nat.zero_add]
  case isFalse => rw [Nat.add_assoc, Nat.add_comm 1]

variable {queue : CircularQueue α}

/-- Taking an item moves on in the round. -/
theorem ahead_advance_of_ahead
    {current : CircularQueue α} {passed : Nat}
    (reached : ∀ offset, current.ahead offset = queue.ahead (passed + offset)) :
    ∀ offset, current.advance.ahead offset = queue.ahead (passed + 1 + offset) := by
  intro offset
  rw [ahead_advance, reached]
  congr 1
  omega

/-- After a whole round the first item comes again. -/
theorem ahead_length (queue : CircularQueue α) :
    queue.ahead queue.items.length = queue.ahead 0 := by
  unfold ahead
  congr 2
  rw [Nat.add_mod_right, Nat.add_zero]

theorem exists_ahead (mem : item ∈ queue.items) :
    ∃ offset < queue.items.length, queue.ahead offset = item := by
  obtain ⟨position, same⟩ := List.get_of_mem mem
  have bound := queue.idx.isLt
  have inside := position.isLt
  refine ⟨(position + queue.items.length - queue.idx) % queue.items.length,
    Nat.mod_lt _ (by omega), ?_⟩
  rw [← same]
  unfold ahead
  congr 1
  apply Fin.ext
  dsimp only
  rw [Nat.add_mod_mod]
  have sum : (queue.idx : Nat) + (position + queue.items.length - queue.idx) =
      position + queue.items.length := by omega
  rw [sum, Nat.add_mod_right, Nat.mod_eq_of_lt inside]

theorem ahead_ne_of_lt (positive : 0 < offset) (early : offset < queue.items.length) :
    queue.ahead offset ≠ queue.ahead 0 := by
  intro same
  have bound := queue.idx.isLt
  have positions := congrArg Fin.val ((List.Nodup.get_inj_iff queue.distinct).mp same)
  dsimp only at positions
  rw [Nat.add_zero, Nat.mod_eq_of_lt bound] at positions
  by_cases wraps : (queue.idx : Nat) + offset < queue.items.length
  · rw [Nat.mod_eq_of_lt wraps] at positions
    omega
  · rw [Nat.mod_eq_sub_mod (by omega), Nat.mod_eq_of_lt (by omega)] at positions
    omega

/-- What a circular search returns. -/
structure Search (α : Type*) where
  found : Option α
  checked : Bool
  queue : CircularQueue α

variable [DecidableEq α] (accept check : α → Bool)

/-- Look at items in turn until one is acceptable or the first one comes round. -/
def searchFrom
    (first item : α) (queue : CircularQueue α) (checked : Bool) : Nat → Search α
  | 0 => ⟨none, checked, queue⟩
  | bound + 1 =>
      let checked := checked && check item
      if accept item then ⟨some item, checked, queue⟩
      else
        let (next, queue) := queue.take
        if next = first then ⟨none, checked, queue⟩
        else searchFrom first next queue checked bound

/-- A circular search over one round of the queue. -/
def search (queue : CircularQueue α) : Search α :=
  let (first, rest) := queue.take
  searchFrom accept check first first rest true queue.items.length

/-- The body of the loop of a search: the item at hand, the queue and the checks so far. -/
def searchBody (first : α) : α × CircularQueue α × Bool → Search α ⊕ (α × CircularQueue α × Bool)
  | (item, queue, checked) =>
      let checked := checked && check item
      if accept item then .inl ⟨some item, checked, queue⟩
      else
        let (next, queue) := queue.take
        if next = first then .inl ⟨none, checked, queue⟩
        else .inr (next, queue, checked)

/-- What a search in progress has to end with. -/
structure Complete (items : List α) (result : Search α) : Prop where
  kept : result.queue.items = items
  found : ∀ item, result.found = some item → item ∈ items ∧ accept item = true
  complete : result.found = none → ∀ item ∈ items, accept item = false
  checked : (∀ item ∈ items, check item = true) → result.checked = true

theorem searchFrom_complete
    (bound passed : Nat) (round : passed + bound = queue.items.length) (positive : 0 < bound)
    (rejected : ∀ offset < passed, accept (queue.ahead offset) = false) (current : CircularQueue α)
    (same : current.items = queue.items)
    (reached : ∀ offset, current.ahead offset = queue.ahead (passed + 1 + offset)) (checked : Bool)
    (sound : (∀ item ∈ queue.items, check item = true) → checked = true) :
    Complete accept check queue.items
      (searchFrom accept check (queue.ahead 0) (queue.ahead passed) current checked
        bound) := by
  induction bound generalizing passed current checked with
  | zero => omega
  | succ bound ih =>
      have member := queue.ahead_mem passed
      have soundNow : (∀ item ∈ queue.items, check item = true) →
          (checked && check (queue.ahead passed)) = true := by
        intro all
        rw [sound all, all _ member]
        rfl
      unfold searchFrom
      dsimp only
      split
      case isTrue accepted =>
        refine ⟨same, ?_, ?_, soundNow⟩
        · rintro item ⟨⟩
          exact ⟨member, accepted⟩
        · rintro ⟨⟩
      case isFalse declined =>
        have rejectedNow : ∀ offset < passed + 1, accept (queue.ahead offset) = false := by
          intro offset small
          rcases Nat.lt_succ_iff_lt_or_eq.mp small with earlier | rfl
          · exact rejected offset earlier
          · exact Bool.eq_false_iff.mpr declined
        have following : current.take.1 = queue.ahead (passed + 1) := by
          rw [take_fst, reached]
        have advanced := ahead_advance_of_ahead reached
        rw [following]
        split
        case isTrue round =>
          -- the first item has come round, so every item has been rejected
          have last : passed + 1 = queue.items.length := by
            by_contra early
            exact ahead_ne_of_lt (Nat.succ_pos _) (by omega) round
          refine ⟨same, ?_, ?_, soundNow⟩
          · rintro item ⟨⟩
          · intro _ item mem
            obtain ⟨offset, small, rfl⟩ := exists_ahead mem
            exact rejectedNow offset (by omega)
        case isFalse further =>
          have more : 0 < bound := by
            by_contra none
            have last : passed + 1 = queue.items.length := by omega
            exact further (last ▸ queue.ahead_length)
          exact ih (passed + 1) (by omega) more rejectedNow current.advance same advanced _
            soundNow

/-- A search in progress returns. -/
theorem loop_searchBody
    (bound passed : Nat) (round : passed + bound = queue.items.length) (positive : 0 < bound)
    (current : CircularQueue α)
    (reached : ∀ offset, current.ahead offset = queue.ahead (passed + 1 + offset))
    (checked : Bool) :
    loop (searchBody accept check (queue.ahead 0)) bound (queue.ahead passed, current, checked) =
      some (searchFrom accept check (queue.ahead 0) (queue.ahead passed) current checked
        bound) := by
  induction bound generalizing passed current checked with
  | zero => omega
  | succ bound ih =>
      have following : current.take.1 = queue.ahead (passed + 1) := by
        rw [take_fst, reached]
      by_cases accepted : accept (queue.ahead passed) = true
      · have returned : searchBody accept check (queue.ahead 0)
            (queue.ahead passed, current, checked) =
              .inl ⟨some (queue.ahead passed), checked && check (queue.ahead passed), current⟩ :=
          if_pos accepted
        rw [loop_inl returned, searchFrom, if_pos accepted]
      by_cases round' : queue.ahead (passed + 1) = queue.ahead 0
      · have returned : searchBody accept check (queue.ahead 0)
            (queue.ahead passed, current, checked) =
              .inl ⟨none, checked && check (queue.ahead passed), current.take.2⟩ := by
          unfold searchBody
          dsimp only
          rw [if_neg accepted, following, if_pos round']
        rw [loop_inl returned, searchFrom, if_neg accepted]
        dsimp only
        rw [following, if_pos round']
      · have stepped : searchBody accept check (queue.ahead 0)
            (queue.ahead passed, current, checked) =
              .inr (queue.ahead (passed + 1), current.take.2,
                checked && check (queue.ahead passed)) := by
          unfold searchBody
          dsimp only
          rw [if_neg accepted, following, if_neg round']
        have more : 0 < bound := by
          by_contra none
          have last : passed + 1 = queue.items.length := by omega
          exact round' (last ▸ queue.ahead_length)
        rw [loop_inr stepped, searchFrom, if_neg accepted]
        dsimp only
        rw [following, if_neg round']
        exact ih (passed + 1) (by omega) more current.advance (ahead_advance_of_ahead reached) _

/-- A circular search returns, wherever it starts. -/
theorem search_returns (queue : CircularQueue α) :
    Returns (searchBody accept check queue.take.1) (queue.take.1, queue.take.2, true)
      (queue.search accept check) := by
  have bound := queue.idx.isLt
  refine ⟨queue.items.length, ?_⟩
  unfold search
  dsimp only
  rw [take_fst]
  apply loop_searchBody accept check queue.items.length 0
  case round => omega
  case positive => omega
  case reached =>
    intro offset
    have advanced := ahead_advance queue offset
    rw [Nat.add_comm] at advanced
    exact advanced

theorem search_complete (queue : CircularQueue α) :
    Complete accept check queue.items (queue.search accept check) := by
  have bound := queue.idx.isLt
  unfold search
  dsimp only
  rw [take_fst]
  apply searchFrom_complete accept check queue.items.length 0
  case round => omega
  case positive => omega
  case rejected => exact fun _ none => absurd none (Nat.not_lt_zero _)
  case same => rfl
  case reached =>
    intro offset
    have advanced := ahead_advance queue offset
    rw [Nat.add_comm] at advanced
    exact advanced
  case sound => exact fun _ => rfl

end CircularQueue

end Library
end Dolma

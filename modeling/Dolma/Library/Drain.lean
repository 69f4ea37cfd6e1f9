import Mathlib.Data.List.Basic
import Mathlib.Data.List.Perm.Basic
import Dolma.Library.Loop

/-!
# Draining a list

A loop takes an item off a list as long as there is one that passes a test, and hands it on.
Whatever order the items are taken in, the items that pass are handed on once each, and the
others stay in their order.
-/

namespace Dolma
namespace Library

variable {α β : Type*} [DecidableEq α]

/-- The state of a loop that drains a list. -/
structure Drain (α β : Type*) where
  left : List α
  out : β
  handed : List α := []

namespace Drain

/-- An item is taken off the list and handed on. -/
def hand (give : β → α → β) (drain : Drain α β) (item : α) : Drain α β where
  left := drain.left.erase item
  out := give drain.out item
  handed := drain.handed ++ [item]

/-- One iteration. -/
def body
    (take : List α → Option α) (give : β → α → β) (drain : Drain α β) : Drain α β ⊕ Drain α β :=
  match take drain.left with
  | none => .inl drain
  | some item => .inr (drain.hand give item)

/-- Drain a list. -/
def run
    (take : List α → Option α) (give : β → α → β) (out : β) (list : List α) : Option (Drain α β) :=
  loop (body take give) (list.length + 1) { left := list, out := out }

/-- Items that pass the test are taken, as long as there are any. -/
structure Picks (take : List α → Option α) (test : α → Bool) : Prop where
  passes : ∀ {list item}, take list = some item → item ∈ list ∧ test item = true
  complete : ∀ {list}, take list = none → ∀ item ∈ list, test item = false

section

variable {take : List α → Option α} {give : β → α → β} {test : α → Bool}
variable {drain next : Drain α β} {list : List α} {out : β} {item : α} {before : α → α → Prop}

theorem body_inr (stepped : body take give drain = .inr next) :
    ∃ item, take drain.left = some item ∧ next = drain.hand give item := by
  unfold body at stepped
  cases taken : take drain.left with
  | none =>
      rw [taken] at stepped
      cases stepped
  | some item =>
      rw [taken] at stepped
      cases stepped
      exact ⟨item, rfl, rfl⟩

theorem body_inl (returned : body take give drain = .inl next) :
    take drain.left = none ∧ next = drain := by
  unfold body at returned
  cases taken : take drain.left with
  | none =>
      rw [taken] at returned
      cases returned
      exact ⟨rfl, rfl⟩
  | some item =>
      rw [taken] at returned
      cases returned

/-- Draining ends, and a property that every step keeps holds at the end. -/
theorem exists_run
    (picks : Picks take test) {property : Drain α β → Prop}
    (base : property { left := list, out := out })
    (kept : ∀ drain item, property drain → take drain.left = some item →
      property (drain.hand give item)) :
    ∃ drain, run take give out list = some drain ∧ property drain ∧ take drain.left = none := by
  have step : ∀ drain next : Drain α β, property drain →
      body take give drain = .inr next →
      property next ∧ next.left.length < drain.left.length := by
    intro drain next holds stepped
    obtain ⟨item, taken, rfl⟩ := body_inr stepped
    have member := (picks.passes taken).1
    refine ⟨kept drain item holds taken, ?_⟩
    change (drain.left.erase item).length < drain.left.length
    rw [List.length_erase_of_mem member]
    exact Nat.sub_lt (List.length_pos_of_mem member) Nat.one_pos
  obtain ⟨last, drain, holds, returned, finished⟩ :=
    exists_loop (fun drain : Drain α β => drain.left.length) step
      (Nat.lt_succ_self list.length) base
  obtain ⟨nothing, rfl⟩ := body_inl returned
  exact ⟨drain, finished, holds, nothing⟩

/-- What holds of a list that is being drained: the items handed on are those that pass,
without those still on the list, and the items that do not pass are untouched. -/
structure Progress
    (test : α → Bool) (give : β → α → β) (list : List α) (out : β) (drain : Drain α β) : Prop where
  passing : (drain.handed ++ drain.left.filter test).Perm (list.filter test)
  staying : (drain.left.filter fun item => !test item) = list.filter fun item => !test item
  given : drain.out = drain.handed.foldl give out

theorem Progress.hand
    (picks : Picks take test) (progress : Progress test give list out drain)
    (taken : take drain.left = some item) :
    Progress test give list out (drain.hand give item) := by
  obtain ⟨member, passes⟩ := picks.passes taken
  constructor
  case passing =>
    refine List.Perm.trans ?_ progress.passing
    unfold Drain.hand
    dsimp only
    rw [List.append_assoc, List.singleton_append, ← List.erase_filter]
    apply List.Perm.append_left
    exact (List.perm_cons_erase (List.mem_filter.mpr ⟨member, passes⟩)).symm
  case staying =>
    refine Eq.trans ?_ progress.staying
    unfold Drain.hand
    dsimp only
    rw [← List.erase_filter]
    apply List.erase_of_not_mem
    intro stays
    rw [List.mem_filter, passes] at stays
    exact Bool.false_ne_true stays.2
  case given =>
    unfold Drain.hand
    dsimp only
    rw [List.foldl_append, ← progress.given]
    rfl

/-- The items are handed on in an order. -/
structure InOrder (before : α → α → Prop) (test : α → Bool) (drain : Drain α β) : Prop where
  pairwise : drain.handed.Pairwise before
  younger : ∀ item ∈ drain.handed, ∀ other ∈ drain.left, test other = true → before item other

theorem InOrder.hand
    (picks : Picks take test) (inOrder : InOrder before test drain)
    (taken : take drain.left = some item)
    (first : ∀ other ∈ drain.left.erase item, test other = true → before item other) :
    InOrder before test (drain.hand give item) := by
  obtain ⟨member, passes⟩ := picks.passes taken
  constructor
  case pairwise =>
    refine List.pairwise_append.mpr ⟨inOrder.pairwise, List.pairwise_singleton _ _, ?_⟩
    intro earlier isHanded other isItem
    rw [List.mem_singleton.mp isItem]
    exact inOrder.younger earlier isHanded item member passes
  case younger =>
    intro earlier isHanded other isLeft otherPasses
    rcases List.mem_append.mp isHanded with isEarlier | isItem
    · exact inOrder.younger earlier isEarlier other (List.erase_subset isLeft) otherPasses
    · rw [List.mem_singleton.mp isItem]
      exact first other isLeft otherPasses

omit [DecidableEq α] in
/-- At the end the items that pass have all been handed on. -/
theorem Progress.done
    (picks : Picks take test) (progress : Progress test give list out drain)
    (nothing : take drain.left = none) :
    drain.handed.Perm (list.filter test) ∧ drain.left = list.filter fun item => !test item := by
  have fails := picks.complete nothing
  have noneLeft : drain.left.filter test = [] := by
    rw [List.filter_eq_nil_iff]
    intro item member passes
    rw [fails item member] at passes
    cases passes
  have allLeft : (drain.left.filter fun item => !test item) = drain.left := by
    rw [List.filter_eq_self]
    intro item member
    rw [fails item member]
    rfl
  constructor
  · have passing := progress.passing
    rw [noneLeft, List.append_nil] at passing
    exact passing
  · rw [← allLeft]
    exact progress.staying

/-- Draining a list without duplicates ends. The items that pass are handed on once each, in the
order they are taken, and the others keep their order. -/
theorem run_returns
    (picks : Picks take test)
    (first : ∀ {list item other}, list.Nodup → take list = some item →
      other ∈ list.erase item → test other = true → before item other)
    (give : β → α → β) (out : β) (distinct : list.Nodup) :
    ∃ drain, run take give out list = some drain ∧
      drain.handed.Perm (list.filter test) ∧
      drain.handed.Pairwise before ∧
      drain.left = (list.filter fun item => !test item) ∧
      drain.out = drain.handed.foldl give out := by
  let start : Drain α β := { left := list, out := out }
  let Kept (drain : Drain α β) : Prop :=
    Progress test give list out drain ∧ InOrder before test drain ∧ drain.left.Nodup
  have base : Kept start := by
    refine ⟨⟨List.Perm.refl _, rfl, rfl⟩, ⟨List.Pairwise.nil, ?_⟩, distinct⟩
    intro item isHanded
    cases isHanded
  have kept : ∀ drain item, Kept drain → take drain.left = some item →
      Kept (drain.hand give item) := by
    rintro drain item ⟨progress, inOrder, distinct⟩ taken
    refine ⟨progress.hand picks taken, inOrder.hand picks taken ?_, distinct.erase item⟩
    intro other isLeft passes
    exact first distinct taken isLeft passes
  obtain ⟨drain, finished, ⟨progress, inOrder, -⟩, nothing⟩ := exists_run picks base kept
  obtain ⟨handed, left⟩ := progress.done picks nothing
  exact ⟨drain, finished, handed, inOrder.pairwise, left, progress.given⟩

end

end Drain

end Library
end Dolma

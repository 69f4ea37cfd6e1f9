import Dolma.Library.Circular
import Mathlib.Logic.Function.Basic

/-!
# The pool of functional units

A unit that is taken remembers the sequence number of its occupant. Releases are
scheduled by index when the occupant issues or when its completion event fires,
and take effect at the start of the next cycle.
-/

namespace Dolma
namespace Sched

open Library

/-- What a search for a unit returns. -/
inductive UnitChoice where
  | noCapableFU
  | noFreeFU
  | unit (idx : Nat)
deriving DecidableEq, Repr

/-- The pool of functional units. -/
structure FUPool where
  fuPerCapList : Nat → Option (CircularQueue Nat)
  /-- The sequence number of the occupant of a unit, or zero. -/
  unitBusy : Nat → Nat
  unitsToBeFreed : List Nat
  /-- The instructions whose releases are queued, in the same order. The
  statements need them, and no function reads them. -/
  releasedBy : List Nat
  failed : Bool

namespace FUPool

variable (pool : FUPool)

/-- The units that provide a capability. -/
def units (capability : Nat) : List Nat :=
  match pool.fuPerCapList capability with
  | none => []
  | some queue => queue.items

/-- Turn the queue of a capability. -/
def setQueue (capability : Nat) (queue : CircularQueue Nat) : FUPool :=
  { pool with
    fuPerCapList := fun other =>
      if other = capability then some queue else pool.fuPerCapList other }

/-- Give a unit to an instruction. -/
def occupy (idx seqNum : Nat) : FUPool :=
  { pool with unitBusy := fun other => if other = idx then seqNum else pool.unitBusy other }

/-- Find a free unit and give it to an instruction. -/
def getUnit (capability seqNum : Nat) : UnitChoice × FUPool :=
  match pool.fuPerCapList capability with
  | none => (.noCapableFU, pool)
  | some queue =>
      let result := queue.search (fun idx => pool.unitBusy idx == 0) (fun _ => true)
      let turned := pool.setQueue capability result.queue
      match result.found with
      | none => (.noFreeFU, turned)
      | some idx => (.unit idx, turned.occupy idx seqNum)

/-- Find a unit whose occupant may be thrown out. The source asserts that every
unit it looks at is busy. -/
def findOccupied (capability : Nat) (evictable : Nat → Bool) : Option Nat × FUPool :=
  match pool.fuPerCapList capability with
  | none => (none, pool)
  | some queue =>
      let result :=
        queue.search (fun idx => evictable (pool.unitBusy idx))
          (fun idx => pool.unitBusy idx != 0)
      let turned := pool.setQueue capability result.queue
      (result.found, { turned with failed := turned.failed || !result.checked })

/-- Queue the release of a unit. -/
def freeUnitNextCycle (idx seqNum : Nat) : FUPool :=
  { pool with
    failed := pool.failed || pool.unitBusy idx == 0
    unitsToBeFreed := pool.unitsToBeFreed ++ [idx]
    releasedBy := pool.releasedBy ++ [seqNum] }

/-- Free one unit. -/
def freeUnit (idx : Nat) : FUPool :=
  { pool with
    failed := pool.failed || pool.unitBusy idx == 0
    unitBusy := fun other => if other = idx then 0 else pool.unitBusy other }

/-- Free all units on the list, the last first. -/
def processFreeUnits : FUPool :=
  { pool.unitsToBeFreed.reverse.foldl freeUnit pool with
    unitsToBeFreed := []
    releasedBy := [] }

/-- Two pools agree on everything but the positions of their queues. -/
structure Turned (before after : FUPool) : Prop where
  unitBusy : after.unitBusy = before.unitBusy
  unitsToBeFreed : after.unitsToBeFreed = before.unitsToBeFreed
  releasedBy : after.releasedBy = before.releasedBy
  failed : after.failed = before.failed

/-- Turning the queues twice is turning them. -/
theorem Turned.trans (before : Turned first second) (after : Turned second third) :
    Turned first third :=
  ⟨after.unitBusy.trans before.unitBusy, after.unitsToBeFreed.trans before.unitsToBeFreed,
    after.releasedBy.trans before.releasedBy, after.failed.trans before.failed⟩

section Searches

variable {pool : FUPool} {capability : Nat}

/-- A search for a free unit finds none because all are busy, or takes one that is
free. -/
theorem getUnit_cases (pool : FUPool) (capability seqNum : Nat) :
    ((pool.getUnit capability seqNum).1 = .noCapableFU ∧
        (pool.getUnit capability seqNum).2 = pool) ∨
      ((pool.getUnit capability seqNum).1 = .noFreeFU ∧
        (∀ idx ∈ pool.units capability, pool.unitBusy idx ≠ 0) ∧
          Turned pool (pool.getUnit capability seqNum).2) ∨
        ∃ idx turned, (pool.getUnit capability seqNum).1 = .unit idx ∧
          pool.unitBusy idx = 0 ∧ Turned pool turned ∧
            (pool.getUnit capability seqNum).2 = turned.occupy idx seqNum := by
  unfold getUnit units
  cases pool.fuPerCapList capability
  case none => exact .inl ⟨rfl, rfl⟩
  case some queue =>
    have complete := queue.search_complete (fun idx => pool.unitBusy idx == 0) (fun _ => true)
    have turned : Turned pool (pool.setQueue capability
        (queue.search (fun idx => pool.unitBusy idx == 0) (fun _ => true)).queue) :=
      ⟨rfl, rfl, rfl, rfl⟩
    dsimp only
    cases result :
      (queue.search (fun idx => pool.unitBusy idx == 0) (fun _ => true)).found
    case none =>
      refine .inr (.inl ⟨rfl, ?_, turned⟩)
      intro idx mem
      exact beq_eq_false_iff_ne.mp (complete.complete result idx mem)
    case some idx =>
      exact .inr (.inr ⟨idx, _, rfl, beq_iff_eq.mp (complete.found idx result).2, turned, rfl⟩)

/-- The search fails no assertion among busy units. -/
theorem findOccupied_turned
    (evictable : Nat → Bool) (busy : ∀ idx ∈ pool.units capability, pool.unitBusy idx ≠ 0) :
    Turned pool (pool.findOccupied capability evictable).2 := by
  unfold findOccupied
  unfold units at busy
  cases list : pool.fuPerCapList capability
  case none => exact ⟨rfl, rfl, rfl, rfl⟩
  case some queue =>
    rw [list] at busy
    have complete := queue.search_complete (fun idx => evictable (pool.unitBusy idx))
      (fun idx => pool.unitBusy idx != 0)
    have checked := complete.checked fun idx mem => bne_iff_ne.mpr (busy idx mem)
    refine ⟨rfl, rfl, rfl, ?_⟩
    simp [checked, setQueue]

variable {evictable : Nat → Bool}

/-- An occupant that is found may be thrown out. -/
theorem findOccupied_found (found : (pool.findOccupied capability evictable).1 = some idx) :
    idx ∈ pool.units capability ∧ evictable (pool.unitBusy idx) = true := by
  unfold findOccupied at found
  unfold units
  cases list : pool.fuPerCapList capability
  case none =>
    rw [list] at found
    cases found
  case some queue =>
    rw [list] at found
    have complete := queue.search_complete (fun idx => evictable (pool.unitBusy idx))
      (fun idx => pool.unitBusy idx != 0)
    exact complete.found idx found

/-- If none is found, none may be thrown out. -/
theorem findOccupied_none (none : (pool.findOccupied capability evictable).1 = none) :
    ∀ idx ∈ pool.units capability, evictable (pool.unitBusy idx) = false := by
  unfold findOccupied at none
  unfold units
  cases list : pool.fuPerCapList capability
  case none => exact fun _ member => absurd member List.not_mem_nil
  case some queue =>
    rw [list] at none
    have complete := queue.search_complete (fun idx => evictable (pool.unitBusy idx))
      (fun idx => pool.unitBusy idx != 0)
    exact complete.complete none

theorem getUnit_noFreeFU_units
    (full : (pool.getUnit capability seqNum).1 = .noFreeFU) (other : Nat) :
    (pool.getUnit capability seqNum).2.units other = pool.units other := by
  unfold getUnit at full ⊢
  cases list : pool.fuPerCapList capability
  case none => rfl
  case some queue =>
    rw [list] at full
    have complete := queue.search_complete (fun idx => pool.unitBusy idx == 0) (fun _ => true)
    dsimp only at full ⊢
    cases result :
      (queue.search (fun idx => pool.unitBusy idx == 0) (fun _ => true)).found
    case some idx =>
      rw [result] at full
      cases full
    case none =>
      unfold units setQueue
      dsimp only
      by_cases same : other = capability
      · rw [if_pos same, same, list]
        exact complete.kept
      · rw [if_neg same]

end Searches

end FUPool

end Sched
end Dolma

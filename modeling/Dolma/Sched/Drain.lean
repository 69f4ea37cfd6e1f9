import Dolma.Library.Drain
import Dolma.Sched.Pass

/-!
# Draining the waiting lists

Before the scheduler looks at the ready lists, it moves the stalled instructions that have
been released or squashed to them, oldest first, then the instructions whose translation is
done, and then those that may access the cache again.
-/

namespace Dolma
namespace Sched

open Library

variable (heap : Nat → Inst)

/-- An instruction goes to the ready list of its class. -/
def addReady (lists : ReadyLists) (seq : Nat) : ReadyLists :=
  lists.addReadyMemInst (heap seq).opClass seq

/-- One step of the scan for the oldest instruction that is not stalled. -/
def older (oldest : Option Nat) (seq : Nat) : Option Nat :=
  if !(heap seq).isDolmaStalled then
    match oldest with
    | none => some seq
    | some best => if seq < best then some seq else some best
  else oldest

/-- The stalled instruction to execute. -/
def getDolmaStalledInstToExecute (dolmaStalledInsts : List Nat) : Option Nat :=
  dolmaStalledInsts.foldl (older heap) none

/-- The instruction whose translation is done. -/
def getDeferredMemInstToExecute
    (translationCompleted : Nat → Bool) (deferredMemInsts : List Nat) : Option Nat :=
  deferredMemInsts.find? fun seq => translationCompleted seq || (heap seq).squashed

/-- The instruction that may access the cache again. -/
def getBlockedMemInstToExecute (retryMemInsts : List Nat) : Option Nat :=
  retryMemInsts.head?

/-- The stall list is drained. -/
def drainStalled (lists : ReadyLists) (dolmaStalledInsts : List Nat) :
    Option (Drain Nat ReadyLists) :=
  Drain.run (getDolmaStalledInstToExecute heap) (addReady heap) lists dolmaStalledInsts

/-- The list of delayed translations is drained. -/
def drainDeferred
    (translationCompleted : Nat → Bool) (lists : ReadyLists)
    (deferredMemInsts : List Nat) : Option (Drain Nat ReadyLists) :=
  Drain.run (getDeferredMemInstToExecute heap translationCompleted) (addReady heap) lists
    deferredMemInsts

/-- The list of blocked accesses is drained. -/
def drainBlocked (lists : ReadyLists) (retryMemInsts : List Nat) : Option (Drain Nat ReadyLists) :=
  Drain.run getBlockedMemInstToExecute (addReady heap) lists retryMemInsts

/-! ## The stall list -/

theorem foldl_older (best : Nat) (list : List Nat) :
    list.foldl (older heap) (some best) =
      some ((list.filter fun seq => !(heap seq).isDolmaStalled).foldl min best) := by
  induction list generalizing best with
  | nil => rfl
  | cons seq list ih =>
      rw [List.foldl_cons, List.filter_cons]
      unfold older
      split
      case isTrue free =>
        dsimp only
        rw [List.foldl_cons]
        split
        case isTrue younger =>
          rw [Nat.min_eq_right (Nat.le_of_lt younger)]
          exact ih seq
        case isFalse older =>
          rw [Nat.min_eq_left (Nat.le_of_not_lt older)]
          exact ih best
      case isFalse => exact ih best

/-- The scan finds the oldest instruction that is not stalled. -/
theorem getDolmaStalledInstToExecute_eq (list : List Nat) :
    getDolmaStalledInstToExecute heap list =
      (list.filter fun seq => !(heap seq).isDolmaStalled).min? := by
  unfold getDolmaStalledInstToExecute
  induction list with
  | nil => rfl
  | cons seq list ih =>
      rw [List.foldl_cons, List.filter_cons]
      unfold older
      split
      case isTrue => exact foldl_older heap seq list
      case isFalse => exact ih

/-- The instruction found is not stalled, and there is none only if all are stalled. -/
theorem getDolmaStalledInstToExecute_picks :
    Drain.Picks (getDolmaStalledInstToExecute heap)
      fun seq => !(heap seq).isDolmaStalled where
  passes := by
    intro list seq found
    rw [getDolmaStalledInstToExecute_eq] at found
    exact List.mem_filter.mp (List.min?_mem found)
  complete := by
    intro list nothing seq member
    rw [getDolmaStalledInstToExecute_eq, List.min?_eq_none_iff, List.filter_eq_nil_iff] at nothing
    exact Bool.not_eq_true _ ▸ nothing seq member

/-- The one found is older than the others not stalled. -/
theorem getDolmaStalledInstToExecute_lt
    (distinct : list.Nodup) (found : getDolmaStalledInstToExecute heap list = some seq)
    (isLeft : other ∈ list.erase seq) (free : (!(heap other).isDolmaStalled) = true) :
    seq < other := by
  rw [getDolmaStalledInstToExecute_eq] at found
  obtain ⟨apart, member⟩ := (List.Nodup.mem_erase_iff distinct).mp isLeft
  have least := (List.min?_eq_some_iff.mp found).2 other (List.mem_filter.mpr ⟨member, free⟩)
  omega

/-- Draining a stall list ends. The instructions no longer stalled go to the ready lists once
each, oldest first, and the others keep their order. -/
theorem drainStalled_returns
    (lists : ReadyLists) {dolmaStalledInsts : List Nat} (distinct : dolmaStalledInsts.Nodup) :
    ∃ drain, drainStalled heap lists dolmaStalledInsts = some drain ∧
      drain.handed.Perm (dolmaStalledInsts.filter fun seq => !(heap seq).isDolmaStalled) ∧
      drain.handed.Pairwise (· < ·) ∧
      drain.left = (dolmaStalledInsts.filter fun seq => (heap seq).isDolmaStalled) ∧
      drain.out = drain.handed.foldl (addReady heap) lists := by
  obtain ⟨drain, finished, handed, inOrder, left, given⟩ :=
    Drain.run_returns (getDolmaStalledInstToExecute_picks heap)
      (getDolmaStalledInstToExecute_lt heap) (addReady heap) lists distinct
  refine ⟨drain, finished, handed, inOrder, ?_, given⟩
  rw [left]
  simp only [Bool.not_not]

/-- Of three stalled instructions the oldest and the youngest have been released. -/
theorem drainStalled_returns_twoReleased :
    ∃ drain,
      drainStalled (fun seq => { stalled := seq == 5 }) {} [9, 5, 3] = some drain ∧
        drain.handed.Perm [9, 3] ∧ drain.handed.Pairwise (· < ·) ∧ drain.left = [5] := by
  have distinct : [9, 5, 3].Nodup := by decide
  obtain ⟨drain, finished, handed, inOrder, left, -⟩ :=
    drainStalled_returns (fun seq => { stalled := seq == 5 }) {} distinct
  exact ⟨drain, finished, handed, inOrder, left⟩

/-! ## The other lists -/

/-- The instruction is translated or squashed. -/
theorem getDeferredMemInstToExecute_picks (translationCompleted : Nat → Bool) :
    Drain.Picks (getDeferredMemInstToExecute heap translationCompleted)
      fun seq => translationCompleted seq || (heap seq).squashed where
  passes := by
    intro list seq found
    unfold getDeferredMemInstToExecute at found
    have passes := List.find?_some found
    exact ⟨List.mem_of_find?_eq_some found, passes⟩
  complete := by
    intro list nothing seq member
    exact Bool.not_eq_true _ ▸ List.find?_eq_none.mp nothing seq member

/-- Any blocked instruction may go on. -/
theorem getBlockedMemInstToExecute_picks :
    Drain.Picks getBlockedMemInstToExecute fun _ => true where
  passes := by
    intro list seq found
    exact ⟨List.mem_of_head? found, rfl⟩
  complete := by
    intro list nothing seq member
    rw [List.head?_eq_none_iff.mp nothing] at member
    cases member

end Sched
end Dolma

import Dolma.LsqUnit.StoreRing
import Mathlib.Data.List.ReduceOption

/-!
# Stores that write back

The write-back index separates the stores that are sent from those that are not. The
stores that may write back come first in the queue, stores are completed only after
they are sent, and completed stores leave from the head.
-/

namespace Dolma
namespace LsqUnit

open Library LSQUnit

/-- The store may write back and is not completed. -/
def SQEntry.isPending (entry : SQEntry) : Bool := entry.canWB && !entry.completed

/-- The marks of an entry, by the number of its store. -/
structure Marks (head written i : Nat) (entry : SQEntry) : Prop where
  sent : i < written → entry.canWB = true
  waiting : written ≤ i → entry.completed = false
  left : i < head → entry.completed = true
  headOpen : i = head → entry.completed = false
  plain : entry.isDataPrefetch = false

/-- The state of the write-back of stores. -/
structure Writeback (params : Params) (lsq : LSQUnit) (queue : Queue) (written : Nat) : Prop where
  idx : lsq.storeWBIdx = written % params.sqEntries
  head_le : queue.storeHead ≤ written
  written_le : written ≤ queue.stores.length
  allowed : (queue.stores.map SQEntry.canWB).Pairwise fun older younger =>
    younger = true → older = true
  marks : ∀ i (inside : i < queue.stores.length), Marks queue.storeHead written i queue.stores[i]
  counter : lsq.storesToWB = ((queue.stores.map SQEntry.isPending).count true : Int)

namespace Writeback

variable {params : Params} {lsq next : LSQUnit} {queue : Queue} {written i : Nat}

section

variable (writeback : Writeback params lsq queue written)
include writeback

/-- The state of the write-back depends on two fields of the unit. -/
theorem congr
    (idx : next.storeWBIdx = lsq.storeWBIdx) (counter : next.storesToWB = lsq.storesToWB) :
    Writeback params next queue written :=
  { writeback with
    idx := idx.trans writeback.idx
    counter := counter.trans writeback.counter }

/-- Some store is not sent if the write-back index is not at the tail. -/
theorem lt_length (rings : Rings params lsq queue) (further : lsq.storeWBIdx ≠ lsq.storeTail) :
    written < queue.stores.length := by
  refine Nat.lt_of_le_of_ne writeback.written_le fun last => further ?_
  rw [writeback.idx, last, rings.storeRing.tail_eq]

theorem slot (rings : Rings params lsq queue) (inside : written < queue.stores.length) :
    lsq.storeQueue lsq.storeWBIdx = queue.stores[written] := by
  rw [writeback.idx]
  exact rings.storeRing.slot written inside writeback.head_le

/-- A store that may write back is older than one that may not. -/
theorem lt_of_allowed
    (inside : i < queue.stores.length) (inside' : j < queue.stores.length)
    (allowed : queue.stores[i].canWB = true) (forbidden : queue.stores[j].canWB = false) :
    i < j := by
  by_contra after
  have distinct : j ≠ i := by
    rintro rfl
    rw [allowed] at forbidden
    cases forbidden
  have order := List.pairwise_iff_getElem.mp writeback.allowed j i (by simpa using inside')
    (by simpa using inside) (by omega)
  simp only [List.getElem_map] at order
  rw [order allowed] at forbidden
  cases forbidden

theorem push (seq : Nat) :
    Writeback params lsq { queue with stores := queue.stores ++ [{ inst := some seq }] }
      written where
  idx := writeback.idx
  head_le := writeback.head_le
  written_le := by
    have upTo := writeback.written_le
    rw [List.length_append]
    omega
  allowed := by
    rw [List.map_append, List.pairwise_append]
    refine ⟨writeback.allowed, List.pairwise_singleton _ _, ?_⟩
    intro older _ younger last allowed
    rw [List.mem_singleton.mp last] at allowed
    cases allowed
  marks := by
    have upTo := writeback.written_le
    have head := writeback.head_le
    refine forall_append (Marks queue.storeHead written) writeback.marks ?_
    exact ⟨fun _ => by omega, fun _ => rfl, fun _ => by omega, fun _ => rfl, rfl⟩
  counter := by
    rw [List.map_append, List.count_append, writeback.counter]
    simp [SQEntry.isPending]

theorem set
    (inside : i < queue.stores.length) (canWB : entry.canWB = queue.stores[i].canWB)
    (completed : entry.completed = queue.stores[i].completed)
    (plain : entry.isDataPrefetch = queue.stores[i].isDataPrefetch) :
    Writeback params lsq { queue with stores := queue.stores.set i entry } written where
  idx := writeback.idx
  head_le := writeback.head_le
  written_le := by
    rw [List.length_set]
    exact writeback.written_le
  allowed := by
    rw [map_set_eq SQEntry.canWB inside canWB]
    exact writeback.allowed
  marks := by
    refine forall_set _ (fun j inside _ => writeback.marks j inside) fun inside => ?_
    have marks := writeback.marks i inside
    constructor
    case sent => rw [canWB]; exact marks.sent
    case waiting => rw [completed]; exact marks.waiting
    case left => rw [completed]; exact marks.left
    case headOpen => rw [completed]; exact marks.headOpen
    case plain => rw [plain]; exact marks.plain
  counter := by
    have pending : entry.isPending = queue.stores[i].isPending := by
      rw [SQEntry.isPending, SQEntry.isPending, canWB, completed]
    rw [map_set_eq SQEntry.isPending inside pending]
    exact writeback.counter

/-- The counter after a store is completed. -/
theorem counter_complete
    (inside : i < queue.stores.length) (allowed : queue.stores[i].canWB = true)
    (open' : queue.stores[i].completed = false) :
    lsq.storesToWB - 1 =
      (((queue.stores.set i queue.stores[i].setCompleted).map SQEntry.isPending).count
        true : Int) := by
  have before : queue.stores[i].isPending = true := by
    simp [SQEntry.isPending, allowed, open']
  have after : queue.stores[i].setCompleted.isPending = false := by
    simp [SQEntry.isPending]
  have some : 0 < (queue.stores.map SQEntry.isPending).count true := by
    rw [List.count_pos_iff, List.mem_map]
    exact ⟨_, List.getElem_mem inside, before⟩
  rw [List.map_set, List.count_set (by simpa using inside), List.getElem_map, before, after,
    writeback.counter]
  simp
  omega

end

variable {later : LSQUnit}

section

variable (writeback : Writeback params lsq queue written)
include writeback

/-- A store that is sent is completed, or the first one that is not sent is completed
and passed over. -/
theorem complete
    (inside : i < queue.stores.length)
    (reached : written' = written ∧ i < written ∨ written' = written + 1 ∧ i = written)
    (allowed : queue.stores[i].canWB = true) (open' : queue.stores[i].completed = false)
    (completes : Completes params lsq queue i seq next head)
    (idx : later.storeWBIdx = written' % params.sqEntries)
    (counter : later.storesToWB = lsq.storesToWB - 1) :
    Writeback params later
      { queue with
        stores := queue.stores.set i queue.stores[i].setCompleted
        storeHead := head } written' := by
  have upTo := writeback.written_le
  have fromHead := writeback.head_le
  have headUpTo := completes.upTo
  have openHead := completes.headOpen fun inside =>
    (writeback.marks _ inside).headOpen rfl
  have head_le : head ≤ written' := by
    by_contra beyond
    have some : written' < queue.stores.length := by omega
    rcases completes.left written' some (by omega) (by omega) with same | done
    · omega
    · rw [(writeback.marks written' some).waiting (by omega)] at done
      cases done
  refine ⟨idx, head_le, ?_, ?_, ?_, ?_⟩
  · rw [List.length_set]
    omega
  · have keeps : (queue.stores.set i queue.stores[i].setCompleted).map SQEntry.canWB =
        queue.stores.map SQEntry.canWB := map_set_eq _ inside rfl
    dsimp only
    rw [keeps]
    exact writeback.allowed
  · refine forall_set _ (fun j inside distinct => ?_) fun inside => ?_
    · have marks := writeback.marks j inside
      constructor
      case sent => exact fun before => marks.sent (by omega)
      case waiting => exact fun after => marks.waiting (by omega)
      case left =>
        intro before
        rcases Nat.lt_or_ge j queue.storeHead with old | new
        · exact marks.left old
        · exact (completes.left j inside new before).resolve_left distinct
      case headOpen =>
        rintro rfl
        exact (openHead inside).2
      case plain => exact marks.plain
    · constructor
      case sent => exact fun _ => allowed
      case waiting => exact fun after => by omega
      case left => exact fun _ => rfl
      case headOpen =>
        rintro rfl
        exact absurd rfl (openHead inside).1
      case plain => exact (writeback.marks i inside).plain
  · rw [counter]
    exact writeback.counter_complete inside allowed open'

theorem advance
    (inside : written < queue.stores.length) (allowed : queue.stores[written].canWB = true)
    (idx : later.storeWBIdx = (written + 1) % params.sqEntries)
    (counter : later.storesToWB = lsq.storesToWB) :
    Writeback params later queue (written + 1) where
  idx := idx
  head_le := Nat.le_succ_of_le writeback.head_le
  written_le := inside
  allowed := writeback.allowed
  marks := by
    intro i inside'
    have marks := writeback.marks i inside'
    refine ⟨fun before => ?_, fun after => marks.waiting (Nat.le_of_succ_le after), marks.left,
      marks.headOpen, marks.plain⟩
    rcases Nat.eq_or_lt_of_le (Nat.le_of_lt_succ before) with rfl | earlier
    · exact allowed
    · exact marks.sent earlier
  counter := counter.trans writeback.counter

theorem map_mark (youngestInst : Nat) :
    queue.stores.take queue.storeHead ++
        (queue.stores.drop queue.storeHead).map (SQEntry.mark youngestInst) =
      queue.stores.map (SQEntry.mark youngestInst) := by
  have same : (queue.stores.take queue.storeHead).map (SQEntry.mark youngestInst) =
      queue.stores.take queue.storeHead := by
    rw [List.map_congr_left, List.map_id']
    intro entry member
    obtain ⟨j, small, rfl⟩ := List.getElem_of_mem member
    rw [List.length_take] at small
    rw [List.getElem_take]
    have head := writeback.head_le
    exact SQEntry.mark_of_canWB ((writeback.marks j (by omega)).sent (by omega)) youngestInst
  rw [← same, ← List.map_append, List.take_append_drop]

theorem filter_isNew (youngestInst : Nat) :
    (queue.stores.drop queue.storeHead).filter (SQEntry.isNew youngestInst) =
      queue.stores.filter (SQEntry.isNew youngestInst) := by
  have none : (queue.stores.take queue.storeHead).filter (SQEntry.isNew youngestInst) = [] := by
    rw [List.filter_eq_nil_iff]
    intro entry member
    obtain ⟨j, small, rfl⟩ := List.getElem_of_mem member
    rw [List.length_take] at small
    rw [List.getElem_take]
    have head := writeback.head_le
    simp [SQEntry.isNew, (writeback.marks j (by omega)).sent (by omega)]
  conv_rhs => rw [← List.take_append_drop queue.storeHead queue.stores]
  rw [List.filter_append, none, List.nil_append]

end

/-- Marking adds the new stores to those that may write back. -/
theorem count_mark
    (youngestInst : Nat) (stores : List SQEntry)
    (open' : ∀ entry ∈ stores, entry.canWB = false → entry.completed = false) :
    ((stores.map (SQEntry.mark youngestInst)).map SQEntry.isPending).count true =
      (stores.map SQEntry.isPending).count true +
        (stores.filter (SQEntry.isNew youngestInst)).length := by
  induction stores with
  | nil => rfl
  | cons entry stores ih =>
      have rest := ih fun other member => open' other (List.mem_cons_of_mem _ member)
      simp only [List.map_cons, List.count_cons, List.filter_cons, rest]
      by_cases allowed : entry.canWB = true
      · simp [SQEntry.mark_of_canWB allowed, SQEntry.isNew, allowed]
        omega
      · rw [Bool.not_eq_true] at allowed
        have waiting := open' entry List.mem_cons_self allowed
        by_cases committed : entry.seqNum ≤ youngestInst
        · simp [SQEntry.mark_of_le committed, SQEntry.isNew, SQEntry.isPending, allowed,
            waiting, committed]
          omega
        · simp [SQEntry.mark_of_lt (Nat.lt_of_not_le committed), SQEntry.isNew,
            SQEntry.isPending, allowed, committed]

theorem mark
    (writeback : Writeback params lsq queue written) (rings : Rings params lsq queue)
    (marked : StoresMarked params youngestInst lsq queue queue.storeHead next) :
    Writeback params next
      { queue with stores := queue.stores.map (SQEntry.mark youngestInst) } written := by
  have fields : ∀ entry : SQEntry,
      (entry.mark youngestInst).completed = entry.completed ∧
        (entry.mark youngestInst).isDataPrefetch = entry.isDataPrefetch ∧
        (entry.mark youngestInst).canWB =
          (entry.canWB || decide (entry.seqNum ≤ youngestInst)) := by
    intro entry
    by_cases committed : entry.seqNum ≤ youngestInst
    · simp [SQEntry.mark_of_le committed, committed]
    · simp [SQEntry.mark_of_lt (Nat.lt_of_not_le committed), committed]
  have counter := marked.counter
  rw [writeback.filter_isNew] at counter
  refine ⟨?_, writeback.head_le, ?_, ?_, ?_, ?_⟩
  · rw [marked.frame]
    exact writeback.idx
  · rw [List.length_map]
    exact writeback.written_le
  · have order := List.pairwise_map.mp rings.storeOrder
    have allowed := List.pairwise_map.mp writeback.allowed
    rw [List.map_map, List.pairwise_map]
    refine (order.and allowed).imp fun {older younger} both => ?_
    simp only [Function.comp, (fields _).2.2, Bool.or_eq_true, decide_eq_true_eq]
    rintro (already | now)
    · exact .inl (both.2 already)
    · exact .inr (Nat.le_trans (Nat.le_of_lt both.1) now)
  · intro i inside
    rw [List.length_map] at inside
    have marks := writeback.marks i inside
    obtain ⟨completed, plain, canWB⟩ := fields queue.stores[i]
    rw [List.getElem_map]
    refine ⟨fun before => ?_, ?_, ?_, ?_, ?_⟩
    · rw [canWB, marks.sent before, Bool.true_or]
    · rw [completed]
      exact marks.waiting
    · rw [completed]
      exact marks.left
    · rw [completed]
      exact marks.headOpen
    · rw [plain]
      exact marks.plain
  · rw [counter, writeback.counter, count_mark]
    · rfl
    · intro entry member forbidden
      obtain ⟨i, inside, rfl⟩ := List.getElem_of_mem member
      have marks := writeback.marks i inside
      refine marks.waiting (Nat.le_of_not_lt fun before => ?_)
      rw [marks.sent before] at forbidden
      cases forbidden

theorem take
    (writeback : Writeback params lsq queue written)
    (taken : StoresTaken params squashedNum lsq queue next kept) :
    written ≤ kept ∧
      Writeback params next { queue with stores := queue.stores.take kept } written := by
  have upTo := writeback.written_le
  have keptUpTo := taken.upTo
  have far : written ≤ kept := by
    by_contra near
    have forbidden := (taken.younger kept (by omega) (Nat.le_refl _)).2
    rw [(writeback.marks kept (by omega)).sent (by omega)] at forbidden
    cases forbidden
  have none : ((queue.stores.drop kept).map SQEntry.isPending).count true = 0 := by
    rw [List.count_eq_zero, List.mem_map]
    rintro ⟨entry, member, pending⟩
    obtain ⟨j, small, rfl⟩ := List.getElem_of_mem member
    rw [List.length_drop] at small
    rw [List.getElem_drop] at pending
    have forbidden := (taken.younger (kept + j) (by omega) (by omega)).2
    simp [SQEntry.isPending, forbidden] at pending
  refine ⟨far, ?_, writeback.head_le, ?_, ?_, ?_, ?_⟩
  · rw [taken.frame]
    exact writeback.idx
  · rw [List.length_take]
    omega
  · exact writeback.allowed.sublist ((List.take_sublist _ _).map _)
  · intro i inside
    rw [List.length_take] at inside
    rw [List.getElem_take]
    exact writeback.marks i (by omega)
  · have counter := writeback.counter
    conv at counter =>
      rhs
      rw [← List.take_append_drop kept queue.stores, List.map_append, List.count_append, none]
    rw [taken.frame]
    exact counter

end Writeback

end LsqUnit
end Dolma

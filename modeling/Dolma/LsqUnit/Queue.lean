import Dolma.Library.Lists
import Dolma.LsqUnit.Step

/-!
# The queues in program order

The rings of a unit hold the loads and stores in program order. The stores that have
left the queue are kept in the list of stores, so that a store keeps its number as long
as it is not squashed.
-/

namespace Dolma
namespace LsqUnit

open Library LSQUnit

/-- The loads and stores since the start, without the squashed ones. -/
structure Queue where
  loads : List Nat := []
  loadHead : Nat := 0
  stores : List SQEntry := []
  storeHead : Nat := 0

/-- The rings hold the queue. -/
structure Rings (params : Params) (lsq : LSQUnit) (queue : Queue) : Prop where
  loadRing : Ring.Holds params.lqEntries lsq.loadQueue lsq.loadHead lsq.loadTail lsq.loads
    queue.loadHead (queue.loads.map some)
  unoccupied : ∀ idx,
    (∀ i, queue.loadHead ≤ i → i < queue.loads.length → i % params.lqEntries ≠ idx) →
      lsq.loadQueue idx = none
  storeRing : Ring.Holds params.sqEntries lsq.storeQueue lsq.storeHead lsq.storeTail
    lsq.stores queue.storeHead queue.stores
  loadOrder : queue.loads.Pairwise (· < ·)
  loadBound : ∀ seq ∈ queue.loads, seq ≤ lsq.lastSeq
  named : ∀ entry ∈ queue.stores, entry.inst = some entry.seqNum
  storeOrder : (queue.stores.map SQEntry.seqNum).Pairwise (· < ·)
  storeBound : ∀ entry ∈ queue.stores, entry.seqNum ≤ lsq.lastSeq
  lqIdx : ∀ i (inside : i < queue.loads.length), queue.loadHead ≤ i →
    lsq.lqIdx queue.loads[i] = i % params.lqEntries
  sqIdx : ∀ i (inside : i < queue.stores.length), queue.storeHead ≤ i →
    lsq.sqIdx queue.stores[i].seqNum = some (i % params.sqEntries)

namespace Rings

variable {params : Params} {lsq next : LSQUnit} {queue : Queue}

/-- The rings depend on the fields of the queues only. -/
theorem congr
    (rings : Rings params lsq queue) (loadQueue : next.loadQueue = lsq.loadQueue)
    (loadHead : next.loadHead = lsq.loadHead) (loadTail : next.loadTail = lsq.loadTail)
    (loads : next.loads = lsq.loads) (storeQueue : next.storeQueue = lsq.storeQueue)
    (storeHead : next.storeHead = lsq.storeHead) (storeTail : next.storeTail = lsq.storeTail)
    (stores : next.stores = lsq.stores) (lastSeq : next.lastSeq = lsq.lastSeq)
    (lqIdx : next.lqIdx = lsq.lqIdx) (sqIdx : next.sqIdx = lsq.sqIdx) :
    Rings params next queue where
  loadRing := by
    rw [loadQueue, loadHead, loadTail, loads]
    exact rings.loadRing
  unoccupied := by
    rw [loadQueue]
    exact rings.unoccupied
  storeRing := by
    rw [storeQueue, storeHead, storeTail, stores]
    exact rings.storeRing
  loadOrder := rings.loadOrder
  loadBound := by
    rw [lastSeq]
    exact rings.loadBound
  named := rings.named
  storeOrder := rings.storeOrder
  storeBound := by
    rw [lastSeq]
    exact rings.storeBound
  lqIdx := by
    rw [lqIdx]
    exact rings.lqIdx
  sqIdx := by
    rw [sqIdx]
    exact rings.sqIdx

variable {i j seq : Nat}

theorem loadQueue_eq
    (rings : Rings params lsq queue) (inside : i < queue.loads.length)
    (fromHead : queue.loadHead ≤ i) :
    lsq.loadQueue (i % params.lqEntries) = some queue.loads[i] := by
  rw [rings.loadRing.slot i (by simpa using inside) fromHead, List.getElem_map]

theorem loads_eq (rings : Rings params lsq queue) :
    lsq.loads = (queue.loads.length : Int) - queue.loadHead := by
  simpa using rings.loadRing.count_eq

/-- No more loads have left than were inserted. -/
theorem loadHead_le (rings : Rings params lsq queue) : queue.loadHead ≤ queue.loads.length := by
  simpa using rings.loadRing.first_le

section

variable (rings : Rings params lsq queue)
include rings

theorem prev_loadTail (nonempty : 0 < queue.loads.length) :
    Ring.prev params.lqEntries lsq.loadTail = (queue.loads.length - 1) % params.lqEntries := by
  simpa using rings.loadRing.prev_tail (by simpa using nonempty)

/-- Distinct numbers stand for distinct loads. -/
theorem load_lt (inside : j < queue.loads.length) (before : i < j) :
    queue.loads[i] < queue.loads[j] :=
  List.pairwise_iff_getElem.mp rings.loadOrder i j _ inside before

/-- Distinct numbers stand for distinct stores. -/
theorem store_lt (inside : j < queue.stores.length) (before : i < j) :
    queue.stores[i].seqNum < queue.stores[j].seqNum :=
  List.pairwise_iff_getElem.mp (List.pairwise_map.mp rings.storeOrder) i j _ inside before

theorem inst_eq (inside : i < queue.stores.length) :
    queue.stores[i].inst = some queue.stores[i].seqNum :=
  rings.named _ (List.getElem_mem inside)

/-- A new instruction differs from the loads. -/
theorem load_ne (fresh : lsq.lastSeq < seq) (inside : i < queue.loads.length) :
    queue.loads[i] ≠ seq := by
  have bound := rings.loadBound _ (List.getElem_mem inside)
  omega

/-- A new instruction differs from the stores. -/
theorem store_ne (fresh : lsq.lastSeq < seq) (inside : i < queue.stores.length) :
    queue.stores[i].seqNum ≠ seq := by
  have bound := rings.storeBound _ (List.getElem_mem inside)
  omega

end

end Rings

/-! ### Insertion -/

section Insert

variable {params : Params} {lsq next : LSQUnit} {queue : Queue} {seq : Nat}

theorem Rings.insertLoad
    (rings : Rings params lsq queue) (fresh : lsq.lastSeq < seq)
    (inserted : insertLoad params lsq seq = some next) :
    Rings params next { queue with loads := queue.loads ++ [seq] } := by
  unfold LsqUnit.insertLoad at inserted
  obtain ⟨space, inserted⟩ := Option.ite_none_left_eq_some.mp inserted
  obtain ⟨space, -⟩ := not_or.mp space
  cases inserted
  have room := rings.loadRing.space space
  have pushed := rings.loadRing.push room (some seq)
  constructor <;> dsimp only
  case loadRing => simpa using pushed
  case storeRing => exact rings.storeRing
  case named => exact rings.named
  case storeOrder => exact rings.storeOrder
  case unoccupied =>
    intro idx outside
    have apart : idx ≠ lsq.loadTail := by
      rintro rfl
      refine outside queue.loads.length rings.loadHead_le (by simp) ?_
      simpa using rings.loadRing.tail_eq.symm
    rw [Function.update_of_ne apart]
    refine rings.unoccupied idx fun i fromHead inside => outside i fromHead ?_
    simp only [List.length_append, List.length_singleton]
    omega
  case loadOrder =>
    rw [List.pairwise_append]
    refine ⟨rings.loadOrder, List.pairwise_singleton _ _, ?_⟩
    intro older member younger last
    rw [List.mem_singleton.mp last]
    exact Nat.lt_of_le_of_lt (rings.loadBound older member) fresh
  case loadBound =>
    intro other member
    rcases List.mem_append.mp member with old | new
    · exact Nat.le_trans (rings.loadBound other old) (Nat.le_of_lt fresh)
    · exact Nat.le_of_eq (List.mem_singleton.mp new)
  case storeBound =>
    intro entry member
    exact Nat.le_trans (rings.storeBound entry member) (Nat.le_of_lt fresh)
  case lqIdx =>
    refine forall_append (fun i load => queue.loadHead ≤ i → Function.update _ _ _ load = _)
      (fun i old fromHead => ?_) fun _ => ?_
    · rw [Function.update_of_ne (rings.load_ne fresh old)]
      exact rings.lqIdx i old fromHead
    · rw [Function.update_self, rings.loadRing.tail_eq, List.length_map]
  case sqIdx =>
    intro i inside fromHead
    rw [Function.update_of_ne (rings.store_ne fresh inside)]
    exact rings.sqIdx i inside fromHead

theorem Rings.insertStore
    (rings : Rings params lsq queue) (fresh : lsq.lastSeq < seq)
    (inserted : insertStore params lsq seq isDataPrefetch = some next) :
    Rings params next
      { queue with
        stores := queue.stores ++ [{ inst := some seq, isDataPrefetch := isDataPrefetch }] } := by
  unfold LsqUnit.insertStore at inserted
  obtain ⟨space, inserted⟩ := Option.ite_none_left_eq_some.mp inserted
  obtain ⟨space, -⟩ := not_or.mp space
  cases inserted
  have room := rings.storeRing.space space
  constructor <;> dsimp only
  case loadRing => exact rings.loadRing
  case unoccupied => exact rings.unoccupied
  case storeRing => exact rings.storeRing.push room _
  case loadOrder => exact rings.loadOrder
  case loadBound =>
    intro other member
    exact Nat.le_trans (rings.loadBound other member) (Nat.le_of_lt fresh)
  case named =>
    intro entry member
    rcases List.mem_append.mp member with old | new
    · exact rings.named entry old
    · rw [List.mem_singleton.mp new]
      rfl
  case storeOrder =>
    rw [List.map_append, List.pairwise_append]
    refine ⟨rings.storeOrder, List.pairwise_singleton _ _, ?_⟩
    intro older member younger last
    obtain ⟨entry, listed, rfl⟩ := List.mem_map.mp member
    rw [List.mem_singleton.mp last]
    exact Nat.lt_of_le_of_lt (rings.storeBound entry listed) fresh
  case storeBound =>
    intro entry member
    rcases List.mem_append.mp member with old | new
    · exact Nat.le_trans (rings.storeBound entry old) (Nat.le_of_lt fresh)
    · rw [List.mem_singleton.mp new]
      exact Nat.le_refl seq
  case lqIdx =>
    intro i inside fromHead
    rw [Function.update_of_ne (rings.load_ne fresh inside)]
    exact rings.lqIdx i inside fromHead
  case sqIdx =>
    refine forall_append
      (fun i (entry : SQEntry) => queue.storeHead ≤ i → Function.update _ _ _ entry.seqNum = _)
      (fun i old fromHead => ?_) fun _ => ?_
    · rw [Function.update_of_ne (rings.store_ne fresh old)]
      exact rings.sqIdx i old fromHead
    · rw [rings.storeRing.tail_eq]
      exact Function.update_self _ _ _

end Insert

/-! ### Loads leave -/

section Loads

variable {params : Params} {lsq : LSQUnit} {queue : Queue}

theorem Rings.commitLoad
    (rings : Rings params lsq queue) (nonempty : queue.loadHead < queue.loads.length) :
    Rings params (commitLoad params lsq) { queue with loadHead := queue.loadHead + 1 } := by
  have popped := rings.loadRing.popFront (by simpa using nonempty)
  have apart : ∀ i, queue.loadHead + 1 ≤ i → i < queue.loads.length →
      i % params.lqEntries ≠ lsq.loadHead := by
    intro i after inside
    have total : (queue.loads.map some).length = queue.loads.length := List.length_map _
    rw [rings.loadRing.head_eq]
    refine rings.loadRing.slot_ne ?_ ?_ ?_ ?_ ?_ <;> omega
  constructor <;> dsimp only [LsqUnit.commitLoad]
  case loadRing => exact popped.update_outside (by simpa using apart) none
  case unoccupied =>
    intro idx outside
    by_cases head : idx = lsq.loadHead
    · rw [head, Function.update_self]
    · rw [Function.update_of_ne head]
      refine rings.unoccupied idx fun i fromHead inside => ?_
      rcases Nat.eq_or_lt_of_le fromHead with rfl | after
      · rw [← rings.loadRing.head_eq]
        exact Ne.symm head
      · exact outside i after inside
  case storeRing => exact rings.storeRing
  case loadOrder => exact rings.loadOrder
  case loadBound => exact rings.loadBound
  case named => exact rings.named
  case storeOrder => exact rings.storeOrder
  case storeBound => exact rings.storeBound
  case lqIdx =>
    intro i inside after
    exact rings.lqIdx i inside (Nat.le_of_succ_le after)
  case sqIdx => exact rings.sqIdx

/-- The loads before a new head have left, and nothing but the load queue has changed. -/
structure LoadsLeft
    (params : Params) (youngestInst : Nat) (lsq : LSQUnit) (queue : Queue) (next : LSQUnit)
    (head : Nat) : Prop where
  after : queue.loadHead ≤ head
  rings : Rings params next { queue with loadHead := head }
  upTo : ∀ i (inside : i < queue.loads.length), queue.loadHead ≤ i → i < head →
    queue.loads[i] ≤ youngestInst
  frame : next = { lsq with
    loadQueue := next.loadQueue
    loadHead := next.loadHead
    loads := next.loads }

theorem Rings.commitLoads (youngestInst bound : Nat) (rings : Rings params lsq queue) :
    ∃ next head, commitLoads params youngestInst bound lsq = some next ∧
      LoadsLeft params youngestInst lsq queue next head := by
  have stays : ∀ {lsq queue}, Rings params lsq queue →
      LoadsLeft params youngestInst lsq queue lsq queue.loadHead :=
    fun rings => ⟨Nat.le_refl _, rings, fun _ _ _ _ => by omega, rfl⟩
  induction bound generalizing lsq queue with
  | zero => exact ⟨lsq, queue.loadHead, rfl, stays rings⟩
  | succ bound ih =>
      have below := rings.loadHead_le
      have count := rings.loads_eq
      unfold LsqUnit.commitLoads
      by_cases empty : lsq.loads = 0
      · rw [if_pos empty]
        exact ⟨lsq, queue.loadHead, rfl, stays rings⟩
      · have nonempty : queue.loadHead < queue.loads.length := by omega
        rw [if_neg empty, rings.loadRing.head_eq, rings.loadQueue_eq nonempty (Nat.le_refl _)]
        dsimp only
        by_cases committed : queue.loads[queue.loadHead] ≤ youngestInst
        · rw [if_pos committed]
          obtain ⟨next, head, reached, left⟩ := ih (rings.commitLoad nonempty)
          refine ⟨next, head, reached, Nat.le_of_succ_le left.after, left.rings, ?_, left.frame⟩
          intro i inside fromHead before
          rcases Nat.eq_or_lt_of_le fromHead with rfl | later
          · exact committed
          · exact left.upTo i inside later before
        · rw [if_neg committed]
          exact ⟨lsq, queue.loadHead, rfl, stays rings⟩

theorem Rings.squashLoad
    (rings : Rings params lsq queue) (nonempty : queue.loadHead < queue.loads.length) (seq : Nat) :
    Rings params (squashLoad lsq (Ring.prev params.lqEntries lsq.loadTail) seq)
      { queue with loads := queue.loads.dropLast } := by
  have total : (queue.loads.map some).length = queue.loads.length := List.length_map _
  have popped := rings.loadRing.popBack (by simpa using nonempty)
  have last := rings.prev_loadTail (by omega)
  have shorter : queue.loads.dropLast.length = queue.loads.length - 1 :=
    List.length_dropLast
  have apart : ∀ i, queue.loadHead ≤ i → i < queue.loads.length - 1 →
      i % params.lqEntries ≠ Ring.prev params.lqEntries lsq.loadTail := by
    intro i fromHead inside
    rw [last]
    refine rings.loadRing.slot_ne ?_ ?_ ?_ ?_ ?_ <;> omega
  constructor <;> dsimp only [LsqUnit.squashLoad, LSQUnit.modify]
  case loadRing =>
    rw [List.map_dropLast]
    refine popped.update_outside (fun i fromHead inside => apart i fromHead ?_) none
    simpa using inside
  case unoccupied =>
    intro idx outside
    by_cases tail : idx = Ring.prev params.lqEntries lsq.loadTail
    · rw [tail, Function.update_self]
    · rw [Function.update_of_ne tail]
      refine rings.unoccupied idx fun i fromHead inside => ?_
      by_cases final : i = queue.loads.length - 1
      · rw [final, ← last]
        exact Ne.symm tail
      · exact outside i fromHead (by omega)
  case storeRing => exact rings.storeRing
  case loadOrder => exact rings.loadOrder.sublist (List.dropLast_sublist _)
  case loadBound =>
    intro other member
    exact rings.loadBound other (List.dropLast_subset _ member)
  case named => exact rings.named
  case storeOrder => exact rings.storeOrder
  case storeBound => exact rings.storeBound
  case lqIdx =>
    intro i inside fromHead
    rw [List.getElem_dropLast]
    exact rings.lqIdx i (by omega) fromHead
  case sqIdx => exact rings.sqIdx

/-- The loads from a number on are taken back. -/
structure LoadsTaken
    (params : Params) (squashedNum : Nat) (lsq : LSQUnit) (queue : Queue) (next : LSQUnit)
    (kept : Nat) : Prop where
  fromHead : queue.loadHead ≤ kept
  upTo : kept ≤ queue.loads.length
  rings : Rings params next { queue with loads := queue.loads.take kept }
  younger : ∀ i (inside : i < queue.loads.length), kept ≤ i → squashedNum < queue.loads[i]
  older : ∀ i (inside : i < queue.loads.length), queue.loadHead ≤ i → i < kept →
    queue.loads[i] ≤ squashedNum
  spared : (∀ i, kept ≤ i → i < queue.loads.length →
      i % params.lqEntries ≠ lsq.stallingLoadIdx) →
    next.stalled = lsq.stalled ∧ next.stallingStoreIsn = lsq.stallingStoreIsn ∧
      next.stallingLoadIdx = lsq.stallingLoadIdx
  cleared : ∀ i, kept ≤ i → i < queue.loads.length →
    i % params.lqEntries = lsq.stallingLoadIdx → next.stalled = false
  others : ∀ seq, (∀ i (inside : i < queue.loads.length), kept ≤ i →
    queue.loads[i] ≠ seq) → next.insts seq = lsq.insts seq
  frame : next = { lsq with
    insts := next.insts
    loadQueue := next.loadQueue
    loads := next.loads
    loadTail := next.loadTail
    stalled := next.stalled
    stallingStoreIsn := next.stallingStoreIsn
    stallingLoadIdx := next.stallingLoadIdx }

variable {squashedNum kept : Nat} {next : LSQUnit}

/-- A unit without a waiting load stays without one. -/
theorem LoadsTaken.unstalled
    (taken : LoadsTaken params squashedNum lsq queue next kept) (clear : lsq.stalled = false) :
    next.stalled = false := by
  by_cases spared : ∀ i, kept ≤ i → i < queue.loads.length →
      i % params.lqEntries ≠ lsq.stallingLoadIdx
  · rw [(taken.spared spared).1, clear]
  · push Not at spared
    obtain ⟨i, after, inside, same⟩ := spared
    exact taken.cleared i after inside same

/-- If no load is younger, no load is taken back. -/
theorem LoadsTaken.refl
    (rings : Rings params lsq queue)
    (older : ∀ i (inside : i < queue.loads.length), queue.loadHead ≤ i →
      queue.loads[i] ≤ squashedNum) :
    LoadsTaken params squashedNum lsq queue lsq queue.loads.length where
  fromHead := rings.loadHead_le
  upTo := Nat.le_refl _
  rings := by rwa [List.take_length]
  younger := fun _ inside after => absurd inside (Nat.not_lt.mpr after)
  older := fun i inside fromHead _ => older i inside fromHead
  spared := fun _ => ⟨rfl, rfl, rfl⟩
  cleared := fun _ after inside => absurd inside (Nat.not_lt.mpr after)
  others := fun _ _ => rfl
  frame := rfl

/-- The last load is taken back before others. -/
theorem LoadsTaken.squashLoad
    (rings : Rings params lsq queue) (nonempty : queue.loadHead < queue.loads.length)
    (younger : squashedNum < queue.loads[queue.loads.length - 1])
    (taken : LoadsTaken params squashedNum
      (squashLoad lsq (Ring.prev params.lqEntries lsq.loadTail)
        queue.loads[queue.loads.length - 1])
      { queue with loads := queue.loads.dropLast } next kept) :
    LoadsTaken params squashedNum lsq queue next kept := by
  have total : (queue.loads.map some).length = queue.loads.length := List.length_map _
  have last := rings.prev_loadTail (by omega)
  have shorter : queue.loads.dropLast.length = queue.loads.length - 1 :=
    List.length_dropLast
  have upTo : kept ≤ queue.loads.dropLast.length := taken.upTo
  constructor
  case fromHead => exact taken.fromHead
  case upTo => omega
  case rings =>
    have rest := taken.rings
    dsimp only at rest
    rwa [List.dropLast_eq_take, List.take_take, Nat.min_eq_left (by omega)] at rest
  case younger =>
    intro i inside after
    by_cases final : i = queue.loads.length - 1
    · simpa only [final] using younger
    · have earlier := taken.younger i (by dsimp only; omega) after
      rwa [List.getElem_dropLast] at earlier
  case older =>
    intro i inside fromHead before
    have earlier := taken.older i (by dsimp only; omega) fromHead before
    rwa [List.getElem_dropLast] at earlier
  case spared =>
    intro apart
    have keeps : ¬(lsq.stalled = true ∧
        Ring.prev params.lqEntries lsq.loadTail = lsq.stallingLoadIdx) := by
      rintro ⟨-, same⟩
      rw [last] at same
      exact apart _ (by omega) (by omega) same
    have rest := taken.spared
    simp only [LsqUnit.squashLoad, if_neg keeps] at rest
    exact rest fun i after inside => apart i after (by omega)
  case cleared =>
    intro i after inside same
    by_cases final : i = queue.loads.length - 1
    · refine taken.unstalled ?_
      dsimp only [LsqUnit.squashLoad]
      rw [last, ← final, same]
      split
      case isTrue => rfl
      case isFalse keeps => simpa using keeps
    · refine taken.cleared i after (by dsimp only; omega) ?_
      have keeps : ¬(lsq.stalled = true ∧
          Ring.prev params.lqEntries lsq.loadTail = lsq.stallingLoadIdx) := by
        rintro ⟨-, same'⟩
        rw [last, ← same] at same'
        have fromHead := taken.fromHead
        exact rings.loadRing.slot_ne (by omega) (by omega) (by dsimp only at fromHead; omega)
          (by omega) (Ne.symm final) same'
      simpa only [LsqUnit.squashLoad, if_neg keeps] using same
  case others =>
    intro seq distinct
    have other : seq ≠ queue.loads[queue.loads.length - 1] :=
      Ne.symm (distinct _ (by omega) (by omega))
    rw [taken.others seq]
    · exact Heap.modify_of_ne _ other _
    · intro i inside after
      rw [List.getElem_dropLast]
      exact distinct i (by dsimp only at inside; omega) after
  case frame =>
    have rest := taken.frame
    dsimp only [LsqUnit.squashLoad, LSQUnit.modify] at rest
    exact rest

theorem Rings.squashLoads
    (squashedNum bound : Nat) (rings : Rings params lsq queue)
    (enough : queue.loads.length ≤ queue.loadHead + bound) :
    ∃ next kept,
      squashLoads params squashedNum bound (Ring.prev params.lqEntries lsq.loadTail) lsq =
        some next ∧
      LoadsTaken params squashedNum lsq queue next kept := by
  induction bound generalizing lsq queue with
  | zero =>
      exact ⟨lsq, _, rfl, .refl rings fun i inside fromHead => by omega⟩
  | succ bound ih =>
      have below := rings.loadHead_le
      have count := rings.loads_eq
      unfold LsqUnit.squashLoads
      by_cases empty : lsq.loads = 0
      · rw [if_pos empty]
        exact ⟨lsq, _, rfl, .refl rings fun i inside fromHead => by omega⟩
      · have nonempty : queue.loadHead < queue.loads.length := by omega
        have last := rings.prev_loadTail (by omega)
        have slot := rings.loadQueue_eq (show queue.loads.length - 1 < queue.loads.length by omega)
          (by omega)
        rw [← last] at slot
        rw [if_neg empty, slot]
        dsimp only
        by_cases younger : squashedNum < queue.loads[queue.loads.length - 1]
        · rw [if_pos younger]
          have shorter : queue.loads.dropLast.length = queue.loads.length - 1 :=
            List.length_dropLast
          obtain ⟨next, kept, reached, taken⟩ :=
            ih (rings.squashLoad nonempty queue.loads[queue.loads.length - 1])
              (by dsimp only; omega)
          exact ⟨next, kept, reached, taken.squashLoad rings nonempty younger⟩
        · rw [if_neg younger]
          refine ⟨lsq, _, rfl, .refl rings fun i inside fromHead => ?_⟩
          rcases Nat.lt_or_ge i (queue.loads.length - 1) with before | final
          · have order := rings.load_lt
              (show queue.loads.length - 1 < queue.loads.length by omega) before
            omega
          · obtain rfl : i = queue.loads.length - 1 := by omega
            omega

end Loads

end LsqUnit
end Dolma

import Dolma.LsqUnit.Queue

/-!
# Operations on the store ring

What the loops over the store ring do to the stores in program order: committed stores
are marked from the head on, completed stores leave from the head, and squashed stores
are taken back from the tail.
-/

namespace Dolma
namespace LsqUnit

open Library LSQUnit

variable {params : Params} {lsq next : LSQUnit} {queue : Queue}
variable {youngestInst i start squashedNum : Nat} {entry : SQEntry}

theorem Rings.setEntry
    (rings : Rings params lsq queue) (fromHead : queue.storeHead ≤ i)
    (inside : i < queue.stores.length) (same : entry.inst = queue.stores[i].inst) :
    Rings params (lsq.setEntry (i % params.sqEntries) entry)
      { queue with stores := queue.stores.set i entry } := by
  have sameSeq : entry.seqNum = queue.stores[i].seqNum := by
    rw [SQEntry.seqNum, same]
    rfl
  have keys := map_set_eq SQEntry.seqNum inside sameSeq
  constructor <;> dsimp only [LSQUnit.setEntry]
  case loadRing => exact rings.loadRing
  case unoccupied => exact rings.unoccupied
  case storeRing => exact rings.storeRing.set fromHead inside entry
  case loadOrder => exact rings.loadOrder
  case loadBound => exact rings.loadBound
  case named =>
    intro other member
    rcases List.mem_or_eq_of_mem_set member with old | rfl
    · exact rings.named other old
    · rw [same, rings.inst_eq inside, sameSeq]
  case storeOrder =>
    rw [keys]
    exact rings.storeOrder
  case storeBound =>
    intro other member
    rcases List.mem_or_eq_of_mem_set member with old | rfl
    · exact rings.storeBound other old
    · rw [sameSeq]
      exact rings.storeBound _ (List.getElem_mem inside)
  case lqIdx => exact rings.lqIdx
  case sqIdx =>
    intro j inside' fromHead'
    rw [List.length_set] at inside'
    have seq : (queue.stores.set i entry)[j].seqNum = queue.stores[j].seqNum := by
      rw [List.getElem_set]
      split
      case isTrue equal =>
        subst equal
        exact sameSeq
      case isFalse => rfl
    rw [seq]
    exact rings.sqIdx j inside' fromHead'

/-! ### Completed stores leave -/

theorem Rings.popStore
    (rings : Rings params lsq queue) (nonempty : queue.storeHead < queue.stores.length) :
    Rings params
      { lsq with
        storeHead := Ring.next params.sqEntries lsq.storeHead
        stores := lsq.stores - 1 }
      { queue with storeHead := queue.storeHead + 1 } where
  loadRing := rings.loadRing
  unoccupied := rings.unoccupied
  storeRing := rings.storeRing.popFront nonempty
  loadOrder := rings.loadOrder
  loadBound := rings.loadBound
  named := rings.named
  storeOrder := rings.storeOrder
  storeBound := rings.storeBound
  lqIdx := rings.lqIdx
  sqIdx := fun i inside after => rings.sqIdx i inside (Nat.le_of_succ_le after)

/-- The oldest store leaves and the completed ones after it. -/
theorem Rings.drainHead
    (bound : Nat) (rings : Rings params lsq queue)
    (nonempty : queue.storeHead < queue.stores.length)
    (enough : queue.stores.length ≤ queue.storeHead + bound) :
    ∃ head, queue.storeHead < head ∧ head ≤ queue.stores.length ∧
      Rings params (drainHead params bound lsq) { queue with storeHead := head } ∧
      (∀ i (inside : i < queue.stores.length), queue.storeHead < i → i < head →
        queue.stores[i].completed = true) ∧
      (∀ inside : head < queue.stores.length, queue.stores[head].completed = false) ∧
      drainHead params bound lsq =
        { lsq with
          storeHead := (drainHead params bound lsq).storeHead
          stores := (drainHead params bound lsq).stores } := by
  induction bound generalizing lsq queue with
  | zero => omega
  | succ bound ih =>
      have popped := rings.popStore nonempty
      have ends := popped.storeRing.head_eq_tail
      dsimp only at ends
      unfold LsqUnit.drainHead
      dsimp only
      split
      case isTrue more =>
        obtain ⟨completed, further⟩ := more
        have inside : queue.storeHead + 1 < queue.stores.length := by
          have distinct := mt ends.mpr further
          omega
        have slot := popped.storeRing.slot _ inside (Nat.le_refl _)
        rw [← popped.storeRing.head_eq] at slot
        dsimp only at slot
        rw [slot] at completed
        obtain ⟨head, after, upTo, result, left, stops, frame⟩ :=
          ih popped inside (by dsimp only; omega)
        refine ⟨head, by dsimp only at after; omega, upTo, result, ?_, stops, frame⟩
        intro i inside' fromHead before
        rcases Nat.eq_or_lt_of_le (Nat.succ_le_of_lt fromHead) with rfl | later
        · exact completed
        · exact left i inside' later before
      case isFalse stop =>
        refine ⟨queue.storeHead + 1, Nat.lt_succ_self _, nonempty, popped,
          fun i _ after before => by omega, ?_, rfl⟩
        intro inside
        have slot := popped.storeRing.slot _ inside (Nat.le_refl _)
        rw [← popped.storeRing.head_eq] at slot
        dsimp only at slot
        have further : Ring.next params.sqEntries lsq.storeHead ≠ lsq.storeTail := by
          intro meet
          have none := ends.mp meet
          omega
        rw [slot] at stop
        by_contra completed
        rw [Bool.not_eq_false] at completed
        exact stop ⟨completed, further⟩

/-- If the recorded load waits for the store, all waiting loads are replayed. -/
def Replays (lsq : LSQUnit) (store : Nat) (next : LSQUnit) : Prop :=
  lsq.stalled = true ∧ store = lsq.stallingStoreIsn ∧ next.stalled = false ∧
      next.instsToReplay = [] ∨
    ¬(lsq.stalled = true ∧ store = lsq.stallingStoreIsn) ∧ next.stalled = lsq.stalled ∧
      next.stallingStoreIsn = lsq.stallingStoreIsn ∧ next.instsToReplay = lsq.instsToReplay

/-- The end of a wait changes the record and the replays. -/
theorem unstall_replays (ended : unstall lsq store = some next) :
    Replays lsq store next ∧
      next = { lsq with
        stalled := next.stalled
        stallingStoreIsn := next.stallingStoreIsn
        instsToReplay := next.instsToReplay } := by
  unfold unstall at ended
  split at ended
  case isTrue waits =>
    unfold replayMemInst at ended
    obtain ⟨load, -, rfl⟩ := Option.map_eq_some_iff.mp ended
    exact ⟨.inl ⟨waits.1, waits.2, rfl, rfl⟩, rfl⟩
  case isFalse apart =>
    cases ended
    exact ⟨.inr ⟨apart, rfl, rfl, rfl⟩, rfl⟩

/-- A store is completed, and the completed stores at the head leave. -/
structure Completes
    (params : Params) (lsq : LSQUnit) (queue : Queue) (i seq : Nat) (next : LSQUnit)
    (head : Nat) : Prop where
  fromHead : queue.storeHead ≤ head
  upTo : head ≤ queue.stores.length
  left : ∀ j (inside : j < queue.stores.length), queue.storeHead ≤ j → j < head →
    j = i ∨ queue.stores[j].completed = true
  headOpen :
    (∀ inside : queue.storeHead < queue.stores.length,
      queue.stores[queue.storeHead].completed = false) →
    ∀ inside : head < queue.stores.length, head ≠ i ∧ queue.stores[head].completed = false
  rings : ∀ inside : i < queue.stores.length, Rings params next
    { queue with
      stores := queue.stores.set i queue.stores[i].setCompleted
      storeHead := head }
  replays : Replays lsq seq next
  frame : next = { lsq with
    storeQueue := next.storeQueue
    storeHead := next.storeHead
    stores := next.stores
    storesToWB := lsq.storesToWB - 1
    trace := lsq.trace ++ [.completed seq]
    stalled := next.stalled
    stallingStoreIsn := next.stallingStoreIsn
    instsToReplay := next.instsToReplay
    storeInFlight := if params.needsTSO then false else lsq.storeInFlight }

theorem Rings.markCompleted
    (rings : Rings params lsq queue) (fromHead : queue.storeHead ≤ i)
    (inside : i < queue.stores.length) :
    Rings params (markCompleted lsq (i % params.sqEntries) queue.stores[i].seqNum)
      { queue with
        stores := queue.stores.set i queue.stores[i].setCompleted } := by
  have changed := rings.setEntry fromHead inside
    (SQEntry.setCompleted_inst _)
  refine changed.congr rfl rfl rfl rfl ?_ rfl rfl rfl rfl rfl rfl
  dsimp only [LsqUnit.markCompleted, LSQUnit.setEntry]
  rw [rings.storeRing.slot i inside fromHead]

theorem Rings.completeStore
    (rings : Rings params lsq queue) (fromHead : queue.storeHead ≤ i)
    (inside : i < queue.stores.length)
    (completed : completeStore params lsq (i % params.sqEntries) = some next) :
    ∃ head, Completes params lsq queue i queue.stores[i].seqNum next head := by
  have room := rings.storeRing.room
  have below := rings.storeRing.first_le
  have marked := rings.markCompleted fromHead inside
  have isHead : i % params.sqEntries =
      (LsqUnit.markCompleted lsq (i % params.sqEntries) queue.stores[i].seqNum).storeHead ↔
        i = queue.storeHead := by
    have head : (LsqUnit.markCompleted lsq (i % params.sqEntries)
        queue.stores[i].seqNum).storeHead = queue.storeHead % params.sqEntries :=
      rings.storeRing.head_eq
    rw [head]
    constructor
    · intro same
      by_contra distinct
      exact rings.storeRing.slot_ne fromHead (Nat.le_of_lt inside) (Nat.le_refl _) below
        distinct same
    · rintro rfl
      rfl
  unfold LsqUnit.completeStore at completed
  rw [rings.storeRing.slot i inside fromHead, rings.inst_eq inside] at completed
  simp only [Option.bind_eq_bind, Option.bind_some, Option.pure_def,
    Option.bind_eq_some_iff, Option.some.injEq] at completed
  obtain ⟨middle, ended, rfl⟩ := completed
  by_cases first : i = queue.storeHead
  · rw [if_pos (isHead.mpr first)] at ended
    have total : (queue.stores.set i queue.stores[i].setCompleted).length =
        queue.stores.length := List.length_set
    obtain ⟨head, after, upTo, drained, left, stops, drainFrame⟩ :=
      marked.drainHead params.sqEntries (by dsimp only; omega) (by dsimp only; omega)
    obtain ⟨replays, frame⟩ := unstall_replays ended
    generalize LsqUnit.drainHead params params.sqEntries
      (LsqUnit.markCompleted lsq (i % params.sqEntries) queue.stores[i].seqNum) = reached
      at drained drainFrame replays frame
    dsimp only at after upTo left stops
    have others : ∀ j (inside' : j < queue.stores.length), j ≠ i →
        (queue.stores.set i queue.stores[i].setCompleted)[j].completed =
          queue.stores[j].completed := by
      intro j inside' distinct
      rw [List.getElem_set_ne (Ne.symm distinct)]
    refine ⟨head, Nat.le_of_lt after, by omega, ?_, ?_, ?_, ?_, ?_⟩
    · intro j inside' fromHead' before
      rcases Nat.eq_or_lt_of_le fromHead' with same | later
      · exact .inl (by omega)
      · have done := left j (by omega) later before
        rw [others j inside' (by omega)] at done
        exact .inr done
    · intro _ inside'
      have still := stops (by omega)
      rw [others head inside' (by omega)] at still
      exact ⟨by omega, still⟩
    · intro _
      rw [frame]
      exact drained.congr rfl rfl rfl rfl rfl rfl rfl rfl rfl rfl rfl
    · rw [drainFrame] at replays
      exact replays
    · rw [frame, drainFrame]
      rfl
  · rw [if_neg (mt isHead.mp first)] at ended
    obtain ⟨replays, frame⟩ := unstall_replays ended
    refine ⟨queue.storeHead, Nat.le_refl _, below, fun j _ _ before => by omega, ?_, ?_, ?_, ?_⟩
    · intro openHead inside'
      exact ⟨Ne.symm first, openHead inside'⟩
    · intro _
      rw [frame]
      exact marked.congr rfl rfl rfl rfl rfl rfl rfl rfl rfl rfl rfl
    · exact replays
    · rw [frame]
      rfl

/-! ### Committed stores are marked -/

/-- The entry after its store may have been committed. -/
def SQEntry.mark (youngestInst : Nat) (entry : SQEntry) : SQEntry :=
  if entry.seqNum ≤ youngestInst then entry.setCanWB else entry

/-- The store is committed now. -/
def SQEntry.isNew (youngestInst : Nat) (entry : SQEntry) : Bool :=
  !entry.canWB && decide (entry.seqNum ≤ youngestInst)

/-- The note that a store is committed. -/
def SQEntry.note (entry : SQEntry) : Happening :=
  .committed entry.seqNum entry.parts

theorem SQEntry.mark_of_canWB (allowed : entry.canWB = true) (youngestInst : Nat) :
    entry.mark youngestInst = entry := by
  unfold SQEntry.mark
  split
  · rw [SQEntry.setCanWB, ← allowed]
  · rfl

theorem SQEntry.mark_of_lt (younger : youngestInst < entry.seqNum) :
    entry.mark youngestInst = entry :=
  if_neg (Nat.not_le.mpr younger)

theorem SQEntry.mark_of_le (committed : entry.seqNum ≤ youngestInst) :
    entry.mark youngestInst = entry.setCanWB :=
  if_pos committed

section

variable (entry : SQEntry) (youngestInst : Nat)

theorem SQEntry.mark_eq :
    entry.mark youngestInst = { entry with canWB := (entry.mark youngestInst).canWB } := by
  unfold SQEntry.mark
  split
  · rfl
  · rfl

@[simp] theorem SQEntry.seqNum_mark : (entry.mark youngestInst).seqNum = entry.seqNum := by
  rw [mark_eq]
  rfl

@[simp] theorem SQEntry.parts_mark : (entry.mark youngestInst).parts = entry.parts := by
  rw [mark_eq]
  rfl

@[simp] theorem SQEntry.size_mark : (entry.mark youngestInst).size = entry.size := by
  rw [mark_eq]

@[simp] theorem SQEntry.committed_mark :
    (entry.mark youngestInst).committed = entry.committed := by
  rw [mark_eq]

@[simp] theorem SQEntry.completed_mark :
    (entry.mark youngestInst).completed = entry.completed := by
  rw [mark_eq]

end

theorem SQEntry.canWB_mark (youngestInst : Nat) (allowed : entry.canWB = true) :
    (entry.mark youngestInst).canWB = true := by
  rwa [mark_of_canWB allowed]

/-- Marking stores as committed keeps their sequence numbers. -/
theorem map_seqNum_mark (youngestInst : Nat) (stores : List SQEntry) :
    (stores.map (SQEntry.mark youngestInst)).map SQEntry.seqNum = stores.map SQEntry.seqNum := by
  rw [List.map_map]
  exact List.map_congr_left fun entry _ => entry.seqNum_mark _

theorem Rings.markStore
    (rings : Rings params lsq queue) (fromHead : queue.storeHead ≤ i)
    (inside : i < queue.stores.length) :
    Rings params (markStore lsq (i % params.sqEntries) queue.stores[i].seqNum)
      { queue with stores := queue.stores.set i queue.stores[i].setCanWB } := by
  have changed := rings.setEntry fromHead inside
    (SQEntry.setCanWB_inst _)
  refine changed.congr rfl rfl rfl rfl ?_ rfl rfl rfl rfl rfl rfl
  dsimp only [LsqUnit.markStore, LSQUnit.setEntry]
  rw [rings.storeRing.slot i inside fromHead]

/-- The stores from a number on are marked up to the youngest committed instruction. -/
structure StoresMarked
    (params : Params) (youngestInst : Nat) (lsq : LSQUnit) (queue : Queue) (start : Nat)
    (next : LSQUnit) : Prop where
  rings : Rings params next
    { queue with
      stores := queue.stores.take start ++
        (queue.stores.drop start).map (SQEntry.mark youngestInst) }
  counter : next.storesToWB =
    lsq.storesToWB + ((queue.stores.drop start).filter (SQEntry.isNew youngestInst)).length
  noted : next.trace =
    lsq.trace ++ ((queue.stores.drop start).filter (SQEntry.isNew youngestInst)).map SQEntry.note
  frame : next = { lsq with
    storeQueue := next.storeQueue
    storesToWB := next.storesToWB
    trace := next.trace }

theorem StoresMarked.refl
    (rings : Rings params lsq queue)
    (younger : ∀ entry ∈ queue.stores.drop start, youngestInst < entry.seqNum) :
    StoresMarked params youngestInst lsq queue start lsq := by
  have same : (queue.stores.drop start).map (SQEntry.mark youngestInst) =
      queue.stores.drop start := by
    rw [List.map_congr_left fun entry member => SQEntry.mark_of_lt (younger entry member)]
    exact List.map_id' _
  have none : (queue.stores.drop start).filter (SQEntry.isNew youngestInst) = [] := by
    rw [List.filter_eq_nil_iff]
    intro entry member
    have later := younger entry member
    simp [SQEntry.isNew, Nat.not_le.mpr later]
  refine ⟨?_, ?_, ?_, rfl⟩
  · rwa [same, List.take_append_drop]
  · rw [none]
    simp
  · rw [none]
    simp

theorem StoresMarked.skip
    (inside : start < queue.stores.length) (allowed : queue.stores[start].canWB = true)
    (marked : StoresMarked params youngestInst lsq queue (start + 1) next) :
    StoresMarked params youngestInst lsq queue start next := by
  have same := SQEntry.mark_of_canWB allowed youngestInst
  have old : queue.stores[start].isNew youngestInst = false := by
    simp [SQEntry.isNew, allowed]
  obtain ⟨rings, counter, noted, frame⟩ := marked
  refine ⟨?_, ?_, ?_, frame⟩
  · rw [List.drop_eq_getElem_cons inside, List.map_cons, same]
    rwa [List.take_succ_eq_append_getElem inside, List.append_assoc, List.singleton_append] at rings
  · rw [List.drop_eq_getElem_cons inside, List.filter_cons, old]
    exact counter
  · rw [List.drop_eq_getElem_cons inside, List.filter_cons, old]
    exact noted

theorem StoresMarked.mark
    (inside : start < queue.stores.length) (waiting : queue.stores[start].canWB = false)
    (committed : queue.stores[start].seqNum ≤ youngestInst)
    (slot : lsq.storeQueue (start % params.sqEntries) = queue.stores[start])
    (marked : StoresMarked params youngestInst
      (markStore lsq (start % params.sqEntries) queue.stores[start].seqNum)
      { queue with
        stores := queue.stores.set start queue.stores[start].setCanWB }
      (start + 1) next) :
    StoresMarked params youngestInst lsq queue start next := by
  have new : queue.stores[start].isNew youngestInst = true := by
    simp [SQEntry.isNew, waiting, committed]
  have rest : (queue.stores.set start queue.stores[start].setCanWB).drop
      (start + 1) = queue.stores.drop (start + 1) :=
    List.drop_set_of_lt (Nat.lt_succ_self start)
  have first : (queue.stores.set start queue.stores[start].setCanWB).take
      (start + 1) = queue.stores.take start ++ [queue.stores[start].setCanWB] := by
    rw [List.take_succ_eq_append_getElem (by simpa using inside), List.getElem_set_self,
      List.take_set_of_le (Nat.le_refl start)]
  obtain ⟨rings, counter, noted, frame⟩ := marked
  dsimp only [markStore, LSQUnit.setEntry] at rings counter noted frame
  rw [rest, first] at rings
  rw [rest] at counter noted
  refine ⟨?_, ?_, ?_, frame⟩
  · rw [List.drop_eq_getElem_cons inside, List.map_cons, SQEntry.mark_of_le committed]
    rwa [List.append_assoc, List.singleton_append] at rings
  · rw [List.drop_eq_getElem_cons inside, List.filter_cons, new, if_pos rfl, counter,
      List.length_cons]
    omega
  · rw [List.drop_eq_getElem_cons inside, List.filter_cons, new, if_pos rfl, noted,
      slot, List.map_cons, List.append_assoc, List.singleton_append]
    rfl

/-- The stores from a number on are marked in program order. -/
theorem Rings.commitStores
    (youngestInst bound : Nat) (rings : Rings params lsq queue) (fromHead : queue.storeHead ≤ start)
    (upTo : start ≤ queue.stores.length) (enough : queue.stores.length ≤ start + bound) :
    ∃ next, commitStores params youngestInst bound (start % params.sqEntries) lsq = some next ∧
      StoresMarked params youngestInst lsq queue start next := by
  have finish : ∀ {lsq queue start}, Rings params lsq queue → queue.stores.length ≤ start →
      StoresMarked params youngestInst lsq queue start lsq := by
    intro lsq queue start rings past
    refine .refl rings fun entry member => ?_
    rw [List.drop_eq_nil_of_le past] at member
    cases member
  induction bound generalizing lsq queue start with
  | zero => exact ⟨lsq, rfl, finish rings enough⟩
  | succ bound ih =>
      unfold LsqUnit.commitStores
      rcases Nat.eq_or_lt_of_le upTo with rfl | inside
      · rw [if_pos rings.storeRing.tail_eq.symm]
        exact ⟨lsq, rfl, finish rings (Nat.le_refl _)⟩
      · have further : start % params.sqEntries ≠ lsq.storeTail := by
          rw [rings.storeRing.tail_eq]
          exact rings.storeRing.slot_ne fromHead upTo rings.storeRing.first_le
            (Nat.le_refl _) (Nat.ne_of_lt inside)
        have slot := rings.storeRing.slot start inside fromHead
        rw [if_neg further, slot, rings.inst_eq inside, Ring.next_mod rings.storeRing.positive]
        dsimp only
        by_cases allowed : queue.stores[start].canWB = true
        · rw [if_pos allowed]
          obtain ⟨next, reached, marked⟩ := ih rings (Nat.le_succ_of_le fromHead) inside
            (by omega)
          exact ⟨next, reached, marked.skip inside allowed⟩
        · rw [if_neg allowed]
          rw [Bool.not_eq_true] at allowed
          by_cases younger : youngestInst < queue.stores[start].seqNum
          · rw [if_pos younger]
            refine ⟨lsq, rfl, .refl rings fun entry member => ?_⟩
            obtain ⟨offset, small, rfl⟩ := List.getElem_of_mem member
            rw [List.length_drop] at small
            rw [List.getElem_drop]
            rcases Nat.eq_zero_or_pos offset with rfl | positive
            · exact younger
            · exact Nat.lt_trans younger (rings.store_lt (by omega) (by omega))
          · rw [if_neg younger]
            obtain ⟨next, reached, marked⟩ := ih (rings.markStore fromHead inside)
              (Nat.le_succ_of_le fromHead) (by rw [List.length_set]; exact inside)
              (by rw [List.length_set]; omega)
            exact ⟨next, reached, .mark inside allowed (Nat.not_lt.mp younger) slot marked⟩

/-! ### Stores are taken back -/

theorem Rings.squashStore
    (rings : Rings params lsq queue) (nonempty : queue.storeHead < queue.stores.length)
    (seq : Nat) :
    Rings params (squashStore lsq (Ring.prev params.sqEntries lsq.storeTail) seq)
      { queue with stores := queue.stores.dropLast } := by
  have popped := rings.storeRing.popBack nonempty
  have last := rings.storeRing.prev_tail (by omega)
  have shorter : queue.stores.dropLast.length = queue.stores.length - 1 :=
    List.length_dropLast
  constructor <;> dsimp only [LsqUnit.squashStore, LSQUnit.setEntry, LSQUnit.modify]
  case loadRing => exact rings.loadRing
  case unoccupied => exact rings.unoccupied
  case storeRing =>
    refine popped.update_outside (fun i fromHead inside => ?_) _
    rw [last]
    refine rings.storeRing.slot_ne ?_ ?_ ?_ ?_ ?_ <;> omega
  case loadOrder => exact rings.loadOrder
  case loadBound => exact rings.loadBound
  case named =>
    intro entry member
    exact rings.named entry (List.dropLast_subset _ member)
  case storeOrder =>
    exact rings.storeOrder.sublist ((List.dropLast_sublist _).map _)
  case storeBound =>
    intro entry member
    exact rings.storeBound entry (List.dropLast_subset _ member)
  case lqIdx => exact rings.lqIdx
  case sqIdx =>
    intro i inside fromHead
    rw [List.getElem_dropLast]
    exact rings.sqIdx i (by omega) fromHead

/-- The stores from a number on are taken back. -/
structure StoresTaken
    (params : Params) (squashedNum : Nat) (lsq : LSQUnit) (queue : Queue) (next : LSQUnit)
    (kept : Nat) : Prop where
  fromHead : queue.storeHead ≤ kept
  upTo : kept ≤ queue.stores.length
  rings : Rings params next { queue with stores := queue.stores.take kept }
  younger : ∀ i (inside : i < queue.stores.length), kept ≤ i →
    squashedNum < queue.stores[i].seqNum ∧ queue.stores[i].canWB = false
  older : ∀ i (inside : i < queue.stores.length), queue.storeHead ≤ i → i + 1 = kept →
    queue.stores[i].seqNum ≤ squashedNum ∨ queue.stores[i].canWB = true
  others : ∀ seq, (∀ i (inside : i < queue.stores.length), kept ≤ i →
    queue.stores[i].seqNum ≠ seq) → next.insts seq = lsq.insts seq
  frame : next = { lsq with
    insts := next.insts
    storeQueue := next.storeQueue
    stores := next.stores
    storeTail := next.storeTail }

/-- If the last store stays, none is taken back. -/
theorem StoresTaken.refl
    (rings : Rings params lsq queue)
    (older : ∀ i (inside : i < queue.stores.length), queue.storeHead ≤ i →
      i + 1 = queue.stores.length →
        queue.stores[i].seqNum ≤ squashedNum ∨ queue.stores[i].canWB = true) :
    StoresTaken params squashedNum lsq queue lsq queue.stores.length where
  fromHead := rings.storeRing.first_le
  upTo := Nat.le_refl _
  rings := by rwa [List.take_length]
  younger := fun _ inside after => absurd inside (Nat.not_lt.mpr after)
  older := older
  others := fun _ _ => rfl
  frame := rfl

/-- The last store is taken back before others. -/
theorem StoresTaken.squashStore
    (nonempty : queue.storeHead < queue.stores.length)
    (younger : squashedNum < queue.stores[queue.stores.length - 1].seqNum ∧
      queue.stores[queue.stores.length - 1].canWB = false)
    (taken : StoresTaken params squashedNum
      (squashStore lsq (Ring.prev params.sqEntries lsq.storeTail)
        queue.stores[queue.stores.length - 1].seqNum)
      { queue with stores := queue.stores.dropLast } next kept) :
    StoresTaken params squashedNum lsq queue next kept := by
  have shorter : queue.stores.dropLast.length = queue.stores.length - 1 :=
    List.length_dropLast
  have upTo : kept ≤ queue.stores.dropLast.length := taken.upTo
  constructor
  case fromHead => exact taken.fromHead
  case upTo => omega
  case rings =>
    have rest := taken.rings
    dsimp only at rest
    rwa [List.dropLast_eq_take, List.take_take, Nat.min_eq_left (by omega)] at rest
  case younger =>
    intro i inside after
    by_cases final : i = queue.stores.length - 1
    · simpa only [final] using younger
    · have earlier := taken.younger i (by dsimp only; omega) after
      rwa [List.getElem_dropLast] at earlier
  case older =>
    intro i inside fromHead before
    have earlier := taken.older i (by dsimp only; omega) fromHead before
    rwa [List.getElem_dropLast] at earlier
  case others =>
    intro seq distinct
    have other : seq ≠ queue.stores[queue.stores.length - 1].seqNum :=
      Ne.symm (distinct _ (by omega) (by omega))
    rw [taken.others seq]
    · exact Heap.modify_of_ne _ other _
    · intro i inside after
      rw [List.getElem_dropLast]
      exact distinct i (by dsimp only at inside; omega) after
  case frame =>
    have rest := taken.frame
    dsimp only [LsqUnit.squashStore, LSQUnit.modify, LSQUnit.setEntry] at rest
    exact rest

/-- Younger stores are taken back unless the unit panics. -/
theorem Rings.squashStores
    (squashedNum bound : Nat) (rings : Rings params lsq queue)
    (enough : queue.stores.length ≤ queue.storeHead + bound)
    (squashed : squashStores params squashedNum bound
      (Ring.prev params.sqEntries lsq.storeTail) lsq = some next) :
    ∃ kept, StoresTaken params squashedNum lsq queue next kept := by
  induction bound generalizing lsq queue with
  | zero =>
      cases squashed
      exact ⟨_, .refl rings fun i inside fromHead => by omega⟩
  | succ bound ih =>
      have below := rings.storeRing.first_le
      have count := rings.storeRing.count_eq
      unfold LsqUnit.squashStores at squashed
      by_cases empty : lsq.stores = 0
      · rw [if_pos empty] at squashed
        cases squashed
        exact ⟨_, .refl rings fun i inside fromHead => by omega⟩
      · have nonempty : queue.storeHead < queue.stores.length := by omega
        have last := rings.storeRing.prev_tail (by omega)
        have final : queue.stores.length - 1 < queue.stores.length := by omega
        have slot := rings.storeRing.slot _ final (by omega)
        rw [← last] at slot
        rw [if_neg empty, slot, rings.inst_eq final] at squashed
        dsimp only at squashed
        split at squashed
        case isTrue younger =>
          rw [Option.ite_none_left_eq_some] at squashed
          have shorter : queue.stores.dropLast.length = queue.stores.length - 1 :=
            List.length_dropLast
          obtain ⟨kept, taken⟩ := ih (rings.squashStore nonempty _)
            (by dsimp only; omega) squashed.2
          exact ⟨kept, taken.squashStore nonempty younger⟩
        case isFalse stays =>
          cases squashed
          refine ⟨_, .refl rings fun i inside fromHead ends => ?_⟩
          obtain rfl : i = queue.stores.length - 1 := by omega
          rw [not_and_or, Nat.not_lt, Bool.not_eq_false] at stays
          exact stays

end LsqUnit
end Dolma

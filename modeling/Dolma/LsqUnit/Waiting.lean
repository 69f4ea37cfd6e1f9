import Dolma.LsqUnit.Invariant

/-!
# Loads that wait for a store

Many loads may wait for stores that have only a part of their data, but one record is
kept for all of them. It names the oldest of these loads and a store that is not yet
sent. When the store is sent, all of them are replayed.
-/

namespace Dolma
namespace LsqUnit

open Library LSQUnit

/-- The load is strictly ordered and waits for commit. -/
def awaitsCommit (load : DynInst) : Bool :=
  load.strictlyOrdered && !load.status .atCommit

/-- The loads that wait because a store has only a part of their data. -/
def LSQUnit.waiting (lsq : LSQUnit) : List Nat :=
  lsq.instsToReplay.filter fun seq => !awaitsCommit (lsq.insts seq)

/-- The stores that are not yet sent, in program order. -/
def LSQUnit.unsent (params : Params) (lsq : LSQUnit) : List SQEntry :=
  (List.range
    ((lsq.storeTail + params.sqEntries - lsq.storeWBIdx) % params.sqEntries)).map
      fun offset => lsq.storeQueue ((lsq.storeWBIdx + offset) % params.sqEntries)

/-- The store is in the queue and not yet sent. -/
def LSQUnit.hasUnsent (params : Params) (lsq : LSQUnit) (store : Nat) : Bool :=
  (List.range
    ((lsq.storeTail + params.sqEntries - lsq.storeWBIdx) % params.sqEntries)).any
      fun offset =>
        (lsq.storeQueue ((lsq.storeWBIdx + offset) % params.sqEntries)).inst = some store

/-- Instructions are inserted before they are committed, loads are executed before they
are committed, and what is committed is not squashed. -/
def inOrderCore (params : Params) (lsq : LSQUnit) : Event → Bool
  | .insertLoad seq | .insertStore seq => decide (lsq.doneSeqNum < seq)
  | .commitLoads youngestInst | .commitStores youngestInst =>
      (List.range lsq.loads.toNat).all fun offset =>
        (lsq.loadAt params offset).all fun seq =>
          decide (youngestInst < seq) || (lsq.insts seq).isExecuted
  | .squash squashedNum => decide (lsq.doneSeqNum ≤ squashedNum)
  | _ => true

/-- The record names the oldest waiting load and a store that is not yet sent. -/
structure Record (params : Params) (lsq : LSQUnit) (queue : Queue) (written i k : Nat) : Prop where
  load : i < queue.loads.length
  fromHead : queue.loadHead ≤ i
  idx : lsq.stallingLoadIdx = i % params.lqEntries
  waits : queue.loads[i] ∈ lsq.waiting
  oldest : ∀ other ∈ lsq.waiting, queue.loads[i] ≤ other
  store : k < queue.stores.length
  unsent : written ≤ k
  isn : queue.stores[k].seqNum = lsq.stallingStoreIsn
  older : lsq.stallingStoreIsn < queue.loads[i]

/-- The load may look for its data in the stores before a place. -/
def Place (params : Params) (lsq : LSQUnit) (queue : Queue) (seq : Nat) : Prop :=
  ∀ idx, lsq.sqIdx seq = some idx → ∃ place, place ≤ queue.stores.length ∧
    idx = place % params.sqEntries ∧
    ∀ k (inside : k < queue.stores.length), k < place ↔ queue.stores[k].seqNum < seq

/-- What is known of a load in the queue. -/
structure LoadState (params : Params) (lsq : LSQUnit) (queue : Queue) (i seq : Nat) : Prop where
  alive : (lsq.insts seq).isSquashed = false
  atHead : (lsq.insts seq).status .atCommit = true → (lsq.insts seq).isExecuted = false →
    i = queue.loadHead
  pending : (lsq.insts seq).isExecuted = false → lsq.doneSeqNum < seq
  place : Place params lsq queue seq

/-- The record and the waiting loads agree. -/
structure Tracks (params : Params) (lsq : LSQUnit) (queue : Queue) (written : Nat) : Prop where
  loads : ∀ i (inside : i < queue.loads.length), queue.loadHead ≤ i →
    LoadState params lsq queue i queue.loads[i]
  done : ∀ k (inside : k < queue.stores.length), queue.stores[k].canWB = true →
    queue.stores[k].seqNum ≤ lsq.doneSeqNum
  replays : ∀ seq ∈ lsq.instsToReplay, lsq.owed seq = false ∧
    (lsq.insts seq).isExecuted = false ∧
    ∃ i, ∃ inside : i < queue.loads.length, queue.loadHead ≤ i ∧ queue.loads[i] = seq
  record : lsq.stalled = true → ∃ i k, Record params lsq queue written i k
  clear : lsq.stalled = false → lsq.waiting = []

variable {params : Params} {lsq next : LSQUnit} {queue queue' : Queue}
  {written written' seq : Nat}

/-- The slots from the write-back index on hold the stores that are not yet sent. -/
theorem Whole.unsent_eq (whole : Whole params lsq queue written) :
    lsq.unsent params = queue.stores.drop written := by
  have ring := whole.rings.storeRing
  have room := ring.room
  have after := whole.writeback.head_le
  have upTo := whole.writeback.written_le
  have distance : (lsq.storeTail + params.sqEntries - lsq.storeWBIdx) % params.sqEntries =
      queue.stores.length - written := by
    rw [ring.tail_eq, whole.writeback.idx]
    exact Ring.distance upTo (by omega)
  rw [LSQUnit.unsent, distance]
  refine List.ext_getElem (by simp) fun offset inside inside' => ?_
  rw [List.length_drop] at inside'
  rw [List.getElem_map, List.getElem_range, List.getElem_drop, whole.writeback.idx, Nat.mod_add_mod]
  exact ring.slot _ (by omega) (by omega)

/-- A store is unsent if it has a place after the write-back index. -/
theorem Whole.hasUnsent_iff (whole : Whole params lsq queue written) (store : Nat) :
    lsq.hasUnsent params store = true ↔
      ∃ k, ∃ inside : k < queue.stores.length, written ≤ k ∧ queue.stores[k].seqNum = store := by
  have listed : lsq.hasUnsent params store =
      (lsq.unsent params).any fun entry => entry.inst = some store := by
    rw [LSQUnit.unsent, List.any_map]
    rfl
  rw [listed, whole.unsent_eq, List.any_eq_true]
  constructor
  · rintro ⟨_, member, found⟩
    obtain ⟨k, inside, rfl⟩ := List.mem_drop_iff_getElem.mp member
    have inside' : written + k < queue.stores.length := by omega
    rw [decide_eq_true_eq, whole.rings.inst_eq inside'] at found
    exact ⟨_, inside', Nat.le_add_right _ _, Option.some.inj found⟩
  · rintro ⟨k, inside, unsent, rfl⟩
    refine ⟨queue.stores[k], List.mem_drop_iff_getElem.mpr ⟨k - written, by omega, ?_⟩, ?_⟩
    · simp only [Nat.add_sub_cancel' unsent]
    · rw [decide_eq_true_eq, whole.rings.inst_eq inside]

variable {i k : Nat}

theorem Whole.uncommitted_of_open
    (whole : Whole params lsq queue written) (inside : i < queue.loads.length)
    (fromHead : queue.loadHead ≤ i)
    (ordered : inOrderCore params lsq (.commitLoads youngestInst) = true)
    (open' : (lsq.insts queue.loads[i]).isExecuted = false) :
    youngestInst < queue.loads[i] := by
  have present : i - queue.loadHead < lsq.loads.toNat := by
    rw [whole.rings.loads_eq]
    omega
  have inside' : queue.loadHead + (i - queue.loadHead) < queue.loads.length := by omega
  rw [inOrderCore, List.all_eq_true] at ordered
  have here := ordered _ (List.mem_range.mpr present)
  rw [whole.loadAt_eq inside', Option.all_some, Bool.or_eq_true, decide_eq_true_eq] at here
  simp only [Nat.add_sub_cancel' fromHead, open', Bool.false_eq_true, or_false] at here
  exact here

/-- The scan finds a store between the write-back index and its start. -/
theorem Whole.exists_scanned
    (whole : Whole params lsq queue written) (storeWBIdx : unit.storeWBIdx = lsq.storeWBIdx)
    (bound : Nat) (after : written ≤ place)
    (scanned : scan params unit request bound (place % params.sqEntries) bypassed =
      some ⟨result, some (idx, covers)⟩) :
    ∃ k, written ≤ k ∧ k < place ∧ idx = k % params.sqEntries := by
  have positive := whole.rings.storeRing.positive
  induction bound generalizing place bypassed with
  | zero => cases scanned
  | succ bound ih =>
      rw [scan] at scanned
      split at scanned
      case isTrue => cases scanned
      case isFalse further =>
        rw [storeWBIdx, whole.writeback.idx] at further
        have later : written < place := by
          refine Nat.lt_of_le_of_ne after fun same => further ?_
          rw [same]
        obtain ⟨last, rfl⟩ : ∃ last, place = last + 1 := ⟨place - 1, by omega⟩
        rw [Ring.prev_mod positive] at scanned
        -- the entry before the place holds data, or the scan goes on there
        have here : last % params.sqEntries = idx →
            ∃ k, written ≤ k ∧ k < last + 1 ∧ idx = k % params.sqEntries :=
          fun found => ⟨last, by omega, by omega, found.symm⟩
        have goesOn : ∀ {bypassed},
            scan params unit request bound (last % params.sqEntries) bypassed =
              some ⟨result, some (idx, covers)⟩ →
            ∃ k, written ≤ k ∧ k < last + 1 ∧ idx = k % params.sqEntries := by
          intro bypassed rest
          obtain ⟨k, unsent, before, found⟩ := ih (by omega) rest
          exact ⟨k, unsent, by omega, found⟩
        dsimp only at scanned
        split at scanned
        case h_1 => cases scanned
        case h_2 =>
          split at scanned
          case isTrue =>
            split at scanned
            case isTrue =>
              split at scanned
              case isTrue => cases scanned
              case isFalse => exact goesOn scanned
            case isFalse => exact goesOn scanned
          case isFalse =>
            obtain ⟨-, scanned⟩ := Option.ite_none_left_eq_some.mp scanned
            split at scanned
            case h_1 =>
              cases scanned
              exact here rfl
            case h_2 =>
              obtain ⟨-, scanned⟩ := Option.ite_none_left_eq_some.mp scanned
              cases scanned
              exact here rfl
            case h_3 => exact goesOn scanned

/-- The same loads and stores are in the queue. -/
structure SameQueues (queue queue' : Queue) : Prop where
  loads : queue'.loads = queue.loads
  loadHead : queue'.loadHead = queue.loadHead
  seqNums : queue'.stores.map SQEntry.seqNum = queue.stores.map SQEntry.seqNum

theorem SameQueues.refl (queue : Queue) : SameQueues queue queue := ⟨rfl, rfl, rfl⟩

/-- A load keeps its place among the stores. -/
theorem Place.congr
    (place : Place params lsq queue seq) (sqIdx : next.sqIdx seq = lsq.sqIdx seq)
    (seqNums : queue'.stores.map SQEntry.seqNum = queue.stores.map SQEntry.seqNum) :
    Place params next queue' seq := by
  intro idx known
  rw [sqIdx] at known
  obtain ⟨here, upTo, found, before⟩ := place idx known
  have lengths := congrArg List.length seqNums
  rw [List.length_map, List.length_map] at lengths
  refine ⟨here, by omega, found, fun k inside => ?_⟩
  obtain ⟨inside', same⟩ := getElem_of_map_eq seqNums inside
  rw [same]
  exact before k inside'

/-- A load stands where it stood, or it is executed. -/
structure Advances (before after : DynInst) : Prop where
  isSquashed : after.isSquashed = before.isSquashed
  atCommit : after.status .atCommit = before.status .atCommit
  isExecuted : after.isExecuted = false → before.isExecuted = false

theorem SameStand.advances (stand : SameStand before after) : Advances before after :=
  ⟨stand.isSquashed, stand.atCommit, fun waits => stand.isExecuted.symm.trans waits⟩

/-- A load that stays or is executed keeps its state. -/
theorem LoadState.congr
    (state : LoadState params lsq queue i seq) (loadHead : queue'.loadHead = queue.loadHead)
    (seqNums : queue'.stores.map SQEntry.seqNum = queue.stores.map SQEntry.seqNum)
    (stand : Advances (lsq.insts seq) (next.insts seq))
    (doneSeqNum : next.doneSeqNum = lsq.doneSeqNum) (sqIdx : next.sqIdx seq = lsq.sqIdx seq) :
    LoadState params next queue' i seq where
  alive := stand.isSquashed.trans state.alive
  atHead reached open' := by
    rw [loadHead]
    exact state.atHead (stand.atCommit.symm.trans reached) (stand.isExecuted open')
  pending open' := by
    rw [doneSeqNum]
    exact state.pending (stand.isExecuted open')
  place := state.place.congr sqIdx seqNums

theorem waiting_congr
    (instsToReplay : next.instsToReplay = lsq.instsToReplay)
    (stand : ∀ seq ∈ lsq.instsToReplay, SameStand (lsq.insts seq) (next.insts seq)) :
    next.waiting = lsq.waiting := by
  rw [LSQUnit.waiting, LSQUnit.waiting, instsToReplay]
  refine List.filter_congr fun seq member => ?_
  rw [awaitsCommit, awaitsCommit, (stand seq member).strictlyOrdered, (stand seq member).atCommit]

/-- The record keeps its load and its store when both keep their numbers. -/
theorem Record.move
    (record : Record params lsq queue written i k)
    (load : ∀ inside : i < queue.loads.length, queue.loads[i] ∈ next.waiting ∧
      queue'.loadHead ≤ i ∧
      ∃ inside' : i < queue'.loads.length, queue'.loads[i] = queue.loads[i])
    (store : ∀ inside : k < queue.stores.length, written' ≤ k ∧
      ∃ inside' : k < queue'.stores.length, queue'.stores[k].seqNum = queue.stores[k].seqNum)
    (same : SameRecord lsq next) (waiting : ∀ other ∈ next.waiting, other ∈ lsq.waiting) :
    Record params next queue' written' i k := by
  obtain ⟨waits, fromHead, inside, sameLoad⟩ := load record.load
  obtain ⟨unsent, inside', sameSeq⟩ := store record.store
  constructor
  case load => exact inside
  case fromHead => exact fromHead
  case idx => exact same.stallingLoadIdx.trans record.idx
  case waits =>
    rw [sameLoad]
    exact waits
  case oldest =>
    rw [sameLoad]
    exact fun other member => record.oldest other (waiting other member)
  case store => exact inside'
  case unsent => exact unsent
  case isn => rw [sameSeq, record.isn, same.stallingStoreIsn]
  case older =>
    rw [sameLoad, same.stallingStoreIsn]
    exact record.older

theorem Record.congr
    (record : Record params lsq queue written i k) (queues : SameQueues queue queue')
    (same : SameRecord lsq next) (waiting : next.waiting = lsq.waiting) (unsent : written' ≤ k) :
    Record params next queue' written' i k := by
  refine record.move (fun _ => ⟨?_, ?_, ?_⟩) (fun inside => ⟨unsent, ?_⟩) same ?_
  · rw [waiting]
    exact record.waits
  · rw [queues.loadHead]
    exact record.fromHead
  · have inside' : i < queue'.loads.length := by
      rw [queues.loads]
      exact record.load
    exact ⟨inside', List.getElem_of_eq queues.loads inside'⟩
  · obtain ⟨inside', same⟩ := getElem_of_map_eq queues.seqNums.symm inside
    exact ⟨inside', same.symm⟩
  · rw [waiting]
    exact fun _ member => member

namespace Tracks

section

variable (tracks : Tracks params lsq queue written)
include tracks

/-- The same stores are committed as far as before. -/
theorem done_congr
    (queues : SameQueues queue queue')
    (canWBs : queue'.stores.map SQEntry.canWB = queue.stores.map SQEntry.canWB)
    (doneSeqNum : lsq.doneSeqNum ≤ next.doneSeqNum) (k : Nat) (inside : k < queue'.stores.length)
    (allowed : queue'.stores[k].canWB = true) :
    queue'.stores[k].seqNum ≤ next.doneSeqNum := by
  obtain ⟨inside', sameSeq⟩ := getElem_of_map_eq queues.seqNums inside
  obtain ⟨_, sameMark⟩ := getElem_of_map_eq canWBs inside
  rw [sameMark] at allowed
  rw [sameSeq]
  exact Nat.le_trans (tracks.done k inside' allowed) doneSeqNum

theorem loads_congr
    (queues : SameQueues queue queue')
    (stand : ∀ seq ∈ queue.loads, Advances (lsq.insts seq) (next.insts seq))
    (doneSeqNum : next.doneSeqNum = lsq.doneSeqNum) (sqIdx : next.sqIdx = lsq.sqIdx) (i : Nat)
    (inside : i < queue'.loads.length) (fromHead : queue'.loadHead ≤ i) :
    LoadState params next queue' i queue'.loads[i] := by
  have sameLoad := List.getElem_of_eq queues.loads inside
  have inside' : i < queue.loads.length := by rwa [← queues.loads]
  rw [queues.loadHead] at fromHead
  rw [sameLoad]
  exact (tracks.loads i inside' fromHead).congr queues.loadHead queues.seqNums
    (stand queue.loads[i] (List.getElem_mem inside')) doneSeqNum (by rw [sqIdx])

/-- Loads that are to be replayed keep their place. -/
theorem replays_congr
    (queues : SameQueues queue queue') (stand : SameStand (lsq.insts seq) (next.insts seq))
    (owed : next.owed seq = lsq.owed seq) (member : seq ∈ lsq.instsToReplay) :
    next.owed seq = false ∧ (next.insts seq).isExecuted = false ∧
      ∃ i, ∃ inside : i < queue'.loads.length, queue'.loadHead ≤ i ∧ queue'.loads[i] = seq := by
  obtain ⟨noData, open', i, inside, fromHead, found⟩ := tracks.replays seq member
  have inside' : i < queue'.loads.length := by rwa [queues.loads]
  refine ⟨owed.trans noData, stand.isExecuted.trans open', i, inside', ?_, ?_⟩
  · rw [queues.loadHead]
    exact fromHead
  · rw [List.getElem_of_eq queues.loads inside']
    exact found

/-- Nothing happens to waiting loads, and the store in the record is not passed. -/
theorem same
    (queues : SameQueues queue queue')
    (stand : ∀ seq ∈ queue.loads, Advances (lsq.insts seq) (next.insts seq))
    (replays : ∀ seq ∈ lsq.instsToReplay, SameStand (lsq.insts seq) (next.insts seq) ∧
      next.owed seq = lsq.owed seq)
    (kept : GoesOn lsq next)
    (done : ∀ k (inside : k < queue'.stores.length), queue'.stores[k].canWB = true →
      queue'.stores[k].seqNum ≤ next.doneSeqNum)
    (doneSeqNum : next.doneSeqNum = lsq.doneSeqNum) (sqIdx : next.sqIdx = lsq.sqIdx)
    (unsent : lsq.stalled = true → ∀ k (inside : k < queue.stores.length), written ≤ k →
      queue.stores[k].seqNum = lsq.stallingStoreIsn → written' ≤ k) :
    Tracks params next queue' written' := by
  have waiting := waiting_congr kept.instsToReplay fun seq member => (replays seq member).1
  constructor
  case loads => exact tracks.loads_congr queues stand doneSeqNum sqIdx
  case done => exact done
  case replays =>
    intro seq member
    rw [kept.instsToReplay] at member
    exact tracks.replays_congr queues (replays seq member).1 (replays seq member).2 member
  case record =>
    intro stalled
    rw [kept.record.stalled] at stalled
    obtain ⟨i, k, record⟩ := tracks.record stalled
    exact ⟨i, k, record.congr queues kept.record waiting
      (unsent stalled k record.store record.unsent record.isn)⟩
  case clear =>
    intro clear
    rw [kept.record.stalled] at clear
    rw [waiting]
    exact tracks.clear clear

theorem replayed
    (queues : SameQueues queue queue')
    (stand : ∀ seq ∈ queue.loads, Advances (lsq.insts seq) (next.insts seq))
    (done : ∀ k (inside : k < queue'.stores.length), queue'.stores[k].canWB = true →
      queue'.stores[k].seqNum ≤ next.doneSeqNum)
    (doneSeqNum : next.doneSeqNum = lsq.doneSeqNum) (sqIdx : next.sqIdx = lsq.sqIdx)
    (stalled : next.stalled = false) (instsToReplay : next.instsToReplay = []) :
    Tracks params next queue' written' where
  loads := tracks.loads_congr queues stand doneSeqNum sqIdx
  done := done
  replays seq member := by
    rw [instsToReplay] at member
    cases member
  record waits := by
    rw [stalled] at waits
    cases waits
  clear _ := by
    rw [LSQUnit.waiting, instsToReplay]
    rfl

theorem passed (passed : Passed lsq queue written next queue' written') :
    Tracks params next queue' written' := by
  have queues : SameQueues queue queue' :=
    ⟨passed.loads, passed.loadHead, passed.seqNums⟩
  have frame := passed.frame
  have done := tracks.done_congr queues passed.canWBs (Nat.le_of_eq frame.doneSeqNum.symm)
  have stand : ∀ seq, SameStand (lsq.insts seq) (next.insts seq) := by
    intro seq
    rw [frame.insts]
    exact SameStand.refl _
  have stand' : ∀ seq ∈ queue.loads, Advances (lsq.insts seq) (next.insts seq) :=
    fun seq _ => (stand seq).advances
  rcases passed.record with ⟨stalled, isn, replay, apart⟩ | ⟨cleared, empty⟩
  · refine tracks.same queues stand' (fun seq _ => ⟨stand seq, by rw [frame.owed]⟩)
      ⟨replay, stalled, isn, frame.stallingLoadIdx⟩ done frame.doneSeqNum frame.sqIdx ?_
    intro waits k inside unsent named
    by_contra before
    exact apart waits k inside unsent (by omega) named
  · exact tracks.replayed queues stand' done frame.doneSeqNum frame.sqIdx cleared empty

end

end Tracks

end LsqUnit
end Dolma

import Dolma.LsqUnit.Waiting

/-!
# No waiting load is forgotten

Each event keeps the record in agreement with the waiting loads, except for the replay
that commit orders for a strictly ordered load: it replays all waiting loads and leaves
the record as it is.
-/

namespace Dolma
namespace LsqUnit

open Library LSQUnit

variable {params : Params} {lsq next : LSQUnit} {queue queue' : Queue}
  {written written' seq : Nat}

namespace LoadEffect

theorem advances
    (effect : LoadEffect lsq seq next) (open' : (lsq.insts seq).isExecuted = false) (other : Nat) :
    Advances (lsq.insts other) (next.insts other) := by
  by_cases same : other = seq
  · rw [same]
    exact ⟨effect.isSquashed, effect.atCommit, fun _ => open'⟩
  · rw [effect.others other same]
    exact (SameStand.refl _).advances

theorem others_stand
    (effect : LoadEffect lsq seq next) (absent : seq ∉ lsq.instsToReplay)
    (member : other ∈ lsq.instsToReplay) :
    SameStand (lsq.insts other) (next.insts other) ∧ next.owed other = lsq.owed other := by
  have distinct : other ≠ seq := by
    rintro rfl
    exact absent member
  rw [effect.others other distinct]
  exact ⟨SameStand.refl _, effect.owed other distinct⟩

/-- The waiting loads with one more. -/
theorem waiting_append
    (effect : LoadEffect lsq seq next) (absent : seq ∉ lsq.instsToReplay)
    (instsToReplay : next.instsToReplay = lsq.instsToReplay ++ [seq]) :
    next.waiting = lsq.waiting ++ if awaitsCommit (next.insts seq) then [] else [seq] := by
  rw [LSQUnit.waiting, instsToReplay, List.filter_append]
  congr 1
  · refine List.filter_congr fun other member => ?_
    have stand := (effect.others_stand absent member).1
    rw [awaitsCommit, awaitsCommit, stand.strictlyOrdered, stand.atCommit]
  · rw [List.filter_singleton]
    cases awaitsCommit (next.insts seq) <;> rfl

/-- The frame of the fields that loads do not touch. -/
theorem unchanged (effect : LoadEffect lsq seq next) :
    next.doneSeqNum = lsq.doneSeqNum ∧ next.sqIdx = lsq.sqIdx := by
  rw [effect.frame]
  exact ⟨rfl, rfl⟩

end LoadEffect

variable {i youngestInst squashedNum kept kept' idx head : Nat} {mid : LSQUnit}

namespace Tracks

variable {j : Nat}

section

variable (tracks : Tracks params lsq queue written)
include tracks

theorem replays_append
    (inside : j < queue.loads.length) (fromHead : queue.loadHead ≤ j) (found : queue.loads[j] = seq)
    (open' : (next.insts seq).isExecuted = false) (noData : next.owed seq = false)
    (absent : seq ∉ lsq.instsToReplay) (effect : LoadEffect lsq seq next)
    (instsToReplay : next.instsToReplay = lsq.instsToReplay ++ [seq]) (other : Nat)
    (member : other ∈ next.instsToReplay) :
    next.owed other = false ∧ (next.insts other).isExecuted = false ∧
      ∃ i, ∃ inside : i < queue.loads.length, queue.loadHead ≤ i ∧ queue.loads[i] = other := by
  rw [instsToReplay] at member
  rcases List.mem_append.mp member with old | new
  · obtain ⟨stand, owed⟩ := effect.others_stand absent old
    exact tracks.replays_congr (SameQueues.refl queue) stand owed old
  · rw [List.mem_singleton.mp new]
    exact ⟨noData, open', j, inside, fromHead, found⟩

/-- A load waits for a store that the scan has found. -/
theorem awaitsStore
    (whole : Whole params lsq queue written) (inside : j < queue.loads.length)
    (fromHead : queue.loadHead ≤ j) (found : queue.loads[j] = seq)
    (absent : seq ∉ lsq.instsToReplay) (effect : LoadEffect lsq seq next)
    (included : awaitsCommit (next.insts seq) = false)
    (store : ∃ k, ∃ inside : k < queue.stores.length, written ≤ k ∧
      queue.stores[k].seqNum < seq ∧ idx = k % params.sqEntries)
    (stalls : Stalls lsq seq idx next) :
    next.stalled = true ∧ ∃ i k, Record params next queue written i k := by
  have waiting := effect.waiting_append absent stalls.instsToReplay
  rw [included, if_neg Bool.false_ne_true] at waiting
  obtain ⟨k, inside', unsent, older, rfl⟩ := store
  have slot : lsq.storeQueue (k % params.sqEntries) = queue.stores[k] :=
    whole.rings.storeRing.slot k inside' (Nat.le_trans whole.writeback.head_le unsent)
  rcases stalls.record with ⟨younger, stalled, place, named⟩ | ⟨⟨waits, recorded, entry, older'⟩, same⟩
  · -- the load takes the record
    refine ⟨stalled, j, k, inside, fromHead, ?_, ?_, ?_, inside', unsent, ?_, ?_⟩
    · rw [place, ← found]
      exact whole.rings.lqIdx j inside fromHead
    · rw [waiting, found]
      exact List.mem_append_right _ (List.mem_singleton_self _)
    · intro other member
      rw [waiting] at member
      rw [found]
      rcases List.mem_append.mp member with old | new
      · cases before : lsq.stalled with
        | false =>
            rw [tracks.clear before] at old
            cases old
        | true =>
            obtain ⟨i, k', record⟩ := tracks.record before
            obtain ⟨recorded, entry, less⟩ := younger before
            rw [record.idx, whole.rings.loadQueue_eq record.load record.fromHead] at entry
            have bound := record.oldest other old
            rw [Option.some.inj entry] at bound
            omega
      · exact Nat.le_of_eq (List.mem_singleton.mp new).symm
    · rw [slot, whole.rings.inst_eq inside'] at named
      exact Option.some.inj named
    · rw [slot, whole.rings.inst_eq inside'] at named
      rw [← Option.some.inj named, found]
      exact older
  · -- an older load has it
    obtain ⟨i, k', record⟩ := tracks.record waits
    rw [record.idx, whole.rings.loadQueue_eq record.load record.fromHead] at entry
    have equal := Option.some.inj entry
    refine ⟨same.stalled.trans waits, i, k', record.load, record.fromHead, ?_, ?_, ?_,
      record.store, record.unsent, ?_, ?_⟩
    · exact same.stallingLoadIdx.trans record.idx
    · rw [waiting]
      exact List.mem_append_left _ record.waits
    · intro other member
      rw [waiting] at member
      rcases List.mem_append.mp member with old | new
      · exact record.oldest other old
      · rw [List.mem_singleton.mp new, equal]
        exact older'
    · rw [record.isn, same.stallingStoreIsn]
    · rw [same.stallingStoreIsn]
      exact record.older

/-- A load that waits comes after the sent stores. -/
theorem written_le_place
    (whole : Whole params lsq queue written) (inside : j < queue.loads.length)
    (fromHead : queue.loadHead ≤ j) (open' : (lsq.insts queue.loads[j]).isExecuted = false)
    (before : ∀ k (inside' : k < queue.stores.length), k < place ↔
      queue.stores[k].seqNum < queue.loads[j]) :
    written ≤ place := by
  by_contra beyond
  have upTo := whole.writeback.written_le
  have inside' : place < queue.stores.length := by omega
  have allowed := (whole.writeback.marks place inside').sent (by omega)
  have committed := tracks.done place inside' allowed
  have later := (tracks.loads j inside fromHead).pending open'
  have earlier := (before place inside').mpr (by omega)
  omega

theorem executeLoad
    (whole : Whole params lsq queue written) (inside : j < queue.loads.length)
    (fromHead : queue.loadHead ≤ j) (found : queue.loads[j] = seq)
    (open' : (lsq.insts seq).isExecuted = false) (noData : lsq.owed seq = false)
    (absent : seq ∉ lsq.instsToReplay) (effect : LoadEffect lsq seq next)
    (outcome : LoadOutcome params lsq seq next) :
    Tracks params next queue written := by
  obtain ⟨doneSeqNum, sqIdx⟩ := effect.unchanged
  have queues := SameQueues.refl queue
  have stand : ∀ other ∈ queue.loads, Advances (lsq.insts other) (next.insts other) :=
    fun other _ => effect.advances open' other
  have done := tracks.done_congr queues rfl (Nat.le_of_eq doneSeqNum.symm)
  have state := tracks.loads j inside fromHead
  rw [found] at state
  cases outcome with
  | goesOn kept =>
      exact tracks.same queues stand (fun other member => effect.others_stand absent member)
        kept done doneSeqNum sqIdx fun _ _ _ unsent _ => unsent
  | awaitsCommit strictlyOrdered early isExecuted instsToReplay owed record =>
      -- a load that has reached commit is at the head, so this one has not
      have waits : awaitsCommit (next.insts seq) = true := by
        have notYet : (lsq.insts seq).status .atCommit = false := by
          by_contra reached
          rw [Bool.not_eq_false] at reached
          have atHead := state.atHead reached open'
          have idx := whole.rings.lqIdx j inside fromHead
          rw [found, atHead, ← whole.rings.loadRing.head_eq] at idx
          exact early ⟨idx, reached⟩
        rw [awaitsCommit, strictlyOrdered, effect.atCommit, notYet]
        rfl
      have waiting := effect.waiting_append absent instsToReplay
      rw [waits, if_pos rfl, List.append_nil] at waiting
      constructor
      case loads => exact tracks.loads_congr queues stand doneSeqNum sqIdx
      case done => exact done
      case replays =>
        exact tracks.replays_append inside fromHead found (isExecuted.trans open')
          (by rw [owed]; exact noData) absent effect instsToReplay
      case record =>
        intro stalled
        rw [record.stalled] at stalled
        obtain ⟨i, k, named⟩ := tracks.record stalled
        exact ⟨i, k, named.congr queues record waiting named.unsent⟩
      case clear =>
        intro clear
        rw [record.stalled] at clear
        rw [waiting]
        exact tracks.clear clear
  | awaitsStore idx allowed isExecuted scanned stalls =>
      have included : awaitsCommit (next.insts seq) = false := by
        rw [awaitsCommit]
        cases ordered : (next.insts seq).strictlyOrdered with
        | false => rfl
        | true =>
            rw [effect.atCommit, (allowed ordered).2]
            rfl
      have store : ∃ k, ∃ inside : k < queue.stores.length, written ≤ k ∧
          queue.stores[k].seqNum < seq ∧ idx = k % params.sqEntries := by
        obtain ⟨unit, request, start, bypassed, -, storeWBIdx, known, scanned⟩ := scanned
        obtain ⟨place, upTo, rfl, before⟩ := state.place start known
        rw [← found] at open' before
        have after := tracks.written_le_place whole inside fromHead open' before
        obtain ⟨k, unsent, earlier, rfl⟩ :=
          whole.exists_scanned storeWBIdx params.sqEntries after scanned
        have inside' : k < queue.stores.length := by omega
        rw [← found]
        exact ⟨k, inside', unsent, (before k inside').mp earlier, rfl⟩
      obtain ⟨stalled, record⟩ := tracks.awaitsStore whole inside fromHead found absent effect
        included store stalls
      constructor
      case loads => exact tracks.loads_congr queues stand doneSeqNum sqIdx
      case done => exact done
      case replays =>
        exact tracks.replays_append inside fromHead found (isExecuted.trans open')
          (by rw [stalls.owed]; exact noData) absent effect stalls.instsToReplay
      case record => exact fun _ => record
      case clear =>
        intro clear
        rw [stalled] at clear
        cases clear

end

end Tracks

/-- What an event of one instruction leaves as it is. -/
structure ActsOn (lsq : LSQUnit) (seq : Nat) (next : LSQUnit) : Prop where
  others : ∀ other, other ≠ seq → next.insts other = lsq.insts other
  sqIdx : ∀ other, other ≠ seq → next.sqIdx other = lsq.sqIdx other
  owed : next.owed = lsq.owed
  doneSeqNum : next.doneSeqNum = lsq.doneSeqNum
  kept : GoesOn lsq next

namespace Tracks

section

variable (tracks : Tracks params lsq queue written)
include tracks

theorem extend
    (inserts : ActsOn lsq seq next) (fresh : ∀ load ∈ queue.loads, load < seq)
    (loads : queue.loads <+: queue'.loads) (loadHead : queue'.loadHead = queue.loadHead)
    (stores : queue.stores <+: queue'.stores)
    (states : ∀ i (inside : i < queue'.loads.length), queue'.loadHead ≤ i →
      LoadState params next queue' i queue'.loads[i])
    (done : ∀ k (inside : k < queue'.stores.length), queue'.stores[k].canWB = true →
      queue'.stores[k].seqNum ≤ next.doneSeqNum) :
    Tracks params next queue' written := by
  have instsToReplay := inserts.kept.instsToReplay
  have stalled := inserts.kept.record.stalled
  have others : ∀ other ∈ lsq.instsToReplay, next.insts other = lsq.insts other := by
    intro other member
    obtain ⟨-, -, i, inside, -, rfl⟩ := tracks.replays other member
    exact inserts.others _ (Nat.ne_of_lt (fresh _ (List.getElem_mem inside)))
  have waiting : next.waiting = lsq.waiting := by
    refine waiting_congr instsToReplay fun other member => ?_
    rw [others other member]
    exact SameStand.refl _
  have stays : ∀ i (inside : i < queue.loads.length),
      ∃ inside' : i < queue'.loads.length, queue'.loads[i] = queue.loads[i] :=
    fun i inside => ⟨Nat.lt_of_lt_of_le inside loads.length_le, (loads.getElem inside).symm⟩
  constructor
  case loads => exact states
  case done => exact done
  case replays =>
    intro other member
    rw [instsToReplay] at member
    obtain ⟨noData, open', i, inside, fromHead, found⟩ := tracks.replays other member
    obtain ⟨inside', same⟩ := stays i inside
    rw [inserts.owed, others other member, loadHead]
    exact ⟨noData, open', i, inside', fromHead, same.trans found⟩
  case record =>
    intro waits
    rw [stalled] at waits
    obtain ⟨i, k, record⟩ := tracks.record waits
    refine ⟨i, k, record.move (fun inside => ⟨?_, ?_, stays i inside⟩)
      (fun inside => ⟨record.unsent, Nat.lt_of_lt_of_le inside stores.length_le, ?_⟩)
      inserts.kept.record fun _ => ?_⟩
    · rw [waiting]
      exact record.waits
    · rw [loadHead]
      exact record.fromHead
    · rw [stores.getElem inside]
    · rw [waiting]
      exact id
  case clear =>
    intro clear
    rw [stalled] at clear
    rw [waiting]
    exact tracks.clear clear

theorem insertLoad
    (whole : Whole params lsq queue written) (fresh : lsq.lastSeq < seq)
    (uncommitted : lsq.doneSeqNum < seq) (inserted : insertLoad params lsq seq = some next) :
    Tracks params next { queue with loads := queue.loads ++ [seq] } written := by
  rw [LsqUnit.insertLoad, Option.ite_none_left_eq_some] at inserted
  obtain ⟨-, last⟩ := inserted
  have fields : next.insts seq = { staticInst := { isLoad := true } } ∧
      next.sqIdx seq = (if lsq.stores = 0 then none else some lsq.storeTail) ∧
      ActsOn lsq seq next := by
    cases last
    refine ⟨Function.update_self .., Function.update_self .., ?_⟩
    exact ⟨fun other distinct => Function.update_of_ne distinct _ _,
      fun other distinct => Function.update_of_ne distinct _ _, rfl, rfl, rfl, rfl, rfl, rfl⟩
  obtain ⟨inst, sqIdx, inserts⟩ := fields
  have older : ∀ load ∈ queue.loads, load < seq :=
    fun load member => Nat.lt_of_le_of_lt (whole.rings.loadBound load member) fresh
  refine tracks.extend inserts older (List.prefix_append _ _) rfl List.prefix_rfl ?_ ?_
  · refine forall_append (fun i load => queue.loadHead ≤ i → LoadState params _ _ i load)
      (fun i inside fromHead => ?_) fun _ => ?_
    · have distinct := Nat.ne_of_lt (older _ (List.getElem_mem inside))
      refine (tracks.loads i inside fromHead).congr rfl rfl ?_ inserts.doneSeqNum
        (inserts.sqIdx _ distinct)
      rw [inserts.others _ distinct]
      exact (SameStand.refl _).advances
    · refine ⟨?_, fun reached => ?_, fun _ => ?_, fun idx known => ?_⟩
      · rw [inst]
        rfl
      · rw [inst] at reached
        cases reached
      · rw [inserts.doneSeqNum]
        exact uncommitted
      · -- the load sees all stores that are in the queue now
        rw [sqIdx, Option.ite_none_left_eq_some] at known
        obtain ⟨-, tail⟩ := known
        refine ⟨queue.stores.length, Nat.le_refl _, ?_, fun k inside => ?_⟩
        · rw [← Option.some.inj tail]
          exact whole.rings.storeRing.tail_eq
        · have bound := whole.rings.storeBound _ (List.getElem_mem inside)
          exact ⟨fun _ => Nat.lt_of_le_of_lt bound fresh, fun _ => inside⟩
  · rw [inserts.doneSeqNum]
    exact tracks.done

theorem insertStore
    (whole : Whole params lsq queue written) (fresh : lsq.lastSeq < seq)
    (inserted : insertStore params lsq seq false = some next) :
    Tracks params next { queue with stores := queue.stores ++ [{ inst := some seq }] }
      written := by
  rw [LsqUnit.insertStore, Option.ite_none_left_eq_some] at inserted
  obtain ⟨-, last⟩ := inserted
  have inserts : ActsOn lsq seq next := by
    cases last
    exact ⟨fun other distinct => Function.update_of_ne distinct _ _,
      fun other distinct => Function.update_of_ne distinct _ _, rfl, rfl, rfl, rfl, rfl, rfl⟩
  have older : ∀ load ∈ queue.loads, load < seq :=
    fun load member => Nat.lt_of_le_of_lt (whole.rings.loadBound load member) fresh
  refine tracks.extend inserts older List.prefix_rfl rfl (List.prefix_append _ _) ?_ ?_
  · intro i inside fromHead
    have before := older _ (List.getElem_mem inside)
    have distinct := Nat.ne_of_lt before
    obtain ⟨alive, atHead, pending, place⟩ := tracks.loads i inside fromHead
    have same := inserts.others _ distinct
    refine ⟨?_, fun reached open' => ?_, fun open' => ?_, fun idx known => ?_⟩
    · rw [same]
      exact alive
    · rw [same] at reached open'
      exact atHead reached open'
    · rw [same] at open'
      rw [inserts.doneSeqNum]
      exact pending open'
    · rw [inserts.sqIdx _ distinct] at known
      obtain ⟨here, upTo, found, sees⟩ := place idx known
      refine ⟨here, ?_, found, ?_⟩
      · rw [List.length_append]
        exact Nat.le_add_right_of_le upTo
      · -- the load does not see the new store
        refine forall_append (fun k entry => k < here ↔ SQEntry.seqNum entry < _) sees ?_
        exact ⟨fun inside => absurd inside (Nat.not_lt.mpr upTo),
          fun younger => absurd younger (Nat.not_lt.mpr (Nat.le_of_lt before))⟩
  · rw [inserts.doneSeqNum]
    refine forall_append
      (fun _ entry => SQEntry.canWB entry = true → SQEntry.seqNum entry ≤ lsq.doneSeqNum)
      tracks.done fun allowed => ?_
    cases allowed

section Store

variable
    (whole : Whole params lsq queue written)
    (inside : i < queue.stores.length)
    (named : queue.stores[i].seqNum = seq)
include whole inside named

/-- The loads do not depend on what happens to a store. -/
theorem ofStore
    (acts : ActsOn lsq seq next) (sqIdx : next.sqIdx = lsq.sqIdx)
    (queues : SameQueues queue queue')
    (canWBs : queue'.stores.map SQEntry.canWB = queue.stores.map SQEntry.canWB) :
    Tracks params next queue' written := by
  have others : ∀ load ∈ queue.loads, next.insts load = lsq.insts load := by
    intro load member
    refine acts.others load ?_
    rw [← named]
    exact whole.disjoint load member _ (List.getElem_mem inside)
  refine tracks.same queues (fun load member => ?_) (fun load member => ?_) acts.kept
    (tracks.done_congr queues canWBs (Nat.le_of_eq acts.doneSeqNum.symm)) acts.doneSeqNum sqIdx
    fun _ _ _ unsent _ => unsent
  · rw [others load member]
    exact (SameStand.refl _).advances
  · obtain ⟨-, -, _, inside', -, rfl⟩ := tracks.replays load member
    rw [others _ (List.getElem_mem inside'), acts.owed]
    exact ⟨SameStand.refl _, rfl⟩

theorem storeMoves (moves : StoreMoves lsq seq next) : Tracks params next queue written := by
  have frame := moves.frame
  refine tracks.ofStore whole inside named
    ⟨moves.others, fun _ _ => ?_, ?_, ?_, ?_, ?_, ?_, ?_⟩ ?_ (.refl _) rfl <;> rw [frame]

theorem accessStore (effect : StoreEffect lsq seq idx request next) :
    Tracks params next
      { queue with stores := queue.stores.set i (queue.stores[i].setData request) } written := by
  have frame := effect.frame
  refine tracks.ofStore whole inside named
    ⟨effect.others, fun _ _ => ?_, ?_, ?_, ?_, ?_, ?_, ?_⟩ ?_ ⟨rfl, rfl, map_set_eq _ inside rfl⟩
    (map_set_eq _ inside rfl) <;> rw [frame]

end Store

/-- A load that does not wait is written back. -/
theorem writeback
    (owed : lsq.owed seq = true)
    (frame : next = { lsq with insts := next.insts, owed := Function.update lsq.owed seq false })
    (others : ∀ other, other ≠ seq → next.insts other = lsq.insts other)
    (self : Advances (lsq.insts seq) (next.insts seq)) :
    Tracks params next queue written := by
  refine tracks.same (.refl _) (fun load _ => ?_) (fun load member => ?_) ⟨?_, ?_, ?_, ?_⟩ ?_
    ?_ ?_ fun _ _ _ unsent _ => unsent
  case refine_1 =>
    by_cases same : load = seq
    · rw [same]
      exact self
    · rw [others load same]
      exact (SameStand.refl _).advances
  case refine_2 =>
    obtain ⟨noData, -⟩ := tracks.replays load member
    have distinct : load ≠ seq := by
      rintro rfl
      rw [owed] at noData
      cases noData
    rw [others load distinct, frame]
    exact ⟨SameStand.refl _, Function.update_of_ne distinct _ _⟩
  case refine_7 =>
    rw [frame]
    exact tracks.done
  all_goals rw [frame]

/-- Nothing changes but marks that do not matter to waiting loads. -/
theorem touches (touches : Touches lsq seq next) : Tracks params next queue written := by
  have frame := touches.frame
  have stand : ∀ load, SameStand (lsq.insts load) (next.insts load) := by
    intro load
    by_cases same : load = seq
    · rw [same]
      exact touches.self
    · rw [touches.others load same]
      exact SameStand.refl _
  refine tracks.same (.refl _) (fun load _ => (stand load).advances)
    (fun load _ => ⟨stand load, ?_⟩) ⟨?_, ?_, ?_, ?_⟩ ?_ ?_ ?_ fun _ _ _ unsent _ => unsent
  case refine_6 =>
    rw [frame]
    exact tracks.done
  all_goals rw [frame]

/-- Commit reports how far it is; all loads up to there are executed. -/
theorem reported
    (whole : Whole params lsq queue written)
    (disciplined : inOrderCore params lsq (.commitLoads youngestInst) = true) :
    Tracks params { lsq with doneSeqNum := max lsq.doneSeqNum youngestInst } queue written := by
  constructor
  case loads =>
    intro i inside fromHead
    obtain ⟨alive, atHead, pending, place⟩ := tracks.loads i inside fromHead
    exact ⟨alive, atHead,
      fun open' => Nat.max_lt.mpr ⟨pending open', whole.uncommitted_of_open inside fromHead disciplined open'⟩,
      place⟩
  case done => exact tracks.done_congr (.refl _) rfl (Nat.le_max_left _ _)
  case replays => exact tracks.replays
  case record =>
    intro stalled
    obtain ⟨i, k, record⟩ := tracks.record stalled
    exact ⟨i, k, record.congr (.refl _) ⟨rfl, rfl, rfl⟩ rfl record.unsent⟩
  case clear => exact tracks.clear

end

end Tracks

theorem LoadsLeft.stays
    (left : LoadsLeft params youngestInst lsq queue next head) (inside : i < queue.loads.length)
    (fromHead : queue.loadHead ≤ i) (younger : youngestInst < queue.loads[i]) :
    head ≤ i := by
  by_contra gone
  have upTo := left.upTo i inside fromHead (Nat.not_le.mp gone)
  omega

namespace Tracks

section

variable (tracks : Tracks params lsq queue written)
include tracks

theorem pending (member : seq ∈ lsq.instsToReplay) : lsq.doneSeqNum < seq := by
  obtain ⟨-, open', i, inside, fromHead, rfl⟩ := tracks.replays seq member
  exact (tracks.loads i inside fromHead).pending open'

theorem commitLoads
    (reported : youngestInst ≤ lsq.doneSeqNum)
    (left : LoadsLeft params youngestInst lsq queue next head) :
    Tracks params next { queue with loadHead := head } written := by
  have frame := left.frame
  have insts : next.insts = lsq.insts := by rw [frame]
  have doneSeqNum : next.doneSeqNum = lsq.doneSeqNum := by rw [frame]
  have kept : GoesOn lsq next := by
    refine ⟨?_, ?_, ?_, ?_⟩ <;> rw [frame]
  have waiting : next.waiting = lsq.waiting := by
    refine waiting_congr kept.instsToReplay fun load _ => ?_
    rw [insts]
    exact SameStand.refl _
  constructor
  case loads =>
    intro i inside fromHead
    have after : head ≤ i := fromHead
    obtain ⟨alive, atHead, pending, place⟩ :=
      tracks.loads i inside (Nat.le_trans left.after after)
    rw [← insts] at alive atHead pending
    refine ⟨alive, fun reached open' => ?_, ?_, place.congr (by rw [frame]) rfl⟩
    · have first := atHead reached open'
      have further := left.after
      dsimp only
      omega
    · rw [doneSeqNum]
      exact pending
  case done =>
    rw [doneSeqNum]
    exact tracks.done
  case replays =>
    intro load member
    rw [kept.instsToReplay] at member
    have younger := tracks.pending member
    obtain ⟨noData, open', i, inside, fromHead, rfl⟩ := tracks.replays load member
    rw [insts]
    refine ⟨by rw [frame]; exact noData, open', i, inside, ?_, rfl⟩
    exact left.stays inside fromHead (Nat.lt_of_le_of_lt reported younger)
  case record =>
    intro stalled
    rw [kept.record.stalled] at stalled
    obtain ⟨i, k, record⟩ := tracks.record stalled
    refine ⟨i, k, record.move (fun inside => ⟨?_, ?_, inside, rfl⟩)
      (fun inside => ⟨record.unsent, inside, rfl⟩) kept.record fun _ => ?_⟩
    · rw [waiting]
      exact record.waits
    · have younger := tracks.pending (List.mem_of_mem_filter record.waits)
      exact left.stays inside record.fromHead (Nat.lt_of_le_of_lt reported younger)
    · rw [waiting]
      exact id
  case clear =>
    intro clear
    rw [kept.record.stalled] at clear
    rw [waiting]
    exact tracks.clear clear

theorem commitStores
    (reported : youngestInst ≤ lsq.doneSeqNum)
    (marked : StoresMarked params youngestInst lsq queue start next) :
    Tracks params next { queue with stores := queue.stores.map (SQEntry.mark youngestInst) }
      written := by
  have frame := marked.frame
  have insts : next.insts = lsq.insts := by rw [frame]
  have doneSeqNum : next.doneSeqNum = lsq.doneSeqNum := by rw [frame]
  refine tracks.same ⟨rfl, rfl, ?_⟩ (fun load _ => ?_) (fun load _ => ⟨?_, ?_⟩) ⟨?_, ?_, ?_, ?_⟩
    ?_ doneSeqNum ?_ fun _ _ _ unsent _ => unsent
  case refine_1 => exact map_seqNum_mark _ _
  case refine_2 =>
    rw [insts]
    exact (SameStand.refl _).advances
  case refine_3 =>
    rw [insts]
    exact SameStand.refl _
  case refine_9 =>
    intro k inside allowed
    dsimp only at allowed ⊢
    rw [List.length_map] at inside
    rw [List.getElem_map] at allowed ⊢
    rw [SQEntry.seqNum_mark, doneSeqNum]
    rcases Nat.lt_or_ge youngestInst queue.stores[k].seqNum with younger | older
    · rw [SQEntry.mark_of_lt younger] at allowed
      exact tracks.done k inside allowed
    · exact Nat.le_trans older reported
  all_goals rw [frame]

/-- Commit has a strictly ordered load replayed when no load waits for a store. -/
theorem replayStrictlyOrdered
    (whole : Whole params lsq queue written) (clear : lsq.stalled = false)
    (first : lsq.loadAt params 0 = some seq) :
    Tracks params
      ({ lsq with instsToReplay := [] }.modify seq fun load => load.setStatus .atCommit true)
      queue written := by
  have present : queue.loadHead + 0 < queue.loads.length := by
    by_contra empty
    rw [LSQUnit.loadAt, whole.rings.unoccupied _ fun i fromHead inside => by omega] at first
    cases first
  rw [whole.loadAt_eq present] at first
  cases first
  constructor
  case loads =>
    intro i inside fromHead
    obtain ⟨alive, atHead, pending, place⟩ := tracks.loads i inside fromHead
    by_cases same : i = queue.loadHead
    · subst same
      refine ⟨?_, fun _ _ => rfl, fun open' => pending ?_, place⟩
      · simpa [DynInst.isSquashed] using alive
      · simpa [DynInst.isExecuted] using open'
    · have distinct : queue.loads[i] ≠ queue.loads[queue.loadHead + 0] := by
        have order := whole.rings.load_lt inside
          (show queue.loadHead + 0 < i by omega)
        omega
      refine ⟨?_, ?_, ?_, place⟩ <;> rw [LSQUnit.modify_insts_of_ne _ distinct]
      · exact alive
      · exact atHead
      · exact pending
  case done => exact tracks.done
  case replays => exact fun _ member => by cases member
  case record =>
    intro stalled
    rw [show _ = lsq.stalled from rfl, clear] at stalled
    cases stalled
  case clear => exact fun _ => rfl

end

end Tracks

theorem LoadsTaken.record_cases
    (rings : Rings params lsq queue) (taken : LoadsTaken params squashedNum lsq queue next kept)
    (inside : i < queue.loads.length) (fromHead : queue.loadHead ≤ i)
    (idx : lsq.stallingLoadIdx = i % params.lqEntries) :
    (kept ≤ i ∧ next.stalled = false) ∨ (i < kept ∧ SameRecord lsq next) := by
  rcases Nat.lt_or_ge i kept with stays | gone
  · have apart : ∀ j, kept ≤ j → j < queue.loads.length →
        j % params.lqEntries ≠ lsq.stallingLoadIdx := by
      intro j after inside'
      have length : (queue.loads.map some).length = queue.loads.length := List.length_map _
      rw [idx]
      refine rings.loadRing.slot_ne ?_ ?_ ?_ ?_ ?_ <;> omega
    obtain ⟨stalled, isn, idx⟩ := taken.spared apart
    exact .inr ⟨stays, stalled, isn, idx⟩
  · exact .inl ⟨gone, taken.cleared i gone inside idx.symm⟩

/-- What a squash does to the loads in the queue and to the record. -/
structure SquashEffect
    (params : Params) (squashedNum : Nat) (lsq : LSQUnit) (queue : Queue) (next : LSQUnit)
    (kept kept' : Nat) : Prop where
  fromHead : queue.loadHead ≤ kept
  older : ∀ i (inside : i < queue.loads.length), queue.loadHead ≤ i → i < kept →
    queue.loads[i] ≤ squashedNum
  younger : ∀ i (inside : i < queue.loads.length), kept ≤ i → squashedNum < queue.loads[i]
  stores : ∀ k (inside : k < queue.stores.length), kept' ≤ k → squashedNum < queue.stores[k].seqNum
  insts : ∀ i (inside : i < queue.loads.length), queue.loadHead ≤ i → i < kept →
    next.insts queue.loads[i] = lsq.insts queue.loads[i]
  instsToReplay : next.instsToReplay =
    lsq.instsToReplay.filter fun seq => decide (seq ≤ squashedNum)
  record : ∀ i, i < queue.loads.length → queue.loadHead ≤ i →
    lsq.stallingLoadIdx = i % params.lqEntries →
      (kept ≤ i ∧ next.stalled = false) ∨ (i < kept ∧ SameRecord lsq next)
  unstalled : lsq.stalled = false → next.stalled = false
  sqIdx : next.sqIdx = lsq.sqIdx
  owed : next.owed = lsq.owed
  doneSeqNum : next.doneSeqNum = lsq.doneSeqNum

section TakenBack

variable
    (whole : Whole params lsq queue written)
    (taken : TakenBack params squashedNum lsq queue mid next kept kept')
include whole taken

theorem Whole.load_of_kept (inside : i < queue.loads.length) (stays : i < kept) :
    next.insts queue.loads[i] = lsq.insts queue.loads[i] := by
  rw [taken.stores.others, show _ = mid.insts queue.loads[i] from rfl, taken.loads.others]
  · intro j inside' after
    have order := whole.rings.load_lt inside' (show i < j by omega)
    omega
  · intro k inside' _
    exact (whole.disjoint _ (List.getElem_mem inside) _ (List.getElem_mem inside')).symm

/-- A store that stays in the queue is not touched by a squash. -/
theorem Whole.insts_of_kept (inside : k < queue.stores.length) (stays : k < kept') :
    next.insts queue.stores[k].seqNum = lsq.insts queue.stores[k].seqNum := by
  rw [taken.stores.others _ fun i inside' gone => ?_]
  · exact taken.loads.others _ fun i inside' _ =>
      whole.disjoint _ (List.getElem_mem inside') _ (List.getElem_mem inside)
  · exact whole.rings.seqNum_ne inside' inside (by omega)

theorem Whole.squash_effect : SquashEffect params squashedNum lsq queue next kept kept' := by
  have before := taken.loads.frame
  have after := taken.stores.frame
  constructor
  case fromHead => exact taken.loads.fromHead
  case older => exact taken.loads.older
  case younger => exact taken.loads.younger
  case stores => exact fun k inside gone => (taken.stores.younger k inside gone).1
  case insts => exact fun i inside _ stays => whole.load_of_kept taken inside stays
  case record =>
    intro i inside fromHead idx
    have filtered : Rings params
        { lsq with
          instsToReplay := lsq.instsToReplay.filter fun seq => decide (seq ≤ squashedNum) }
        queue := whole.rings.congr rfl rfl rfl rfl rfl rfl rfl rfl rfl rfl rfl
    rw [after]
    rcases taken.loads.record_cases filtered inside fromHead idx with gone | ⟨stays, same⟩
    · exact .inl gone
    · exact .inr ⟨stays, same.stalled, same.stallingStoreIsn, same.stallingLoadIdx⟩
  case unstalled =>
    intro clear
    rw [after]
    exact taken.loads.unstalled clear
  all_goals
    rw [after]
    dsimp only
    rw [before]

end TakenBack

namespace SquashEffect

variable {squashedNum kept kept' : Nat}

theorem stays
    (effect : SquashEffect params squashedNum lsq queue next kept kept')
    (tracks : Tracks params lsq queue written) (member : seq ∈ next.instsToReplay) :
    seq ∈ lsq.instsToReplay ∧ next.insts seq = lsq.insts seq ∧
      ∃ i, ∃ inside : i < queue.loads.length, queue.loadHead ≤ i ∧ i < kept ∧
        queue.loads[i] = seq := by
  rw [effect.instsToReplay, List.mem_filter, decide_eq_true_eq] at member
  obtain ⟨waits, older⟩ := member
  obtain ⟨-, -, i, inside, fromHead, rfl⟩ := tracks.replays seq waits
  have short : i < kept := by
    by_contra gone
    have younger := effect.younger i inside (Nat.not_lt.mp gone)
    omega
  exact ⟨waits, effect.insts i inside fromHead short, i, inside, fromHead, short, rfl⟩

/-- The loads that wait after the squash are the older ones of those that waited. -/
theorem waiting_eq
    (effect : SquashEffect params squashedNum lsq queue next kept kept')
    (tracks : Tracks params lsq queue written) :
    next.waiting = lsq.waiting.filter fun seq => decide (seq ≤ squashedNum) := by
  have same : next.waiting =
      next.instsToReplay.filter fun seq => !awaitsCommit (lsq.insts seq) := by
    refine List.filter_congr fun seq member => ?_
    rw [(effect.stays tracks member).2.1]
  rw [same, effect.instsToReplay, LSQUnit.waiting, List.filter_comm]

end SquashEffect

namespace Tracks

theorem squash
    (tracks : Tracks params lsq queue written)
    (effect : SquashEffect params squashedNum lsq queue next kept kept') :
    Tracks params next
      { queue with
        loads := queue.loads.take kept
        stores := queue.stores.take kept' } written := by
  have waiting := effect.waiting_eq tracks
  -- a store that is older than a load that stays, stays too
  have keeps : ∀ k (inside : k < queue.stores.length),
      queue.stores[k].seqNum ≤ squashedNum → k < kept' := by
    intro k inside older
    by_contra gone
    have younger := effect.stores k inside (Nat.not_lt.mp gone)
    omega
  constructor
  case loads =>
    intro i short fromHead
    dsimp only at short fromHead ⊢
    rw [List.length_take] at short
    have inside : i < queue.loads.length := by omega
    have stays : i < kept := by omega
    have same := effect.insts i inside fromHead stays
    have older := effect.older i inside fromHead stays
    obtain ⟨alive, atHead, pending, place⟩ := tracks.loads i inside fromHead
    rw [← same] at alive atHead pending
    rw [← effect.doneSeqNum] at pending
    rw [List.getElem_take]
    refine ⟨alive, atHead, pending, fun idx known => ?_⟩
    rw [effect.sqIdx] at known
    obtain ⟨here, upTo', found, sees⟩ := place idx known
    refine ⟨here, ?_, found, fun k inside' => ?_⟩
    · rw [List.length_take]
      by_contra beyond
      have last : here - 1 < queue.stores.length := by omega
      have seen := (sees (here - 1) last).mp (by omega)
      have stays := keeps (here - 1) last (by omega)
      omega
    · dsimp only at inside' ⊢
      rw [List.length_take] at inside'
      rw [List.getElem_take]
      exact sees k (by omega)
  case done =>
    intro k inside allowed
    dsimp only at inside allowed ⊢
    rw [List.length_take] at inside
    rw [List.getElem_take] at allowed ⊢
    rw [effect.doneSeqNum]
    exact tracks.done k (by omega) allowed
  case replays =>
    intro seq member
    obtain ⟨waits, same, i, inside, fromHead, stays, found⟩ := effect.stays tracks member
    obtain ⟨noData, open', -⟩ := tracks.replays seq waits
    rw [effect.owed, same]
    refine ⟨noData, open', i, ?_, fromHead, ?_⟩
    · rw [List.length_take]
      omega
    · dsimp only
      rw [List.getElem_take]
      exact found
  case record =>
    intro stalled
    have old : lsq.stalled = true := by
      by_contra clear
      rw [effect.unstalled (by simpa using clear)] at stalled
      cases stalled
    obtain ⟨i, k, record⟩ := tracks.record old
    rcases effect.record i record.load record.fromHead record.idx with ⟨-, cleared⟩ | ⟨stays, same⟩
    · rw [cleared] at stalled
      cases stalled
    · have older := effect.older i record.load record.fromHead stays
      refine ⟨i, k, record.move (fun inside => ⟨?_, record.fromHead, ?_, ?_⟩)
        (fun inside => ⟨record.unsent, ?_, ?_⟩) same fun other member => ?_⟩
      · rw [waiting, List.mem_filter, decide_eq_true_eq]
        exact ⟨record.waits, older⟩
      · rw [List.length_take]
        omega
      · dsimp only
        rw [List.getElem_take]
      · have before := record.older
        have stays' := keeps k inside (by rw [record.isn]; omega)
        rw [List.length_take]
        omega
      · dsimp only
        rw [List.getElem_take]
      · rw [waiting] at member
        exact List.mem_of_mem_filter member
  case clear =>
    intro clear
    rw [waiting, List.filter_eq_nil_iff]
    intro seq waits older
    rw [decide_eq_true_eq] at older
    by_cases old : lsq.stalled = true
    · obtain ⟨i, k, record⟩ := tracks.record old
      have oldest := record.oldest seq waits
      rcases effect.record i record.load record.fromHead record.idx with ⟨gone, -⟩ | ⟨-, same⟩
      · have younger := effect.younger i record.load gone
        omega
      · rw [same.stalled, old] at clear
        cases clear
    · rw [tracks.clear (by simpa using old)] at waits
      cases waits

end Tracks

end LsqUnit
end Dolma

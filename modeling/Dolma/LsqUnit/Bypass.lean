import Dolma.LsqUnit.Violator

/-!
# Stores that a load bypasses

In the default modes a load that passes a store without a known address becomes a data
inducer. The scan of the store queue takes an entry without data, or one of a strictly
ordered store, for such a store, and asserts that its address is not known. An entry gets
its data together with the address, so the first case is as it should be. A strictly ordered
store keeps its mark when it gets its address, and then the assertion fails.
-/

namespace Dolma
namespace LsqUnit

open Library Lsq LSQUnit

/-- The older stores that are not yet sent, from the youngest on. -/
def LSQUnit.olderUnsent (params : Params) (lsq : LSQUnit) (seq : Nat) : List SQEntry :=
  ((lsq.unsent params).filter fun entry => decide (entry.seqNum < seq)).reverse

/-- The store of an entry has a known address. -/
def LSQUnit.isKnown (lsq : LSQUnit) (entry : SQEntry) : Bool :=
  (lsq.insts entry.seqNum).effAddrValid

/-- The store of an entry is strictly ordered and has a known address. -/
def LSQUnit.isOrderedAccess (lsq : LSQUnit) (entry : SQEntry) : Bool :=
  (lsq.insts entry.seqNum).strictlyOrdered && lsq.isKnown entry

/-- The store forwards to the load or makes it wait. -/
def LSQUnit.stops (lsq : LSQUnit) (request : LoadAccess) (entry : SQEntry) : Bool :=
  lsq.isKnown entry && !(lsq.insts entry.seqNum).strictlyOrdered &&
    !entry.isCacheMaintenance &&
    (overlap request (lsq.insts entry.seqNum).effAddr entry.size).isSome

/-- The stores that the load passes before one forwards to it or makes it wait. -/
def LSQUnit.bypasses
    (params : Params) (lsq : LSQUnit) (seq : Nat) (request : LoadAccess) : List SQEntry :=
  (lsq.olderUnsent params seq).takeWhile fun entry => !lsq.stops request entry

/-- The scan that a load makes. -/
def scanFor (params : Params) (lsq : LSQUnit) (seq : Nat) (request : LoadAccess) :
    Option ScanResult :=
  match lsq.sqIdx seq with
  | none => some ⟨false, none⟩
  | some idx => scan params lsq request params.sqEntries idx false

/-- The load looks for its data in the store queue. -/
def LSQUnit.scans (lsq : LSQUnit) (seq : Nat) (request : LoadAccess) : Bool :=
  !request.isMmappedIpr &&
    (!request.strictlyOrdered ||
      (lsq.lqIdx seq == lsq.loadHead && (lsq.insts seq).status .atCommit))

/-- Loads that bypass stores are marked. -/
structure MarksBypasses
    (params : Params) (lsq : LSQUnit) (seq : Nat) (request : LoadAccess) : Prop where
  asserts : (scanFor params lsq seq request).isSome = true
  /-- A load that the cache accepts is marked if and only if it passes a store without a
  known address. -/
  marks : ∀ next, step params lsq (.executeLoad seq (.access request .accepted)) = some next →
    ((next.insts seq).status .dataInducer = true ↔
      (lsq.insts seq).status .dataInducer = true ∨
        ∃ entry ∈ lsq.bypasses params seq request, lsq.isKnown entry = false)

/-- A load knows the stores before it. Younger stores are not committed before it is
executed. -/
structure View (params : Params) (lsq : LSQUnit) (queue : Queue) (written seq : Nat) : Prop where
  pending : (lsq.insts seq).isExecuted = false → lsq.doneSeqNum < seq
  place : ∃ place, place ≤ queue.stores.length ∧
    (∀ k (inside : k < queue.stores.length), k < place ↔ queue.stores[k].seqNum < seq) ∧
    (lsq.sqIdx seq = some (place % params.sqEntries) ∨ lsq.sqIdx seq = none ∧ place ≤ written)

/-- Loads know the stores before them, and entries have data once the address is known. -/
structure Sighted (params : Params) (lsq : LSQUnit) (queue : Queue) (written : Nat) : Prop where
  loads : ∀ i (inside : i < queue.loads.length), queue.loadHead ≤ i →
    View params lsq queue written queue.loads[i]
  done : ∀ entry ∈ queue.stores, entry.canWB = true → entry.seqNum ≤ lsq.doneSeqNum
  filled : ∀ entry ∈ queue.stores, entry.size = 0 ↔ lsq.isKnown entry = false

variable {params : Params} {lsq next : LSQUnit} {queue queue' : Queue}
  {written written' seq : Nat} {request : LoadAccess}

/-! ### Loads know the stores before them -/

theorem View.congr
    (view : View params lsq queue written seq)
    (seqNums : queue'.stores.map SQEntry.seqNum = queue.stores.map SQEntry.seqNum)
    (le : written ≤ written') (sqIdx : next.sqIdx seq = lsq.sqIdx seq)
    (pending : (next.insts seq).isExecuted = false → next.doneSeqNum < seq) :
    View params next queue' written' seq := by
  obtain ⟨-, place, upTo, older, idx⟩ := view
  have lengths := congrArg List.length seqNums
  rw [List.length_map, List.length_map] at lengths
  refine ⟨pending, place, lengths ▸ upTo, fun k inside => ?_, ?_⟩
  · obtain ⟨inside', same⟩ := getElem_of_map_eq seqNums inside
    rw [same]
    exact older k inside'
  · rw [sqIdx]
    exact idx.imp_right fun ⟨absent, before⟩ => ⟨absent, Nat.le_trans before le⟩

variable {idx i last place : Nat} {outcome : CacheOutcome}

namespace Sighted

theorem init : Sighted params {} {} 0 where
  loads := fun _ inside => absurd inside (Nat.not_lt_zero _)
  done := fun _ member => absurd member List.not_mem_nil
  filled := fun _ member => absurd member List.not_mem_nil

section

variable (sighted : Sighted params lsq queue written)
include sighted

/-- Only instructions change. No load loses its execution, and no store its address. -/
theorem insts
    (sqIdx : next.sqIdx = lsq.sqIdx) (doneSeqNum : next.doneSeqNum = lsq.doneSeqNum)
    (executed : ∀ load ∈ queue.loads, (next.insts load).isExecuted = false →
      (lsq.insts load).isExecuted = false)
    (known : ∀ entry ∈ queue.stores, next.isKnown entry = lsq.isKnown entry) :
    Sighted params next queue written where
  loads := by
    intro i inside fromHead
    have view := sighted.loads i inside fromHead
    refine view.congr rfl (Nat.le_refl _) (by rw [sqIdx]) fun open' => ?_
    rw [doneSeqNum]
    exact view.pending (executed _ (List.getElem_mem inside) open')
  done := by
    rw [doneSeqNum]
    exact sighted.done
  filled := by
    intro entry member
    rw [known entry member]
    exact sighted.filled entry member

theorem setStatus (seq : Nat) (executes : flag = .executed → value = true) :
    Sighted params (lsq.modify seq fun inst => inst.setStatus flag value) queue written := by
  refine sighted.insts rfl rfl (fun load _ open' => ?_) fun entry _ => ?_
  · by_cases same : load = seq
    · rw [same, modify_insts_self] at open'
      rw [same]
      by_cases other : flag = .executed
      · rw [other, executes other] at open'
        cases open'
      · have distinct : Status.executed ≠ flag := fun equal => other equal.symm
        simpa [DynInst.isExecuted, distinct] using open'
    · rwa [LSQUnit.modify_insts_of_ne _ same] at open'
  · unfold LSQUnit.isKnown
    by_cases same : entry.seqNum = seq
    · rw [same, modify_insts_self]
      rfl
    · rw [LSQUnit.modify_insts_of_ne _ same]

theorem insertLoad
    (whole : Whole params lsq queue written) (fresh : lsq.lastSeq < seq)
    (uncommitted : lsq.doneSeqNum < seq) (inserted : insertLoad params lsq seq = some next) :
    Sighted params next { queue with loads := queue.loads ++ [seq] } written := by
  rw [LsqUnit.insertLoad, Option.ite_none_left_eq_some, Option.some.injEq] at inserted
  obtain ⟨-, rfl⟩ := inserted
  have loadBefore : ∀ load ∈ queue.loads, load ≠ seq := fun load member =>
    Nat.ne_of_lt (Nat.lt_of_le_of_lt (whole.rings.loadBound load member) fresh)
  have storeBefore : ∀ entry ∈ queue.stores, entry.seqNum < seq := fun entry member =>
    Nat.lt_of_le_of_lt (whole.rings.storeBound entry member) fresh
  refine ⟨?_, sighted.done, fun entry member => ?_⟩
  · refine forall_append (fun i load => queue.loadHead ≤ i → View _ _ _ _ load)
      (fun i inside fromHead => ?_) fun _ => ⟨fun _ => uncommitted, ?_⟩
    · have distinct := loadBefore _ (List.getElem_mem inside)
      have view := sighted.loads i inside fromHead
      refine view.congr rfl (Nat.le_refl _) (Function.update_of_ne distinct _ _) ?_
      intro open'
      refine view.pending ?_
      dsimp only at open'
      rwa [Function.update_of_ne distinct] at open'
    · refine ⟨queue.stores.length, Nat.le_refl _, fun k inside => ?_, ?_⟩
      · exact iff_of_true inside (storeBefore _ (List.getElem_mem inside))
      · have ring := whole.rings.storeRing
        have count := ring.count_eq
        have sent := whole.writeback.head_le
        dsimp only
        rw [Function.update_self]
        by_cases empty : lsq.stores = 0
        · rw [if_pos empty]
          exact .inr ⟨rfl, by omega⟩
        · rw [if_neg empty, ring.tail_eq]
          exact .inl rfl
  · have distinct := Nat.ne_of_lt (storeBefore entry member)
    unfold LSQUnit.isKnown
    dsimp only
    rw [Function.update_of_ne distinct]
    exact sighted.filled entry member

theorem insertStore
    (whole : Whole params lsq queue written) (fresh : lsq.lastSeq < seq)
    (inserted : insertStore params lsq seq false = some next) :
    Sighted params next { queue with stores := queue.stores ++ [{ inst := some seq }] }
      written := by
  rw [LsqUnit.insertStore, Option.ite_none_left_eq_some, Option.some.injEq] at inserted
  obtain ⟨-, rfl⟩ := inserted
  refine ⟨fun i inside fromHead => ?_, fun entry member allowed => ?_, fun entry member => ?_⟩
  · obtain ⟨pending, place, upTo, older, idx⟩ := sighted.loads i inside fromHead
    have before : queue.loads[i] < seq :=
      Nat.lt_of_le_of_lt (whole.rings.loadBound _ (List.getElem_mem inside)) fresh
    have distinct := Nat.ne_of_lt before
    refine ⟨fun open' => pending ?_, place, ?_, ?_, ?_⟩
    · dsimp only at open'
      rwa [Function.update_of_ne distinct] at open'
    · rw [List.length_append]
      omega
    · refine forall_append (fun k (entry : LsqUnit.SQEntry) =>
        k < place ↔ entry.seqNum < queue.loads[i]) older ?_
      exact iff_of_false (Nat.not_lt.mpr upTo) (Nat.not_lt.mpr (Nat.le_of_lt before))
    · dsimp only
      rw [Function.update_of_ne distinct]
      exact idx
  · rcases List.mem_append.mp member with old | new
    · exact sighted.done entry old allowed
    · rw [List.mem_singleton.mp new] at allowed
      cases allowed
  · unfold LSQUnit.isKnown
    dsimp only
    rcases List.mem_append.mp member with old | new
    · have bound := whole.rings.storeBound entry old
      rw [Function.update_of_ne (Nat.ne_of_lt (Nat.lt_of_le_of_lt bound fresh))]
      exact sighted.filled entry old
    · rw [List.mem_singleton.mp new]
      change _ ↔ (Function.update lsq.insts seq _ seq).effAddrValid = false
      rw [Function.update_self]
      exact iff_of_true rfl rfl

theorem accessStore
    {request : StoreAccess} (whole : Whole params lsq queue written)
    (inside : i < queue.stores.length) (writes : request.effSize ≠ 0)
    (effect : StoreEffect lsq queue.stores[i].seqNum idx request next) :
    Sighted params next
      { queue with stores := queue.stores.set i (queue.stores[i].setData request) } written := by
  have frame := effect.frame
  refine ⟨fun j inside' fromHead => ?_, fun entry member allowed => ?_, fun entry member => ?_⟩
  · have view := sighted.loads j inside' fromHead
    have distinct := whole.disjoint _ (List.getElem_mem inside') _ (List.getElem_mem inside)
    refine view.congr (map_set_eq _ inside rfl) (Nat.le_refl _) (by rw [frame]) fun open' => ?_
    rw [effect.others _ distinct] at open'
    rw [frame]
    exact view.pending open'
  · rw [frame]
    rcases List.mem_or_eq_of_mem_set member with old | rfl
    · exact sighted.done entry old allowed
    · exact sighted.done queue.stores[i] (List.getElem_mem inside) allowed
  · unfold LSQUnit.isKnown
    obtain ⟨j, inside', rfl⟩ := List.getElem_of_mem member
    dsimp only at inside' ⊢
    rw [List.length_set] at inside'
    rw [List.getElem_set]
    split
    case isTrue same =>
      refine iff_of_false writes ?_
      change ¬(next.insts queue.stores[i].seqNum).effAddrValid = false
      rw [effect.effAddrValid]
      exact Bool.noConfusion
    case isFalse distinct =>
      have order := whole.rings.seqNum_ne inside' inside (Ne.symm distinct)
      rw [effect.others _ order]
      exact sighted.filled _ (List.getElem_mem inside')

end

variable {youngestInst : Nat}

section

variable (sighted : Sighted params lsq queue written)
include sighted

/-- Commit reports how far it is; all loads up to there are executed. -/
theorem reported
    (whole : Whole params lsq queue written)
    (ordered : inOrderCore params lsq (.commitLoads youngestInst) = true) :
    Sighted params { lsq with doneSeqNum := max lsq.doneSeqNum youngestInst } queue
      written where
  loads := by
    intro i inside fromHead
    have view := sighted.loads i inside fromHead
    refine view.congr rfl (Nat.le_refl _) rfl fun open' => Nat.max_lt.mpr ⟨?_, ?_⟩
    · exact view.pending open'
    · exact whole.uncommitted_of_open inside fromHead ordered open'
  done := fun entry member allowed =>
    Nat.le_trans (sighted.done entry member allowed) (Nat.le_max_left _ _)
  filled := sighted.filled

theorem commitLoads (left : LoadsLeft params youngestInst lsq queue next head) :
    Sighted params next { queue with loadHead := head } written := by
  have frame := left.frame
  have insts : next.insts = lsq.insts := by rw [frame]
  have doneSeqNum : next.doneSeqNum = lsq.doneSeqNum := by rw [frame]
  refine ⟨fun i inside fromHead => ?_, ?_, ?_⟩
  · have view := sighted.loads i inside (Nat.le_trans left.after fromHead)
    refine view.congr rfl (Nat.le_refl _) (by rw [frame]) ?_
    rw [insts, doneSeqNum]
    exact view.pending
  · rw [doneSeqNum]
    exact sighted.done
  · unfold LSQUnit.isKnown
    rw [insts]
    exact sighted.filled

theorem commitStores
    (reported : youngestInst ≤ lsq.doneSeqNum)
    (marked : StoresMarked params youngestInst lsq queue queue.storeHead next) :
    Sighted params next
      { queue with stores := queue.stores.map (SQEntry.mark youngestInst) } written := by
  have frame := marked.frame
  have insts : next.insts = lsq.insts := by rw [frame]
  have doneSeqNum : next.doneSeqNum = lsq.doneSeqNum := by rw [frame]
  have seqNums := map_seqNum_mark youngestInst queue.stores
  refine ⟨fun i inside fromHead => ?_, fun entry member allowed => ?_, fun entry member => ?_⟩
  · have view := sighted.loads i inside fromHead
    refine view.congr seqNums (Nat.le_refl _) (by rw [frame]) ?_
    rw [insts, doneSeqNum]
    exact view.pending
  · obtain ⟨old, listed, rfl⟩ := List.mem_map.mp member
    rw [doneSeqNum, SQEntry.seqNum_mark]
    by_cases committed : old.seqNum ≤ youngestInst
    · exact Nat.le_trans committed reported
    · rw [SQEntry.mark, if_neg committed] at allowed
      exact sighted.done old listed allowed
  · obtain ⟨old, listed, rfl⟩ := List.mem_map.mp member
    unfold LSQUnit.isKnown
    rw [SQEntry.size_mark, SQEntry.seqNum_mark, insts]
    exact sighted.filled old listed

theorem squash
    (effect : SquashEffect params squashedNum lsq queue next kept kept')
    (stays : ∀ k (inside : k < queue.stores.length), k < kept' →
      next.insts queue.stores[k].seqNum = lsq.insts queue.stores[k].seqNum) :
    Sighted params next
      { queue with
        loads := queue.loads.take kept
        stores := queue.stores.take kept' } written := by
  refine ⟨fun i short fromHead => ?_, fun entry member allowed => ?_, fun entry member => ?_⟩
  · dsimp only at short fromHead ⊢
    rw [List.length_take] at short
    have inside : i < queue.loads.length := by omega
    have same := effect.insts i inside fromHead (by omega)
    have before := effect.older i inside fromHead (by omega)
    obtain ⟨pending, place, upTo, older, idx⟩ := sighted.loads i inside fromHead
    rw [List.getElem_take]
    refine ⟨?_, place, ?_, fun k inside' => ?_, ?_⟩
    · rw [same, effect.doneSeqNum]
      exact pending
    · -- the stores before the load are older than the squash
      rw [List.length_take]
      by_contra beyond
      have last : kept' < queue.stores.length := by omega
      have younger := effect.stores kept' last (Nat.le_refl _)
      have seen := (older kept' last).mp (by omega)
      omega
    · dsimp only at inside' ⊢
      rw [List.length_take] at inside'
      rw [List.getElem_take]
      exact older k (by omega)
    · rw [effect.sqIdx]
      exact idx
  · rw [effect.doneSeqNum]
    exact sighted.done entry (List.mem_of_mem_take member) allowed
  · obtain ⟨k, short, rfl⟩ := List.getElem_of_mem member
    dsimp only at short ⊢
    rw [List.length_take] at short
    rw [List.getElem_take]
    unfold LSQUnit.isKnown
    rw [stays k (by omega) (by omega)]
    exact sighted.filled _ (List.getElem_mem _)

theorem passed (passed : Passed lsq queue written next queue' written') :
    Sighted params next queue' written' := by
  have frame := passed.frame
  refine ⟨fun i inside fromHead => ?_, fun entry member allowed => ?_, fun entry member => ?_⟩
  · have inside' : i < queue.loads.length := by rwa [← passed.loads]
    have view := sighted.loads i inside' (passed.loadHead ▸ fromHead)
    simp only [passed.loads]
    refine view.congr passed.seqNums passed.le (by rw [frame.sqIdx]) ?_
    rw [frame.insts, frame.doneSeqNum]
    exact view.pending
  · obtain ⟨k, inside, rfl⟩ := List.getElem_of_mem member
    obtain ⟨inside', seqNum⟩ := getElem_of_map_eq passed.seqNums inside
    obtain ⟨_, canWB⟩ := getElem_of_map_eq passed.canWBs inside
    rw [frame.doneSeqNum, seqNum]
    exact sighted.done _ (List.getElem_mem inside') (canWB ▸ allowed)
  · obtain ⟨k, inside, rfl⟩ := List.getElem_of_mem member
    obtain ⟨inside', seqNum⟩ := getElem_of_map_eq passed.seqNums inside
    obtain ⟨_, size⟩ := getElem_of_map_eq passed.sizes inside
    unfold LSQUnit.isKnown
    rw [frame.insts, seqNum, size]
    exact sighted.filled _ (List.getElem_mem inside')

/-- Every event of an orderly core keeps the view of the loads. -/
theorem step
    {event : Event} (whole : Whole params lsq queue written)
    (ordered : inOrderCore params lsq event = true) (stepped : step params lsq event = some next) :
    ∃ queue' written', Whole params next queue' written' ∧ Sighted params next queue' written' := by
  obtain ⟨queue', written', whole', moves⟩ := whole.step_cases stepped
  refine ⟨queue', written', whole', ?_⟩
  cases moves with
  | insertLoad fresh inserted =>
      rw [inOrderCore, decide_eq_true_eq] at ordered
      exact sighted.insertLoad whole fresh ordered inserted
  | insertStore fresh inserted => exact sighted.insertStore whole fresh inserted
  | executeLoad inside _ unexecuted _ _ effect _ =>
      refine sighted.insts (by rw [effect.frame]) (by rw [effect.frame])
        (fun load _ open' => ?_) fun entry member => ?_
      · exact (effect.advances unexecuted load).isExecuted open'
      · have distinct := whole.disjoint _ (List.getElem_mem inside) entry member
        rw [LSQUnit.isKnown, LSQUnit.isKnown, effect.others _ distinct.symm]
  | accessStore inside proper effect => exact sighted.accessStore whole inside proper effect
  | @storeMoves i _ _ inside moves =>
      refine sighted.insts (by rw [moves.frame]) (by rw [moves.frame])
        (fun load member open' => ?_) fun entry _ => ?_
      · have distinct := whole.disjoint _ member _ (List.getElem_mem inside)
        rwa [moves.others _ distinct] at open'
      · unfold LSQUnit.isKnown
        by_cases same : entry.seqNum = queue.stores[i].seqNum
        · rw [same, moves.effAddrValid]
        · rw [moves.others _ same]
  | ignore => exact sighted.insts rfl rfl (fun _ _ open' => open') fun _ _ => rfl
  | @writeback seq _ =>
      have kept : Sighted params { lsq with owed := Function.update lsq.owed seq false } queue
          written := sighted.insts rfl rfl (fun _ _ open' => open') fun _ _ => rfl
      exact kept.setStatus seq fun _ => rfl
  | @status seq _ _ may _ =>
      refine sighted.setStatus seq ?_
      rintro rfl
      cases may
  | getMemDepViolator => exact sighted.insts rfl rfl (fun _ _ open' => open') fun _ _ => rfl
  | checkSnoop effect =>
      refine sighted.insts (by rw [effect.frame]) (by rw [effect.frame])
        (fun load _ open' => ?_) fun entry _ => (effect.stand _).effAddrValid
      rwa [(effect.stand load).isExecuted] at open'
  | commitLoads left => exact (sighted.reported whole ordered).commitLoads left
  | commitStores marked =>
      exact (sighted.reported whole ordered).commitStores (Nat.le_max_right _ _) marked
  | @replayStrictlyOrdered seq _ =>
      have kept : Sighted params { lsq with instsToReplay := [] } queue written :=
        sighted.insts rfl rfl (fun _ _ open' => open') fun _ _ => rfl
      refine kept.setStatus seq ?_
      intro same
      cases same
  | squash loadsTaken storesTaken =>
      have taken := TakenBack.mk loadsTaken storesTaken
      exact sighted.squash (whole.squash_effect taken)
        fun k inside stays => whole.insts_of_kept taken inside stays
  | settles passed => exact sighted.passed passed

end

end Sighted

/-- The loads of an orderly core know the stores before them. -/
theorem sighted_reached
    (reachable : Reachable (step params) (fun lsq event => inOrderCore params lsq event = true)
      {} lsq) :
    ∃ queue written, Whole params lsq queue written ∧ Sighted params lsq queue written := by
  induction reachable with
  | init => exact ⟨{}, 0, .init, .init⟩
  | step event _ ordered stepped ih =>
      obtain ⟨queue, written, whole, sighted⟩ := ih
      exact sighted.step whole ordered stepped

/-! ### The scan -/

/-- The scan ends at one store, fails there, or goes on. -/
theorem Whole.scan_succ
    (whole : Whole params lsq queue written) (sighted : Sighted params lsq queue written)
    (default : params.isDefault = true) (request : LoadAccess) (inside : last < queue.stores.length)
    (unsent : written ≤ last) (bound : Nat) (bypassed : Bool) :
    (lsq.stops request queue.stores[last] = true → ∃ found,
      scan params lsq request (bound + 1) ((last + 1) % params.sqEntries) bypassed =
        some ⟨bypassed, some found⟩) ∧
    (lsq.isOrderedAccess queue.stores[last] = true →
      scan params lsq request (bound + 1) ((last + 1) % params.sqEntries) bypassed = none) ∧
    (lsq.stops request queue.stores[last] = false →
      lsq.isOrderedAccess queue.stores[last] = false →
        scan params lsq request (bound + 1) ((last + 1) % params.sqEntries) bypassed =
          scan params lsq request bound (last % params.sqEntries)
            (bypassed || !lsq.isKnown queue.stores[last])) := by
  have ring := whole.rings.storeRing
  have room := ring.room
  have head := whole.writeback.head_le
  have filled := sighted.filled _ (List.getElem_mem inside)
  have waits := (whole.writeback.marks last inside).waiting unsent
  have further : ¬(last + 1) % params.sqEntries = lsq.storeWBIdx := by
    rw [whole.writeback.idx]
    exact fun same => Ring.mod_ne (by omega) (by omega) same.symm
  have slot : lsq.storeQueue (last % params.sqEntries) = queue.stores[last] :=
    ring.slot last inside (by omega)
  have mode : params.config.isDolma = true ∧ params.config.isDolmaConservative = false ∧
      params.config.isSTT = false := by
    simpa [Params.isDefault, and_assoc] using default
  obtain ⟨isDolma, isDolmaConservative, isSTT⟩ := mode
  rw [scan, if_neg further, Ring.prev_mod ring.positive]
  dsimp only
  rw [slot, whole.rings.inst_eq inside]
  dsimp only
  unfold LSQUnit.isOrderedAccess LSQUnit.stops
  unfold LSQUnit.isKnown at filled ⊢
  generalize queue.stores[last] = entry at *
  cases known : (lsq.insts entry.seqNum).effAddrValid with
  | false =>
      have empty : entry.size = 0 := filled.mpr known
      simp [empty, isDolma, isDolmaConservative, isSTT]
  | true =>
      have full : entry.size ≠ 0#8 := fun empty => by
        rw [filled.mp empty] at known
        cases known
      cases strict : (lsq.insts entry.seqNum).strictlyOrdered with
      | true => simp [isDolma, isDolmaConservative, isSTT]
      | false =>
          cases maintenance : entry.isCacheMaintenance with
          | true => simp [full]
          | false =>
              cases overlap request (lsq.insts entry.seqNum).effAddr entry.size with
              | none => simp [full]
              | some covers => cases covers <;> simp [full, waits]

/-- The older stores that are not yet sent, one more. -/
theorem reverse_drop_take_succ (inside : last < queue.stores.length) (unsent : written ≤ last) :
    ((queue.stores.take (last + 1)).drop written).reverse =
      queue.stores[last] :: ((queue.stores.take last).drop written).reverse := by
  rw [List.take_succ_eq_append_getElem inside, List.drop_append_of_le_length, List.reverse_append]
  · rfl
  · rw [List.length_take]
    omega

/-- The scan fails at a strictly ordered store with a known address. Otherwise it tells
whether a store without a known address was passed. -/
theorem Whole.scan_spec
    (whole : Whole params lsq queue written) (sighted : Sighted params lsq queue written)
    (default : params.isDefault = true) (request : LoadAccess) (bound : Nat) (bypassed : Bool)
    (after : written ≤ place) (upTo : place ≤ queue.stores.length)
    (enough : place ≤ written + bound)
    (passed : passes = ((queue.stores.take place).drop written).reverse.takeWhile
      fun entry => !lsq.stops request entry) :
    ((∃ entry ∈ passes, lsq.isOrderedAccess entry = true) →
      scan params lsq request bound (place % params.sqEntries) bypassed = none) ∧
    ((∀ entry ∈ passes, lsq.isOrderedAccess entry = false) →
      ∃ result, scan params lsq request bound (place % params.sqEntries) bypassed =
          some result ∧
        (result.bypassed = true ↔
          bypassed = true ∨ ∃ entry ∈ passes, lsq.isKnown entry = false)) := by
  subst passed
  induction bound generalizing place bypassed with
  | zero =>
      have none : (queue.stores.take place).drop written = [] := by
        rw [List.drop_eq_nil_iff, List.length_take]
        omega
      rw [none]
      refine ⟨?_, fun _ => ⟨_, rfl, by simp⟩⟩
      rintro ⟨_, member, _⟩
      exact absurd member List.not_mem_nil
  | succ bound ih =>
      rcases Nat.eq_or_lt_of_le after with rfl | later
      · have none : (queue.stores.take written).drop written = [] := by
          rw [List.drop_eq_nil_iff, List.length_take]
          omega
        rw [none, scan, if_pos whole.writeback.idx.symm]
        refine ⟨?_, fun _ => ⟨_, rfl, by simp⟩⟩
        rintro ⟨_, member, _⟩
        exact absurd member List.not_mem_nil
      · obtain ⟨last, rfl⟩ : ∃ last, place = last + 1 := ⟨place - 1, by omega⟩
        have inside : last < queue.stores.length := upTo
        obtain ⟨ends, fails, goesOn⟩ := whole.scan_succ sighted default request
          inside (by omega) bound bypassed
        rw [reverse_drop_take_succ inside (by omega), List.takeWhile_cons]
        cases stops : lsq.stops request queue.stores[last] with
        | true =>
            obtain ⟨found, ended⟩ := ends stops
            rw [ended]
            refine ⟨?_, fun _ => ⟨_, rfl, by simp⟩⟩
            rintro ⟨_, member, _⟩
            exact absurd member List.not_mem_nil
        | false =>
            rw [Bool.not_false, if_pos rfl]
            cases strict : lsq.isOrderedAccess queue.stores[last] with
            | true =>
                refine ⟨fun _ => fails strict, fun plain => ?_⟩
                rw [plain _ List.mem_cons_self] at strict
                cases strict
            | false =>
                obtain ⟨below, rest⟩ :=
                  @ih last (bypassed || !lsq.isKnown queue.stores[last]) (by omega) (by omega)
                    (by omega)
                rw [goesOn stops strict]
                refine ⟨?_, fun plain => ?_⟩
                · rintro ⟨entry, member, found⟩
                  refine below ⟨entry, (List.mem_cons.mp member).resolve_left ?_, found⟩
                  intro same
                  rw [same, strict] at found
                  cases found
                · obtain ⟨result, ended, marked⟩ :=
                    rest fun entry member => plain entry (List.mem_cons_of_mem _ member)
                  refine ⟨result, ended, marked.trans ?_⟩
                  rw [Bool.or_eq_true, Bool.not_eq_true', or_assoc]
                  simp only [List.exists_mem_cons_iff]

/-- The older stores that are not yet sent are those before the place of the load. -/
theorem Whole.olderUnsent_eq
    (whole : Whole params lsq queue written)
    (older : ∀ k (inside : k < queue.stores.length), k < place ↔ queue.stores[k].seqNum < seq) :
    lsq.olderUnsent params seq = ((queue.stores.take place).drop written).reverse := by
  rw [LSQUnit.olderUnsent, whole.unsent_eq]
  congr 1
  nth_rewrite 1 [← List.take_append_drop place queue.stores]
  rw [List.drop_append, List.filter_append]
  have before : ((queue.stores.take place).drop written).filter
      (fun entry => decide (entry.seqNum < seq)) = (queue.stores.take place).drop written := by
    rw [List.filter_eq_self]
    intro entry member
    obtain ⟨k, inside, rfl⟩ := List.getElem_of_mem (List.mem_of_mem_drop member)
    rw [List.length_take] at inside
    rw [List.getElem_take, decide_eq_true_eq, ← older k (by omega)]
    omega
  have after : ((queue.stores.drop place).drop
      (written - (queue.stores.take place).length)).filter
        (fun entry => decide (entry.seqNum < seq)) = [] := by
    rw [List.filter_eq_nil_iff]
    intro entry member
    obtain ⟨k, inside, rfl⟩ := List.getElem_of_mem (List.mem_of_mem_drop member)
    rw [List.length_drop] at inside
    rw [List.getElem_drop, decide_eq_true_eq, ← older (place + k) (by omega)]
    omega
  rw [before, after, List.append_nil]

theorem Whole.scanFor_spec
    (whole : Whole params lsq queue written) (sighted : Sighted params lsq queue written)
    (default : params.isDefault = true) (request : LoadAccess) (inside : i < queue.loads.length)
    (fromHead : queue.loadHead ≤ i) (open' : (lsq.insts queue.loads[i]).isExecuted = false) :
    ((∃ entry ∈ lsq.bypasses params queue.loads[i] request, lsq.isOrderedAccess entry = true) →
      scanFor params lsq queue.loads[i] request = none) ∧
    ((∀ entry ∈ lsq.bypasses params queue.loads[i] request,
        lsq.isOrderedAccess entry = false) →
      ∃ result, scanFor params lsq queue.loads[i] request = some result ∧
        (result.bypassed = true ↔
          ∃ entry ∈ lsq.bypasses params queue.loads[i] request, lsq.isKnown entry = false)) := by
  obtain ⟨pending, place, upTo, older, idx⟩ := sighted.loads i inside fromHead
  have listed := whole.olderUnsent_eq older
  rcases idx with known | ⟨absent, before⟩
  · have room := whole.rings.storeRing.room
    have head := whole.writeback.head_le
    have after : written ≤ place := by
      by_contra beyond
      have within : place < queue.stores.length := by
        have := whole.writeback.written_le
        omega
      have allowed := (whole.writeback.marks place within).sent (by omega)
      have committed := sighted.done _ (List.getElem_mem within) allowed
      have waits := pending open'
      exact Nat.lt_irrefl _ ((older place within).mpr (by omega))
    have scanned := whole.scan_spec sighted default request params.sqEntries false after upTo
      (by omega) rfl
    unfold LSQUnit.bypasses scanFor
    rw [listed, known]
    simpa using scanned
  · have none : (queue.stores.take place).drop written = [] := by
      rw [List.drop_eq_nil_iff, List.length_take]
      omega
    unfold LSQUnit.bypasses scanFor
    rw [listed, none, absent]
    simp

/-! ### The mark -/

/-- A load that waits for a store keeps its mark. -/
theorem stallLoad_dataInducer (ended : stallLoad lsq seq idx = some next) :
    (next.insts seq).status .dataInducer = (lsq.insts seq).status .dataInducer := by
  unfold stallLoad at ended
  obtain ⟨store, -, ended⟩ := Option.bind_eq_some_iff.mp ended
  dsimp only at ended
  split at ended
  case isTrue =>
    obtain ⟨older, -, ended⟩ := Option.bind_eq_some_iff.mp ended
    cases ended
    rw [modify_insts_self]
    cases older <;> rfl
  case isFalse =>
    cases ended
    rw [modify_insts_self]
    rfl

/-- A load that the cache accepts keeps its mark. -/
theorem accessMemory_dataInducer
    (ended : accessMemory lsq seq wasPartial idx .accepted = some next) :
    (next.insts seq).status .dataInducer = (lsq.insts seq).status .dataInducer := by
  unfold accessMemory at ended
  dsimp only at ended
  split at ended
  case isTrue =>
    cases ended
    rfl
  case isFalse =>
    split at ended
    case isTrue => exact stallLoad_dataInducer ended
    case isFalse =>
      cases ended
      rfl

/-- The mark of a load that the cache accepts. -/
theorem useScan_dataInducer (ended : useScan params lsq seq result .accepted = some next) :
    (next.insts seq).status .dataInducer =
      ((lsq.insts seq).status .dataInducer || result.bypassed) := by
  have marked : ((markBypass lsq seq result.bypassed).insts seq).status .dataInducer =
      ((lsq.insts seq).status .dataInducer || result.bypassed) := by
    unfold markBypass
    cases result.bypassed with
    | true =>
        rw [if_pos rfl, modify_insts_self, Bool.or_true]
        rfl
    | false => rw [if_neg Bool.false_ne_true, Bool.or_false]
  -- the marks of hits in the store queue are other ones
  have hit : ∀ flag, flag ≠ .dataInducer →
      (((markBypass lsq seq result.bypassed).modify seq fun load =>
        load.setStatus flag true).insts seq).status .dataInducer =
          ((lsq.insts seq).status .dataInducer || result.bypassed) := by
    intro flag other
    rw [modify_insts_self, ← marked]
    simp [other.symm]
  unfold useScan at ended
  dsimp only at ended
  split at ended
  case h_1 => exact (accessMemory_dataInducer ended).trans marked
  case h_2 idx covers _ =>
    obtain ⟨store, -, ended⟩ := Option.bind_eq_some_iff.mp ended
    cases covers
    · rw [if_neg Bool.false_ne_true] at ended
      split at ended
      case isTrue => exact (accessMemory_dataInducer ended).trans (hit _ (by decide))
      case isFalse => exact (stallLoad_dataInducer ended).trans marked
    · rw [if_pos rfl] at ended
      split at ended
      case isTrue => exact (accessMemory_dataInducer ended).trans (hit _ (by decide))
      case isFalse =>
        cases ended
        exact marked

/-- A load that looks for its data goes on with the result of its scan. -/
theorem read_scans
    (scans : lsq.scans seq request = true)
    (ended : read params lsq seq request outcome = some next) :
    ∃ result, scanFor params lsq seq request = some result ∧
      useScan params lsq seq result outcome = some next := by
  simp only [LSQUnit.scans, Bool.and_eq_true, Bool.not_eq_true', Bool.or_eq_true,
    beq_iff_eq] at scans
  obtain ⟨memory, allowed⟩ := scans
  unfold read at ended
  dsimp only at ended
  have late : ¬(request.strictlyOrdered = true ∧
      ¬(lsq.lqIdx seq = lsq.loadHead ∧ (lsq.insts seq).status .atCommit = true)) := by
    rintro ⟨strict, early⟩
    rcases allowed with plain | reached
    · rw [plain] at strict
      cases strict
    · exact early reached
  rw [Option.ite_none_left_eq_some, if_neg late,
    if_neg (by rw [memory]; exact Bool.false_ne_true)] at ended
  obtain ⟨-, ended⟩ := ended
  unfold scanFor
  cases place : lsq.sqIdx seq with
  | none =>
      rw [place] at ended
      exact ⟨_, rfl, ended⟩
  | some start =>
      rw [place] at ended
      dsimp only at ended
      rw [Option.bind_eq_bind, Option.bind_eq_some_iff] at ended
      exact ended

/-- The load has its address. -/
def LSQUnit.addressed (lsq : LSQUnit) (seq : Nat) (request : LoadAccess) : LSQUnit :=
  lsq.modify seq fun load =>
    { load with
      effAddr := request.effAddr
      effSize := request.effSize
      effAddrValid := true
      strictlyOrdered := request.strictlyOrdered }

/-- A load reads with its address and is checked afterwards. -/
theorem executeLoad_access
    (ended : executeLoad params lsq seq (.access request outcome) = some next) :
    ∃ mid, read params (lsq.addressed seq request) seq request outcome = some mid ∧
      CheckEffect mid seq next := by
  unfold executeLoad at ended
  dsimp only at ended
  rw [Option.ite_none_left_eq_some, Option.bind_eq_bind, Option.bind_eq_some_iff] at ended
  obtain ⟨-, mid, reads, ended⟩ := ended
  refine ⟨mid, reads, ?_⟩
  split at ended
  case isTrue =>
    cases ended
    exact ⟨rfl, fun _ _ => rfl, SameStand.refl _, rfl⟩
  case isFalse => exact checkViolations_effect _ ended

/-- The older stores do not depend on the load. -/
theorem insts_addressed (member : entry ∈ lsq.olderUnsent params seq) :
    (lsq.addressed seq request).insts entry.seqNum = lsq.insts entry.seqNum := by
  rw [LSQUnit.olderUnsent, List.mem_reverse, List.mem_filter, decide_eq_true_eq] at member
  exact lsq.modify_insts_of_ne (Nat.ne_of_lt member.2) _

/-- With its address the load passes the same stores. -/
theorem bypasses_addressed (lsq : LSQUnit) :
    (lsq.addressed seq request).bypasses params seq request = lsq.bypasses params seq request := by
  refine takeWhile_congr fun entry member => ?_
  have same : (lsq.addressed seq request).insts entry.seqNum = lsq.insts entry.seqNum :=
    insts_addressed member
  unfold LSQUnit.stops LSQUnit.isKnown
  rw [same]

theorem Sighted.addressed
    (sighted : Sighted params lsq queue written) (whole : Whole params lsq queue written)
    (inside : i < queue.loads.length) :
    Whole params (lsq.addressed queue.loads[i] request) queue written ∧
      Sighted params (lsq.addressed queue.loads[i] request) queue written := by
  refine ⟨whole.modify rfl, sighted.insts rfl rfl (fun load _ open' => ?_) fun entry member => ?_⟩
  · by_cases same : load = queue.loads[i]
    · rw [same, LSQUnit.addressed, modify_insts_self] at open'
      rw [same]
      exact open'
    · rwa [LSQUnit.addressed, LSQUnit.modify_insts_of_ne _ same] at open'
  · have distinct := whole.disjoint _ (List.getElem_mem inside) entry member
    rw [LSQUnit.isKnown, LSQUnit.addressed, LSQUnit.modify_insts_of_ne _ distinct.symm]
    rfl

/-- Loads that bypass stores are marked if and only if no strictly ordered store with a known
address is among the stores that the load passes. -/
theorem marksBypasses_iff
    (default : params.isDefault = true)
    (reachable : Reachable (step params) (fun lsq event => inOrderCore params lsq event = true)
      {} lsq)
    (may : enabled params lsq (.executeLoad seq (.access request .accepted)) = true)
    (scans : lsq.scans seq request = true) :
    MarksBypasses params lsq seq request ↔
      ∀ entry ∈ lsq.bypasses params seq request, lsq.isOrderedAccess entry = false := by
  obtain ⟨queue, written, whole, sighted⟩ := sighted_reached reachable
  have open' : (lsq.insts seq).isExecuted = false := by
    simp only [enabled, Bool.and_eq_true, Bool.not_eq_true'] at may
    exact may.1.1.2
  have present : lsq.hasLoad params seq = true := by
    simp only [enabled, Bool.and_eq_true] at may
    exact may.1.1.1
  obtain ⟨i, inside, fromHead, rfl⟩ := whole.exists_load present
  obtain ⟨fails, ends⟩ := whole.scanFor_spec sighted default request inside fromHead open'
  constructor
  · intro marks entry member
    by_contra strict
    have asserts := marks.asserts
    rw [fails ⟨entry, member, by simpa using strict⟩] at asserts
    cases asserts
  · intro plain
    obtain ⟨result, scanned, -⟩ := ends plain
    refine ⟨by rw [scanned]; rfl, fun next stepped => ?_⟩
    rw [step, if_pos may] at stepped
    obtain ⟨mid, reads, checked⟩ := executeLoad_access stepped
    obtain ⟨whole', sighted'⟩ := sighted.addressed whole inside
    have self : (lsq.addressed queue.loads[i] request).insts queue.loads[i] = _ :=
      lsq.modify_insts_self _ _
    have scans' : (lsq.addressed queue.loads[i] request).scans queue.loads[i] request = true := by
      rw [LSQUnit.scans, self]
      exact scans
    obtain ⟨-, ends'⟩ := whole'.scanFor_spec sighted' default request inside fromHead
      (by rw [self]; exact open')
    have listed : ∀ entry ∈ lsq.bypasses params queue.loads[i] request,
        entry ∈ lsq.olderUnsent params queue.loads[i] :=
      fun entry member => (List.takeWhile_sublist _).mem member
    rw [bypasses_addressed] at ends'
    obtain ⟨result', scanned', marked⟩ := ends' fun entry member => by
      rw [LSQUnit.isOrderedAccess, LSQUnit.isKnown, insts_addressed (listed entry member)]
      exact plain entry member
    obtain ⟨found, scanned'', used⟩ := read_scans scans' reads
    obtain rfl : found = result' := Option.some.inj (scanned''.symm.trans scanned')
    rw [checked.status, useScan_dataInducer used, Bool.or_eq_true, marked, self]
    refine or_congr_right (exists_congr fun entry => and_congr_right fun member => ?_)
    rw [LSQUnit.isKnown, insts_addressed (listed entry member)]
    rfl

/-- A load executes after a store that faults and one whose cache maintenance is known. -/
def faultingStore : List Event :=
  [.insertStore 1, .insertStore 2, .insertLoad 3, .executeStore 1 (.noAccess true true),
    .executeStore 2 (.access { effAddr := 64, size := 64, isCacheMaintenance := true })]

theorem marksBypasses_iff_faultingStore :
    ∃ lsq, Reachable (step twoEach) (fun lsq event => inOrderCore twoEach lsq event = true) {}
        lsq ∧
      (enabled twoEach lsq (.executeLoad 3 (.access { effAddr := 64, size := 8 } .accepted)) =
          true ∧
        lsq.scans 3 { effAddr := 64, size := 8 } = true ∧
        ∀ entry ∈ lsq.bypasses twoEach 3 { effAddr := 64, size := 8 },
          lsq.isOrderedAccess entry = false) ∧
      MarksBypasses twoEach lsq 3 { effAddr := 64, size := 8 } := by
  refine Reachable.exists_and_of_replay faultingStore (by decide +kernel) ?_
  rintro lsq reached ⟨may, scans, plain⟩
  exact (marksBypasses_iff (by decide) reached may scans).mpr plain

/-- A strictly ordered store gets its address before a younger load executes. -/
def orderedStore : List Event :=
  [.insertStore 1, .insertLoad 2,
    .executeStore 1 (.access { effAddr := 4096, size := 8, strictlyOrdered := true })]

theorem not_marksBypasses_orderedStore :
    ∃ lsq, Reachable (step twoEach) (fun lsq event => inOrderCore twoEach lsq event = true) {}
        lsq ∧
      (enabled twoEach lsq (.executeLoad 2 (.access { effAddr := 64, size := 8 } .accepted)) =
          true ∧
        lsq.scans 2 { effAddr := 64, size := 8 } = true) ∧
      ¬MarksBypasses twoEach lsq 2 { effAddr := 64, size := 8 } := by
  refine Reachable.exists_imp_of_replay orderedStore
    (fun lsq => (enabled twoEach lsq
          (.executeLoad 2 (.access { effAddr := 64, size := 8 } .accepted)) = true ∧
        lsq.scans 2 { effAddr := 64, size := 8 } = true) ∧
      scanFor twoEach lsq 2 { effAddr := 64, size := 8 } = none) (by decide +kernel) ?_
  rintro lsq - ⟨may, failed⟩
  refine ⟨may, fun marks => ?_⟩
  have asserts := marks.asserts
  rw [failed] at asserts
  cases asserts

end LsqUnit
end Dolma

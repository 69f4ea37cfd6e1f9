import Dolma.LsqUnit.Stalls

/-!
# The record of waiting loads

In every run in which commit replays strictly ordered loads only while no record is set,
the record names the oldest waiting load, and the loads that wait are replayed together
with it. When commit replays a strictly ordered load while the record is set, the record
is left behind; it can then name a load that has left the queue.
-/

namespace Dolma
namespace LsqUnit

open Library LSQUnit

/-- Commit has a strictly ordered load replayed only while no load waits for a store. -/
def replaysUnstalled (lsq : LSQUnit) : Event → Bool
  | .replayStrictlyOrdered _ => !lsq.stalled
  | _ => true

/-- The record is set. It names the oldest load that waits, and an older store that is not
yet sent. -/
structure Recorded (params : Params) (lsq : LSQUnit) : Prop where
  stalled : lsq.stalled = true
  oldest : ∃ oldest ∈ lsq.waiting, lsq.loadQueue lsq.stallingLoadIdx = some oldest ∧
    (lsq.insts oldest).isSquashed = false ∧ (∀ other ∈ lsq.waiting, oldest ≤ other) ∧
    lsq.stallingStoreIsn < oldest
  unsent : lsq.hasUnsent params lsq.stallingStoreIsn = true

/-- No load that waits for a store is forgotten. -/
structure NoneForgotten
    (params : Params) (permitted : LSQUnit → Event → Prop) (lsq : LSQUnit) : Prop where
  recorded : ∀ load ∈ lsq.waiting, (lsq.insts load).isSquashed = false → Recorded params lsq
  /-- Once the recorded store is sent or completed, all loads that waited are replayed. -/
  replayed : ∀ event next, permitted lsq event → step params lsq event = some next →
    lsq.stalled = true → next.hasUnsent params lsq.stallingStoreIsn = false →
      ∀ load ∈ lsq.waiting, load ∉ next.instsToReplay
  squashes : ∀ squashedNum, (squash params lsq squashedNum).isSome = true

variable {params : Params} {lsq next : LSQUnit} {queue queue' : Queue}
  {written written' seq : Nat}

/-- A squash that spares the recorded store ends. -/
theorem Rings.isSome_squashStores
    (squashedNum bound : Nat) (rings : Rings params lsq queue)
    (spared : lsq.stalled = true → lsq.stallingStoreIsn ≤ squashedNum) :
    (LsqUnit.squashStores params squashedNum bound (Ring.prev params.sqEntries lsq.storeTail)
      lsq).isSome = true := by
  induction bound generalizing lsq queue with
  | zero => rfl
  | succ bound ih =>
      have below := rings.storeRing.first_le
      have count := rings.storeRing.count_eq
      unfold LsqUnit.squashStores
      by_cases empty : lsq.stores = 0
      · rw [if_pos empty]
        rfl
      · have nonempty : queue.storeHead < queue.stores.length := by omega
        have last := rings.storeRing.prev_tail (by omega)
        have final : queue.stores.length - 1 < queue.stores.length := by omega
        have slot := rings.storeRing.slot _ final (by omega)
        rw [← last] at slot
        rw [if_neg empty, slot, rings.inst_eq final]
        dsimp only
        split
        case isTrue younger =>
          have other : ¬(lsq.stalled = true ∧
              queue.stores[queue.stores.length - 1].seqNum = lsq.stallingStoreIsn) := by
            rintro ⟨stalled, same⟩
            have older := spared stalled
            omega
          rw [if_neg other]
          exact ih (rings.squashStore nonempty _) spared
        case isFalse => rfl

namespace Tracks

theorem init : Tracks params {} {} 0 where
  loads _ inside := absurd inside (Nat.not_lt_zero _)
  done _ inside := absurd inside (Nat.not_lt_zero _)
  replays _ member := by cases member
  record stalled := by cases stalled
  clear _ := rfl

theorem isSome_squash
    (tracks : Tracks params lsq queue written) (whole : Whole params lsq queue written)
    (squashedNum : Nat) :
    (LsqUnit.squash params lsq squashedNum).isSome = true := by
  have loadRoom := whole.rings.loadRing.room
  rw [List.length_map] at loadRoom
  have filtered : Whole params
      { lsq with
        instsToReplay := lsq.instsToReplay.filter fun seq => decide (seq ≤ squashedNum) }
      queue written := whole.quiet rfl fun _ _ => rfl
  obtain ⟨mid, kept, ended, taken⟩ :=
    filtered.rings.squashLoads squashedNum params.lqEntries (by omega)
  have middle : Whole params
      { mid with
        memDepViolator := mid.memDepViolator.filter fun seq => decide (seq ≤ squashedNum) }
      { queue with loads := queue.loads.take kept } written :=
    (filtered.squashLoads taken).quiet rfl fun _ _ => rfl
  rw [LsqUnit.squash, Option.bind_eq_bind]
  dsimp only at ended ⊢
  rw [ended, Option.bind_some]
  refine middle.rings.isSome_squashStores squashedNum _ fun stalled => ?_
  have old : lsq.stalled = true := by
    by_contra clear
    have unstalled : mid.stalled = false := taken.unstalled (by simpa using clear)
    rw [show _ = mid.stalled from rfl, unstalled] at stalled
    cases stalled
  obtain ⟨i, k, record⟩ := tracks.record old
  rcases taken.record_cases filtered.rings record.load record.fromHead record.idx with
    ⟨-, cleared⟩ | ⟨stays, same⟩
  · rw [show _ = mid.stalled from rfl, cleared] at stalled
    cases stalled
  · -- the store is older than the load, which is not squashed
    have older := taken.older i record.load record.fromHead stays
    have before := record.older
    have isn : mid.stallingStoreIsn = lsq.stallingStoreIsn := same.stallingStoreIsn
    dsimp only
    omega

end Tracks

/-- The store of the record is still not sent, or the loads that waited wait no more. -/
def Serves (params : Params) (lsq next : LSQUnit) : Prop :=
  lsq.stalled = true → next.hasUnsent params lsq.stallingStoreIsn = true ∨
    ∀ load ∈ lsq.waiting, load ∉ next.instsToReplay

theorem Record.hasUnsent
    (record : Record params lsq queue written i k) (whole : Whole params next queue' written')
    (unsent : written' ≤ k)
    (store : ∀ inside : k < queue.stores.length, ∃ inside' : k < queue'.stores.length,
      queue'.stores[k].seqNum = queue.stores[k].seqNum) :
    next.hasUnsent params lsq.stallingStoreIsn = true := by
  obtain ⟨inside', same⟩ := store record.store
  exact (whole.hasUnsent_iff _).mpr ⟨k, inside', unsent, same.trans record.isn⟩

namespace Tracks

section

variable (tracks : Tracks params lsq queue written)
include tracks

theorem serves_of_stores
    (whole : Whole params next queue' written)
    (stores : queue.stores.map SQEntry.seqNum <+: queue'.stores.map SQEntry.seqNum) :
    Serves params lsq next := by
  intro stalled
  obtain ⟨i, k, record⟩ := tracks.record stalled
  refine .inl (record.hasUnsent whole record.unsent fun inside => ?_)
  have longer := stores.length_le
  rw [List.length_map, List.length_map] at longer
  have same := stores.getElem (show k < (queue.stores.map SQEntry.seqNum).length by simpa)
  rw [List.getElem_map, List.getElem_map] at same
  exact ⟨by omega, same.symm⟩

theorem serves_of_passed
    (whole : Whole params next queue' written')
    (passed : Passed lsq queue written next queue' written') :
    Serves params lsq next := by
  intro stalled
  obtain ⟨i, k, record⟩ := tracks.record stalled
  rcases passed.record with ⟨-, -, -, apart⟩ | ⟨-, empty⟩
  · refine .inl (record.hasUnsent whole ?_ fun inside => ?_)
    · by_contra before
      exact apart stalled k record.store record.unsent (Nat.not_le.mp before) record.isn
    · obtain ⟨inside', same⟩ := getElem_of_map_eq passed.seqNums.symm inside
      exact ⟨inside', same.symm⟩
  · refine .inr fun load _ member => ?_
    rw [empty] at member
    cases member

/-- The recorded store is squashed only with the loads. -/
theorem serves_of_squash
    (effect : SquashEffect params squashedNum lsq queue next kept kept')
    (whole : Whole params next
      { queue with
        loads := queue.loads.take kept
        stores := queue.stores.take kept' } written) :
    Serves params lsq next := by
  intro stalled
  obtain ⟨i, k, record⟩ := tracks.record stalled
  rcases Nat.lt_or_ge i kept with stays | gone
  · have older := effect.older i record.load record.fromHead stays
    refine .inl (record.hasUnsent whole record.unsent fun inside => ⟨?_, ?_⟩)
    · rw [List.length_take]
      by_contra beyond
      have younger := effect.stores k inside (by omega)
      have before := record.older
      rw [record.isn] at younger
      omega
    · dsimp only
      rw [List.getElem_take]
  · have younger := effect.younger i record.load gone
    refine .inr fun load waits member => ?_
    have oldest := record.oldest load waits
    rw [effect.instsToReplay, List.mem_filter, decide_eq_true_eq] at member
    omega

/-- Every permitted event keeps the record in agreement with the loads that wait. -/
theorem step
    (whole : Whole params lsq queue written) (ordered : inOrderCore params lsq event = true)
    (unstalled : replaysUnstalled lsq event = true) (stepped : step params lsq event = some next) :
    ∃ queue' written', Whole params next queue' written' ∧
      Tracks params next queue' written' ∧ Serves params lsq next := by
  obtain ⟨queue', written', whole', moves⟩ := whole.step_cases stepped
  refine ⟨queue', written', whole', ?_⟩
  cases moves with
  | insertLoad fresh inserted =>
      rw [inOrderCore, decide_eq_true_eq] at ordered
      exact ⟨tracks.insertLoad whole fresh ordered inserted,
        tracks.serves_of_stores whole' List.prefix_rfl⟩
  | insertStore fresh inserted =>
      refine ⟨tracks.insertStore whole fresh inserted, tracks.serves_of_stores whole' ?_⟩
      rw [List.map_append]
      exact List.prefix_append _ _
  | executeLoad inside fromHead unexecuted noData absent effect outcome =>
      exact ⟨tracks.executeLoad whole inside fromHead rfl unexecuted noData absent effect
        outcome, tracks.serves_of_stores whole' List.prefix_rfl⟩
  | @accessStore i _ request _ inside _ effect =>
      refine ⟨tracks.accessStore whole inside rfl effect, tracks.serves_of_stores whole' ?_⟩
      have same : (queue.stores.set i (queue.stores[i].setData request)).map SQEntry.seqNum =
          queue.stores.map SQEntry.seqNum := map_set_eq _ inside rfl
      exact ⟨[], (List.append_nil _).trans same.symm⟩
  | storeMoves inside moves =>
      exact ⟨tracks.storeMoves whole inside rfl moves,
        tracks.serves_of_stores whole' List.prefix_rfl⟩
  | ignore owed =>
      exact ⟨tracks.writeback owed rfl (fun _ _ => rfl) (SameStand.refl _).advances,
        tracks.serves_of_stores whole' List.prefix_rfl⟩
  | writeback owed =>
      refine ⟨tracks.writeback owed rfl
        (fun other distinct => LSQUnit.modify_insts_of_ne _ distinct _) ?_,
        tracks.serves_of_stores whole' List.prefix_rfl⟩
      rw [modify_insts_self]
      refine ⟨DynInst.isSquashed_setStatus _ (by decide) true, rfl, fun open' => ?_⟩
      cases open'
  | @status _ _ value may other =>
      refine ⟨tracks.touches (Touches.modify lsq ?_),
        tracks.serves_of_stores whole' List.prefix_rfl⟩
      refine SameStand.setStatus _ value other ?_ ?_
      · rintro rfl
        cases may
      · rintro rfl
        cases may
  | getMemDepViolator =>
      refine ⟨?_, tracks.serves_of_stores whole' List.prefix_rfl⟩
      exact tracks.same (.refl _) (fun _ _ => (SameStand.refl _).advances)
        (fun _ _ => ⟨SameStand.refl _, rfl⟩) ⟨rfl, rfl, rfl, rfl⟩ tracks.done rfl rfl
        fun _ _ _ unsent _ => unsent
  | checkSnoop effect =>
      refine ⟨?_, tracks.serves_of_stores whole' List.prefix_rfl⟩
      have frame := effect.frame
      have goesOn : GoesOn lsq next := by
        rw [frame]
        exact ⟨rfl, rfl, rfl, rfl⟩
      refine tracks.same (.refl _) (fun _ _ => (effect.stand _).advances)
        (fun _ _ => ⟨effect.stand _, by rw [frame]⟩) goesOn ?_ (by rw [frame]) (by rw [frame])
        fun _ _ _ unsent _ => unsent
      rw [frame]
      exact tracks.done
  | commitLoads left =>
      exact ⟨(tracks.reported whole ordered).commitLoads (Nat.le_max_right _ _) left,
        tracks.serves_of_stores whole' List.prefix_rfl⟩
  | @commitStores youngestInst _ marked =>
      refine ⟨(tracks.reported whole ordered).commitStores (Nat.le_max_right _ _) marked,
        tracks.serves_of_stores whole' ?_⟩
      exact ⟨[], (List.append_nil _).trans (map_seqNum_mark youngestInst _).symm⟩
  | replayStrictlyOrdered first =>
      rw [replaysUnstalled, Bool.not_eq_true'] at unstalled
      exact ⟨tracks.replayStrictlyOrdered whole unstalled first,
        fun _ => .inr fun _ _ member => by cases member⟩
  | squash loadsTaken storesTaken =>
      have effect := whole.squash_effect ⟨loadsTaken, storesTaken⟩
      exact ⟨tracks.squash effect, tracks.serves_of_squash effect whole'⟩
  | settles passed => exact ⟨tracks.passed passed, tracks.serves_of_passed whole' passed⟩

theorem recorded (whole : Whole params lsq queue written) (waits : seq ∈ lsq.waiting) :
    Recorded params lsq := by
  have stalled : lsq.stalled = true := by
    by_contra clear
    rw [tracks.clear (by simpa using clear)] at waits
    cases waits
  obtain ⟨i, k, record⟩ := tracks.record stalled
  have inside := record.load
  refine ⟨stalled, ⟨queue.loads[i], record.waits, ?_, ?_, record.oldest, record.older⟩, ?_⟩
  · rw [record.idx]
    exact whole.rings.loadQueue_eq record.load record.fromHead
  · exact (tracks.loads i record.load record.fromHead).alive
  · exact record.hasUnsent whole record.unsent fun inside => ⟨inside, rfl⟩

end

end Tracks

/-- The core keeps its order, and commit has a strictly ordered load replayed only while no
load waits for a store. -/
def clearReplays (params : Params) (lsq : LSQUnit) (event : Event) : Prop :=
  inOrderCore params lsq event = true ∧ replaysUnstalled lsq event = true

instance (params : Params) (lsq : LSQUnit) (event : Event) :
    Decidable (clearReplays params lsq event) :=
  inferInstanceAs (Decidable (_ ∧ _))

/-- No load that waits for a store is forgotten. -/
theorem reached_noneForgotten
    (params : Params) (lsq : LSQUnit)
    (reached : Reachable (step params) (clearReplays params) {} lsq) :
    NoneForgotten params (clearReplays params) lsq := by
  have tracked : ∃ queue written, Whole params lsq queue written ∧
      Tracks params lsq queue written := by
    induction reached with
    | init => exact ⟨_, _, Whole.init, Tracks.init⟩
    | step event _ permitted stepped ih =>
        obtain ⟨queue, written, whole, tracks⟩ := ih
        obtain ⟨queue', written', whole', tracks', -⟩ :=
          tracks.step whole permitted.1 permitted.2 stepped
        exact ⟨queue', written', whole', tracks'⟩
  obtain ⟨queue, written, whole, tracks⟩ := tracked
  constructor
  case recorded => exact fun load waits _ => tracks.recorded whole waits
  case replayed =>
    intro event next permitted stepped stalled sent
    obtain ⟨_, _, -, -, serves⟩ := tracks.step whole permitted.1 permitted.2 stepped
    rcases serves stalled with unsent | replayed
    · rw [sent] at unsent
      cases unsent
    · exact replayed
  case squashes => exact tracks.isSome_squash whole

/-- A unit of four loads and four stores with total store order. -/
def fourEach : Params where
  maxLQEntries := 4
  maxSQEntries := 4
  lqBound := by decide
  sqBound := by decide
  cacheStorePorts := 1
  needsTSO := true
  config := { mode := 1 }

/-- Loads 4 and 5 wait for store 2, and commit has load 1 replayed. Load 5 waits again, load
4 gets its data from store 3 and leaves. -/
def lostRecord : List Event :=
  [.insertLoad 1, .insertStore 2, .insertStore 3, .insertLoad 4, .insertLoad 5,
    .status 4 .controlRestricted true,
    .executeLoad 1 (.access { effAddr := 4096, size := 8, strictlyOrdered := true } .accepted),
    .executeStore 2 (.access { effAddr := 76, size := 8 }),
    .executeLoad 4 (.access { effAddr := 80, size := 8 } .accepted),
    .executeLoad 5 (.access { effAddr := 72, size := 8 } .accepted),
    .replayStrictlyOrdered 1,
    .executeLoad 5 (.access { effAddr := 72, size := 8 } .accepted),
    .executeLoad 4 .stalled,
    .executeStore 3 (.access { effAddr := 80, size := 8 }),
    .status 4 .controlRestricted false, .status 4 .dolmaStalled false,
    .executeLoad 4 (.access { effAddr := 80, size := 8 } .accepted),
    .writeback 4,
    .executeLoad 1 (.access { effAddr := 4096, size := 8, strictlyOrdered := true } .accepted),
    .writeback 1, .commitStores 4, .commitLoads 4]

/-- Load 5 waits, but the record names a slot without a load. -/
theorem not_noneForgotten_lostRecord :
    ∃ lsq, Reachable (step fourEach)
        (fun lsq event => inOrderCore fourEach lsq event = true) {} lsq ∧
      (5 ∈ lsq.waiting ∧ (lsq.insts 5).isSquashed = false ∧
        lsq.loadQueue lsq.stallingLoadIdx = none) ∧
      ¬NoneForgotten fourEach (fun lsq event => inOrderCore fourEach lsq event = true) lsq := by
  refine Reachable.exists_and_of_replay lostRecord (by decide +kernel) ?_
  rintro lsq - ⟨waits, alive, empty⟩ kept
  obtain ⟨_, -, named, -⟩ := (kept.recorded 5 waits alive).oldest
  rw [empty] at named
  cases named

/-- Two loads wait for a restricted store that has only a part of their data. The younger
one waits first, and its own access hides that it does. -/
def twoWaiting : List Event :=
  [.insertStore 1, .insertLoad 2, .insertLoad 3, .status 1 .controlRestricted true,
    .executeStore 1 (.access { effAddr := 76, size := 8 }),
    .executeLoad 3 (.access { effAddr := 72, size := 8 } .accepted),
    .executeLoad 2 (.access { effAddr := 80, size := 8 } .accepted)]

theorem reached_noneForgotten_twoWaiting :
    ∃ lsq, Reachable (step fourEach) (clearReplays fourEach) {} lsq ∧
      (lsq.waiting = [3, 2] ∧ lsq.loadQueue lsq.stallingLoadIdx = some 2) ∧
      NoneForgotten fourEach (clearReplays fourEach) lsq :=
  Reachable.exists_and_of_replay twoWaiting (by decide +kernel) fun lsq reached _ =>
    reached_noneForgotten fourEach lsq reached

end LsqUnit
end Dolma

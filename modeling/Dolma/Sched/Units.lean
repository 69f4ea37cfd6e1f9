import Dolma.Sched.Places

/-!
# Releases of functional units

Each busy unit has one outstanding release, queued for the next cycle or held by
a completion event, and the release is for the instruction that occupies the
unit. An instruction that is thrown out of its unit leaves its release behind,
so the invariant holds in runs without contention only.
-/

namespace Dolma
namespace Sched

open Library

/-- How many completion events will release a unit. -/
def pendingReleases (completions : List FUCompletion) (idx : Nat) : Nat :=
  completions.countP fun event => event.freeFU && event.fuIdx == idx

/-- The books of the functional units are right. -/
structure UnitsBooked (pool : FUPool) (completions : List FUCompletion) : Prop where
  releases : ∀ idx, pool.unitsToBeFreed.count idx + pendingReleases completions idx =
    if pool.unitBusy idx = 0 then 0 else 1
  owned : ∀ event ∈ completions, event.freeFU = true → pool.unitBusy event.fuIdx = event.inst
  queued : ∀ release ∈ pool.unitsToBeFreed.zip pool.releasedBy, pool.unitBusy release.1 = release.2
  recorded : pool.releasedBy.length = pool.unitsToBeFreed.length
  holds : pool.failed = false

variable {seq : Nat}

namespace UnitsBooked

variable {pool : FUPool} {completions : List FUCompletion}
variable {idx : Nat} {event : FUCompletion}

section

variable (booked : UnitsBooked pool completions)
include booked

/-- A unit with a queued release has no other release. -/
theorem busy_of_queued (queued : idx ∈ pool.unitsToBeFreed) :
    pool.unitBusy idx ≠ 0 ∧ pool.unitsToBeFreed.count idx = 1 ∧
      pendingReleases completions idx = 0 := by
  have releases := booked.releases idx
  have positive := List.count_pos_iff.mpr queued
  split at releases
  · omega
  · refine ⟨by assumption, ?_, ?_⟩ <;> omega

/-- A unit that a completion event will release is busy and has no other release. -/
theorem busy_of_pending (mem : event ∈ completions) (frees : event.freeFU = true) :
    pool.unitBusy event.fuIdx ≠ 0 ∧ pool.unitsToBeFreed.count event.fuIdx = 0 := by
  have releases := booked.releases event.fuIdx
  have positive : 0 < pendingReleases completions event.fuIdx :=
    List.countP_pos_iff.mpr ⟨event, mem, by simp [frees]⟩
  split at releases
  · omega
  · refine ⟨by assumption, ?_⟩
    omega

/-- Turning the queues of the pool changes nothing. -/
theorem turned (same : FUPool.Turned pool after) :
    UnitsBooked after completions where
  releases := by
    rw [same.unitsToBeFreed, same.unitBusy]
    exact booked.releases
  owned := by
    rw [same.unitBusy]
    exact booked.owned
  queued := by
    rw [same.unitBusy, same.unitsToBeFreed, same.releasedBy]
    exact booked.queued
  recorded := by
    rw [same.unitsToBeFreed, same.releasedBy]
    exact booked.recorded
  holds := same.failed.trans booked.holds

/-- Taking a free unit leaves the units that have a release alone. -/
theorem occupy_kept (seq : Nat) (free : pool.unitBusy idx = 0) :
    pool.unitsToBeFreed.count idx = 0 ∧ pendingReleases completions idx = 0 ∧
      (∀ event ∈ completions, event.freeFU = true →
        (pool.occupy idx seq).unitBusy event.fuIdx = event.inst) ∧
      ∀ release ∈ pool.unitsToBeFreed.zip pool.releasedBy,
        (pool.occupy idx seq).unitBusy release.1 = release.2 := by
  have none := booked.releases idx
  rw [if_pos free] at none
  refine ⟨by omega, by omega, ?_, ?_⟩
  · intro event mem frees
    have apart : event.fuIdx ≠ idx := by
      rintro rfl
      exact (booked.busy_of_pending mem frees).1 free
    simp only [FUPool.occupy, if_neg apart]
    exact booked.owned event mem frees
  · intro release mem
    have apart : release.1 ≠ idx := by
      rintro rfl
      exact (booked.busy_of_queued (List.of_mem_zip mem).1).1 free
    simp only [FUPool.occupy, if_neg apart]
    exact booked.queued release mem

/-- A free unit is taken and its release is queued at once. -/
theorem claim_queue
    (free : pool.unitBusy idx = 0) (nonzero : seq ≠ 0)
    (keep : ∀ event ∈ events, event.freeFU = false) :
    UnitsBooked ((pool.occupy idx seq).freeUnitNextCycle idx seq)
      (completions ++ events) := by
  obtain ⟨unqueued, unpending, owned, queued⟩ := booked.occupy_kept seq free
  have noneFreed : ∀ other, pendingReleases events other = 0 := by
    intro other
    refine List.countP_eq_zero.mpr fun event mem => ?_
    simp [keep event mem]
  have taken : (pool.occupy idx seq).unitBusy idx = seq := if_pos rfl
  constructor
  case releases =>
    intro other
    have before := booked.releases other
    have appended : pendingReleases (completions ++ events) other =
        pendingReleases completions other := by
      unfold pendingReleases at noneFreed ⊢
      rw [List.countP_append, noneFreed other, Nat.add_zero]
    rw [appended]
    simp only [FUPool.freeUnitNextCycle, FUPool.occupy, List.count_append,
      List.count_singleton, beq_iff_eq]
    by_cases same : other = idx
    · subst same
      simp [nonzero]
      omega
    · simp only [if_neg same, if_neg (Ne.symm same)]
      exact before
  case owned =>
    intro event mem frees
    rcases List.mem_append.mp mem with old | new
    · exact owned event old frees
    · rw [keep event new] at frees
      cases frees
  case queued =>
    intro release mem
    have lengths := booked.recorded
    change release ∈ (pool.unitsToBeFreed ++ [idx]).zip (pool.releasedBy ++ [seq]) at mem
    rw [List.zip_append lengths.symm, List.mem_append] at mem
    rcases mem with old | new
    · exact queued release old
    · obtain rfl : release = (idx, seq) := by simpa using new
      exact taken
  case recorded =>
    simp only [FUPool.freeUnitNextCycle, FUPool.occupy, List.length_append, booked.recorded,
      List.length_singleton]
  case holds =>
    simp only [FUPool.freeUnitNextCycle, taken]
    simp [FUPool.occupy, booked.holds, nonzero]

/-- A free unit is taken and a completion event will release it. -/
theorem claim_event (free : pool.unitBusy idx = 0) (nonzero : seq ≠ 0) :
    UnitsBooked (pool.occupy idx seq) (completions ++ [⟨seq, idx, true⟩]) := by
  obtain ⟨unqueued, unpending, owned, queued⟩ := booked.occupy_kept seq free
  constructor
  case releases =>
    intro other
    have before := booked.releases other
    unfold pendingReleases at before unpending ⊢
    rw [List.countP_append, List.countP_singleton]
    simp only [FUPool.occupy, Bool.true_and, beq_iff_eq]
    by_cases same : other = idx
    · subst same
      simp [nonzero]
      omega
    · simp only [if_neg same, if_neg (Ne.symm same)]
      exact before
  case owned =>
    intro event mem frees
    rcases List.mem_append.mp mem with old | new
    · exact owned event old frees
    · obtain rfl := List.mem_singleton.mp new
      exact if_pos rfl
  case queued => exact queued
  case recorded => exact booked.recorded
  case holds => exact booked.holds

/-- A completion event that fires leaves the books right. -/
theorem complete (mem : event ∈ completions) :
    UnitsBooked
      (if event.freeFU then pool.freeUnitNextCycle event.fuIdx event.inst else pool)
      (completions.erase event) := by
  have fewer : ∀ idx, pendingReleases (completions.erase event) idx +
      (if event.freeFU = true ∧ event.fuIdx = idx then 1 else 0) =
        pendingReleases completions idx := by
    intro idx
    unfold pendingReleases
    rw [(List.perm_cons_erase mem).countP_eq, List.countP_cons]
    simp only [Bool.and_eq_true, beq_iff_eq]
  cases frees : event.freeFU
  case false =>
    rw [frees] at fewer
    constructor
    case releases =>
      intro idx
      have before := booked.releases idx
      have same := fewer idx
      simp only [Bool.false_eq_true, false_and, if_false] at same ⊢
      omega
    case owned => exact fun other old => booked.owned other (List.mem_of_mem_erase old)
    case queued => exact booked.queued
    case recorded => exact booked.recorded
    case holds => exact booked.holds
  case true =>
    have busy := (booked.busy_of_pending mem frees).1
    have owned := booked.owned event mem frees
    constructor
    case releases =>
      intro idx
      have before := booked.releases idx
      have same := fewer idx
      rw [frees] at same
      simp only [true_and] at same
      simp only [if_true, FUPool.freeUnitNextCycle, List.count_append, List.count_singleton,
        beq_iff_eq]
      omega
    case owned =>
      exact fun other old => booked.owned other (List.mem_of_mem_erase old)
    case queued =>
      intro release queued
      have lengths := booked.recorded
      change release ∈ (pool.unitsToBeFreed ++ [event.fuIdx]).zip
        (pool.releasedBy ++ [event.inst]) at queued
      rw [List.zip_append lengths.symm, List.mem_append] at queued
      rcases queued with old | new
      · exact booked.queued release old
      · obtain rfl : release = (event.fuIdx, event.inst) := by simpa using new
        exact owned
    case recorded =>
      simp only [if_true, FUPool.freeUnitNextCycle, List.length_append, booked.recorded,
        List.length_singleton]
    case holds =>
      simp [FUPool.freeUnitNextCycle, booked.holds, busy]

end

/-- Freed units are empty. -/
theorem foldl_freeUnit
    (list : List Nat) (pool : FUPool) (distinct : list.Nodup)
    (busy : ∀ idx ∈ list, pool.unitBusy idx ≠ 0) :
    (list.foldl FUPool.freeUnit pool).failed = pool.failed ∧
      (list.foldl FUPool.freeUnit pool).unitBusy =
        fun idx => if idx ∈ list then 0 else pool.unitBusy idx := by
  induction list generalizing pool with
  | nil => simp
  | cons first rest ih =>
      obtain ⟨new, distinct⟩ := List.nodup_cons.mp distinct
      have busyNow := busy first List.mem_cons_self
      have still : ∀ idx ∈ rest, (pool.freeUnit first).unitBusy idx ≠ 0 := by
        intro idx mem
        have apart : idx ≠ first := fun same => new (same ▸ mem)
        simp only [FUPool.freeUnit, if_neg apart]
        exact busy idx (List.mem_cons_of_mem _ mem)
      obtain ⟨failed, freed⟩ := ih (pool.freeUnit first) distinct still
      rw [List.foldl_cons, failed, freed]
      refine ⟨by simp [FUPool.freeUnit, busyNow], ?_⟩
      funext idx
      by_cases same : idx = first
      · subst same
        simp [FUPool.freeUnit]
      · simp [FUPool.freeUnit, same]

/-- Freeing the queued units leaves the books right. -/
theorem processFreeUnits (booked : UnitsBooked pool completions) :
    UnitsBooked pool.processFreeUnits completions := by
  have distinct : pool.unitsToBeFreed.Nodup := by
    rw [List.nodup_iff_count_le_one]
    intro idx
    have releases := booked.releases idx
    split at releases <;> omega
  obtain ⟨failed, freed⟩ := foldl_freeUnit pool.unitsToBeFreed.reverse pool
    (List.nodup_reverse.mpr distinct)
    fun idx mem => (booked.busy_of_queued (List.mem_reverse.mp mem)).1
  have unitBusy : ∀ idx, pool.processFreeUnits.unitBusy idx =
      if idx ∈ pool.unitsToBeFreed then 0 else pool.unitBusy idx := by
    intro idx
    simpa [FUPool.processFreeUnits] using congrFun freed idx
  constructor
  case releases =>
    intro idx
    change 0 + pendingReleases completions idx = _
    by_cases queued : idx ∈ pool.unitsToBeFreed
    · have empty : pool.processFreeUnits.unitBusy idx = 0 := by
        rw [unitBusy, if_pos queued]
      rw [if_pos empty, (booked.busy_of_queued queued).2.2]
    · have same : pool.processFreeUnits.unitBusy idx = pool.unitBusy idx := by
        rw [unitBusy, if_neg queued]
      have releases := booked.releases idx
      rw [List.count_eq_zero.mpr queued] at releases
      simp only [same]
      exact releases
  case owned =>
    intro event mem frees
    have unqueued : event.fuIdx ∉ pool.unitsToBeFreed :=
      List.count_eq_zero.mp (booked.busy_of_pending mem frees).2
    rw [unitBusy, if_neg unqueued]
    exact booked.owned event mem frees
  case queued =>
    intro release mem
    cases mem
  case recorded => rfl
  case holds => exact failed.trans booked.holds

end UnitsBooked

/-- The step meets no unsafe contention. -/
def meetsNoContention (params : Params) (state : State) : Event → Bool
  | .schedule seq => !state.unsafeContention params seq
  | _ => true

variable {event : Event}

/-- Without contention nothing that runs is thrown out. -/
theorem keepsRunning_of_meetsNoContention (calm : meetsNoContention params state event = true) :
    keepsRunning params state event = true := by
  cases event with
  | schedule seq =>
      simp only [meetsNoContention, keepsRunning, Bool.not_eq_true'] at calm ⊢
      exact State.evictsRunning_of_not_unsafeContention calm
  | _ => rfl

section Steps

variable {params : Params} {state : State}

/-- Issue takes a free unit and sees to its release. -/
theorem UnitsBooked.issue
    (booked : UnitsBooked state.fuPool state.completions)
    (claimed : State.Claimed state.fuPool seq unit pool) (nonzero : seq ≠ 0) :
    UnitsBooked ((state.setPool pool).issue params seq unit).fuPool
      ((state.setPool pool).issue params seq unit).completions := by
  have started : UnitsBooked ((state.setPool pool).start params seq unit).fuPool
      ((state.setPool pool).start params seq unit).completions := by
    cases claimed with
    | none => exact booked
    | unit free turned =>
        have free := (congrFun turned.unitBusy _).trans free
        unfold State.start
        dsimp only
        split
        case isTrue =>
          have claim := (booked.turned turned).claim_queue free nonzero
            (fun event none => absurd none List.not_mem_nil)
          rw [List.append_nil] at claim
          exact claim
        case isFalse =>
          cases params.isPipelined ((state.setPool (_ : FUPool)).heap seq).opClass
          case true =>
            exact (booked.turned turned).claim_queue free nonzero (by simp)
          case false => exact (booked.turned turned).claim_event free nonzero
  unfold State.issue
  dsimp only
  split <;> exact started

theorem squashWalk_units (tid limit : Nat) (list : List Nat) (state : State) :
    (State.squashWalk tid limit state list).1.fuPool = state.fuPool ∧
      (State.squashWalk tid limit state list).1.completions = state.completions := by
  induction list generalizing state with
  | nil => exact ⟨rfl, rfl⟩
  | cons seq older ih =>
      have squashed : (state.squashInst seq).fuPool = state.fuPool ∧
          (state.squashInst seq).completions = state.completions := by
        unfold State.squashInst
        dsimp only
        split <;> exact ⟨rfl, rfl⟩
      unfold State.squashWalk
      split
      · exact ⟨rfl, rfl⟩
      · split
        · exact ih state
        · obtain ⟨pool, events⟩ := ih (state.squashInst seq)
          exact ⟨pool.trans squashed.1, events.trans squashed.2⟩

/-- A step without contention leaves the books right. -/
theorem UnitsBooked.step
    (booked : UnitsBooked state.fuPool state.completions) (noZero : state.placeCount 0 = 0)
    (calm : meetsNoContention params state event = true)
    (stepped : Stepped params state event next) :
    UnitsBooked next.fuPool next.completions := by
  cases stepped with
  | @schedule seq ready =>
      have calm : state.unsafeContention params seq = false := Bool.not_eq_true' _ ▸ calm
      have nonzero : seq ≠ 0 := by
        rintro rfl
        have positive := List.count_pos_iff.mpr ready
        unfold State.placeCount at noZero
        omega
      have scheduled :=
        State.schedule_scheduled (State.evictsRunning_of_not_unsafeContention calm)
      generalize state.schedule params seq = next at scheduled
      cases scheduled with
      | stalled => exact booked
      | squashed => exact booked
      | full turned => exact booked.turned turned
      | issued _ claimed => exact booked.issue (claimed calm) nonzero
  | completeFU mem => exact booked.complete mem
  | freeUnits => exact booked.processFreeUnits
  | squash tid limit =>
      obtain ⟨pool, events⟩ :=
        squashWalk_units tid limit (state.instList tid).reverse state
      change UnitsBooked (State.squashWalk tid limit state (state.instList tid).reverse).1.fuPool
        (State.squashWalk tid limit state (state.instList tid).reverse).1.completions
      rw [pool, events]
      exact booked
  | @execute seq rest outcome =>
      unfold State.execute
      dsimp only
      split
      · exact booked
      · cases outcome <;> exact booked
  | writeback =>
      unfold State.writeback
      dsimp only
      split
      · exact booked
      · split <;> exact booked
  | insert | wake | drainStalled | drainDeferred | cacheUnblocked | drainRetry | restrict
  | release | flagSquashed | commit => exact booked

end Steps

/-- The books are right, and zero is no instruction. -/
structure UnitsInvariant (state : State) : Prop where
  booked : UnitsBooked state.fuPool state.completions
  noZero : state.placeCount 0 = 0

/-- In every run without unsafe contention each busy unit has one outstanding release, for its
occupant, each free unit has none, no assertion fails, and no unit is freed before its occupant
completes. -/
theorem units_booked
    (params : Params) (units : Nat → Option (CircularQueue Nat)) {state : State}
    (reachable :
      Reachable (step params)
        (fun state event => meetsNoContention params state event = true)
        (initial params units) state) :
    UnitsBooked state.fuPool state.completions ∧
      ∀ event ∈ state.completions, event.freeFU = true →
        event.fuIdx ∉ state.fuPool.unitsToBeFreed := by
  have invariant : UnitsInvariant state := by
    refine reachable.invariant ?_ ?_
    · refine ⟨⟨fun _ => rfl, ?_, ?_, rfl, rfl⟩, rfl⟩
      · exact fun event none => absurd none List.not_mem_nil
      · exact fun release none => absurd none List.not_mem_nil
    · rintro state event next ⟨booked, noZero⟩ calm happens
      have stepped := step_stepped happens
      refine ⟨booked.step noZero calm stepped, ?_⟩
      have places := placeCount_step (keepsRunning_of_meetsNoContention calm) stepped 0
      have fresh : placed 0 event = 0 := by
        cases stepped with
        | insert _ _ nonzero => exact if_neg nonzero
        | _ => rfl
      omega
  refine ⟨invariant.booked, fun event mem frees => ?_⟩
  exact List.count_eq_zero.mp (invariant.booked.busy_of_pending mem frees).2

section Samples

/-- A queue of the single unit zero. -/
def oneUnit : CircularQueue Nat where
  items := [0]
  distinct := by decide
  idx := 0

/-- The mode protects everything, and operation class one has a single unit that is
not pipelined. -/
def divider : Params where
  config := { mode := 1 }
  numThreads := 1
  numEntries := 2
  small := by decide
  opLatency := fun _ => 12
  isPipelined := fun _ => false

/-- The units of the sample. -/
def dividerUnits (opClass : Nat) : Option (CircularQueue Nat) :=
  if opClass = 1 then some oneUnit else none

/-- Two divisions are dispatched, and the younger one, which is restricted, starts
first. -/
def youngerFirst : List Event :=
  [.insert 1 0 1 false false false, .insert 2 0 1 false false true, .wake 2, .schedule 2, .wake 1]

/-- The older division waits for the younger one once that is not restricted. -/
theorem units_booked_divider :
    ∃ state, Reachable (step divider)
        (fun state event => meetsNoContention divider state event = true)
        (initial divider dividerUnits) state ∧
      state.fuPool.unitBusy 0 = 2 ∧ UnitsBooked state.fuPool state.completions :=
  Reachable.exists_and_of_replay (youngerFirst ++ [.release 2, .schedule 1]) (by decide)
    fun _ reachable _ => (units_booked divider dividerUnits reachable).1

/-- The older division throws the younger one out of its unit. Of the two releases that are then
due, the first frees the unit under the older division, and the assertion of the second one
fails. -/
theorem units_booked_evicted :
    (∃ state, Reachable (step divider) (fun _ _ => True) (initial divider dividerUnits) state ∧
      (state.fuPool.unitBusy 0 == 1 && pendingReleases state.completions 0 == 2) = true) ∧
    ∃ state, Reachable (step divider) (fun _ _ => True) (initial divider dividerUnits) state ∧
      state.fuPool.failed = true :=
  ⟨Reachable.exists_of_replay (youngerFirst ++ [.schedule 1]) _ (by decide),
    Reachable.exists_of_replay
      (youngerFirst ++ [.schedule 1, .completeFU ⟨2, 0, true⟩, .freeUnits,
        .completeFU ⟨1, 0, true⟩]) _ (by decide)⟩

end Samples

end Sched
end Dolma

import Dolma.Sched.Occupied
import Dolma.Sched.Units

/-!
# Occupancy of the instruction queue

The counters of the queue are exact in every run in which no running instruction
is thrown out of its unit. An instruction that is thrown out has given its entry
back already, and gives back another one when it issues again.
-/

namespace Dolma
namespace Sched

open Library

namespace Occupied

variable {params : Params} {state next : State} {seq : Nat}
variable {tid : Nat}

/-- Entries of committed instructions are dropped. -/
theorem commit
    (occupied : Occupied params state)
    (finished : ∀ seq ∈ (state.instList tid).takeWhile (· ≤ limit),
      (state.heap seq).completed = true) :
    Occupied params (state.commit tid limit) := by
  have heap : ∀ seq, SameEntry (state.heap seq) ((state.commit tid limit).heap seq) := by
    intro seq
    simp only [State.commit]
    split
    · exact { SameEntry.refl (state.heap seq) with squashed := id }
    · exact .refl _
  have lists : ∀ other, (state.commit tid limit).instList other =
      if other = tid then (state.instList other).dropWhile (· ≤ limit)
      else state.instList other := fun _ => rfl
  constructor
  case counted =>
    refine occupied.counted.leave rfl rfl rfl
      (fun seq => ⟨(heap seq).inIQ, (heap seq).threadNumber, (heap seq).inserted⟩)
      (fun other => if other = tid then (state.instList tid).takeWhile (· ≤ limit) else []) ?_ ?_
    · intro other
      rw [lists]
      split
      case isTrue same =>
        subst same
        refine (List.Perm.of_eq ?_).trans List.perm_append_comm
        exact List.takeWhile_append_dropWhile.symm
      case isFalse => rw [List.append_nil]
    · intro other seq mem
      split at mem
      case isTrue => exact (occupied.flags seq).finished (finished seq mem)
      case isFalse => cases mem
  case flags =>
    exact fun seq => (occupied.flags seq).move (heap seq) (Nat.le_refl _) .inl .inl id
  case unsquashed =>
    intro other seq mem
    rw [(heap seq).squashedInIQ]
    refine occupied.unsquashed other seq ?_
    rw [lists] at mem
    split at mem
    case isTrue => exact (List.dropWhile_sublist _).subset mem
    case isFalse => exact mem

theorem insert
    (occupied : Occupied params state) (opClass : Nat) (restricted : Bool)
    (fresh : (state.heap seq).inserted = false) (room : state.freeEntries ≠ 0)
    (inside : tid < params.numThreads) (loads : isLoad = true → isMemRef = true) :
    Occupied params (state.insert seq tid opClass isMemRef isLoad restricted) := by
  have nowhere := ((occupied.flags seq).unknown fresh).2
  constructor
  case counted => exact occupied.counted.insert opClass isMemRef isLoad restricted fresh room inside
  case flags =>
    intro other
    have places : (state.insert seq tid opClass isMemRef isLoad restricted).placeCount other =
        state.placeCount other + (if seq = other then 1 else 0) := by
      simp only [State.placeCount, State.insert, List.count_append, List.count_singleton,
        beq_iff_eq]
      omega
    have absent : ¬ (state.IsIdle seq ∨ state.IsHeldBack seq ∨ state.IsRunning seq) := by
      intro somewhere
      have positive := State.placeCount_pos somewhere
      omega
    by_cases same : other = seq
    · subst same
      have heap : (state.insert other tid opClass isMemRef isLoad restricted).heap other =
          { threadNumber := tid, opClass := opClass, isMemRef := isMemRef, isLoad := isLoad,
            inserted := true, inIQ := true, inROB := true, restricted := restricted } :=
        if_pos rfl
      unfold FlagsHold
      rw [heap, places, if_pos rfl, nowhere]
      constructor
      case unknown => exact fun new => by cases new
      case single => omega
      case access => exact fun _ _ => rfl
      case other => exact fun _ _ => rfl
      case done => exact fun done => by cases done
      case idle => exact fun _ _ => .inl rfl
      case heldBack => exact fun held => absurd (.inr (.inl held)) absent
      case running => exact fun run => absurd (.inr (.inr run)) absent
      case squashed => exact fun squashed => by cases squashed
      case finished => exact fun finished => by cases finished
      case load => exact loads
    · have heap : (state.insert seq tid opClass isMemRef isLoad restricted).heap other =
          state.heap other := if_neg same
      unfold FlagsHold
      rw [heap, places, if_neg (Ne.symm same), Nat.add_zero]
      refine (occupied.flags other).move (.refl _) (Nat.le_refl _) (fun idle => .inl ?_) .inl id
      rcases idle with waits | ready
      · rcases List.mem_append.mp waits with waited | new
        · exact .inl waited
        · exact absurd (List.mem_singleton.mp new) same
      · exact .inr ready
  case unsquashed =>
    intro other member mem
    by_cases new : member = seq
    · subst new
      simp [State.insert]
    · have heap : (state.insert seq tid opClass isMemRef isLoad restricted).heap member =
          state.heap member := if_neg new
      rw [heap]
      refine occupied.unsquashed other member ?_
      simp only [State.insert] at mem
      split at mem
      · simpa [new] using mem
      · exact mem

/-- An instruction is taken off the ready instructions. -/
theorem popReady_idle (idle : (state.popReady seq).IsIdle other) : state.IsIdle other := by
  rcases idle with waits | ready
  · exact .inl waits
  · exact .inr (List.mem_of_mem_erase ready)

/-- The scheduler looks at a ready instruction. -/
theorem schedule
    (occupied : Occupied params state) (ready : seq ∈ state.readyInsts)
    (calm : state.evictsRunning params seq = false) :
    Occupied params (state.schedule params seq) := by
  have somewhere := State.placeCount_pos (.inl (.inr ready : state.IsIdle seq))
  have fewer : ∀ other, (state.schedule params seq).placeCount other ≤ state.placeCount other :=
    fun _ => placeCount_schedule ready calm
  have scheduled := State.schedule_scheduled calm
  generalize state.schedule params seq = next at fewer scheduled
  cases scheduled with
  | stalled restricted =>
      simp only [Bool.and_eq_true] at restricted
      obtain ⟨⟨_, restricted⟩, load⟩ := restricted
      refine occupied.stall ((occupied.flags seq).load load) ?_ somewhere ⟨rfl, rfl, rfl, rfl⟩
        rfl fewer (fun _ => popReady_idle) (fun _ => id) (fun _ => id)
      unfold Inst.isDolmaRestricted at restricted
      simp only [Bool.and_eq_true, Bool.not_eq_true'] at restricted
      exact restricted.1
  | squashed =>
      exact occupied.move ⟨rfl, rfl, rfl, rfl⟩ (fun _ => .refl _) fewer
        (fun _ idle => .inl (popReady_idle idle)) (fun _ => .inl) (fun _ => id)
  | full =>
      exact occupied.move ⟨rfl, rfl, rfl, rfl⟩ (fun _ => .refl _) fewer
        (fun _ => .inl) (fun _ => .inl) (fun _ => id)
  | @issued pool unit live =>
      have searched : Occupied params (state.setPool pool) :=
        occupied.move ⟨rfl, rfl, rfl, rfl⟩ (fun _ => .refl _) (fun _ => Nat.le_refl _)
          (fun _ => .inl) (fun _ => .inl) (fun _ => id)
      exact searched.issue unit ready ((occupied.flags seq).squashedInIQ_eq_false live)

theorem execute
    (occupied : Occupied params state) (executing : state.instsToExecute = seq :: rest)
    (possible : (state.heap seq).isMemRef = true ∨ outcome = .finishes ∨ outcome = .faults)
    (fewer : ∀ other, ({ state with instsToExecute := rest }.execute seq outcome).placeCount
      other ≤ state.placeCount other) :
    Occupied params ({ state with instsToExecute := rest }.execute seq outcome) := by
  have run : state.IsRunning seq := .inl (executing ▸ List.mem_cons_self)
  have somewhere := State.placeCount_pos (.inr (.inr run))
  have popped : ∀ other, { state with instsToExecute := rest }.IsRunning other →
      state.IsRunning other := by
    rintro other (executes | later)
    · exact .inl (executing ▸ List.mem_cons_of_mem _ executes)
    · exact .inr later
  generalize reached : { state with instsToExecute := rest }.execute seq outcome = next
    at fewer ⊢
  unfold State.execute at reached
  dsimp only at reached
  split at reached
  case isTrue =>
    subst reached
    exact occupied.move ⟨rfl, rfl, rfl, rfl⟩ (fun _ => .refl _) fewer (fun _ => .inl)
      (fun _ => .inl) popped
  case isFalse live =>
    rw [Bool.not_eq_true] at live
    have access : ¬ (outcome = .finishes ∨ outcome = .faults) →
        (state.heap seq).isMemRef = true := possible.resolve_right
    cases outcome with
    | finishes =>
        subst reached
        refine occupied.move ⟨rfl, rfl, rfl, rfl⟩ (fun _ => .refl _) fewer (fun _ => .inl)
          (fun _ => .inl) ?_
        rintro other (executes | completes | writes)
        · exact popped other (.inl executes)
        · exact .inr (.inl completes)
        · rcases List.mem_append.mp writes with before | new
          · exact .inr (.inr before)
          · rwa [List.mem_singleton.mp new]
    | faults =>
        subst reached
        exact occupied.move ⟨rfl, rfl, rfl, rfl⟩ (fun _ => .refl _) fewer (fun _ => .inl)
          (fun _ => .inl) popped
    | stalls =>
        subst reached
        exact occupied.stall (access (by simp)) live somewhere ⟨rfl, rfl, rfl, rfl⟩ rfl fewer
          (fun _ => id) (fun _ => id) popped
    | defers =>
        subst reached
        refine occupied.move ⟨rfl, rfl, rfl, rfl⟩ (fun _ => .refl _) fewer (fun _ => .inl)
          ?_ popped
        rintro other (stalled | deferred | later)
        · exact .inl (.inl stalled)
        · rcases List.mem_append.mp deferred with before | new
          · exact .inl (.inr (.inl before))
          · rw [List.mem_singleton.mp new]
            exact .inr (access (by simp))
        · exact .inl (.inr (.inr later))
    | blocks =>
        subst reached
        refine occupied.holdBack (access (by simp)) live somewhere ⟨rfl, rfl, rfl, rfl⟩ ?_ ?_
          fewer ?_ (fun _ _ => id) ?_ (fun other _ => popped other)
        · simp only [State.modify, if_true]
          exact .refl _
        · exact fun other apart => if_neg apart
        · exact .inr (.inr (.inl (List.mem_append_right _ List.mem_cons_self)))
        · rintro other apart (stalled | deferred | blocked | retries)
          · exact .inl stalled
          · exact .inr (.inl deferred)
          · rcases List.mem_append.mp blocked with before | new
            · exact .inr (.inr (.inl before))
            · exact absurd (List.mem_singleton.mp new) apart
          · exact .inr (.inr (.inr retries))
    | reschedules =>
        subst reached
        refine occupied.move ⟨rfl, rfl, rfl, rfl⟩ (fun _ => .refl _) fewer ?_
          (fun _ => .inl) popped
        rintro other (waits | ready)
        · rcases List.mem_append.mp waits with before | new
          · exact .inl (.inl before)
          · rw [List.mem_singleton.mp new]
            exact .inr (access (by simp))
        · exact .inl (.inr ready)

/-- A change of flags that leaves the entry keeps everything right. -/
theorem modify (occupied : Occupied params state) (same : ∀ inst, SameEntry inst (change inst)) :
    Occupied params (state.modify seq change) := by
  refine occupied.move ⟨rfl, rfl, rfl, rfl⟩ (fun other => ?_) (fun _ => Nat.le_refl _)
    (fun _ => .inl) (fun _ => .inl) (fun _ => id)
  simp only [State.modify]
  split
  · exact same _
  · exact .refl _

theorem ready
    (occupied : Occupied params state) (back : state.IsHeldBack seq)
    (counters : SameCounters state next) (heap : next.heap = state.heap)
    (fewer : ∀ other, next.placeCount other ≤ state.placeCount other)
    (waits : next.waiting = state.waiting) (readied : next.readyInsts = seq :: state.readyInsts)
    (holdsBack : ∀ other, next.IsHeldBack other → state.IsHeldBack other)
    (runs : ∀ other, next.IsRunning other → state.IsRunning other) :
    Occupied params next := by
  refine occupied.move counters (fun other => ?_) fewer ?_
    (fun other held => .inl (holdsBack other held)) runs
  · rw [heap]
    exact .refl _
  · rintro other (waited | ready)
    · exact .inl (.inl (waits ▸ waited))
    · rw [readied] at ready
      rcases List.mem_cons.mp ready with rfl | before
      · exact .inr ((occupied.flags other).heldBack back)
      · exact .inl (.inr before)

end Occupied

theorem Occupied.step
    (occupied : Occupied params state) (keeps : keepsRunning params state event = true)
    (happens : step params state event = some next) :
    Occupied params next := by
  have stepped := step_stepped happens
  have places := placeCount_step keeps stepped
  cases stepped with
  | insert opClass restricted nonzero fresh room inside loads =>
      exact occupied.insert opClass restricted fresh room inside loads
  | wake mem =>
      refine occupied.move ⟨rfl, rfl, rfl, rfl⟩ (fun _ => .refl _) places ?_
        (fun _ => .inl) (fun _ => id)
      rintro other (waits | ready)
      · exact .inl (.inl (List.mem_of_mem_erase waits))
      · rcases List.mem_cons.mp ready with rfl | before
        · exact .inl (.inl mem)
        · exact .inl (.inr before)
  | schedule ready => exact occupied.schedule ready (Bool.not_eq_true' _ ▸ keeps)
  | drainStalled mem =>
      refine occupied.ready (.inl mem) ⟨rfl, rfl, rfl, rfl⟩ rfl places rfl rfl ?_ (fun _ => id)
      rintro other (stalled | later)
      · exact .inl (List.mem_of_mem_erase stalled)
      · exact .inr later
  | drainDeferred mem =>
      refine occupied.ready (.inr (.inl mem)) ⟨rfl, rfl, rfl, rfl⟩ rfl places rfl rfl ?_
        (fun _ => id)
      rintro other (stalled | deferred | later)
      · exact .inl stalled
      · exact .inr (.inl (List.mem_of_mem_erase deferred))
      · exact .inr (.inr later)
  | cacheUnblocked =>
      refine occupied.move ⟨rfl, rfl, rfl, rfl⟩ (fun _ => .refl _) places (fun _ => .inl) ?_
        (fun _ => id)
      rintro other (stalled | deferred | blocked | retries)
      · exact .inl (.inl stalled)
      · exact .inl (.inr (.inl deferred))
      · cases blocked
      · rcases List.mem_append.mp retries with before | blocked
        · exact .inl (.inr (.inr (.inr before)))
        · exact .inl (.inr (.inr (.inl blocked)))
  | @drainRetry seq rest retry =>
      have mem : seq ∈ state.retryMemInsts := retry ▸ List.mem_cons_self
      refine occupied.ready (.inr (.inr (.inr mem))) ⟨rfl, rfl, rfl, rfl⟩ rfl places rfl rfl ?_
        (fun _ => id)
      rintro other (stalled | deferred | blocked | retries)
      · exact .inl stalled
      · exact .inr (.inl deferred)
      · exact .inr (.inr (.inl blocked))
      · exact .inr (.inr (.inr (retry ▸ List.mem_cons_of_mem _ retries)))
  | @completeFU fired mem =>
      refine occupied.move ⟨rfl, rfl, rfl, rfl⟩ (fun _ => .refl _) places (fun _ => .inl)
        (fun _ => .inl) ?_
      rintro other (executes | completes | writes)
      · rcases List.mem_append.mp executes with before | new
        · exact .inl before
        · rw [List.mem_singleton.mp new]
          exact .inr (.inl (List.mem_map_of_mem mem))
      · obtain ⟨event, pending, rfl⟩ := List.mem_map.mp completes
        exact .inr (.inl (List.mem_map_of_mem (List.mem_of_mem_erase pending)))
      · exact .inr (.inr writes)
  | execute executing possible => exact occupied.execute executing possible places
  | writeback mem => exact occupied.writeback mem
  | freeUnits =>
      exact occupied.move ⟨rfl, rfl, rfl, rfl⟩ (fun _ => .refl _) places (fun _ => .inl)
        (fun _ => .inl) (fun _ => id)
  | restrict seq =>
      refine occupied.modify fun inst => ?_
      exact { SameEntry.refl inst with squashed := id }
  | release seq =>
      refine occupied.modify fun inst => ?_
      exact { SameEntry.refl inst with squashed := id }
  | flagSquashed =>
      refine occupied.modify fun inst => ?_
      exact { SameEntry.refl inst with squashed := fun _ => rfl }
  | squash tid limit => exact occupied.squash tid limit
  | commit finished => exact occupied.commit finished

/-- The counters are exact at first. -/
theorem initial_occupied (params : Params) (units : Nat → Option (CircularQueue Nat)) :
    Occupied params (initial params units) := by
  constructor
  case counted =>
    constructor
    case distinct => exact fun _ => List.nodup_nil
    case listed => exact fun _ _ mem => absurd mem List.not_mem_nil
    case threads => exact fun _ nonempty => absurd rfl nonempty
    case holds => exact fun _ holds => by cases holds
    case free =>
      have small := params.small
      have none : (initial params units).held params = 0 := Finset.sum_eq_zero fun _ _ => rfl
      have all : (initial params units).freeEntries.toNat = params.numEntries :=
        (BitVec.toNat_ofNat _ _).trans (Nat.mod_eq_of_lt small)
      omega
    case count => exact fun _ => rfl
    case once => exact List.nodup_nil
    case returned =>
      refine fun seq => ⟨fun mem => absurd mem List.not_mem_nil, fun inserted => ?_⟩
      cases inserted.1
  case flags =>
    intro seq
    constructor
    case unknown => exact fun _ => ⟨rfl, rfl⟩
    case single => exact Nat.zero_le _
    case access => exact fun inserted => by cases inserted
    case other => exact fun inserted => by cases inserted
    case done => exact fun done => by cases done
    case idle => exact fun _ _ => .inl rfl
    case heldBack => rintro (none | none | none | none) <;> cases none
    case running => rintro (none | none | none) <;> cases none
    case squashed => exact fun squashed => by cases squashed
    case finished => exact fun finished => by cases finished
    case load => exact fun load => by cases load
  case unsquashed => exact fun _ _ mem => absurd mem List.not_mem_nil

/-- In every run in which no running instruction is thrown out of its unit, the free entries are
the capacity without the entries held, every thread counts the entries of its instructions, and
no instruction gives an entry back twice. -/
theorem entries_counted
    (params : Params) (units : Nat → Option (CircularQueue Nat)) {state : State}
    (reachable : Reachable (Sched.step params)
      (fun state event => keepsRunning params state event = true)
      (initial params units) state) :
    EntriesCounted params state ∧
      (∀ tid, (state.count tid).toNat ≤ params.numEntries) ∧
        state.freeEntries.toNat ≤ params.numEntries := by
  have occupied : Occupied params state :=
    reachable.invariant (initial_occupied params units)
      fun _ _ _ occupied keeps happens => occupied.step keeps happens
  have free := occupied.counted.free
  refine ⟨occupied.counted, fun tid => ?_, by omega⟩
  rw [occupied.counted.count]
  by_cases inside : tid < params.numThreads
  · have share : state.holding tid ≤ state.held params := holding_le_held inside
    omega
  · have empty : state.instList tid = [] := by
      by_contra nonempty
      exact inside (occupied.counted.threads tid nonempty)
    unfold State.holding
    rw [empty]
    exact Nat.zero_le _

section Samples

/-- The younger division issues, and then both divisions are squashed. -/
theorem entries_counted_divider :
    ∃ state, Reachable (Sched.step divider)
        (fun state event => keepsRunning divider state event = true)
        (initial divider dividerUnits) state ∧
      state.returned = [1, 2] ∧ state.freeEntries = 2 ∧ EntriesCounted divider state := by
  refine Reachable.exists_imp_of_replay
    (youngerFirst ++ [.squash 0 0, .flagSquashed 2, .schedule 1])
    (fun state => state.returned = [1, 2] ∧ state.freeEntries = 2) (by decide) ?_
  rintro state reachable ⟨returned, free⟩
  exact ⟨returned, free, (entries_counted divider dividerUnits reachable).1⟩

/-- The younger division is thrown out of its unit, issues again and gives a second
entry back. The free entries exceed the capacity, and the count of the thread wraps
below zero. -/
theorem entries_counted_twice :
    ∃ state, Reachable (Sched.step divider) (fun _ _ => True)
        (initial divider dividerUnits) state ∧
      (state.returned == [2, 1, 2] && state.freeEntries == 3 &&
        state.count 0 == BitVec.ofNat 32 (2 ^ 32 - 1)) = true :=
  Reachable.exists_of_replay
    (youngerFirst ++ [.schedule 1, .release 2, .drainStalled, .completeFU ⟨2, 0, true⟩,
      .freeUnits, .schedule 2]) _ (by decide)

end Samples

end Sched
end Dolma

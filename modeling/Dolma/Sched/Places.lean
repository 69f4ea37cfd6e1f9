import Dolma.Library.TransitionSystem
import Dolma.Sched.Contention

/-!
# Where an instruction is

From its dispatch on an instruction is on at most one of the lists of the
scheduler, as long as no running instruction is thrown out of its unit.
-/

namespace Dolma
namespace Sched

open scoped List

namespace State

/-- How often an instruction is on the lists of the scheduler. -/
def placeCount (state : State) (seq : Nat) : Nat :=
  state.waiting.count seq + state.readyInsts.count seq +
    state.dolmaStalledInsts.count seq + state.deferredMemInsts.count seq +
    state.blockedMemInsts.count seq + state.retryMemInsts.count seq +
    state.instsToExecute.count seq + (state.completions.map (·.inst)).count seq +
    state.writebacks.count seq

end State

/-- The step does not throw a running instruction out of its unit. -/
def keepsRunning (params : Params) (state : State) : Event → Bool
  | .schedule seq => !state.evictsRunning params seq
  | _ => true

/-- How often an event puts an instruction on the lists. -/
def placed (seq : Nat) : Event → Nat
  | .insert other .. => if other = seq then 1 else 0
  | _ => 0

section Moves

variable {params : Params} {state : State} {seq other : Nat}

theorem count_erase_of_mem {list : List Nat} (mem : seq ∈ list) (other : Nat) :
    (list.erase seq).count other + (if seq = other then 1 else 0) = list.count other := by
  rw [List.count_erase]
  by_cases same : seq = other
  · subst same
    have positive := List.count_pos_iff.mpr mem
    simp
    omega
  · simp [same]

@[simp] theorem placeCount_modify (change : Inst → Inst) :
    (state.modify seq change).placeCount other = state.placeCount other :=
  rfl

@[simp] theorem placeCount_giveBack :
    (state.giveBack seq).placeCount other = state.placeCount other :=
  rfl

theorem placeCount_stall :
    (state.stall seq).placeCount other =
      state.placeCount other + (if seq = other then 1 else 0) := by
  simp only [State.placeCount, State.stall, State.dolmaStallInst, State.modify,
    List.count_append, List.count_singleton, beq_iff_eq]
  omega

/-- An instruction that starts is on one more list. -/
theorem placeCount_start (params : Params) (state : State) (seq other : Nat) (unit : Option Nat) :
    (state.start params seq unit).placeCount other =
      state.placeCount other + (if seq = other then 1 else 0) := by
  unfold State.start
  dsimp only
  split
  · simp only [State.placeCount, List.count_append, List.count_singleton, beq_iff_eq]
    omega
  · split
    · simp only [State.placeCount, List.count_append, List.count_singleton, beq_iff_eq]
      omega
    · simp only [State.placeCount, List.map_append, List.map_cons, List.map_nil,
        List.count_append, List.count_singleton, beq_iff_eq]
      omega

theorem placeCount_popReady (ready : seq ∈ state.readyInsts) (other : Nat) :
    (state.popReady seq).placeCount other + (if seq = other then 1 else 0) =
      state.placeCount other := by
  have erased := count_erase_of_mem ready other
  simp only [State.placeCount, State.popReady]
  omega

/-- Issue moves an instruction from ready to running. -/
theorem placeCount_issue (unit : Option Nat) (ready : seq ∈ state.readyInsts) :
    (state.issue params seq unit).placeCount other = state.placeCount other := by
  have started := placeCount_start params state seq other unit
  have kept : (state.start params seq unit).readyInsts = state.readyInsts := by
    unfold State.start
    dsimp only
    split
    · rfl
    · split <;> rfl
  have popped : ((state.start params seq unit).popReady seq).placeCount other +
      (if seq = other then 1 else 0) = (state.start params seq unit).placeCount other :=
    placeCount_popReady (kept.symm ▸ ready) other
  unfold State.issue
  dsimp only
  split
  · rw [placeCount_modify]
    omega
  · rw [placeCount_giveBack, placeCount_modify]
    omega

/-- The scheduler adds no instruction to the lists. -/
theorem placeCount_schedule
    (ready : seq ∈ state.readyInsts) (calm : state.evictsRunning params seq = false) :
    (state.schedule params seq).placeCount other ≤ state.placeCount other := by
  have popped := placeCount_popReady ready other
  have scheduled := State.schedule_scheduled calm
  generalize state.schedule params seq = next at scheduled
  cases scheduled with
  | stalled =>
      rw [placeCount_stall]
      omega
  | squashed => omega
  | full => exact Nat.le_refl _
  | @issued pool unit =>
      have issued : ((state.setPool pool).issue params seq unit).placeCount other =
          (state.setPool pool).placeCount other := placeCount_issue unit ready
      exact Nat.le_of_eq issued

/-- A walk keeps what each squash keeps. -/
theorem squashWalk_keeps
    (read : State → α) (kept : ∀ state seq, read (State.squashInst state seq) = read state)
    (state : State) (tid limit : Nat) (list : List Nat) :
    read (State.squashWalk tid limit state list).1 = read state := by
  induction list generalizing state with
  | nil => rfl
  | cons seq older ih =>
      unfold State.squashWalk
      split
      · rfl
      · split
        · exact ih state
        · exact (ih (state.squashInst seq)).trans (kept state seq)

theorem placeCount_squashWalk (state : State) (other tid limit : Nat) (list : List Nat) :
    (State.squashWalk tid limit state list).1.placeCount other = state.placeCount other := by
  refine squashWalk_keeps (fun state => state.placeCount other) ?_ state tid limit list
  intro state seq
  unfold State.squashInst
  dsimp only
  split <;> rfl

/-- A squash takes instructions off the waiting list. -/
theorem placeCount_squash (state : State) (tid limit other : Nat) :
    (state.squash tid limit).placeCount other ≤ state.placeCount other := by
  have walked : (state.doSquash tid limit).placeCount other = state.placeCount other :=
    placeCount_squashWalk state other tid limit (state.instList tid).reverse
  have fewer := List.Sublist.count_le other
    (List.filter_sublist :
      (state.doSquash tid limit).waiting.filter
          (fun seq => !(state.doSquash tid limit).isYounger tid limit seq) <+
        (state.doSquash tid limit).waiting)
  rw [← walked]
  simp only [State.placeCount, State.squash]
  omega

theorem placeCount_execute (state : State) (seq other : Nat) (outcome : State.Outcome) :
    (state.execute seq outcome).placeCount other ≤
      state.placeCount other + (if seq = other then 1 else 0) := by
  unfold State.execute
  dsimp only
  split
  case isTrue => omega
  case isFalse =>
    cases outcome
    case stalls =>
      rw [placeCount_stall]
      exact Nat.le_refl _
    case faults => exact Nat.le_add_right _ _
    all_goals
      simp only [State.placeCount, State.modify, List.count_append, List.count_singleton,
        beq_iff_eq]
      omega

/-- A write-back takes an instruction off the lists. -/
theorem placeCount_writeback (mem : seq ∈ state.writebacks) (other : Nat) :
    (state.writeback seq).placeCount other + (if seq = other then 1 else 0) =
      state.placeCount other := by
  have erased := count_erase_of_mem mem other
  have popped : { state with writebacks := state.writebacks.erase seq }.placeCount other +
      (if seq = other then 1 else 0) = state.placeCount other := by
    simp only [State.placeCount]
    omega
  unfold State.writeback
  dsimp only
  split
  · exact popped
  · split <;> exact popped

end Moves

/-- A step adds only the instruction that it inserts. -/
theorem placeCount_step
    {params : Params} {state next : State} {event : Event}
    (calm : keepsRunning params state event = true) (stepped : Stepped params state event next)
    (other : Nat) :
    next.placeCount other ≤ state.placeCount other + placed other event := by
  cases stepped with
  | insert =>
      simp only [State.placeCount, State.insert, placed, List.count_append,
        List.count_singleton, beq_iff_eq]
      omega
  | wake mem | drainStalled mem | drainDeferred mem =>
      have erased := count_erase_of_mem mem other
      simp only [State.placeCount, placed, List.count_cons, beq_iff_eq]
      omega
  | schedule ready => exact placeCount_schedule ready (Bool.not_eq_true' _ ▸ calm)
  | cacheUnblocked =>
      simp only [State.placeCount, placed, List.count_append, List.count_nil]
      omega
  | drainRetry retry =>
      simp only [State.placeCount, placed, retry, List.count_cons, beq_iff_eq]
      omega
  | @completeFU fired mem =>
      have erased : ((state.completions.erase fired).map (·.inst)).count other +
          (if fired.inst = other then 1 else 0) = (state.completions.map (·.inst)).count other := by
        rw [((List.perm_cons_erase mem).map (·.inst)).count_eq, List.map_cons, List.count_cons]
        simp only [beq_iff_eq]
      simp only [State.placeCount, State.processFUCompletion, placed, List.count_append,
        List.count_singleton, beq_iff_eq]
      omega
  | @execute seq rest outcome executing =>
      have executed := placeCount_execute { state with instsToExecute := rest } seq other
        outcome
      have popped : { state with instsToExecute := rest }.placeCount other +
          (if seq = other then 1 else 0) = state.placeCount other := by
        simp only [State.placeCount, executing, List.count_cons, beq_iff_eq]
        omega
      simp only [placed]
      omega
  | writeback mem =>
      have written := placeCount_writeback mem other
      simp only [placed]
      omega
  | squash tid limit => exact placeCount_squash state tid limit other
  | freeUnits | restrict | release | flagSquashed | commit => exact Nat.le_refl _

end Sched
end Dolma

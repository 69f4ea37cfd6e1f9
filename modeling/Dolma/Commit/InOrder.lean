import Dolma.Commit.Loop

/-!
# Commit in program order

The reorder buffers under any interleaving of their operations with cycles of commit, of any
number of threads. Over a whole run each thread commits its instructions in program order, and
every cycle of commit ends.
-/

namespace Dolma
namespace Commit

/-- The reorder buffers with what commit keeps about the threads. -/
structure Core where
  rob : Rob.Control.State
  numThreads : Nat
  activeThreads : List Nat
  priorityList : List Nat
  commitStatus : Nat → Smt.ThreadStatus
  kept : Kept
  committed : Nat → List Nat := fun _ => []

namespace Core

/-- What commit reads about the threads. -/
def threads (core : Core) : Smt.Threads where
  numThreads := core.numThreads
  activeThreads := core.activeThreads
  commitStatus := core.commitStatus
  instList := core.rob.instList
  heap := core.rob.heap
  priorityList := core.priorityList

/-- What happens in the core. -/
inductive Event where
  | rob (event : Rob.Control.Event)
  | commit (surroundings : Surroundings)
  | handle (activeThreads priorityList : List Nat) (commitStatus : Nat → Smt.ThreadStatus)
      (kept : Kept)

/-- The instructions in flight are those of the buffers and others. -/
def agrees (core : Core) (surroundings : Surroundings) : Prop :=
  surroundings.noneInFlight = true → ∀ tid < core.numThreads, core.rob.instList tid = []

instance (core : Core) (surroundings : Surroundings) : Decidable (core.agrees surroundings) :=
  inferInstanceAs (Decidable (_ → _))

/-- The cycle of commit in a core. -/
def commitInsts (setting : Setting) (core : Core) (surroundings : Surroundings) :
    Option (Option Cycle) :=
  Commit.commitInsts { setting with toSurroundings := surroundings } (.new core.threads core.kept)

/-- The core after a cycle of commit. -/
def committing (core : Core) (last : Cycle) : Core :=
  { core with
    rob := { core.rob with heap := last.threads.heap, instList := last.threads.instList }
    priorityList := last.threads.priorityList
    commitStatus := last.threads.commitStatus
    kept := last.toKept
    committed := fun tid => core.committed tid ++ last.committed.filter fun seq =>
      (core.rob.heap seq).threadNumber = tid }

/-- One step of the core. There is none where an assertion fails. -/
def step (setting : Setting) (core : Core) : Event → Option Core
  | .rob event =>
      (Rob.Control.step setting.config core.rob event).map fun rob => { core with rob := rob }
  | .commit surroundings =>
      if core.agrees surroundings then
        (core.commitInsts setting surroundings).join.map core.committing
      else none
  | .handle activeThreads priorityList commitStatus kept =>
      if ∀ tid ∈ activeThreads ++ priorityList, tid < core.numThreads then
        some
          { core with
            activeThreads := activeThreads
            priorityList := priorityList
            commitStatus := commitStatus
            kept := kept }
      else none

/-- Each buffer is in program order, and so are the committed instructions of its thread
before it. -/
structure InOrder (core : Core) : Prop where
  ordered : Rob.Control.Ordered core.rob
  valid : Valid core.threads
  sorted : ∀ tid, (core.committed tid ++ core.rob.instList tid).Pairwise (· < ·)
  bounded : ∀ tid, ∀ seq ∈ core.committed tid, seq ≤ core.rob.lastInserted tid

variable {setting : Setting} {core next : Core}

/-- Buffers that lose instructions stay in order. -/
theorem InOrder.shrink
    (inOrder : InOrder core) {rob : Rob.Control.State} (ordered : Rob.Control.Ordered rob)
    (shorter : ∀ tid, (rob.instList tid).Sublist (core.rob.instList tid))
    (lastInserted : rob.lastInserted = core.rob.lastInserted) :
    InOrder { core with rob := rob } := by
  refine ⟨ordered, ⟨inOrder.valid.active, inOrder.valid.priority⟩, fun tid => ?_, ?_⟩
  · exact (inOrder.sorted tid).sublist ((shorter tid).append_left _)
  · dsimp only
    rw [lastInserted]
    exact inOrder.bounded

theorem InOrder.insert
    (inOrder : InOrder core)
    (newer : core.rob.lastInserted (Rob.Control.threadOf core.rob seq) < seq) :
    InOrder { core with rob := Rob.Control.inserted config core.rob seq } := by
  have below : ∀ done ∈ core.committed (Rob.Control.threadOf core.rob seq) ++
      core.rob.instList (Rob.Control.threadOf core.rob seq), done < seq := by
    intro done member
    refine Nat.lt_of_le_of_lt ?_ newer
    exact (List.mem_append.mp member).elim (inOrder.bounded _ done)
      (inOrder.ordered.bounded _ done)
  refine ⟨inOrder.ordered.insert config newer,
    ⟨inOrder.valid.active, inOrder.valid.priority⟩, fun tid => ?_, fun tid done member => ?_⟩
  · dsimp only [Rob.Control.inserted]
    by_cases same : tid = Rob.Control.threadOf core.rob seq
    · rw [same, Function.update_self, ← List.append_assoc, List.pairwise_append]
      exact ⟨inOrder.sorted _, List.pairwise_singleton _ _, by simpa using below⟩
    · rw [Function.update_of_ne same]
      exact inOrder.sorted tid
  · dsimp only [Rob.Control.inserted]
    by_cases same : tid = Rob.Control.threadOf core.rob seq
    · rw [same, Function.update_self]
      rw [same] at member
      exact (below done (List.mem_append_left _ member)).le
    · rw [Function.update_of_ne same]
      exact inOrder.bounded tid done member

theorem InOrder.rob
    (inOrder : InOrder core) {rob : Rob.Control.State} {event : Rob.Control.Event}
    (enabled : Rob.Control.step setting.config core.rob event = some rob) :
    InOrder { core with rob := rob } := by
  have ordered := inOrder.ordered.step enabled
  cases Rob.Control.step_cases enabled with
  | inserts seq newer result =>
      rw [result]
      exact inOrder.insert newer
  | retires thread rest heap retired result =>
      subst result
      refine inOrder.shrink ordered (fun tid => ?_) rfl
      dsimp only
      by_cases same : tid = thread
      · obtain ⟨head, _, split, -⟩ := Rob.retireHead_eq_some retired
        rw [same, Function.update_self, split]
        exact List.sublist_cons_self ..
      · rw [Function.update_of_ne same]
  | updates thread result =>
      subst result
      exact inOrder.shrink ordered (fun _ => .refl _) rfl
  | rests quiet lists last => exact inOrder.shrink ordered (fun _ => by rw [lists]) last

theorem InOrder.commit
    (inOrder : InOrder core) (agrees : core.agrees surroundings)
    (returned : (core.commitInsts setting surroundings).join = some last) :
    InOrder (core.committing last) := by
  obtain ⟨result, found, outcome⟩ := exists_commitInsts
    { setting with toSurroundings := surroundings } inOrder.valid inOrder.ordered.sorted agrees
    core.kept
  rw [commitInsts, found] at returned
  have outcome := outcome last returned
  have taken : ∀ tid, (last.committed.filter fun seq =>
      (core.rob.heap seq).threadNumber = tid).Sublist (last.removed.filter fun seq =>
        (core.rob.heap seq).threadNumber = tid) := by
    intro tid
    have committed : last.committed = _ := outcome.committed
    rw [committed]
    exact List.filter_sublist.filter _
  have whole : ∀ tid, ((last.committed.filter fun seq =>
      (core.rob.heap seq).threadNumber = tid) ++ last.threads.instList tid).Sublist
        (core.rob.instList tid) := by
    intro tid
    have order : core.rob.instList tid = _ := outcome.order tid
    rw [order]
    exact (taken tid).append_right _
  have kept : ∀ tid, (last.threads.instList tid).Sublist (core.rob.instList tid) :=
    fun tid => (List.sublist_append_right ..).trans (whole tid)
  refine ⟨⟨fun tid => ?_, fun tid seq member => ?_, fun tid seq member => ?_⟩,
    ⟨inOrder.valid.active, fun tid member => ?_⟩, fun tid => ?_, fun tid seq member => ?_⟩
  · exact (inOrder.ordered.sorted tid).sublist (kept tid)
  · rw [← inOrder.ordered.owned tid seq ((kept tid).subset member)]
    exact (outcome.agrees seq).threadNumber
  · exact inOrder.ordered.bounded tid seq ((kept tid).subset member)
  · exact inOrder.valid.priority tid (outcome.priority.mem_iff.mp member)
  · rw [committing]
    dsimp only
    rw [List.append_assoc]
    exact (inOrder.sorted tid).sublist ((whole tid).append_left _)
  · rcases List.mem_append.mp member with earlier | now
    · exact inOrder.bounded tid seq earlier
    · exact inOrder.ordered.bounded tid seq
        ((whole tid).subset (List.mem_append_left _ now))

/-- The core after construction. -/
def initial (heap : Heap) (numThreads : Nat) (pc : Nat → PCState) : Core where
  rob := Rob.Control.initial heap
  numThreads := numThreads
  activeThreads := []
  priorityList := List.range numThreads
  commitStatus := fun _ => .idle
  kept := { pc := pc }

theorem InOrder.initial (heap : Heap) (numThreads : Nat) (pc : Nat → PCState) :
    InOrder (initial heap numThreads pc) := by
  refine ⟨.initial heap, ⟨?_, ?_⟩, fun _ => .nil, ?_⟩ <;>
    simp [Core.initial, Core.threads]

theorem InOrder.step (inOrder : InOrder core) (stepped : core.step setting event = some next) :
    InOrder next := by
  cases event with
  | rob event =>
      obtain ⟨rob, enabled, rfl⟩ := Option.map_eq_some_iff.mp stepped
      exact inOrder.rob enabled
  | commit surroundings =>
      obtain ⟨agrees, stepped⟩ := Option.ite_none_right_eq_some.mp stepped
      obtain ⟨last, returned, rfl⟩ := Option.map_eq_some_iff.mp stepped
      exact inOrder.commit agrees returned
  | handle activeThreads priorityList commitStatus kept =>
      obtain ⟨valid, handled⟩ := Option.ite_none_right_eq_some.mp stepped
      cases handled
      refine ⟨inOrder.ordered, ⟨fun tid member => ?_, fun tid member => ?_⟩, inOrder.sorted,
        inOrder.bounded⟩
      · exact valid tid (List.mem_append_left _ member)
      · exact valid tid (List.mem_append_right _ member)

section Runs

variable {heap : Heap} {numThreads : Nat} {pc : Nat → PCState}

theorem inOrder_of_reachable
    (reachable : Library.Reachable (step setting) (fun _ _ => True)
      (initial heap numThreads pc) core) :
    InOrder core :=
  reachable.invariant (.initial heap numThreads pc) fun _ _ _ inOrder _ => inOrder.step

/-- Whatever happens between the cycles, the instructions of a thread commit in program order,
and before everything that is left in its buffer. -/
theorem commits_inOrder
    (reachable : Library.Reachable (step setting) (fun _ _ => True)
      (initial heap numThreads pc) core)
    (tid : Nat) :
    (core.committed tid).Pairwise (· < ·) ∧
      ∀ done ∈ core.committed tid, ∀ seq ∈ core.rob.instList tid, done < seq := by
  have sorted := (inOrder_of_reachable reachable).sorted tid
  rw [List.pairwise_append] at sorted
  exact ⟨sorted.1, sorted.2.2⟩

/-- In every reachable state the loop over the heads ends. Unless an assertion fails, each thread
retires the front of its buffer and commits what is not squashed in it, within the width and with
no fault. The cycle stops early only for a reason, or because events change the program counter.
A thread traps at its oldest instruction in a cycle without a commit, or takes an interrupt with
its buffer empty. -/
theorem commitInsts_outcome
    (reachable : Library.Reachable (step setting) (fun _ _ => True)
      (initial heap numThreads pc) core)
    (surroundings : Surroundings) (agrees : core.agrees surroundings) :
    ∃ result, core.commitInsts setting surroundings = some result ∧
      ∀ last, result = some last →
        Outcome { setting with toSurroundings := surroundings } (.new core.threads core.kept)
          last := by
  have inOrder := inOrder_of_reachable reachable
  exact exists_commitInsts { setting with toSurroundings := surroundings } inOrder.valid
    inOrder.ordered.sorted agrees core.kept

end Runs

/-- A core of one thread, whose instructions have executed and can commit. -/
def executedHeap : Heap :=
  fun _ => ({} : DynInst).setStatus .executed true |>.setStatus .canCommit true

/-- Commit takes two instructions in a cycle. -/
def twoWide : Setting where
  config := { mode := 1 }
  commitPolicy := .oldestReady
  commitWidth := 2

/-- Three instructions enter, and the thread commits for a cycle. -/
def threeInserted : List Event :=
  [.rob (.insert 1), .rob (.insert 2), .rob (.insert 3),
    .handle [0] [0] (fun _ => .running) { pc := fun _ => ⟨0, 0, 0, 1, 0⟩ }]

theorem commits_inOrder_three :
    ∃ core, Library.Reachable (step twoWide) (fun _ _ => True)
        (initial executedHeap 1 fun _ => ⟨0, 0, 0, 1, 0⟩) core ∧
      core.committed 0 = [1, 2] ∧ ∀ seq ∈ core.rob.instList 0, 2 < seq := by
  refine Library.Reachable.exists_and_of_replay (threeInserted ++ [.commit {}])
    (by decide +kernel) fun core reachable committed => ?_
  exact (commits_inOrder reachable 0).2 2 (by rw [committed]; decide)

theorem commitInsts_outcome_three :
    ∃ core, Library.Reachable (step twoWide) (fun _ _ => True)
        (initial executedHeap 1 fun _ => ⟨0, 0, 0, 1, 0⟩) core ∧
      core.rob.instList 0 = [1, 2, 3] ∧
      ∃ last, core.commitInsts twoWide {} = some (some last) ∧ last.removed = [1, 2] ∧
        Outcome twoWide (.new core.threads core.kept) last := by
  refine Library.Reachable.exists_imp_of_replay threeInserted
    (fun core => core.rob.instList 0 = [1, 2, 3] ∧
      (core.commitInsts twoWide {}).join.any (·.removed == [1, 2]) = true) (by decide +kernel) ?_
  rintro core reachable ⟨lists, commits⟩
  obtain ⟨last, returned, removed⟩ := (Option.any_eq_true _ _).mp commits
  obtain ⟨result, found, outcome⟩ :=
    commitInsts_outcome reachable {} fun idle => by cases idle
  rw [found] at returned
  obtain rfl : result = some last := returned
  exact ⟨lists, last, found, eq_of_beq removed, outcome last rfl⟩

end Core

end Commit
end Dolma

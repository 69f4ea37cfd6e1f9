import Dolma.Sched.Contention
import Dolma.Sched.Drain
import Dolma.Sched.Occupied

/-!
# The scheduler of a cycle

In a cycle the scheduler drains the waiting lists and makes a pass over the ready lists. The
ready lists by class hold the ready instructions of the queue, and the cycle is a run of the
events of the queue.
-/

namespace Dolma
namespace Sched

open Library

namespace State

variable (state : State) (drain : Drain Nat ReadyLists)

/-- The instructions taken off a waiting list are ready. -/
def handedOn : List Nat :=
  drain.handed.reverse ++ state.readyInsts

/-- The stall list is being drained. -/
def afterStalled : State :=
  { state with dolmaStalledInsts := drain.left, readyInsts := state.handedOn drain }

/-- The list of delayed translations is being drained. -/
def afterDeferred : State :=
  { state with deferredMemInsts := drain.left, readyInsts := state.handedOn drain }

/-- The list of blocked accesses is being drained. -/
def afterBlocked : State :=
  { state with retryMemInsts := drain.left, readyInsts := state.handedOn drain }

end State

/-- The scheduler drains the waiting lists and passes over the ready lists. -/
def scheduleReadyInsts
    (params : Params) (totalWidth : Nat) (translationCompleted : Nat → Bool) (state : State)
    (lists : ReadyLists) : Option Pass := do
  let stalled ← drainStalled state.heap lists state.dolmaStalledInsts
  let state := state.afterStalled stalled
  let deferred ←
    drainDeferred state.heap translationCompleted stalled.out state.deferredMemInsts
  let state := state.afterDeferred deferred
  let blocked ← drainBlocked state.heap deferred.out state.retryMemInsts
  scheduleLoop params totalWidth (state.afterBlocked blocked) blocked.out

/-- The ready lists by class hold the ready instructions. -/
def Sorted (lists : ReadyLists) (state : State) : Prop :=
  ∀ opClass, (lists.readyInsts opClass).Perm
    (state.readyInsts.filter fun seq => (state.heap seq).opClass == opClass)

/-! ## What the scheduler does to the ready instructions -/

namespace State

variable {params : Params} {state next : State} {seq : Nat}

/-- The ready instructions and the classes of the instructions are as given. -/
structure ReadyAs (ready : List Nat) (state next : State) : Prop where
  readyInsts : next.readyInsts = ready
  opClass : ∀ seq, (next.heap seq).opClass = (state.heap seq).opClass

theorem stall_readyAs (state : State) (seq : Nat) :
    ReadyAs state.readyInsts state (state.stall seq) := by
  refine ⟨rfl, fun other => ?_⟩
  unfold stall dolmaStallInst modify
  dsimp only
  split
  · rfl
  · rfl

theorem findUnit_readyAs (params : Params) (state : State) (seq : Nat) :
    ReadyAs state.readyInsts state (state.findUnit params seq).2 := by
  have found := findUnit_foundUnit params state seq
  generalize (state.findUnit params seq).1 = choice at found
  generalize (state.findUnit params seq).2 = searched at found ⊢
  cases found with
  | noCapableFU => exact ⟨rfl, fun _ => rfl⟩
  | noFreeFU => exact ⟨rfl, fun _ => rfl⟩
  | unit => exact ⟨rfl, fun _ => rfl⟩
  | evicted =>
      split
      · exact ⟨rfl, fun _ => rfl⟩
      · exact ⟨rfl, (stall_readyAs state _).opClass⟩

/-- An instruction that issues is no longer ready. -/
theorem issue_readyAs (params : Params) (state : State) (seq : Nat) (unit : Option Nat) :
    ReadyAs (state.readyInsts.erase seq) state (state.issue params seq unit) := by
  constructor
  case readyInsts =>
    have started : (state.start params seq unit).readyInsts = state.readyInsts := by
      unfold start
      dsimp only
      split
      · rfl
      · split
        · rfl
        · rfl
    have popped :
        ((state.start params seq unit).popReady seq).readyInsts = state.readyInsts.erase seq := by
      unfold popReady
      dsimp only
      rw [started]
    unfold issue
    dsimp only
    split
    · exact popped
    · exact popped
  case opClass =>
    intro other
    rw [issue_heap]
    split
    case isTrue same => rw [same]
    case isFalse => rfl

/-- The scheduler takes every instruction off the ready instructions but one that has to
wait. -/
theorem schedule_readyAs (params : Params) (state : State) (seq : Nat) :
    ReadyAs
      (if state.verdict params seq = .waits then state.readyInsts
        else state.readyInsts.erase seq)
      state (state.schedule params seq) := by
  unfold verdict schedule
  dsimp only
  split
  case isTrue =>
    rw [if_neg Verdict.noConfusion]
    exact ⟨rfl, (stall_readyAs (state.popReady seq) seq).opClass⟩
  case isFalse =>
    split
    case isTrue =>
      rw [if_neg Verdict.noConfusion]
      exact ⟨rfl, fun _ => rfl⟩
    case isFalse =>
      have searched := findUnit_readyAs params state seq
      have issued := fun unit => issue_readyAs params (state.findUnit params seq).2 seq unit
      have classes := fun unit other =>
        ((issued unit).opClass other).trans (searched.opClass other)
      have taken := fun unit => (issued unit).readyInsts.trans
        (congrArg (List.erase · seq) searched.readyInsts)
      generalize (state.findUnit params seq).1 = choice
      cases choice with
      | noFreeFU => exact searched
      | noCapableFU => exact ⟨taken none, classes none⟩
      | unit idx => exact ⟨taken (some idx), classes (some idx)⟩

end State

/-! ## A pass is a run -/

variable {lists : ReadyLists} {state next start : State} {params : Params}

namespace Sorted

variable {params : Params} {pass : Pass} {entry : ListOrderEntry}

/-- The pass looks at a ready instruction. -/
theorem top_mem
    (sorted : Sorted pass.lists pass.state) (ordered : Ordered pass.lists)
    (here : pass.current = some entry) :
    pass.lists.top entry.queueType ∈ pass.state.readyInsts ∧
      (pass.state.heap (pass.lists.top entry.queueType)).opClass = entry.queueType := by
  have oldest := ordered.oldest entry (List.mem_of_getElem? here)
  have isIn := (sorted entry.queueType).mem_iff.mp (List.min?_mem oldest)
  rw [Ordered.top_eq oldest]
  obtain ⟨ready, same⟩ := List.mem_filter.mp isIn
  exact ⟨ready, eq_of_beq same⟩

theorem step_schedule
    (sorted : Sorted pass.lists pass.state) (ordered : Ordered pass.lists)
    (here : pass.current = some entry) :
    step params pass.state (.schedule (pass.lists.top entry.queueType)) =
      some (pass.state.schedule params (pass.lists.top entry.queueType)) :=
  if_pos (sorted.top_mem ordered here).1

/-- The instruction leaves the ready instructions. -/
theorem leaves
    (sorted : Sorted pass.lists pass.state) (ordered : Ordered pass.lists)
    (here : pass.current = some entry)
    (leaves : pass.state.verdict params (pass.lists.top entry.queueType) ≠ .waits) :
    Sorted (pass.lists.takeTop pass.orderIt entry)
      (pass.state.schedule params (pass.lists.top entry.queueType)) := by
  have effect := State.schedule_readyAs params pass.state (pass.lists.top entry.queueType)
  rw [if_neg leaves] at effect
  have own := (sorted.top_mem ordered here).2
  intro opClass
  simp only [effect.readyInsts, effect.opClass]
  rw [← List.erase_filter, Ordered.takeTop_readyInsts]
  by_cases same : opClass = entry.queueType
  · subst same
    rw [Function.update_self]
    exact (sorted entry.queueType).erase _
  · rw [Function.update_of_ne same, List.erase_of_not_mem]
    · exact sorted opClass
    · intro isIn
      have other := eq_of_beq (List.mem_filter.mp isIn).2
      exact same (other.symm.trans own)

variable {seq : Nat}

theorem waits (sorted : Sorted lists state) (waits : state.verdict params seq = .waits) :
    Sorted lists (state.schedule params seq) := by
  have effect := State.schedule_readyAs params state seq
  rw [if_pos waits] at effect
  intro opClass
  simp only [effect.readyInsts, effect.opClass]
  exact sorted opClass

theorem addReady
    (sorted : Sorted lists state) (heap : next.heap = state.heap)
    (ready : next.readyInsts = seq :: state.readyInsts) :
    Sorted (Sched.addReady state.heap lists seq) next := by
  intro opClass
  unfold Sched.addReady
  rw [Ordered.addReadyMemInst_readyInsts, heap, ready, List.filter_cons]
  by_cases same : opClass = (state.heap seq).opClass
  · subst same
    rw [Function.update_self, if_pos (beq_self_eq_true _)]
    exact (sorted _).cons seq
  · have other : ¬ ((state.heap seq).opClass == opClass) = true := fun equal =>
      same (eq_of_beq equal).symm
    rw [Function.update_of_ne same, if_neg other]
    exact sorted opClass

end Sorted

/-- A pass over the ready lists is a run of the queue, one event for each instruction that it
looks at. -/
theorem scheduleLoop_run
    (ordered : Ordered lists) (sorted : Sorted lists state) (params : Params) (totalWidth : Nat) :
    ∃ pass, scheduleLoop params totalWidth state lists = some pass ∧
      Reachable (step params) (fun _ _ => True) state pass.state ∧
      Ordered pass.lists ∧ Sorted pass.lists pass.state := by
  let Kept (pass : Pass) : Prop :=
    Reachable (step params) (fun _ _ => True) state pass.state ∧ Sorted pass.lists pass.state
  have looks : ∀ {pass : Pass} {entry : ListOrderEntry}, Ordered pass.lists → Kept pass →
      pass.current = some entry →
      Reachable (step params) (fun _ _ => True) state
        (pass.state.schedule params (pass.lists.top entry.queueType)) := by
    rintro pass entry ordered ⟨reachable, sorted⟩ here
    exact .step _ reachable trivial (sorted.step_schedule ordered here)
  have kept : ∀ pass next : Pass, Ordered pass.lists → Kept pass →
      pass.examine params totalWidth = .inr next → Kept next := by
    intro pass next ordered holds stepped
    cases Pass.examine_inr stepped with
    | leaves here leaves => exact ⟨looks ordered holds here, holds.2.leaves ordered here leaves⟩
    | waits here waits => exact ⟨looks ordered holds here, holds.2.waits waits⟩
    | stalls here stalls =>
        exact ⟨looks ordered holds here, holds.2.leaves ordered here (by simp [stalls])⟩
  obtain ⟨last, pass, stays, holds, returned, finished⟩ :=
    exists_lastExamine ordered params totalWidth state Kept ⟨.init, sorted⟩ kept
  have done := Pass.examine_inl returned
  refine ⟨pass, finished, and_left_comm.mp ⟨done.ordered stays, ?_⟩⟩
  cases done with
  | full => exact holds
  | atEnd => exact holds
  | pastEnd here stalls =>
      exact ⟨looks stays holds here, holds.2.leaves stays here (by simp [stalls])⟩

/-! ## A cycle is a run -/

namespace State

variable (state : State) (params : Params) (drain : Drain Nat ReadyLists) (seq : Nat)

theorem handedOn_hand (give : ReadyLists → Nat → ReadyLists) :
    state.handedOn (drain.hand give seq) = seq :: state.handedOn drain := by
  unfold handedOn Drain.hand
  dsimp only
  rw [List.reverse_append, List.reverse_singleton, List.append_assoc, List.singleton_append]

theorem step_drainStalled
    (taken : Sched.getDolmaStalledInstToExecute state.heap drain.left = some seq) :
    step params (state.afterStalled drain) .drainStalled =
      some (state.afterStalled (drain.hand (addReady state.heap) seq)) := by
  rw [getDolmaStalledInstToExecute_eq] at taken
  unfold afterStalled
  rw [handedOn_hand]
  exact congrArg (Option.map _) taken

theorem step_drainDeferred
    (translationCompleted : Nat → Bool)
    (taken :
      getDeferredMemInstToExecute state.heap translationCompleted drain.left = some seq) :
    step params (state.afterDeferred drain) (.drainDeferred seq) =
      some (state.afterDeferred (drain.hand (addReady state.heap) seq)) := by
  have member :=
    ((getDeferredMemInstToExecute_picks state.heap translationCompleted).passes taken).1
  unfold afterDeferred
  rw [handedOn_hand]
  exact if_pos member

theorem step_drainRetry (taken : getBlockedMemInstToExecute drain.left = some seq) :
    step params (state.afterBlocked drain) .drainRetry =
      some (state.afterBlocked (drain.hand (addReady state.heap) seq)) := by
  obtain ⟨rest, left⟩ := List.head?_eq_some_iff.mp taken
  have erased : (drain.hand (addReady state.heap) seq).left = rest := by
    unfold Drain.hand
    dsimp only
    rw [left, List.erase_cons_head]
  unfold afterBlocked step
  rw [handedOn_hand, erased]
  dsimp only
  rw [left]

end State

/-- A state of the queue reached from another, with the ready lists that belong to it. -/
structure Follows (params : Params) (start state : State) (lists : ReadyLists) : Prop where
  reachable : Reachable (step params) (fun _ _ => True) start state
  ordered : Ordered lists
  sorted : Sorted lists state

/-- An instruction is taken off a waiting list and becomes ready. -/
theorem Follows.hand
    (follows : Follows params start state lists) (seq : Nat)
    (stepped : step params state event = some next) (heap : next.heap = state.heap)
    (ready : next.readyInsts = seq :: state.readyInsts) :
    Follows params start next (addReady state.heap lists seq) where
  reachable := .step event follows.reachable trivial stepped
  ordered := follows.ordered.addReadyMemInst _ seq
  sorted := follows.sorted.addReady heap ready

/-- Draining a waiting list is a run. The state of the queue is a function of what is left on
the list and what has been handed on. -/
theorem Follows.drain
    {take : List Nat → Option Nat} {test : Nat → Bool} {list : List Nat}
    (picks : Drain.Picks take test) (after : Drain Nat ReadyLists → State)
    (heap : ∀ drain, (after drain).heap = state.heap)
    (ready : ∀ drain, (after drain).readyInsts = state.handedOn drain) {event : Nat → Event}
    (stepped : ∀ drain seq, take drain.left = some seq →
      step params (after drain) (event seq) = some (after (drain.hand (addReady state.heap) seq)))
    (follows : Follows params start (after { left := list, out := lists }) lists) :
    ∃ drain, Drain.run take (addReady state.heap) lists list = some drain ∧
      Follows params start (after drain) drain.out := by
  have kept : ∀ drain seq, Follows params start (after drain) drain.out →
      take drain.left = some seq →
      Follows params start (after (drain.hand (addReady state.heap) seq))
        (drain.hand (addReady state.heap) seq).out := by
    intro drain seq follows taken
    have handed : (after (drain.hand (addReady state.heap) seq)).readyInsts =
        seq :: (after drain).readyInsts := by
      rw [ready, ready, State.handedOn_hand]
    have next :=
      follows.hand seq (stepped drain seq taken) ((heap _).trans (heap drain).symm) handed
    rw [heap drain] at next
    exact next
  obtain ⟨drain, finished, follows, -⟩ := Drain.exists_run picks follows kept
  exact ⟨drain, finished, follows⟩

/-- In every cycle the scheduler drains the waiting lists and makes a pass that ends, as a run of
the queue; the ready lists stay by age. -/
theorem scheduleReadyInsts_run
    {lists : ReadyLists} {state : State} (ordered : Ordered lists) (sorted : Sorted lists state)
    (params : Params) (totalWidth : Nat) (translationCompleted : Nat → Bool) :
    ∃ pass,
      scheduleReadyInsts params totalWidth translationCompleted state lists = some pass ∧
        Follows params state pass.state pass.lists := by
  have start : Follows params state state lists := ⟨.init, ordered, sorted⟩
  obtain ⟨stalled, drainedStalled, follows⟩ :=
    Follows.drain (getDolmaStalledInstToExecute_picks state.heap) state.afterStalled
      (fun _ => rfl) (fun _ => rfl) (state.step_drainStalled params) start
  obtain ⟨deferred, drainedDeferred, follows⟩ :=
    Follows.drain (getDeferredMemInstToExecute_picks state.heap translationCompleted)
      (state.afterStalled stalled).afterDeferred (fun _ => rfl) (fun _ => rfl)
      (fun drain seq =>
        (state.afterStalled stalled).step_drainDeferred params drain seq translationCompleted)
      follows
  obtain ⟨blocked, drainedBlocked, follows⟩ :=
    Follows.drain getBlockedMemInstToExecute_picks
      ((state.afterStalled stalled).afterDeferred deferred).afterBlocked
      (fun _ => rfl) (fun _ => rfl)
      (((state.afterStalled stalled).afterDeferred deferred).step_drainRetry params) follows
  obtain ⟨pass, finished, run, stays, matched⟩ :=
    scheduleLoop_run follows.ordered follows.sorted params totalWidth
  refine ⟨pass, ?_, ⟨?_, stays, matched⟩⟩
  · calc
      scheduleReadyInsts params totalWidth translationCompleted state lists
      _ = (drainDeferred state.heap translationCompleted stalled.out
            state.deferredMemInsts).bind fun deferred =>
          (drainBlocked state.heap deferred.out state.retryMemInsts).bind fun blocked =>
            scheduleLoop params totalWidth
              (((state.afterStalled stalled).afterDeferred deferred).afterBlocked blocked)
              blocked.out := congrArg (Option.bind · _) drainedStalled
      _ = (drainBlocked state.heap deferred.out state.retryMemInsts).bind fun blocked =>
            scheduleLoop params totalWidth
              (((state.afterStalled stalled).afterDeferred deferred).afterBlocked blocked)
              blocked.out := congrArg (Option.bind · _) drainedDeferred
      _ = scheduleLoop params totalWidth
            (((state.afterStalled stalled).afterDeferred deferred).afterBlocked blocked)
            blocked.out := congrArg (Option.bind · _) drainedBlocked
      _ = some pass := finished
  · exact follows.reachable.trans run

/-- An instruction waits on the stall list, and is not restricted any more. -/
def oneReleased : State :=
  { initial State.slowUnits (fun _ => none) with dolmaStalledInsts := [4] }

/-- The instruction issues in the cycle. -/
theorem scheduleReadyInsts_run_oneReleased :
    ∃ pass,
      scheduleReadyInsts State.slowUnits 1 (fun _ => false) oneReleased {} = some pass ∧
        pass.totalIssued = 1 ∧ Follows State.slowUnits oneReleased pass.state pass.lists := by
  have issued : (scheduleReadyInsts State.slowUnits 1 (fun _ => false) oneReleased {}).any
      (·.totalIssued == 1) = true := by
    decide +kernel
  have sorted : Sorted {} oneReleased := fun _ => .refl _
  obtain ⟨pass, finished, follows⟩ :=
    scheduleReadyInsts_run Ordered.empty sorted State.slowUnits 1 fun _ => false
  rw [finished] at issued
  exact ⟨pass, finished, eq_of_beq issued, follows⟩

end Sched
end Dolma

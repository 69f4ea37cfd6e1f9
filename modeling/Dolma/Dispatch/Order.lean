import Dolma.Dispatch.Defs
import Dolma.Library.TransitionSystem

/-!
# Dispatch keeps the program order

Without squashes, what a thread has dispatched, its skid buffer and its input queue
together are what has arrived from rename, in that order. Blocking and unblocking only
move the border between the two queues. The one thing that could change the order is
dispatch from the input queue past a skid buffer that is not empty, and a thread that is
running has an empty skid buffer.
-/

namespace Dolma
namespace Dispatch

open Library

namespace Thread

/-- What has been dispatched and what waits, the oldest first. -/
def flow (thread : Thread) : List Inst :=
  thread.dispatched.map (·.1) ++ thread.skidBuffer ++ thread.insts

variable (thread : Thread)

@[simp] theorem flow_skidInsert : thread.skidInsert.flow = thread.flow := by
  simp [flow, skidInsert]

@[simp] theorem flow_block : thread.block.flow = thread.flow := thread.flow_skidInsert

@[simp] theorem flow_blockAgain : thread.blockAgain.flow = thread.flow := thread.flow_block

@[simp] theorem flow_unblock : thread.unblock.flow = thread.flow := by
  unfold unblock
  split <;> rfl

/-- A thread that dispatches from its input queue has nothing in its skid buffer. -/
def SkidFirst (fromSkid : Bool) : Prop :=
  fromSkid = false → thread.skidBuffer = []

variable {thread}
variable {isSquashed : Inst → Bool} {fromSkid : Bool}

/-- The first instruction is the oldest one that waits. -/
theorem flow_insertInst
    (skidFirst : thread.SkidFirst fromSkid)
    (first : thread.instsToDispatch fromSkid = inst :: rest) :
    ((thread.pop fromSkid).insertInst inst).flow = thread.flow := by
  cases fromSkid with
  | true =>
      have skidBuffer : thread.skidBuffer = inst :: rest := first
      simp [flow, insertInst, pop, skidBuffer]
  | false =>
      have insts : thread.insts = inst :: rest := first
      simp [flow, insertInst, pop, insts, skidFirst rfl]

/-- What a part of dispatch does: it keeps the flow, and it blocks or leaves the status
alone. -/
structure Drains (fromSkid : Bool) (thread after : Thread) : Prop where
  flow : after.flow = thread.flow
  status : after.dispatchStatus = .blocked ∨
    after.dispatchStatus = thread.dispatchStatus ∧ after.SkidFirst fromSkid

theorem dispatchLoop_drains
    (signals : Signals) (unsquashed : ∀ inst, isSquashed inst = false) (left disNumInst : Nat)
    (skidFirst : thread.SkidFirst fromSkid) :
    Drains fromSkid thread
      (dispatchLoop signals isSquashed fromSkid left disNumInst thread).1 := by
  induction left generalizing disNumInst thread with
  | zero => exact ⟨rfl, .inr ⟨rfl, skidFirst⟩⟩
  | succ left ih =>
      rw [dispatchLoop]
      cases first : thread.instsToDispatch fromSkid with
      | nil => exact ⟨rfl, .inr ⟨rfl, skidFirst⟩⟩
      | cons inst rest =>
          dsimp only
          rw [unsquashed, if_neg Bool.false_ne_true]
          split
          case isTrue => exact ⟨thread.flow_blockAgain, .inl rfl⟩
          case isFalse =>
            split
            case isTrue => exact ⟨thread.flow_blockAgain, .inl rfl⟩
            case isFalse =>
              have next : ((thread.pop fromSkid).insertInst inst).SkidFirst fromSkid := by
                rintro rfl
                exact skidFirst rfl
              have drains := ih (disNumInst + 1) next
              refine ⟨drains.flow.trans (flow_insertInst skidFirst first), ?_⟩
              have same : ((thread.pop fromSkid).insertInst inst).dispatchStatus =
                  thread.dispatchStatus := by
                cases fromSkid <;> rfl
              rw [← same]
              exact drains.status

/-- A thread that is not squashing, and that has an empty skid buffer unless it is
blocked or unblocking. -/
structure Settled (thread : Thread) : Prop where
  calm : thread.dispatchStatus ≠ .squashing
  running : thread.dispatchStatus ≠ .blocked → thread.dispatchStatus ≠ .unblocking →
    thread.skidBuffer = []

theorem Settled.of_blocked (blocked : thread.dispatchStatus = .blocked) : Settled thread where
  calm := by
    rw [blocked]
    exact Status.noConfusion
  running other := absurd blocked other

/-- What dispatch does: it keeps the flow, and a thread that unblocks still does or is
blocked. -/
structure Dispatched (thread after : Thread) : Prop where
  flow : after.flow = thread.flow
  settled : Settled after
  unblocking : thread.dispatchStatus = .unblocking →
    after.dispatchStatus = .blocked ∨ after.dispatchStatus = .unblocking

theorem dispatchInsts_dispatched
    (dispatchWidth : Nat) (signals : Signals) (unsquashed : ∀ inst, isSquashed inst = false)
    (settled : Settled thread) (unblocked : thread.dispatchStatus ≠ .blocked) :
    Dispatched thread (thread.dispatchInsts dispatchWidth signals isSquashed) := by
  have skidFirst : thread.SkidFirst (thread.dispatchStatus == .unblocking) := by
    intro other
    exact settled.running unblocked (by simpa using other)
  have drains := dispatchLoop_drains signals unsquashed
    (min (thread.instsToDispatch (thread.dispatchStatus == .unblocking)).length dispatchWidth) 0
    skidFirst
  unfold dispatchInsts
  dsimp only
  generalize dispatchLoop signals isSquashed _ _ _ _ = looped at drains ⊢
  -- The queue is used up, or the thread blocks once more.
  have full : ∃ full, (if (looped.1.instsToDispatch
        (thread.dispatchStatus == .unblocking)).isEmpty then looped.1
      else looped.1.blockAgain) = full ∧ Dispatched thread full := by
    refine ⟨_, rfl, ?_⟩
    split
    case isFalse =>
      exact ⟨(flow_blockAgain _).trans drains.flow, .of_blocked rfl, fun _ => .inl rfl⟩
    case isTrue =>
      rcases drains.status with blocked | ⟨same, first⟩
      · exact ⟨drains.flow, .of_blocked blocked, fun _ => .inl blocked⟩
      · refine ⟨drains.flow, ⟨?_, ?_⟩, fun unblocking => .inr (same.trans unblocking)⟩
        · rw [same]
          exact settled.calm
        · intro _ other
          rw [same] at other
          exact first (by simpa using other)
  obtain ⟨full, result, dispatched⟩ := full
  rw [result]
  split
  case isFalse => exact dispatched
  case isTrue idle =>
    have skidBuffer : full.skidBuffer = [] := by
      refine dispatched.settled.running ?_ ?_
      all_goals
        rw [idle.1]
        exact Status.noConfusion
    refine ⟨dispatched.flow, ⟨Status.noConfusion, fun _ _ => skidBuffer⟩, fun unblocking => ?_⟩
    have status := dispatched.unblocking unblocking
    rw [idle.1] at status
    rcases status with blocked | unblocking
    · cases blocked
    · cases unblocking

/-- Unblocking settles a thread. -/
theorem unblock_settled (calm : thread.dispatchStatus ≠ .squashing)
    (running : thread.dispatchStatus ≠ .blocked → thread.dispatchStatus ≠ .unblocking →
      thread.skidBuffer = []) :
    Settled thread.unblock := by
  unfold unblock
  split
  case isTrue empty =>
    exact ⟨Status.noConfusion, fun _ _ => List.isEmpty_iff.mp empty⟩
  case isFalse => exact ⟨calm, running⟩

theorem checkSignalsAndUpdate_settled
    (noSquash : signals.squash = false) (noWalk : signals.robSquashing = false)
    (settled : Settled thread) :
    (thread.checkSignalsAndUpdate signals).flow = thread.flow ∧
      Settled (thread.checkSignalsAndUpdate signals) := by
  unfold checkSignalsAndUpdate
  rw [noSquash, noWalk]
  dsimp only
  rw [if_neg Bool.false_ne_true, if_neg Bool.false_ne_true]
  split
  case isTrue => exact ⟨thread.flow_block, .of_blocked rfl⟩
  case isFalse =>
    split
    case h_1 =>
      refine ⟨flow_unblock _, unblock_settled Status.noConfusion ?_⟩
      exact fun _ other => absurd rfl other
    case h_2 squashing => exact absurd squashing settled.calm
    case h_3 => exact ⟨rfl, settled⟩

theorem dispatch_settled
    (dispatchWidth : Nat) (signals : Signals) (unsquashed : ∀ inst, isSquashed inst = false)
    (valid : Bool) (settled : Settled thread) :
    (thread.dispatch dispatchWidth signals isSquashed valid).flow = thread.flow ∧
      Settled (thread.dispatch dispatchWidth signals isSquashed valid) := by
  unfold dispatch
  split
  case h_1 running | h_2 running =>
    have dispatched := dispatchInsts_dispatched dispatchWidth signals unsquashed settled (by
      rw [running]
      exact Status.noConfusion)
    exact ⟨dispatched.flow, dispatched.settled⟩
  case h_3 unblocking =>
    have dispatched := dispatchInsts_dispatched dispatchWidth signals unsquashed settled (by
      rw [unblocking]
      exact Status.noConfusion)
    dsimp only
    rw [flow_unblock]
    split
    case isFalse =>
      exact ⟨dispatched.flow, unblock_settled dispatched.settled.calm dispatched.settled.running⟩
    case isTrue =>
      refine ⟨(flow_skidInsert _).trans dispatched.flow,
        unblock_settled dispatched.settled.calm fun opened other => ?_⟩
      rcases dispatched.unblocking unblocking with blocked | unblocking
      · exact absurd blocked opened
      · exact absurd unblocking other
  case h_4 | h_5 => exact ⟨rfl, settled⟩

end Thread

/-- The stage, and what has arrived from rename for each thread. -/
structure Stage where
  threads : Nat → Thread := fun _ => {}
  /-- The instructions that have arrived. No function reads them. -/
  received : Nat → List Inst := fun _ => []

/-- One cycle, recorded. -/
def step (dispatchWidth : Nat) (stage : Stage) (cycle : Cycle) : Option Stage :=
  some
    { threads := tick dispatchWidth cycle stage.threads
      received := fun tid => stage.received tid ++ ofThread tid cycle.fromRename }

/-- A cycle without squashes. -/
structure Unsquashed (cycle : Cycle) : Prop where
  squash : ∀ tid, (cycle.signals tid).squash = false
  robSquashing : ∀ tid, (cycle.signals tid).robSquashing = false
  isSquashed : ∀ inst, cycle.isSquashed inst = false

variable {cycle : Cycle}

theorem tickThread_settled
    (dispatchWidth : Nat) (unsquashed : Unsquashed cycle) (tid : Nat) (settled : thread.Settled) :
    (tickThread dispatchWidth cycle tid thread).flow =
        thread.flow ++ ofThread tid cycle.fromRename ∧
      (tickThread dispatchWidth cycle tid thread).Settled := by
  have arrived : (thread.receive (ofThread tid cycle.fromRename)).flow =
      thread.flow ++ ofThread tid cycle.fromRename := by
    simp [Thread.flow, Thread.receive]
  have received : (thread.receive (ofThread tid cycle.fromRename)).Settled :=
    ⟨settled.calm, settled.running⟩
  unfold tickThread
  dsimp only
  split
  case isFalse => exact ⟨arrived, received⟩
  case isTrue =>
    obtain ⟨checkedFlow, checked⟩ := Thread.checkSignalsAndUpdate_settled
      (unsquashed.squash tid) (unsquashed.robSquashing tid) received
    obtain ⟨flow, dispatched⟩ := Thread.dispatch_settled dispatchWidth (cycle.signals tid)
      unsquashed.isSquashed (validInstsFromRename cycle) checked
    exact ⟨flow.trans (checkedFlow.trans arrived), dispatched⟩

/-- The flow of every thread is what has arrived. -/
def Ordered (stage : Stage) : Prop :=
  ∀ tid, (stage.threads tid).flow = stage.received tid ∧ (stage.threads tid).Settled

/-- A cycle without squashes keeps the order. -/
theorem Ordered.step
    (ordered : Ordered stage) (unsquashed : Unsquashed cycle)
    (enabled : step dispatchWidth stage cycle = some next) :
    Ordered next := by
  cases enabled
  intro tid
  obtain ⟨flow, settled⟩ := tickThread_settled dispatchWidth unsquashed tid (ordered tid).2
  rw [(ordered tid).1] at flow
  exact ⟨flow, settled⟩

/-- In every run without squashes, what a thread has dispatched, its skid buffer and its input
queue together are what has arrived from rename. -/
theorem dispatched_append_eq_received
    (dispatchWidth : Nat) {stage : Stage}
    (reached : Reachable (step dispatchWidth) (fun _ cycle => Unsquashed cycle) {} stage)
    (tid : Nat) :
    (stage.threads tid).dispatched.map (·.1) ++ (stage.threads tid).skidBuffer ++
      (stage.threads tid).insts = stage.received tid := by
  have start : Ordered {} := fun tid => ⟨rfl, Status.noConfusion, fun _ _ => rfl⟩
  have ordered : Ordered stage :=
    reached.invariant start fun _ _ _ before unsquashed enabled =>
      before.step unsquashed enabled
  exact (ordered tid).1

/-- A load of the first thread. -/
def loadAt (seqNum : Nat) : Inst where
  seqNum := seqNum
  threadNumber := 0
  staticInst := { isLoad := true }
  single := rfl

/-- Loads arrive while the load queue takes the first one only. -/
def loadQueueFills (fromRename : List Inst) : Cycle where
  fromRename := fromRename
  activeThreads := [0]
  signals := fun _ => { lqFullAt := fun disNumInst => disNumInst != 0 }
  isSquashed := fun _ => false

theorem dispatched_append_eq_received_fullQueue :
    ∃ stage, Reachable (step 2) (fun _ cycle => Unsquashed cycle) {} stage ∧
      (stage.threads 0).skidBuffer.map (·.seqNum) = [3, 4] ∧
      (stage.threads 0).dispatched.map (·.1) ++ (stage.threads 0).skidBuffer ++
        (stage.threads 0).insts = stage.received 0 := by
  have unsquashed : ∀ fromRename, Unsquashed (loadQueueFills fromRename) := fun _ =>
    ⟨fun _ => rfl, fun _ => rfl, fun _ => rfl⟩
  have reached : Reachable (step 2) (fun _ cycle => Unsquashed cycle) {} _ :=
    .step (loadQueueFills [loadAt 4])
      (.step (loadQueueFills [loadAt 1, loadAt 2, loadAt 3]) .init (unsquashed _) rfl)
      (unsquashed _) rfl
  exact ⟨_, reached, by decide, dispatched_append_eq_received 2 reached 0⟩

end Dispatch
end Dolma

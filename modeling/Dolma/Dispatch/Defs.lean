import Dolma.Core.StaticInst

/-!
# The dispatch stage

Renamed instructions reach the stage in an input queue for each thread. The stage
dispatches them in order, as many as its width allows. When a queue behind it is full or
the width is used up, it blocks: the input queue is appended to the skid buffer, and the
skid buffer is drained first once the stage unblocks. Every instruction that leaves the
stage, dispatched or dropped, is reported to rename.

What the queues behind the stage decide is left open: whether they are full is asked
anew for each instruction.
-/

namespace Dolma
namespace Dispatch

/-- An instruction of the stage. No micro-operation both loads and stores. -/
structure Inst where
  seqNum : Nat
  threadNumber : Nat
  staticInst : StaticInst
  single : (staticInst.isLoad && staticInst.isStore) = false

/-- The status of the stage for a thread. -/
inductive Status where
  | running
  | idle
  | squashing
  | blocked
  | unblocking
deriving DecidableEq, Repr

/-- What the stage tells rename about a thread in one cycle. -/
structure IewInfo where
  dispatched : Nat := 0
  dispatchedToLQ : Nat := 0
  dispatchedToSQ : Nat := 0
  iewBlock : Bool := false
  iewUnblock : Bool := false
deriving DecidableEq, Repr

/-- Where a dispatched instruction is inserted. -/
inductive Insertion where
  | insert
  | insertNonSpec
  | insertBarrier
  | nop
deriving DecidableEq, Repr

/-- The state of the stage for a thread. -/
structure Thread where
  dispatchStatus : Status := .running
  insts : List Inst := []
  skidBuffer : List Inst := []
  toRename : IewInfo := {}
  /-- The instructions that rename has been told of in this cycle. No function reads
  them. -/
  reported : List Inst := []
  /-- The instructions that have been dispatched. No function reads them. -/
  dispatched : List (Inst × Insertion) := []

/-- What the other stages and the queues decide in a cycle about a thread. -/
structure Signals where
  squash : Bool := false
  robSquashing : Bool := false
  /-- The instruction queue is full when the signals are checked. -/
  iqFull : Bool := false
  /-- The instruction queue is full when an instruction of the cycle is looked at. -/
  iqFullAt : Nat → Bool := fun _ => false
  lqFullAt : Nat → Bool := fun _ => false
  sqFullAt : Nat → Bool := fun _ => false

namespace Thread

variable (thread : Thread)

/-- Tell rename that an instruction which is not dispatched has been processed. -/
def release (inst : Inst) : Thread :=
  { thread with
    toRename :=
      { thread.toRename with
        dispatchedToLQ :=
          thread.toRename.dispatchedToLQ + if inst.staticInst.isLoad then 1 else 0
        dispatchedToSQ :=
          thread.toRename.dispatchedToSQ + if inst.staticInst.isStore then 1 else 0
        dispatched := thread.toRename.dispatched + 1 }
    reported := thread.reported ++ [inst] }

/-- Append the input queue to the skid buffer. -/
def skidInsert : Thread :=
  { thread with insts := [], skidBuffer := thread.skidBuffer ++ thread.insts }

/-- Block. -/
def block : Thread :=
  let iewBlock :=
    if thread.dispatchStatus ≠ .blocked ∧ thread.dispatchStatus ≠ .unblocking then true
    else thread.toRename.iewBlock
  { skidInsert { thread with toRename := { thread.toRename with iewBlock := iewBlock } } with
    dispatchStatus := .blocked }

/-- Block, and take back that the stage unblocks. -/
def blockAgain : Thread :=
  let blocked := thread.block
  { blocked with toRename := { blocked.toRename with iewUnblock := false } }

/-- The stage has unblocked once the skid buffer is empty. -/
def unblock : Thread :=
  if thread.skidBuffer.isEmpty then
    { thread with
      toRename := { thread.toRename with iewUnblock := true }
      dispatchStatus := .running }
  else thread

/-- Drop the input queue. -/
def emptyRenameInsts : Thread :=
  thread.insts.foldl release { thread with insts := [] }

/-- Drop the skid buffer. -/
def emptySkidBuffer : Thread :=
  thread.skidBuffer.foldl release { thread with skidBuffer := [] }

/-- Squash: the skid buffer is dropped, and then the input queue. -/
def squash : Thread :=
  thread.emptySkidBuffer.emptyRenameInsts

/-- The stage has to stall. -/
def checkStall (signals : Signals) : Bool :=
  signals.robSquashing || signals.iqFull

/-- Read the signals of commit and of the instruction queue. -/
def checkSignalsAndUpdate (signals : Signals) : Thread :=
  if signals.squash then
    let squashed := thread.squash
    let iewUnblock :=
      if squashed.dispatchStatus = .blocked ∨ squashed.dispatchStatus = .unblocking then true
      else squashed.toRename.iewUnblock
    { squashed with
      toRename := { squashed.toRename with iewUnblock := iewUnblock }
      dispatchStatus := .squashing }
  else
    let emptied :=
      if signals.robSquashing then
        emptyRenameInsts { thread with dispatchStatus := .squashing }
      else thread
    if checkStall signals then emptied.block
    else
      match emptied.dispatchStatus with
      | .blocked => unblock { emptied with dispatchStatus := .unblocking }
      | .squashing => { emptied with dispatchStatus := .running }
      | _ => emptied

/-- The queue that instructions are dispatched from. -/
def instsToDispatch (fromSkid : Bool) : List Inst :=
  if fromSkid then thread.skidBuffer else thread.insts

/-- Take the first instruction off the queue. -/
def pop (fromSkid : Bool) : Thread :=
  if fromSkid then { thread with skidBuffer := thread.skidBuffer.tail }
  else { thread with insts := thread.insts.tail }

/-- The branches of dispatch. -/
def insertionOf (inst : StaticInst) : Insertion :=
  let addToIQ := if inst.isNonSpeculative then .insertNonSpec else .insert
  if inst.isLoad then addToIQ
  else if inst.isStore then if inst.isStoreConditional then .insertNonSpec else addToIQ
  else if inst.isMemBarrier || inst.isWriteBarrier then .insertBarrier
  else if inst.isNop then .nop
  else addToIQ

/-- Dispatch an instruction and tell rename. -/
def insertInst (inst : Inst) : Thread :=
  { thread with
    toRename :=
      { thread.toRename with
        dispatchedToLQ :=
          thread.toRename.dispatchedToLQ + if inst.staticInst.isLoad then 1 else 0
        dispatchedToSQ :=
          thread.toRename.dispatchedToSQ +
            if !inst.staticInst.isLoad && inst.staticInst.isStore then 1 else 0
        dispatched := thread.toRename.dispatched + 1 }
    reported := thread.reported ++ [inst]
    dispatched := thread.dispatched ++ [(inst, insertionOf inst.staticInst)] }

/-- The loop over the instructions to dispatch: how many are left to look at, and how
many have been looked at. -/
def dispatchLoop (signals : Signals) (isSquashed : Inst → Bool) (fromSkid : Bool) :
    Nat → Nat → Thread → Thread × Nat
  | 0, disNumInst, thread => (thread, disNumInst)
  | left + 1, disNumInst, thread =>
      match thread.instsToDispatch fromSkid with
      | [] => (thread, disNumInst)
      | inst :: _ =>
          if isSquashed inst then
            dispatchLoop signals isSquashed fromSkid left (disNumInst + 1)
              ((thread.pop fromSkid).release inst)
          else if signals.iqFullAt disNumInst then (thread.blockAgain, disNumInst)
          else if (inst.staticInst.isLoad && signals.lqFullAt disNumInst) ||
              (inst.staticInst.isStore && signals.sqFullAt disNumInst) then
            (thread.blockAgain, disNumInst)
          else
            dispatchLoop signals isSquashed fromSkid left (disNumInst + 1)
              ((thread.pop fromSkid).insertInst inst)

/-- Dispatch from the skid buffer when unblocking, and from the input queue otherwise. -/
def dispatchInsts (dispatchWidth : Nat) (signals : Signals) (isSquashed : Inst → Bool) : Thread :=
  let fromSkid := thread.dispatchStatus == .unblocking
  let looped := dispatchLoop signals isSquashed fromSkid
    (min (thread.instsToDispatch fromSkid).length dispatchWidth) 0 thread
  let full :=
    if (looped.1.instsToDispatch fromSkid).isEmpty then looped.1 else looped.1.blockAgain
  if full.dispatchStatus = .idle ∧ looped.2 ≠ 0 then { full with dispatchStatus := .running }
  else full

/-- Dispatch. Instructions that arrive while the stage unblocks join the skid buffer,
if any of them is not squashed. -/
def dispatch
    (dispatchWidth : Nat) (signals : Signals) (isSquashed : Inst → Bool)
    (validInstsFromRename : Bool) : Thread :=
  match thread.dispatchStatus with
  | .running | .idle => thread.dispatchInsts dispatchWidth signals isSquashed
  | .unblocking =>
      let drained := thread.dispatchInsts dispatchWidth signals isSquashed
      unblock (if validInstsFromRename then drained.skidInsert else drained)
  | .blocked | .squashing => thread

/-- A new cycle: nothing has been said to rename, and the instructions of the thread have
arrived. -/
def receive (arrived : List Inst) : Thread :=
  { thread with insts := thread.insts ++ arrived, toRename := {}, reported := [] }

end Thread

/-- What happens around the stage in one cycle. -/
structure Cycle where
  fromRename : List Inst
  activeThreads : List Nat
  signals : Nat → Signals
  isSquashed : Inst → Bool

/-- The instructions of a thread. -/
def ofThread (tid : Nat) (insts : List Inst) : List Inst :=
  insts.filter fun inst => inst.threadNumber == tid

/-- Some instruction from rename is not squashed. -/
def validInstsFromRename (cycle : Cycle) : Bool :=
  cycle.fromRename.any fun inst => !cycle.isSquashed inst

/-- The work of the stage for a thread in one cycle. -/
def tickThread (dispatchWidth : Nat) (cycle : Cycle) (tid : Nat) (thread : Thread) : Thread :=
  let sorted := thread.receive (ofThread tid cycle.fromRename)
  if cycle.activeThreads.contains tid then
    (sorted.checkSignalsAndUpdate (cycle.signals tid)).dispatch dispatchWidth
      (cycle.signals tid) cycle.isSquashed (validInstsFromRename cycle)
  else sorted

/-- One cycle of the stage. -/
def tick (dispatchWidth : Nat) (cycle : Cycle) (threads : Nat → Thread) : Nat → Thread :=
  fun tid => tickThread dispatchWidth cycle tid (threads tid)

end Dispatch
end Dolma

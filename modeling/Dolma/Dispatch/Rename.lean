import Dolma.Dispatch.Defs
import Dolma.Library.DelayLine

/-!
# Rename in front of dispatch

Rename counts the instructions of a thread that it has sent and that dispatch has not
reported back. From these counts and from the free entries that the later stages report
it decides how many instructions it may send. Both stages act once a cycle, rename first,
and hear of each other over wires with a delay.
-/

namespace Dolma
namespace Dispatch

open Library

/-- The instructions of a thread that rename has sent and that have not been reported
back. -/
structure InProgress where
  insts : Int := 0
  loads : Int := 0
  stores : Int := 0
deriving DecidableEq, Repr

/-- The free entries of the later stages that rename knows of. -/
structure FreeEntries where
  robEntries : Int
  iqEntries : Int
  lqEntries : Int
  sqEntries : Int
deriving DecidableEq, Repr

/-- Free entries less the instructions on their way, as the reports of this cycle have
it. -/
def calcFreeEntries (free inProgress : Int) (dispatched : Nat) : Int :=
  free - (inProgress - dispatched)

/-- The free entries of the reorder buffer. -/
def calcFreeROBEntries (free : FreeEntries) (count : InProgress) (fromIEW : IewInfo) : Int :=
  calcFreeEntries free.robEntries count.insts fromIEW.dispatched

/-- The free entries of the instruction queue. -/
def calcFreeIQEntries (free : FreeEntries) (count : InProgress) (fromIEW : IewInfo) : Int :=
  calcFreeEntries free.iqEntries count.insts fromIEW.dispatched

/-- The free entries of the load queue. -/
def calcFreeLQEntries (free : FreeEntries) (count : InProgress) (fromIEW : IewInfo) : Int :=
  calcFreeEntries free.lqEntries count.loads fromIEW.dispatchedToLQ

/-- The free entries of the store queue. -/
def calcFreeSQEntries (free : FreeEntries) (count : InProgress) (fromIEW : IewInfo) : Int :=
  calcFreeEntries free.sqEntries count.stores fromIEW.dispatchedToSQ

/-- The work of rename in a cycle: what is sent, and the counts of each thread. -/
structure Sending where
  toIEW : List Inst
  inProgress : Nat → InProgress

/-- Count an instruction. -/
def InProgress.add (count : InProgress) (inst : Inst) : InProgress where
  insts := count.insts + 1
  loads := if inst.staticInst.isLoad then count.loads + 1 else count.loads
  stores := if inst.staticInst.isStore then count.stores + 1 else count.stores

/-- Send an instruction of a thread. -/
def Sending.send (sending : Sending) (tid : Nat) (inst : Inst) : Sending where
  toIEW := sending.toIEW ++ [inst]
  inProgress := Function.update sending.inProgress tid ((sending.inProgress tid).add inst)

/-- What rename finds about the instructions of a cycle. -/
structure Verdict where
  isSquashed : Inst → Bool
  /-- There are no registers to rename to, or the instruction has to wait until the
  reorder buffer is empty. -/
  holdsBack : Inst → Bool

/-- The loop over the instructions to rename. -/
def renameLoop
    (renameWidth tid : Nat) (verdict : Verdict) (free : FreeEntries)
    (fromIEW : IewInfo) : Nat → List Inst → Sending → Sending
  | 0, _, sending => sending
  | _ + 1, [], sending => sending
  | instsAvailable + 1, inst :: instsToRename, sending =>
      if sending.toIEW.length < renameWidth then
        let count := sending.inProgress tid
        if (inst.staticInst.isLoad && decide (calcFreeLQEntries free count fromIEW ≤ 0)) ||
            (inst.staticInst.isStore && decide (calcFreeSQEntries free count fromIEW ≤ 0)) then
          sending
        else if verdict.isSquashed inst then
          renameLoop renameWidth tid verdict free fromIEW instsAvailable instsToRename sending
        else if verdict.holdsBack inst then sending
        else
          renameLoop renameWidth tid verdict free fromIEW instsAvailable instsToRename
            (sending.send tid inst)
      else sending

/-- Rename the instructions of a thread, as many as there are free entries. -/
def renameInsts
    (renameWidth tid : Nat) (verdict : Verdict) (free : FreeEntries) (fromIEW : IewInfo)
    (instsToRename : List Inst) (sending : Sending) : Sending :=
  let count := sending.inProgress tid
  let minFreeEntries :=
    min (calcFreeROBEntries free count fromIEW) (calcFreeIQEntries free count fromIEW)
  if minFreeEntries ≤ 0 then sending
  else
    renameLoop renameWidth tid verdict free fromIEW
      (min instsToRename.length minFreeEntries.toNat) instsToRename sending

/-- The instructions that dispatch has reported are no longer in progress. -/
def InProgress.subtract (count : InProgress) (fromIEW : IewInfo) : InProgress where
  insts := count.insts - fromIEW.dispatched
  loads := count.loads - fromIEW.dispatchedToLQ
  stores := count.stores - fromIEW.dispatchedToSQ

/-- What happens around the two stages in one cycle. -/
structure Turn where
  activeThreads : List Nat
  instsToRename : List Inst
  verdict : Verdict
  freeEntries : Nat → FreeEntries
  signals : Nat → Signals
  isSquashed : Inst → Bool

/-- The widths and delays. What a later stage tells an earlier one is read in a later
cycle. -/
structure Params where
  renameWidth : Nat
  dispatchWidth : Nat
  renameToIEWDelay : Nat
  iewToRenameDelay : Nat
  backwards : 0 < iewToRenameDelay

/-- The state of the two stages between cycles. -/
structure Link where
  now : Nat := 0
  renameQueue : Nat → List Inst := fun _ => []
  timeBuffer : Nat → Nat → IewInfo := fun _ _ => {}
  /-- The instructions that dispatch has told rename of in each cycle. No function reads
  them. -/
  reported : Nat → Nat → List Inst := fun _ _ => []
  inProgress : Nat → InProgress := fun _ => {}
  threads : Nat → Thread := fun _ => {}

namespace Link

variable (params : Params) (link : Link) (turn : Turn)

/-- What rename reads from dispatch. -/
def fromIEW (tid : Nat) : IewInfo :=
  ((DelayLine.read params.iewToRenameDelay link.now link.timeBuffer).map (· tid)).getD {}

/-- What rename sends, and its counts before the reports are subtracted. -/
def renameTick : Sending :=
  turn.activeThreads.foldl
    (fun sending tid =>
      renameInsts params.renameWidth tid turn.verdict (turn.freeEntries tid)
        (link.fromIEW params tid) (ofThread tid turn.instsToRename) sending)
    { toIEW := [], inProgress := link.inProgress }

/-- What rename has sent, with this cycle. -/
def sent : Nat → List Inst :=
  Function.update link.renameQueue link.now (link.renameTick params turn).toIEW

/-- The work of dispatch. -/
def iewTick : Nat → Thread :=
  tick params.dispatchWidth
    { fromRename :=
        (DelayLine.read params.renameToIEWDelay link.now (link.sent params turn)).getD []
      activeThreads := turn.activeThreads
      signals := turn.signals
      isSquashed := turn.isSquashed }
    link.threads

/-- One cycle of both stages. -/
def step : Link :=
  let threads := link.iewTick params turn
  { now := link.now + 1
    renameQueue := link.sent params turn
    timeBuffer := Function.update link.timeBuffer link.now fun tid => (threads tid).toRename
    reported := Function.update link.reported link.now fun tid => (threads tid).reported
    inProgress := fun tid =>
      ((link.renameTick params turn).inProgress tid).subtract (link.fromIEW params tid)
    threads := threads }

/-- The state after a sequence of cycles. -/
def run (turns : List Turn) : Link :=
  turns.foldl (step params) {}

end Link

end Dispatch
end Dolma

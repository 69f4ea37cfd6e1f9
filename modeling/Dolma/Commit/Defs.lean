import Dolma.Iew.Defs
import Dolma.Rob.Defs

/-!
# Redirects at commit

The redirect that commit sends to the other stages, computed from a held-back
redirect of the reorder buffer or from the squash signal of the execute stage.
-/

namespace Dolma
namespace Commit

open Iew

/-- What commit sends to the other stages on a squash. -/
structure Redirect where
  doneSeqNum : Nat
  pc : PCState
  mispredictInst : Option Nat
  branchTaken : Bool
  squashInst : Option Nat
deriving DecidableEq, Repr

/-- The direction sent along: an unconditional mispredicted branch is taken. -/
def sentTaken (heap : Heap) (mispredictInst : Option Nat) (branchTaken : Bool) : Bool :=
  branchTaken || mispredictInst.any fun seq => (heap seq).staticInst.isUncondCtrl

/-- The redirect of an instruction that held it back. -/
def pendingRedirect (instList : List Nat) (heap : Heap) (squasher : Nat) : Redirect :=
  let inst := heap squasher
  let squashedInst := if inst.isPendingMemOrder then squasher - 1 else squasher
  let mispredictInst := if inst.isPendingBranch then some squasher else none
  { doneSeqNum := squashedInst
    pc := inst.pc
    mispredictInst := mispredictInst
    branchTaken := sentTaken heap mispredictInst inst.branchTaken
    squashInst := Rob.findInst instList squashedInst }

/-- The redirect of the squash signal of the execute stage. -/
def signalRedirect (instList : List Nat) (heap : Heap) (fromIEW : IewMsg) : Redirect :=
  let squashedInst :=
    if fromIEW.includeSquashInst then fromIEW.squashedSeqNum - 1
    else fromIEW.squashedSeqNum
  { doneSeqNum := squashedInst
    pc := fromIEW.pc
    mispredictInst := fromIEW.mispredictInst
    branchTaken :=
      sentTaken heap fromIEW.mispredictInst fromIEW.branchTaken
    squashInst := Rob.findInst instList squashedInst }

/-- The flags cleared on the instruction whose redirect has been dealt with. -/
def clearRedirectFlags (inst : DynInst) : DynInst :=
  (inst.clearPendingBranch.setStatus .controlInducer false).clearPendingMemOrder

end Commit
end Dolma

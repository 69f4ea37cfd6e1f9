import Dolma.Core.Heap

/-!
# Redirect signals of the execute stage

The execute stage keeps one squash signal a cycle for commit. A branch
misprediction and a memory-order violation register themselves in it unless an
older squash is there already, and mark an unsafe cause as pending.
-/

namespace Dolma
namespace Iew

/-- The message of one cycle from the execute stage to commit. -/
structure IewMsg where
  squash : Bool := false
  squashedSeqNum : Nat := 0
  pc : PCState := ⟨0, 0, 0, 1, 0⟩
  mispredictInst : Option Nat := none
  branchTaken : Bool := false
  includeSquashInst : Bool := false
  insts : List Nat := []
deriving Repr

/-- Register a branch misprediction. -/
def squashDueToBranch (heap : Heap) (toCommit : IewMsg) (seq : Nat) : Heap × IewMsg :=
  let inst := heap seq
  if !toCommit.squash || decide (seq < toCommit.squashedSeqNum) then
    let taken := inst.pc.branching
    (if inst.isControlInducer && inst.isDolmaRestricted then
        heap.modify seq (·.setPendingBranch taken)
      else heap,
      { toCommit with
        squash := true
        squashedSeqNum := seq
        branchTaken := taken
        pc := inst.staticInst.advancePC inst.pc
        mispredictInst := some seq
        includeSquashInst := false })
  else (heap, toCommit)

/-- The flags set on the two parties of a memory-order violation. -/
def flagViolation (config : Config) (heap : Heap) (conflicting violator : Nat) : Heap :=
  if (heap conflicting).isDolmaRestricted && !config.isSTT then
    (heap.modify violator (·.setPendingMemOrder)).modify conflicting
      fun inst => { inst with violator := some violator }
  else if (heap violator).isDolmaRestricted then
    heap.modify violator (·.setPendingMemOrderBy conflicting (heap conflicting))
  else heap

/-- Register a memory-order violation. -/
def squashDueToMemOrder
    (config : Config) (heap : Heap) (toCommit : IewMsg)
    (conflicting violator : Nat) : Heap × IewMsg :=
  if !toCommit.squash || decide (violator ≤ toCommit.squashedSeqNum) then
    (flagViolation config heap conflicting violator,
      { toCommit with
        squash := true
        squashedSeqNum := violator
        pc := (heap violator).pc
        mispredictInst := none
        includeSquashInst := true })
  else (heap, toCommit)

end Iew
end Dolma

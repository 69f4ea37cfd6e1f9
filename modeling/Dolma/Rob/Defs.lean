import Dolma.Core.Heap

/-!
# The reorder buffer

The list of one thread's instructions in program order with the DOLMA passes
over it: classification at insertion, the safe-status update, retirement and the
squash walk from the tail.
-/

namespace Dolma
namespace Rob

/-- White space as the C library classifies it. -/
def isspace (c : Char) : Bool :=
  c.toNat == 32 || (9 ≤ c.toNat && c.toNat ≤ 13)

/-- The first word of the disassembly. -/
def instName (inst : StaticInst) : List Char :=
  (inst.disassembly.dropWhile isspace).takeWhile (· != ' ')

/-- Whether a control instruction induces control speculation. The mnemonic
decides when the direct and conditional flags of the decoder are missing. -/
def inducesControl (inst : StaticInst) : Bool :=
  let hasCtrlInfo :=
    inst.isDirectCtrl != inst.isIndirectCtrl && inst.isUncondCtrl != inst.isCondCtrl
  if hasCtrlInfo then
    !(inst.isDirectCtrl && inst.isUncondCtrl)
  else
    !(!inst.isReturn && "_I".toList.isSuffixOf (instName inst) &&
      (inst.isCall || "JMP".toList.isPrefixOf (instName inst)))

/-- The flags an instruction receives when it enters the reorder buffer behind
the instructions `older`. -/
def classify (config : Config) (older : List Nat) (heap : Heap) (inst : DynInst) : DynInst :=
  if config.isDolma && !inst.isSquashed then
    let restricted :=
      if !config.isDolmaMemOnly &&
          older.any (fun seq => (heap seq).isControlInducer) then
        inst.setStatus .controlRestricted true
      else inst
    if inst.staticInst.isControl && inducesControl inst.staticInst then
      restricted.setStatus .controlInducer true
    else restricted
  else inst

/-- Insert an instruction at the tail of the reorder buffer. -/
def insertInst
    (config : Config) (instList : List Nat) (heap : Heap) (seq : Nat) : List Nat × Heap :=
  (instList ++ [seq], heap.modify seq fun inst =>
      classify config instList heap (inst.setStatus .robEntry true))

/-- Search an instruction of the reorder buffer by sequence number. -/
def findInst (instList : List Nat) (seq : Nat) : Option Nat :=
  instList.find? (· == seq)

/-- The local variables of the safe-status pass. -/
structure SafeScan where
  heap : Heap
  foundUnresolvedBranch : Bool := false
  foundUnresolvedStore : Bool := false
  ydis : List Nat := []
  /-- The oldest load a store of the buffer collided with; `none` stands for the
  largest sequence number. -/
  oldestViolator : Option Nat := none

/-- Clear the restrictions of an instruction that the pass has found safe. -/
def clearRestrictions (scan : SafeScan) (inst : DynInst) : DynInst :=
  let control :=
    if inst.isControlRestricted && !scan.foundUnresolvedBranch then
      inst.setStatus .controlRestricted false
    else inst
  if control.isDataRestricted && !scan.ydis.contains control.ydi then
    control.setStatus .dataRestricted false
  else control

/-- What happens to an instruction that has just become unrestricted, apart from
its own restriction flags. -/
def wakeReleased (config : Config) (inst : DynInst) : DynInst :=
  let metadata :=
    if !config.isSTT && !inst.isDolmaStalled && inst.dolmaVirtualReq then
      inst.setStatus .pendingMetadata true
    else inst
  if metadata.isDolmaStalled then metadata.setStatus .dolmaStalled false
  else metadata

/-- The instruction after its restrictions have been looked at. -/
def releaseInst (config : Config) (scan : SafeScan) (inst : DynInst) : DynInst :=
  if inst.isDolmaRestricted then
    let cleared := clearRestrictions scan inst
    if cleared.isDolmaRestricted then cleared else wakeReleased config cleared
  else inst

/-- The load whose held-back redirect may go ahead because the store that found
it has just become unrestricted. -/
def releasedViolator (config : Config) (scan : SafeScan) (inst : DynInst) : Option Nat :=
  if inst.isDolmaRestricted && !(clearRestrictions scan inst).isDolmaRestricted &&
      !inst.isDolmaStalled && inst.staticInst.isStore && !config.isSTT then
    inst.violator.filter fun seq => !(scan.heap seq).isSquashed
  else none

/-- The first part of the safe-status pass at one instruction: release the
restrictions. -/
def releaseRestricted (config : Config) (scan : SafeScan) (seq : Nat) : SafeScan :=
  let released := scan.heap.modify seq (releaseInst config scan)
  { scan with
    heap :=
      match releasedViolator config scan (scan.heap seq) with
      | some violator =>
          released.modify violator
            (·.setPendingMemOrderBy seq (released seq))
      | none => released }

/-- Whether the pass keeps a data inducer unresolved. -/
def keepsInducer (config : Config) (scan : SafeScan) (seq : Nat) (inst : DynInst) : Bool :=
  config.isDolmaConservative || inst.isPendingMemOrder ||
    (config.isDolmaMemOnly && scan.foundUnresolvedBranch) ||
    (!config.isSTT && (scan.foundUnresolvedStore || scan.oldestViolator.any (· ≤ seq)))

/-- The second part: keep or resolve a data inducer. -/
def resolveInducer (config : Config) (scan : SafeScan) (seq : Nat) : SafeScan :=
  let keeps := keepsInducer config scan seq (scan.heap seq)
  { scan with
    ydis :=
      if (scan.heap seq).isDataInducer && keeps then seq :: scan.ydis
      else scan.ydis
    heap :=
      if (scan.heap seq).isDataInducer && !keeps then
        scan.heap.modify seq (·.setStatus .dataInducer false)
      else scan.heap }

/-- The third part: record an unresolved branch. -/
def recordBranch (scan : SafeScan) (seq : Nat) : SafeScan :=
  { scan with
    foundUnresolvedBranch :=
      scan.foundUnresolvedBranch || (scan.heap seq).isControlInducer }

/-- The stores the last part of the pass looks at. -/
def isTrackedStore (config : Config) (inst : DynInst) : Bool :=
  inst.staticInst.isStore && !inst.isSquashed && !config.isSTT && !config.isDolmaConservative

/-- The load a store collided with is in the reorder buffer and not squashed. -/
def violatorIsLive (instList : List Nat) (heap : Heap) (inst : DynInst) : Bool :=
  (findInst instList inst.violatorSeqNum).any fun violator =>
    !(heap violator).isSquashed

/-- The last part: record what an older store means for the younger loads, and
forget a collision with a load that is gone. -/
def recordStore (config : Config) (instList : List Nat) (scan : SafeScan) (seq : Nat) : SafeScan :=
  let inst := scan.heap seq
  let collided :=
    isTrackedStore config inst && inst.effAddrValid &&
      inst.violatorSeqNum != 0 &&
      scan.oldestViolator.all (inst.violatorSeqNum < ·)
  { scan with
    foundUnresolvedStore :=
      scan.foundUnresolvedStore || (isTrackedStore config inst && !inst.effAddrValid)
    oldestViolator :=
      if collided && violatorIsLive instList scan.heap inst then
        some inst.violatorSeqNum
      else scan.oldestViolator
    heap :=
      if collided && !violatorIsLive instList scan.heap inst then
        scan.heap.modify seq fun inst => { inst with violatorSeqNum := 0 }
      else scan.heap }

/-- The safe-status pass at one instruction. -/
def updateSafeInst
    (config : Config) (instList : List Nat) (scan : SafeScan) (seq : Nat) : SafeScan :=
  recordStore config instList
    (recordBranch
      (resolveInducer config (releaseRestricted config scan seq) seq) seq) seq

/-- The safe-status pass over the reorder buffer. -/
def updateSafeStatus (config : Config) (instList : List Nat) (heap : Heap) : Heap :=
  (instList.foldl (updateSafeInst config instList) { heap := heap }).heap

/-- Retire the head; `none` is a failed assertion. -/
def retireHead (config : Config) (instList : List Nat) (heap : Heap) : Option (List Nat × Heap) :=
  match instList with
  | [] => none
  | head :: rest =>
      let resolved :=
        if (heap head).isDataInducer then
          updateSafeStatus config instList
            (heap.modify head (·.setStatus .dataInducer false))
        else heap
      if (heap head).readyToCommit &&
          (!(heap head).isDataInducer || config.isDolmaConservative) &&
          (resolved head).clearInROBAsserts then
        some (rest, resolved.modify head fun inst =>
          (inst.setStatus .robEntry false).setStatus .committed true)
      else none

/-- The part of the buffer a squash has still to walk, youngest first, with the
sequence number it keeps and whether it is done. -/
structure SquashWalk where
  squashedSeqNum : Nat := 0
  /-- The instructions from the squash iterator to the head. -/
  squashIt : List Nat := []
  doneSquashing : Bool := true

/-- The mark a squash leaves: the instruction drains out of the buffer. -/
def squashMark (inst : DynInst) : DynInst :=
  inst.setSquashed.setStatus .canCommit true

/-- The loop of one squash cycle. -/
def squashLoop (walk : SquashWalk) (heap : Heap) :
    Nat → List Nat → SquashWalk × Heap
  | _, [] => ({ walk with squashIt := [], doneSquashing := true }, heap)
  | width, seq :: older =>
      if seq ≤ walk.squashedSeqNum then
        ({ walk with squashIt := [], doneSquashing := true }, heap)
      else
        match width with
        | 0 => ({ walk with squashIt := seq :: older }, heap)
        | width + 1 =>
            squashLoop walk (heap.modify seq squashMark) width older

/-- One cycle of the squash walk. -/
def doSquash (config : Config) (walk : SquashWalk) (heap : Heap) : SquashWalk × Heap :=
  squashLoop walk heap config.squashWidth walk.squashIt

/-- Start a squash of everything younger than `seq`. -/
def squash
    (config : Config) (instList : List Nat) (seq : Nat) (walk : SquashWalk)
    (heap : Heap) : SquashWalk × Heap :=
  if instList.isEmpty then (walk, heap)
  else
    doSquash config
      { squashedSeqNum := seq
        squashIt := instList.reverse
        doneSquashing := false } heap

end Rob
end Dolma

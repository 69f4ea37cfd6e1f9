import Dolma.Core.PhysReg
import Dolma.Core.StaticInst
import Mathlib.Tactic.Simps.Basic

/-!
# Dynamic instructions

A dynamic instruction carries a bitset of status flags and the data the core
attaches to it. The DOLMA predicates of an instruction are all false once it is
squashed. Instructions live in a heap indexed by their sequence numbers.
-/

namespace Dolma

/-- The status flags of a dynamic instruction. -/
inductive Status where
  | robEntry
  | issued
  | executed
  | canCommit
  | atCommit
  | committed
  | squashed
  | controlInducer
  | dataInducer
  | controlRestricted
  | dataRestricted
  | pendingMemOrder
  | pendingBranch
  | partialStoreBufferHit
  | totalStoreBufferHit
  | dolmaStalled
  | pendingMetadata
deriving DecidableEq, Repr

/-- A dynamic instruction. -/
structure DynInst where
  staticInst : StaticInst := {}
  threadNumber : Nat := 0
  status : Status → Bool := fun _ => false
  /-- Sequence number of the youngest data inducer it depends on, or zero. -/
  ydi : Nat := 0
  /-- For a store, the sequence number of the load it was last found to
  collide with, or zero. -/
  violatorSeqNum : Nat := 0
  /-- For a restricted store, the load whose redirect waits for it. -/
  violator : Option Nat := none
  /-- For a pending load, the oldest store found to collide with it, or zero. -/
  colliderSeqNum : Nat := 0
  colliderPC : BitVec 64 := 0
  pc : PCState := ⟨0, 0, 0, 1, 0⟩
  predPC : PCState := ⟨0, 0, 0, 1, 0⟩
  branchTaken : Bool := false
  srcRegs : List PhysRegId := []
  destRegs : List PhysRegId := []
  readyRegs : Nat := 0
  readySrcRegIdx : Nat → Bool := fun _ => false
  effAddrValid : Bool := false
  effAddr : BitVec 64 := 0
  effSize : BitVec 8 := 0
  strictlyOrdered : Bool := false
  hitExternalSnoop : Bool := false
  fault : Bool := false
  /-- A request kept for a later update of replacement metadata exists. -/
  dolmaVirtualReq : Bool := false

namespace DynInst

variable (inst : DynInst)

/-- Set or reset one status flag. -/
@[simps] def setStatus (flag : Status) (value : Bool) : DynInst :=
  { inst with
    status := fun other => if other = flag then value else inst.status other }

/-- The instruction is squashed. -/
def isSquashed : Bool :=
  inst.status .squashed

/-- The DOLMA predicates hold only of instructions that are not squashed. -/
def isLive (flag : Status) : Bool :=
  !inst.isSquashed && inst.status flag

/-- Unresolved source of control speculation. -/
def isControlInducer : Bool := inst.isLive .controlInducer

/-- Unresolved source of data speculation. -/
def isDataInducer : Bool := inst.isLive .dataInducer

/-- Control dependent on a control inducer. -/
def isControlRestricted : Bool := inst.isLive .controlRestricted

/-- Data dependent on a data inducer. -/
def isDataRestricted : Bool := inst.isLive .dataRestricted

/-- Holds back a memory-order redirect. -/
def isPendingMemOrder : Bool := inst.isLive .pendingMemOrder

/-- Holds back a branch redirect. -/
def isPendingBranch : Bool := inst.isLive .pendingBranch

/-- Stalled by DOLMA. -/
def isDolmaStalled : Bool := inst.isLive .dolmaStalled

/-- Restricted by control or by data. -/
def isDolmaRestricted : Bool :=
  !inst.isSquashed && (inst.isControlRestricted || inst.isDataRestricted)

/-- The instruction has executed. -/
def isExecuted : Bool := inst.status .executed

/-- The instruction is ready to commit. -/
def readyToCommit : Bool := inst.status .canCommit

/-- Mark a memory-order redirect as held back. -/
def setPendingMemOrder : DynInst :=
  (inst.setStatus .pendingMemOrder true).setStatus .canCommit false

/-- Mark a memory-order redirect as held back and record the oldest colliding
store. -/
def setPendingMemOrderBy (store : Nat) (storeInst : DynInst) : DynInst :=
  if inst.colliderSeqNum = 0 ∨ store < inst.colliderSeqNum then
    { inst.setPendingMemOrder with
      colliderSeqNum := store
      colliderPC := storeInst.pc.pc }
  else inst.setPendingMemOrder

/-- Release a held-back memory-order redirect. -/
def clearPendingMemOrder : DynInst :=
  (inst.setStatus .pendingMemOrder false).setStatus .canCommit true

/-- Mark a branch redirect as held back. -/
def setPendingBranch (taken : Bool) : DynInst :=
  { inst with branchTaken := taken }.setStatus .pendingBranch true

/-- Release a held-back branch redirect. -/
def clearPendingBranch : DynInst :=
  (inst.setStatus .pendingBranch false).setStatus .canCommit true

/-- Stall the instruction: pending redirects are dropped with its results. -/
def setDolmaStalled : DynInst :=
  { (((inst.setStatus .pendingMemOrder false).setStatus
      .pendingBranch false).setStatus .dolmaStalled true) with
    dolmaVirtualReq := false }

/-- Squash the instruction. -/
def setSquashed : DynInst :=
  { inst.setStatus .squashed true with dolmaVirtualReq := false }

/-- The assertions made when an instruction leaves the reorder buffer. -/
def clearInROBAsserts : Bool :=
  !inst.isPendingMemOrder && !inst.isPendingBranch &&
    !inst.isControlInducer && !inst.isDataInducer &&
    !inst.isDolmaRestricted && !inst.isDolmaStalled

/-- The actual next program counter differs from the predicted one. -/
def mispredicted : Bool :=
  !(inst.staticInst.advancePC inst.pc).same inst.predPC

variable {flag : Status}

section Flags

/-- A flag that is set is live unless squashed. -/
@[simp] theorem isLive_setStatus_self (unsquashed : flag ≠ .squashed) (value : Bool) :
    (inst.setStatus flag value).isLive flag = (!inst.isSquashed && value) := by
  simp [isLive, isSquashed, unsquashed.symm]

@[simp] theorem isLive_setStatus_of_ne
    (distinct : other ≠ flag) (unsquashed : flag ≠ .squashed) (value : Bool) :
    (inst.setStatus flag value).isLive other = inst.isLive other := by
  simp [isLive, isSquashed, distinct, unsquashed.symm]

/-- Other flags squash nothing. -/
@[simp] theorem isSquashed_setStatus (unsquashed : flag ≠ .squashed) (value : Bool) :
    (inst.setStatus flag value).isSquashed = inst.isSquashed := by
  simp [isSquashed, unsquashed.symm]

/-- A flag that is live belongs to an instruction that is not squashed. -/
theorem isSquashed_of_isLive (live : inst.isLive flag = true) : inst.isSquashed = false := by
  simp only [isLive, Bool.and_eq_true, Bool.not_eq_eq_eq_not, Bool.not_true] at live
  exact live.1

/-- Restriction is control or data restriction. -/
theorem isDolmaRestricted_eq :
    inst.isDolmaRestricted = (inst.isControlRestricted || inst.isDataRestricted) := by
  cases squashed : inst.isSquashed <;>
    simp [isDolmaRestricted, isControlRestricted, isDataRestricted, isLive, squashed]

end Flags

section Agreement

/-- Two versions of an instruction agree on everything but the listed status
flags, the metadata request and the record of memory-order collisions. -/
structure Agrees (flags : List Status) (before after : DynInst) : Prop where
  status : ∀ flag, flag ∉ flags → after.status flag = before.status flag
  staticInst : after.staticInst = before.staticInst
  threadNumber : after.threadNumber = before.threadNumber
  ydi : after.ydi = before.ydi
  violator : after.violator = before.violator
  pc : after.pc = before.pc
  predPC : after.predPC = before.predPC
  branchTaken : after.branchTaken = before.branchTaken
  srcRegs : after.srcRegs = before.srcRegs
  destRegs : after.destRegs = before.destRegs
  readyRegs : after.readyRegs = before.readyRegs
  readySrcRegIdx : after.readySrcRegIdx = before.readySrcRegIdx
  effAddrValid : after.effAddrValid = before.effAddrValid
  effAddr : after.effAddr = before.effAddr
  effSize : after.effSize = before.effSize
  strictlyOrdered : after.strictlyOrdered = before.strictlyOrdered
  hitExternalSnoop : after.hitExternalSnoop = before.hitExternalSnoop
  fault : after.fault = before.fault

theorem Agrees.refl (flags : List Status) (inst : DynInst) : Agrees flags inst inst := by
  constructor <;> intros <;> rfl

variable {flags : List Status} {before after : DynInst}

theorem Agrees.trans (left : Agrees flags first second) (right : Agrees flags second third) :
    Agrees flags first third where
  status flag unlisted :=
    (right.status flag unlisted).trans (left.status flag unlisted)
  staticInst := right.staticInst.trans left.staticInst
  threadNumber := right.threadNumber.trans left.threadNumber
  ydi := right.ydi.trans left.ydi
  violator := right.violator.trans left.violator
  pc := right.pc.trans left.pc
  predPC := right.predPC.trans left.predPC
  branchTaken := right.branchTaken.trans left.branchTaken
  srcRegs := right.srcRegs.trans left.srcRegs
  destRegs := right.destRegs.trans left.destRegs
  readyRegs := right.readyRegs.trans left.readyRegs
  readySrcRegIdx := right.readySrcRegIdx.trans left.readySrcRegIdx
  effAddrValid := right.effAddrValid.trans left.effAddrValid
  effAddr := right.effAddr.trans left.effAddr
  effSize := right.effSize.trans left.effSize
  strictlyOrdered := right.strictlyOrdered.trans left.strictlyOrdered
  hitExternalSnoop := right.hitExternalSnoop.trans left.hitExternalSnoop
  fault := right.fault.trans left.fault

/-- Agreeing flags are live alike. -/
theorem Agrees.isLive
    (agrees : Agrees flags before after) (flag : Status) (squashedKept : Status.squashed ∉ flags)
    (kept : flag ∉ flags) :
    after.isLive flag = before.isLive flag := by
  simp only [DynInst.isLive, isSquashed, agrees.status _ squashedKept, agrees.status _ kept]

theorem Agrees.isSquashed
    (agrees : Agrees flags before after) (squashedKept : Status.squashed ∉ flags) :
    after.isSquashed = before.isSquashed :=
  agrees.status _ squashedKept

theorem Agrees.mono (agrees : Agrees flags before after) (contained : flags ⊆ larger) :
    Agrees larger before after :=
  { agrees with
    status := fun flag unlisted =>
      agrees.status flag fun listed => unlisted (contained listed) }

theorem agrees_setStatus (listed : flag ∈ flags) (value : Bool) (inst : DynInst) :
    Agrees flags inst (inst.setStatus flag value) := by
  refine { Agrees.refl flags inst with status := ?_ }
  intro other unlisted
  have distinct : other ≠ flag := fun same => unlisted (same ▸ listed)
  simp [distinct]

/-- A listed flag may also be set under a condition. -/
theorem Agrees.ite_setStatus
    (agrees : Agrees flags before after) (listed : flag ∈ flags) (value : Bool) {p : Prop}
    [Decidable p] : Agrees flags before (if p then after.setStatus flag value else after) := by
  split
  · exact agrees.trans (agrees_setStatus listed value after)
  · exact agrees

end Agreement

end DynInst

end Dolma

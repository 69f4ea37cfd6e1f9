import Dolma.Core.PhysReg
import Mathlib.Logic.Function.Basic

/-!
# Register renaming and the register-to-producer table

The rename maps of all threads, the free lists and the history buffers, together
with the table that names the producer of each physical register. The table is
written when a destination is renamed and again when the instruction is
dispatched, and it is not rolled back on a squash. Vector registers are renamed
as whole registers.
-/

namespace Dolma
namespace Rename

/-- The sizes of the register file and of the architectural state. -/
structure Sizes where
  numPhysicalIntRegs : Nat
  numPhysicalFloatRegs : Nat
  numPhysicalVecRegs : Nat
  numPhysicalCCRegs : Nat
  numIntRegs : Nat
  numFloatRegs : Nat
  numVecRegs : Nat
  numCCRegs : Nat
  activeThreads : Nat

/-- Lanes of a vector register. -/
def numVecElemPerVecReg : Nat := 2

/-- The physical registers of a class, numbered from a flat index on. -/
def regRange (regClass : RegClass) (count flat : Nat) : List PhysRegId :=
  (List.range count).map fun index =>
    { regClass := regClass, regIdx := index, flatIdx := flat + index }

/-- The first flat index of a class: the classes follow each other in the
unified space, and the lanes come between the vector and the condition-code
registers. -/
def firstFlatIdx (sizes : Sizes) : RegClass → Nat
  | .int => 0
  | .float => sizes.numPhysicalIntRegs
  | .vec => sizes.numPhysicalIntRegs + sizes.numPhysicalFloatRegs
  | .vecElem =>
      sizes.numPhysicalIntRegs + sizes.numPhysicalFloatRegs + sizes.numPhysicalVecRegs
  | .cc =>
      sizes.numPhysicalIntRegs + sizes.numPhysicalFloatRegs +
        sizes.numPhysicalVecRegs + sizes.numPhysicalVecRegs * numVecElemPerVecReg
  | .misc => 0

/-- The number of physical registers of a class that are renamed. -/
def numPhysicalRegs (sizes : Sizes) : RegClass → Nat
  | .int => sizes.numPhysicalIntRegs
  | .float => sizes.numPhysicalFloatRegs
  | .vec => sizes.numPhysicalVecRegs
  | .cc => sizes.numPhysicalCCRegs
  | .vecElem | .misc => 0

/-- The physical registers of a class that are renamed. -/
def regIds (sizes : Sizes) (regClass : RegClass) : List PhysRegId :=
  regRange regClass (numPhysicalRegs sizes regClass) (firstFlatIdx sizes regClass)

/-- Misc registers have a fixed mapping but still need identifiers. -/
def getMiscRegId (index : Nat) : PhysRegId :=
  { regClass := .misc, regIdx := index, flatIdx := 0 }

/-- The architectural zero register. -/
def zeroId : RegId := { regClass := .int, regIdx := zeroReg }

/-- The architectural registers of a class. -/
def archRange (regClass : RegClass) (count : Nat) : List RegId :=
  (List.range count).map fun index => { regClass := regClass, regIdx := index }

/-- The architectural registers that have a mapping, in the order in which they
are mapped first. -/
def archRegs (sizes : Sizes) : List RegId :=
  archRange .int sizes.numIntRegs ++ archRange .float sizes.numFloatRegs ++
    archRange .vec sizes.numVecRegs ++ archRange .cc sizes.numCCRegs

/-- The threads. -/
def threads (sizes : Sizes) : List Nat := List.range sizes.activeThreads

/-- An instruction, by its thread and sequence number. -/
abbrev Inst := Nat × Nat

/-- An entry of the history buffer. -/
structure RenameHistory where
  instSeqNum : Nat
  archReg : RegId
  newPhysReg : PhysRegId
  prevPhysReg : PhysRegId
deriving DecidableEq

/-- The entry is really a change, and not of a misc or the zero register. -/
def RenameHistory.isChange (entry : RenameHistory) : Bool :=
  entry.newPhysReg != entry.prevPhysReg

/-- The state of renaming. -/
structure State where
  renameMap : Nat → RegId → PhysRegId := fun _ _ => getMiscRegId 0
  freeList : RegClass → List PhysRegId
  historyBuffer : Nat → List RenameHistory := fun _ => []
  regToProducerInst : Nat → Option Inst := fun _ => none
  dispatchQueue : Nat → List (Nat × List PhysRegId) := fun _ => []
  lastRenamed : Nat → Nat := fun _ => 0
  /-- History: the instruction that most recently renamed one of its destinations
  to a physical register. -/
  lastRenamer : PhysRegId → Option Inst := fun _ => none

/-- Map an architectural register. -/
def setEntry (state : State) (thread : Nat) (reg : RegId) (phys : PhysRegId) : State :=
  { state with
    renameMap := Function.update state.renameMap thread
      (Function.update (state.renameMap thread) reg phys) }

/-- The physical register of an architectural register. Misc registers keep the
same mapping throughout the execution. -/
def lookup (state : State) (thread : Nat) (reg : RegId) : PhysRegId :=
  if reg.regClass = .misc then getMiscRegId reg.regIdx
  else state.renameMap thread reg

/-- Put a register on the free list of its class. -/
def addReg (state : State) (phys : PhysRegId) : State :=
  { state with
    freeList := Function.update state.freeList phys.regClass
      (state.freeList phys.regClass ++ [phys]) }

/-- Take a register for an architectural register of its class. -/
def takeReg (state : State) (thread : Nat) (reg : RegId) : Option (PhysRegId × State) :=
  match state.freeList reg.regClass with
  | [] => none
  | phys :: rest =>
      some (phys,
        setEntry { state with
          freeList := Function.update state.freeList reg.regClass rest }
          thread reg phys)

/-- Map an architectural register for the first time. The zero register is shared
amongst threads. -/
def mapFirst (state : State) (slot : Nat × RegId) : Option State :=
  if slot.1 != 0 && slot.2 == zeroId then
    some (setEntry state slot.1 slot.2 (state.renameMap 0 zeroId))
  else (takeReg state slot.1 slot.2).map Prod.snd

/-- Every architectural register of every thread. -/
def slots (sizes : Sizes) : List (Nat × RegId) :=
  (threads sizes).flatMap fun thread => (archRegs sizes).map fun reg => (thread, reg)

/-- The state after construction, if there are enough physical registers. -/
def initial (sizes : Sizes) : Option State :=
  (slots sizes).foldlM mapFirst { freeList := regIds sizes }

/-- Rename one register: the new and the previous physical register. Lanes are
not renamed while whole vector registers are. -/
def renameReg (state : State) (thread : Nat) (reg : RegId) :
    Option ((PhysRegId × PhysRegId) × State) :=
  let prev := lookup state thread reg
  if reg.regClass = .vecElem then none
  else if reg.regClass = .misc ∨ reg = zeroId then some ((prev, prev), state)
  else (takeReg state thread reg).map fun taken => ((taken.1, prev), taken.2)

/-- Record the producer of a register that is being renamed. -/
def recordProducer (state : State) (inst : Inst) (phys : PhysRegId) : State :=
  { state with
    regToProducerInst :=
      Function.update state.regToProducerInst phys.flatIdx (some inst)
    lastRenamer := Function.update state.lastRenamer phys (some inst) }

/-- Push an entry on the history buffer. -/
def pushHistory (state : State) (thread : Nat) (entry : RenameHistory) : State :=
  { state with
    historyBuffer := Function.update state.historyBuffer thread
      (entry :: state.historyBuffer thread) }

/-- Rename one destination, and add its physical register to those renamed so
far. -/
def renameDestReg
    (inst : Inst) (done : State × List PhysRegId) (reg : RegId) : Option (State × List PhysRegId) :=
  (renameReg done.1 inst.1 reg).map fun result =>
    (pushHistory (recordProducer result.2 inst result.1.1) inst.1
      { instSeqNum := inst.2, archReg := reg
        newPhysReg := result.1.1, prevPhysReg := result.1.2 },
      done.2 ++ [result.1.1])

/-- Rename the destinations of an instruction. -/
def renameDestRegs (state : State) (inst : Inst) (dests : List RegId) :
    Option (State × List PhysRegId) :=
  dests.foldlM (renameDestReg inst) (state, [])

/-- Replace the history buffer of a thread. -/
def setHistory (state : State) (thread : Nat) (history : List RenameHistory) : State :=
  { state with
    historyBuffer := Function.update state.historyBuffer thread history }

/-- Undo a mapping and free its register. -/
def undo (state : State) (thread : Nat) (entry : RenameHistory) : State :=
  if entry.isChange then
    addReg (setEntry state thread entry.archReg entry.prevPhysReg)
      entry.newPhysReg
  else state

/-- Go through the most recent entries, undoing the mappings of the instructions
that are too young. -/
def undoYounger (keep thread : Nat) : List RenameHistory → State → State
  | [], state => state
  | entry :: rest, state =>
      if keep < entry.instSeqNum then
        undoYounger keep thread rest
          (setHistory (undo state thread entry) thread rest)
      else state

/-- Squash the renames of a thread. -/
def doSquash (state : State) (keep thread : Nat) : State :=
  undoYounger keep thread (state.historyBuffer thread) state

/-- Free the register that a committed entry replaced. -/
def release (state : State) (entry : RenameHistory) : State :=
  if entry.isChange then addReg state entry.prevPhysReg else state

/-- Commit the oldest entries up to an instruction; the list is the buffer from
its end. -/
def releaseOlder (committed thread : Nat) : List RenameHistory → State → State
  | [], state => state
  | entry :: rest, state =>
      if entry.instSeqNum ≤ committed then
        releaseOlder committed thread rest
          (setHistory (release state entry) thread rest.reverse)
      else state

/-- Remove the renames of committed instructions of a thread. -/
def removeFromHistory (state : State) (committed thread : Nat) : State :=
  releaseOlder committed thread (state.historyBuffer thread).reverse state

/-- Record an instruction as the producer of a destination at dispatch. Registers
with a fixed mapping are not tracked. -/
def addToProducer (inst : Inst) (state : State) (dest : PhysRegId) : State :=
  if dest.isFixedMapping then state
  else { state with
    regToProducerInst :=
      Function.update state.regToProducerInst dest.flatIdx (some inst) }

/-- What happens to the registers. -/
inductive Event where
  | rename (thread seq : Nat) (dests : List RegId)
  | dispatch (thread : Nat)
  | squash (thread keep : Nat)
  | commit (thread committed : Nat)

/-- The step function. Only dispatched instructions commit. -/
def step (sizes : Sizes) (state : State) : Event → Option State
  | .rename thread seq dests =>
      if thread < sizes.activeThreads ∧ state.lastRenamed thread < seq ∧
          (∀ reg ∈ dests, reg ∈ archRegs sizes ∨ reg.regClass = .misc) then
        (renameDestRegs state (thread, seq) dests).map fun renamed =>
          { renamed.1 with
            lastRenamed := Function.update state.lastRenamed thread seq
            dispatchQueue := Function.update state.dispatchQueue thread
              (state.dispatchQueue thread ++ [(seq, renamed.2)]) }
      else none
  | .dispatch thread =>
      match state.dispatchQueue thread with
      | [] => none
      | (seq, dests) :: rest =>
          some { dests.foldl (addToProducer (thread, seq)) state with
            dispatchQueue := Function.update state.dispatchQueue thread rest }
  | .squash thread keep =>
      some { doSquash state keep thread with
        dispatchQueue := Function.update state.dispatchQueue thread
          ((state.dispatchQueue thread).filter fun entry => decide (entry.1 ≤ keep)) }
  | .commit thread committed =>
      if (∀ entry ∈ state.dispatchQueue thread, committed < entry.1) then
        some (removeFromHistory state committed thread)
      else none

/-- The physical registers that are currently mapped or await their release. -/
def liveRegs (sizes : Sizes) (state : State) : List PhysRegId :=
  (slots sizes).map (fun slot => lookup state slot.1 slot.2) ++
    (threads sizes).flatMap fun thread =>
      ((state.historyBuffer thread).filter (·.isChange)).map (·.prevPhysReg)

end Rename
end Dolma

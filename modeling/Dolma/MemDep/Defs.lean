import Dolma.Core.Heap

/-!
# The memory dependence unit

The unit of one thread. A load or store waits for the barrier in flight or for
the store the predictor names, found through one lookup, and is moved to the
ready list once its registers and its memory dependence are resolved. The
predictor and the order in which the core calls the unit are outside: the events
carry what they decide.
-/

namespace Dolma
namespace MemDep

/-- The entry of an instruction. -/
structure MemDepEntry where
  regsReady : Bool := false
  memDepReady : Bool := false
  squashed : Bool := false
  dependInsts : List Nat := []

/-- The state of the unit. -/
structure State where
  heap : Heap
  entries : Nat → MemDepEntry := fun _ => {}
  instList : List Nat := []
  loadBarrier : Bool := false
  loadBarrierSN : Nat := 0
  storeBarrier : Bool := false
  storeBarrierSN : Nat := 0
  instsToReplay : List Nat := []
  /-- Everything that has been moved to the ready list, the latest first. -/
  readyList : List Nat := []
  lastInserted : Nat := 0
  /-- History: the barriers of its kind that were in flight when an instruction
  was inserted. -/
  insertedBehind : Nat → List Nat := fun _ => []

/-- What is called on the unit. -/
inductive Event where
  /-- Insert a load or store, given the store the predictor names and whether its
  registers are ready. -/
  | insert (seq predicted : Nat) (readyToIssue : Bool)
  | insertNonSpec (seq : Nat)
  | insertBarrier (seq : Nat)
  | regsReady (seq : Nat)
  | nonSpecInstReady (seq : Nat)
  | reschedule (seq : Nat)
  | replay
  | wakeDependents (seq : Nat)
  | completed (seq : Nat)
  | completeBarrier (seq : Nat)
  | squash (keep : Nat)
  /-- The rest of the core changes an instruction, its restriction flags
  included. -/
  | elsewhere (seq : Nat) (inst : DynInst)

/-- A load or a store, and not both. -/
def isAccess (inst : StaticInst) : Bool :=
  inst.isLoad != inst.isStore

/-- A memory barrier that is no access itself, which orders loads. -/
def ordersLoads (inst : StaticInst) : Bool :=
  !inst.isMemRef && inst.isMemBarrier

/-- A memory or write barrier that is no access itself, which orders stores. -/
def isBarrier (inst : StaticInst) : Bool :=
  !inst.isMemRef && (inst.isMemBarrier || inst.isWriteBarrier)

/-- Memory barriers block loads and stores, write barriers only stores. -/
def orders (barrier access : StaticInst) : Bool :=
  (access.isLoad && ordersLoads barrier) || (access.isStore && isBarrier barrier)

/-- The barriers in flight that order an access. -/
def barriersInFlight (state : State) (seq : Nat) : List Nat :=
  state.instList.filter fun barrier =>
    orders (state.heap barrier).staticInst (state.heap seq).staticInst

/-- Replace an entry. -/
def setEntry (state : State) (seq : Nat) (change : MemDepEntry → MemDepEntry) : State :=
  { state with
    entries := fun other =>
      if other = seq then change (state.entries other) else state.entries other }

/-- Move an instruction to the ready list of the instruction queue. -/
def moveToReady (state : State) (seq : Nat) : State :=
  { state with readyList := seq :: state.readyList }

/-- A fresh entry at the end of the list. -/
def addEntry (state : State) (seq : Nat) : State :=
  { setEntry state seq fun _ => {} with
    instList := state.instList ++ [seq]
    lastInserted := seq
    insertedBehind := fun other =>
      if other = seq then barriersInFlight state seq
      else state.insertedBehind other }

/-- The producer the unit looks up for an access. -/
def producingStore (state : State) (seq predicted : Nat) : Nat :=
  if (state.heap seq).staticInst.isLoad && state.loadBarrier then
    state.loadBarrierSN
  else if (state.heap seq).staticInst.isStore && state.storeBarrier then
    state.storeBarrierSN
  else predicted

/-- The entry an access has to wait for. Restricted memory dependences do not
stall instructions. -/
def storeEntry (state : State) (seq predicted : Nat) : Option Nat :=
  let producer := producingStore state seq predicted
  if producer != 0 && (state.instList ++ [seq]).contains producer &&
      !(state.heap producer).isDolmaRestricted then some producer
  else none

/-- Insert a load or store. -/
def insert (state : State) (seq predicted : Nat) (readyToIssue : Bool) : State :=
  let added := addEntry state seq
  match storeEntry state seq predicted with
  | none =>
      let resolved := setEntry added seq fun entry =>
        { entry with memDepReady := true, regsReady := readyToIssue }
      if readyToIssue then moveToReady resolved seq else resolved
  | some producer =>
      setEntry
        (setEntry added seq fun entry => { entry with regsReady := readyToIssue })
        producer fun entry =>
          { entry with dependInsts := entry.dependInsts ++ [seq] }

/-- Insert a barrier. -/
def insertBarrier (state : State) (seq : Nat) : State :=
  let inst := (state.heap seq).staticInst
  let added := addEntry state seq
  if inst.isMemBarrier then
    { added with
      loadBarrier := true, loadBarrierSN := seq
      storeBarrier := true, storeBarrierSN := seq }
  else { added with storeBarrier := true, storeBarrierSN := seq }

/-- The registers of an instruction have become ready. -/
def regsReady (state : State) (seq : Nat) : State :=
  let marked := setEntry state seq fun entry => { entry with regsReady := true }
  if (state.entries seq).memDepReady then moveToReady marked seq else marked

/-- Wake one dependent instruction. -/
def wakeOne (state : State) (woken : Nat) : State :=
  if (state.entries woken).regsReady && !(state.entries woken).squashed then
    moveToReady state woken
  else setEntry state woken fun entry => { entry with memDepReady := true }

/-- Replay all waiting accesses. -/
def replay (state : State) : State :=
  state.instsToReplay.foldl moveToReady { state with instsToReplay := [] }

/-- Only stores and barriers have dependents. -/
def hasDependents (inst : StaticInst) : Bool :=
  inst.isStore || inst.isMemBarrier || inst.isWriteBarrier

/-- Wake the instructions that wait for an entry. -/
def wakeDependents (state : State) (seq : Nat) : State :=
  if hasDependents (state.heap seq).staticInst then
    setEntry ((state.entries seq).dependInsts.foldl wakeOne state) seq
      fun entry => { entry with dependInsts := [] }
  else state

/-- Remove a completed instruction. -/
def complete (state : State) (seq : Nat) : State :=
  { state with instList := state.instList.erase seq }

/-- Complete a barrier. -/
def completeBarrier (state : State) (seq : Nat) : State :=
  let inst := (state.heap seq).staticInst
  let done := complete (wakeDependents state seq) seq
  { done with
    loadBarrier :=
      done.loadBarrier && !(inst.isMemBarrier && done.loadBarrierSN == seq)
    storeBarrier := done.storeBarrier && !(done.storeBarrierSN == seq) }

/-- Squash the instructions at the end of the list that are too young. -/
def squash (state : State) (keep : Nat) : State :=
  let removed := state.instList.reverse.takeWhile (decide <| keep < ·)
  { state with
    instsToReplay := state.instsToReplay.filter (decide <| · ≤ keep)
    instList := (state.instList.reverse.dropWhile (decide <| keep < ·)).reverse
    loadBarrier := state.loadBarrier && !removed.contains state.loadBarrierSN
    storeBarrier := state.storeBarrier && !removed.contains state.storeBarrierSN
    entries := fun seq =>
      if removed.contains seq then
        { state.entries seq with squashed := true }
      else state.entries seq }

/-- The step function. Instructions are inserted in program order; barriers and
non-speculative accesses execute when they are the oldest; an access is replayed
or completes only after it was ready. -/
def step (state : State) : Event → Option State
  | .insert seq predicted readyToIssue =>
      if state.lastInserted < seq && isAccess (state.heap seq).staticInst then
        some (insert state seq predicted readyToIssue)
      else none
  | .insertNonSpec seq =>
      if state.lastInserted < seq && isAccess (state.heap seq).staticInst then
        some (addEntry state seq)
      else none
  | .insertBarrier seq =>
      if state.lastInserted < seq && isBarrier (state.heap seq).staticInst then
        some (insertBarrier state seq)
      else none
  | .regsReady seq =>
      if state.instList.contains seq then some (regsReady state seq) else none
  | .nonSpecInstReady seq =>
      if state.instList.head? == some seq then some (moveToReady state seq)
      else none
  | .reschedule seq =>
      if state.instList.contains seq && state.readyList.contains seq then
        some { state with instsToReplay := state.instsToReplay ++ [seq] }
      else none
  | .replay => some (replay state)
  | .wakeDependents seq =>
      if state.instList.contains seq && state.readyList.contains seq &&
          isAccess (state.heap seq).staticInst then
        some (wakeDependents state seq)
      else none
  | .completed seq =>
      if state.instList.contains seq && state.readyList.contains seq &&
          isAccess (state.heap seq).staticInst then
        some (complete state seq)
      else none
  | .completeBarrier seq =>
      if state.instList.head? == some seq &&
          isBarrier (state.heap seq).staticInst then
        some (completeBarrier state seq)
      else none
  | .squash keep => some (squash state keep)
  | .elsewhere seq inst =>
      if inst.staticInst = (state.heap seq).staticInst then
        some { state with heap := state.heap.modify seq fun _ => inst }
      else none

/-- The empty unit over any instructions. -/
def initial (heap : Heap) : State := { heap := heap }

end MemDep
end Dolma

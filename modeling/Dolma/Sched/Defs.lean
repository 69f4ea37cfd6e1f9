import Dolma.Core.StaticInst
import Dolma.Sched.FUPool
import Mathlib.Algebra.Group.Nat.Defs

/-!
# The scheduler of the instruction queue

Entries of the queue, ready instructions, functional units and the ways back to
the ready instructions after a stall, a blocked cache, a delayed translation or a
reschedule. The register and memory dependences that make an instruction ready
are left open: an instruction that waits may become ready at any time. So are the
outcomes of memory accesses and the changes of the safe status.
-/

namespace Dolma
namespace Sched

/-- What the scheduler reads of an instruction. -/
structure Inst where
  threadNumber : Nat := 0
  /-- The operation class. Class zero needs no unit. -/
  opClass : Nat := 0
  isMemRef : Bool := false
  isLoad : Bool := false
  inserted : Bool := false
  inIQ : Bool := false
  issued : Bool := false
  memOpDone : Bool := false
  completed : Bool := false
  squashedInIQ : Bool := false
  squashed : Bool := false
  inROB : Bool := false
  restricted : Bool := false
  stalled : Bool := false
deriving DecidableEq, Repr

namespace Inst

/-- Restricted, and not squashed. -/
def isDolmaRestricted (inst : Inst) : Bool := !inst.squashed && inst.restricted
/-- Stalled, and not squashed. -/
def isDolmaStalled (inst : Inst) : Bool := !inst.squashed && inst.stalled

end Inst

/-- A completion event of a functional unit. -/
structure FUCompletion where
  inst : Nat
  fuIdx : Nat
  freeFU : Bool
deriving DecidableEq, Repr

/-- The parameters of the scheduler. -/
structure Params where
  config : Config
  numThreads : Nat
  numEntries : Nat
  small : numEntries < 2 ^ 32
  opLatency : Nat → Nat
  isPipelined : Nat → Bool

/-- The state of the scheduler. -/
structure State where
  heap : Nat → Inst
  instList : Nat → List Nat
  freeEntries : BitVec 32
  count : Nat → BitVec 32
  /-- The instructions that wait for registers, for the memory dependence unit or
  for commit. -/
  waiting : List Nat
  readyInsts : List Nat
  dolmaStalledInsts : List Nat
  deferredMemInsts : List Nat
  blockedMemInsts : List Nat
  retryMemInsts : List Nat
  instsToExecute : List Nat
  completions : List FUCompletion
  writebacks : List Nat
  fuPool : FUPool
  /-- The instructions that gave an entry back. The statements need them, and no
  function reads them. -/
  returned : List Nat
  failed : Bool

namespace State

variable (params : Params) (state : State)

/-- Change one instruction. -/
def modify (seq : Nat) (change : Inst → Inst) : State :=
  { state with
    heap := fun other => if other = seq then change (state.heap other) else state.heap other }

/-- Change the pool of functional units. -/
def setPool (pool : FUPool) : State :=
  { state with fuPool := pool }

/-- An instruction gives its entry back. -/
def giveBack (seq : Nat) : State :=
  let tid := (state.heap seq).threadNumber
  { state.modify seq fun inst => { inst with inIQ := false } with
    freeEntries := state.freeEntries + 1
    count := fun other => if other = tid then state.count other - 1 else state.count other
    returned := seq :: state.returned }

/-- Put an instruction on the stall list. -/
def dolmaStallInst (seq : Nat) : State :=
  { state.modify seq fun inst => { inst with issued := false } with
    failed := state.failed || !(state.heap seq).isDolmaStalled ||
      state.dolmaStalledInsts.contains seq
    dolmaStalledInsts := state.dolmaStalledInsts ++ [seq] }

/-- Stall an instruction. -/
def stall (seq : Nat) : State :=
  let inst := state.heap seq
  let stalled := state.modify seq fun inst => { inst with stalled := true }
  { stalled with
    failed := state.failed || inst.squashed || inst.isDolmaStalled ||
      !inst.isDolmaRestricted }.dolmaStallInst seq

/-- Dispatch puts an instruction into the queue. -/
def insert (seq tid opClass : Nat) (isMemRef isLoad restricted : Bool) : State :=
  { state with
    heap := fun other =>
      if other = seq then
        { threadNumber := tid, opClass := opClass, isMemRef := isMemRef, isLoad := isLoad,
          inserted := true, inIQ := true, inROB := true, restricted := restricted }
      else state.heap other
    instList := fun other =>
      if other = tid then state.instList other ++ [seq] else state.instList other
    freeEntries := state.freeEntries - 1
    count := fun other => if other = tid then state.count other + 1 else state.count other
    waiting := state.waiting ++ [seq] }

/-- An occupant that stands in the way of an older instruction of its thread. -/
def isUnsafeContender (seq occupant : Nat) : Bool :=
  let inst := state.heap occupant
  inst.inROB && inst.threadNumber == (state.heap seq).threadNumber &&
    inst.isDolmaRestricted && decide (seq < occupant)

/-- Throw a younger restricted instruction out of a unit. -/
def evict (seq : Nat) : UnitChoice × State :=
  let (found, pool) :=
    state.fuPool.findOccupied (state.heap seq).opClass (state.isUnsafeContender seq)
  match found with
  | none => (.noFreeFU, state.setPool pool)
  | some idx =>
      let occupant := state.fuPool.unitBusy idx
      let thrown :=
        if (state.heap occupant).isDolmaStalled then state else state.stall occupant
      (.unit idx, thrown.setPool (pool.occupy idx seq))

/-- Find a unit for an instruction. -/
def findUnit (seq : Nat) : UnitChoice × State :=
  let opClass := (state.heap seq).opClass
  if opClass = 0 then (.noCapableFU, state)
  else
    let (choice, pool) := state.fuPool.getUnit opClass seq
    let searched := state.setPool pool
    if params.config.isDolma && !params.config.isSTT && choice == .noFreeFU then
      searched.evict seq
    else (choice, searched)

/-- Start an instruction on a unit, if it needs one. -/
def start (seq : Nat) (unit : Option Nat) : State :=
  let opClass := (state.heap seq).opClass
  match unit with
  | none => { state with instsToExecute := state.instsToExecute ++ [seq] }
  | some idx =>
      if params.opLatency opClass = 1 then
        { state with
          instsToExecute := state.instsToExecute ++ [seq]
          fuPool := state.fuPool.freeUnitNextCycle idx seq }
      else
        { state with
          completions := state.completions ++ [⟨seq, idx, !params.isPipelined opClass⟩]
          fuPool :=
            if params.isPipelined opClass then state.fuPool.freeUnitNextCycle idx seq
            else state.fuPool }

/-- Take an instruction off the ready instructions. -/
def popReady (seq : Nat) : State :=
  { state with readyInsts := state.readyInsts.erase seq }

/-- Issue an instruction on a unit, if it needs one. An instruction that does not
access memory gives its entry back. -/
def issue (seq : Nat) (unit : Option Nat) : State :=
  let issued :=
    ((state.start params seq unit).popReady seq).modify seq fun inst =>
      { inst with issued := true }
  if (state.heap seq).isMemRef then issued else issued.giveBack seq

/-- The scheduler looks at a ready instruction. -/
def schedule (seq : Nat) : State :=
  let inst := state.heap seq
  if params.config.isSTT && inst.isDolmaRestricted && inst.isLoad then
    (state.popReady seq).stall seq
  else if inst.squashed then state.popReady seq
  else
    let (choice, searched) := state.findUnit params seq
    match choice with
    | .noFreeFU => searched
    | .noCapableFU => searched.issue params seq none
    | .unit idx => searched.issue params seq (some idx)

/-- The oldest instruction of the stall list that is no longer stalled. -/
def getDolmaStalledInstToExecute : Option Nat :=
  (state.dolmaStalledInsts.filter fun seq => !(state.heap seq).isDolmaStalled).min?

/-- A completion event fires. -/
def processFUCompletion (event : FUCompletion) : State :=
  { state with
    fuPool :=
      if event.freeFU then state.fuPool.freeUnitNextCycle event.fuIdx event.inst
      else state.fuPool
    completions := state.completions.erase event
    instsToExecute := state.instsToExecute ++ [event.inst] }

/-- What becomes of an instruction that executes. -/
inductive Outcome where
  | finishes
  | faults
  | stalls
  | defers
  | blocks
  | reschedules
deriving DecidableEq, Repr

/-- The next instruction to execute. Only memory accesses can be put off. -/
def execute (seq : Nat) (outcome : Outcome) : State :=
  let inst := state.heap seq
  if inst.squashed then state
  else
    let checked := { state with failed := state.failed || inst.isDolmaStalled }
    match outcome with
    | .finishes => { checked with writebacks := checked.writebacks ++ [seq] }
    | .faults => checked
    | .stalls => checked.stall seq
    | .defers => { checked with deferredMemInsts := checked.deferredMemInsts ++ [seq] }
    | .blocks =>
        { checked.modify seq fun inst => { inst with issued := false } with
          blockedMemInsts := checked.blockedMemInsts ++ [seq] }
    | .reschedules => { checked with waiting := checked.waiting ++ [seq] }

/-- A result is written back and wakes the dependents of its instruction. A
memory access gives its entry back. -/
def writeback (seq : Nat) : State :=
  let inst := state.heap seq
  let popped := { state with writebacks := state.writebacks.erase seq }
  if inst.squashed then popped
  else
    let woken :=
      { popped.modify seq fun inst => { inst with completed := true } with
        failed := popped.failed || inst.isDolmaStalled }
    if inst.isMemRef then
      (woken.giveBack seq).modify seq fun inst => { inst with memOpDone := true }
    else woken

/-- Squash one instruction of the queue. -/
def squashInst (seq : Nat) : State :=
  let inst := state.heap seq
  if !inst.issued || (inst.isMemRef && !inst.memOpDone) then
    (state.modify seq fun inst =>
      { inst with squashedInIQ := true, squashed := true, issued := true }).giveBack seq
  else state

/-- Walk the list of a thread from its youngest instruction, and return what is
left of the list, the youngest first. -/
def squashWalk (tid limit : Nat) (state : State) : List Nat → State × List Nat
  | [] => (state, [])
  | seq :: older =>
      if seq ≤ limit then (state, seq :: older)
      else if (state.heap seq).threadNumber ≠ tid ∨ (state.heap seq).squashedInIQ then
        let (walked, left) := squashWalk tid limit state older
        (walked, seq :: left)
      else squashWalk tid limit (state.squashInst seq) older

/-- The instruction queue squashes a thread. -/
def doSquash (tid limit : Nat) : State :=
  let (walked, left) := squashWalk tid limit state (state.instList tid).reverse
  { walked with
    instList := fun other => if other = tid then left.reverse else walked.instList other }

/-- The instructions of a thread that are younger than a limit. -/
def isYounger (tid limit seq : Nat) : Bool :=
  decide (limit < seq) && (state.heap seq).threadNumber == tid

/-- The stage squashes a thread: the instruction queue, the memory accesses in the
load/store queue, and what waits for registers or in the memory dependence unit. -/
def squash (tid limit : Nat) : State :=
  let squashed := state.doSquash tid limit
  { squashed with
    heap := fun seq =>
      let inst := squashed.heap seq
      if inst.isMemRef && squashed.isYounger tid limit seq then { inst with squashed := true }
      else inst
    waiting := squashed.waiting.filter fun seq => !squashed.isYounger tid limit seq }

/-- Instructions of a thread commit. -/
def commit (tid limit : Nat) : State :=
  { state with
    instList := fun other =>
      if other = tid then (state.instList other).dropWhile (· ≤ limit)
      else state.instList other
    heap := fun seq =>
      let inst := state.heap seq
      if inst.threadNumber == tid && decide (seq ≤ limit) then { inst with inROB := false }
      else inst }

end State

/-- The events of the scheduler. -/
inductive Event where
  | insert (seq tid opClass : Nat) (isMemRef isLoad restricted : Bool)
  | wake (seq : Nat)
  | schedule (seq : Nat)
  | drainStalled
  | drainDeferred (seq : Nat)
  | cacheUnblocked
  | drainRetry
  | completeFU (event : FUCompletion)
  | execute (outcome : State.Outcome)
  | writeback (seq : Nat)
  | freeUnits
  | restrict (seq : Nat)
  | release (seq : Nat)
  | flagSquashed (seq : Nat)
  | squash (tid limit : Nat)
  | commit (tid limit : Nat)

/-- The effect of an event, if it can happen. -/
def step (params : Params) (state : State) : Event → Option State
  | .insert seq tid opClass isMemRef isLoad restricted =>
      if seq ≠ 0 ∧ (state.heap seq).inserted = false ∧ state.freeEntries ≠ 0 ∧
          tid < params.numThreads ∧ (isLoad = true → isMemRef = true) then
        some (state.insert seq tid opClass isMemRef isLoad restricted)
      else none
  | .wake seq =>
      if seq ∈ state.waiting then
        some
          { state with
            waiting := state.waiting.erase seq, readyInsts := seq :: state.readyInsts }
      else none
  | .schedule seq =>
      if seq ∈ state.readyInsts then some (state.schedule params seq) else none
  | .drainStalled =>
      state.getDolmaStalledInstToExecute.map fun seq =>
        { state with
          dolmaStalledInsts := state.dolmaStalledInsts.erase seq
          readyInsts := seq :: state.readyInsts }
  | .drainDeferred seq =>
      if seq ∈ state.deferredMemInsts then
        some
          { state with
            deferredMemInsts := state.deferredMemInsts.erase seq
            readyInsts := seq :: state.readyInsts }
      else none
  | .cacheUnblocked =>
      some
        { state with
          retryMemInsts := state.retryMemInsts ++ state.blockedMemInsts
          blockedMemInsts := [] }
  | .drainRetry =>
      match state.retryMemInsts with
      | [] => none
      | seq :: rest =>
          some
            { state with retryMemInsts := rest, readyInsts := seq :: state.readyInsts }
  | .completeFU event =>
      if event ∈ state.completions then some (state.processFUCompletion event) else none
  | .execute outcome =>
      match state.instsToExecute with
      | [] => none
      | seq :: rest =>
          if (state.heap seq).isMemRef ∨ outcome = .finishes ∨ outcome = .faults then
            some ({ state with instsToExecute := rest }.execute seq outcome)
          else none
  | .writeback seq =>
      if seq ∈ state.writebacks then some (state.writeback seq) else none
  | .freeUnits => some (state.setPool state.fuPool.processFreeUnits)
  | .restrict seq =>
      some (state.modify seq fun inst => { inst with restricted := true })
  | .release seq =>
      some (state.modify seq fun inst => { inst with restricted := false, stalled := false })
  | .flagSquashed seq =>
      if (state.heap seq).inROB then
        some (state.modify seq fun inst => { inst with squashed := true })
      else none
  | .squash tid limit => some (state.squash tid limit)
  | .commit tid limit =>
      if ((state.instList tid).takeWhile (· ≤ limit)).all
          fun seq => (state.heap seq).completed then
        some (state.commit tid limit)
      else none

/-- The events that can happen, with their effects. -/
inductive Stepped (params : Params) (state : State) : Event → State → Prop where
  | insert {seq tid : Nat} (opClass : Nat) {isMemRef isLoad : Bool} (restricted : Bool) :
      seq ≠ 0 → (state.heap seq).inserted = false → state.freeEntries ≠ 0 →
      tid < params.numThreads → (isLoad = true → isMemRef = true) →
      Stepped params state (.insert seq tid opClass isMemRef isLoad restricted)
        (state.insert seq tid opClass isMemRef isLoad restricted)
  | wake {seq : Nat} :
      seq ∈ state.waiting →
      Stepped params state (.wake seq)
        { state with
          waiting := state.waiting.erase seq, readyInsts := seq :: state.readyInsts }
  | schedule {seq : Nat} :
      seq ∈ state.readyInsts →
      Stepped params state (.schedule seq) (state.schedule params seq)
  | drainStalled {seq : Nat} :
      seq ∈ state.dolmaStalledInsts → (state.heap seq).isDolmaStalled = false →
      Stepped params state .drainStalled
        { state with
          dolmaStalledInsts := state.dolmaStalledInsts.erase seq
          readyInsts := seq :: state.readyInsts }
  | drainDeferred {seq : Nat} :
      seq ∈ state.deferredMemInsts →
      Stepped params state (.drainDeferred seq)
        { state with
          deferredMemInsts := state.deferredMemInsts.erase seq
          readyInsts := seq :: state.readyInsts }
  | cacheUnblocked :
      Stepped params state .cacheUnblocked
        { state with
          retryMemInsts := state.retryMemInsts ++ state.blockedMemInsts
          blockedMemInsts := [] }
  | drainRetry {seq : Nat} {rest : List Nat} :
      state.retryMemInsts = seq :: rest →
      Stepped params state .drainRetry
        { state with retryMemInsts := rest, readyInsts := seq :: state.readyInsts }
  | completeFU {event : FUCompletion} :
      event ∈ state.completions →
      Stepped params state (.completeFU event) (state.processFUCompletion event)
  | execute {seq : Nat} {rest : List Nat} {outcome : State.Outcome} :
      state.instsToExecute = seq :: rest →
      ((state.heap seq).isMemRef = true ∨ outcome = .finishes ∨ outcome = .faults) →
      Stepped params state (.execute outcome)
        ({ state with instsToExecute := rest }.execute seq outcome)
  | writeback {seq : Nat} :
      seq ∈ state.writebacks →
      Stepped params state (.writeback seq) (state.writeback seq)
  | freeUnits :
      Stepped params state .freeUnits (state.setPool state.fuPool.processFreeUnits)
  | restrict (seq : Nat) :
      Stepped params state (.restrict seq)
        (state.modify seq fun inst => { inst with restricted := true })
  | release (seq : Nat) :
      Stepped params state (.release seq)
        (state.modify seq fun inst => { inst with restricted := false, stalled := false })
  | flagSquashed {seq : Nat} :
      (state.heap seq).inROB = true →
      Stepped params state (.flagSquashed seq)
        (state.modify seq fun inst => { inst with squashed := true })
  | squash (tid limit : Nat) :
      Stepped params state (.squash tid limit) (state.squash tid limit)
  | commit {tid limit : Nat} :
      (∀ seq ∈ (state.instList tid).takeWhile (· ≤ limit), (state.heap seq).completed = true) →
      Stepped params state (.commit tid limit) (state.commit tid limit)

/-- What a step does. -/
theorem step_stepped (happens : step params state event = some next) :
    Stepped params state event next := by
  cases event with
  | insert seq tid opClass isMemRef isLoad restricted =>
      simp only [step, Option.ite_none_right_eq_some, Option.some.injEq] at happens
      obtain ⟨⟨nonzero, fresh, room, thread, loads⟩, rfl⟩ := happens
      exact .insert opClass restricted nonzero fresh room thread loads
  | drainStalled =>
      simp only [step, Option.map_eq_some_iff] at happens
      obtain ⟨seq, oldest, rfl⟩ := happens
      obtain ⟨mem, released⟩ := List.mem_filter.mp (List.min?_mem oldest)
      exact .drainStalled mem (Bool.not_eq_true' _ ▸ released)
  | drainRetry =>
      cases retry : state.retryMemInsts with
      | nil => simp only [step, retry, reduceCtorEq] at happens
      | cons seq rest =>
          simp only [step, retry, Option.some.injEq] at happens
          subst happens
          exact .drainRetry retry
  | execute outcome =>
      cases executing : state.instsToExecute with
      | nil => simp only [step, executing, reduceCtorEq] at happens
      | cons seq rest =>
          simp only [step, executing, Option.ite_none_right_eq_some, Option.some.injEq] at happens
          obtain ⟨possible, rfl⟩ := happens
          exact .execute executing possible
  | commit tid limit =>
      simp only [step, Option.ite_none_right_eq_some, Option.some.injEq] at happens
      obtain ⟨done, rfl⟩ := happens
      exact .commit (List.all_eq_true.mp done)
  | wake seq =>
      simp only [step, Option.ite_none_right_eq_some, Option.some.injEq] at happens
      obtain ⟨mem, rfl⟩ := happens
      exact .wake mem
  | schedule seq =>
      simp only [step, Option.ite_none_right_eq_some, Option.some.injEq] at happens
      obtain ⟨mem, rfl⟩ := happens
      exact .schedule mem
  | drainDeferred seq =>
      simp only [step, Option.ite_none_right_eq_some, Option.some.injEq] at happens
      obtain ⟨mem, rfl⟩ := happens
      exact .drainDeferred mem
  | completeFU event =>
      simp only [step, Option.ite_none_right_eq_some, Option.some.injEq] at happens
      obtain ⟨mem, rfl⟩ := happens
      exact .completeFU mem
  | writeback seq =>
      simp only [step, Option.ite_none_right_eq_some, Option.some.injEq] at happens
      obtain ⟨mem, rfl⟩ := happens
      exact .writeback mem
  | flagSquashed seq =>
      simp only [step, Option.ite_none_right_eq_some, Option.some.injEq] at happens
      obtain ⟨mem, rfl⟩ := happens
      exact .flagSquashed mem
  | cacheUnblocked =>
      cases happens
      exact .cacheUnblocked
  | freeUnits =>
      cases happens
      exact .freeUnits
  | restrict seq =>
      cases happens
      exact .restrict seq
  | release seq =>
      cases happens
      exact .release seq
  | squash tid limit =>
      cases happens
      exact .squash tid limit

/-- The scheduler before the first instruction, with the units of each operation
class. -/
def initial (params : Params) (units : Nat → Option (Library.CircularQueue Nat)) : State where
  heap := fun _ => {}
  instList := fun _ => []
  freeEntries := BitVec.ofNat 32 params.numEntries
  count := fun _ => 0
  waiting := []
  readyInsts := []
  dolmaStalledInsts := []
  deferredMemInsts := []
  blockedMemInsts := []
  retryMemInsts := []
  instsToExecute := []
  completions := []
  writebacks := []
  fuPool :=
    { fuPerCapList := units
      unitBusy := fun _ => 0
      unitsToBeFreed := []
      releasedBy := []
      failed := false }
  returned := []
  failed := false

end Sched
end Dolma

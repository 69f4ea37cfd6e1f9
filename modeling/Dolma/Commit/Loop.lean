import Dolma.Library.Loop
import Dolma.Rob.Control
import Dolma.Smt.CommitPolicy
import Mathlib.Algebra.Order.BigOperators.Group.List
import Mathlib.Algebra.Order.Ring.Nat

/-!
# Committing

In a cycle commit takes heads off the reorder buffers until its width is used up, a head
cannot commit, or an event at a program counter skips instructions. Squashed heads retire
without being counted. A head that has not executed, or that has a fault, waits until nothing
has committed before it in the cycle and no store is left to write back. An interrupt is taken
once no instruction is in flight. So each thread retires a part of its buffer from the front,
and a trap finds everything older committed and nothing younger.
-/

namespace Dolma
namespace Commit

/-- How an attempt to commit ends. -/
inductive CommitHeadError where
  | commitSuccess
  | squashingBranchMispredict
  | squashingMemoryViolation
  | retiringSquashes
  | generalStall
  | loadStall
  | storeStall
  | loadOrder
  | storeOrder
  | robEmpty
  | memBarrier
  | writeBarrier
  | instructionFault
  | noThreadReady
deriving DecidableEq, Repr

/-- What commit reads from the rest of the system in a cycle. -/
structure Surroundings where
  hasStoresToWB : Nat → Bool := fun _ => false
  /-- There is an interrupt to handle, after a number of retirements in the cycle. -/
  checkInterrupts : Nat → Bool := fun _ => false
  noneInFlight : Bool := false
  drainPending : Bool := false
  /-- Where the events at a program counter of a thread lead to, if they change it. -/
  pcEvents : Nat → PCState → Option PCState := fun _ _ => none
  /-- Where the fault of an instruction, or an interrupt, leads to. -/
  trap : Nat → Option Nat → PCState → PCState := fun _ _ pc => pc

/-- The parameters of commit, and what it reads in a cycle. -/
structure Setting extends Surroundings where
  config : Config
  commitPolicy : Smt.CommitPolicy
  commitWidth : Nat

/-- What commit keeps from cycle to cycle. -/
structure Kept where
  pc : Nat → PCState
  squashAfterInst : Nat → Option Nat := fun _ => none
  interrupt : Bool := false
  canHandleInterrupts : Bool := true
  avoidQuiesceLiveLock : Bool := false
  trapPending : Nat → Bool := fun _ => false
  drainImminent : Bool := false

/-- The variables of commit in a cycle. -/
structure Cycle extends Kept where
  threads : Smt.Threads
  numCommitted : Nat := 0
  commitStatus : CommitHeadError := .commitSuccess
  clearInterrupt : Bool := false
  committedStores : Nat → Bool := fun _ => false
  doneSeqNum : Nat → Nat := fun _ => 0
  nonSpecSeqNum : Nat → Nat := fun _ => 0
  strictlyOrderedLoad : Nat → Option Nat := fun _ => none
  removed : List Nat := []
  committed : List Nat := []

namespace Cycle

variable (setting : Setting) (cycle : Cycle)

/-- Retire the head of a thread; `none` is a failed assertion. -/
def retire (tid head : Nat) : Option Cycle :=
  (Rob.retireHead setting.config (cycle.threads.instList tid) cycle.threads.heap).map
    fun (rest, heap) =>
      { cycle with
        threads :=
          { cycle.threads with
            heap := heap
            instList := Function.update cycle.threads.instList tid rest }
        removed := cycle.removed ++ [head] }

/-- Why a head that is not ready does not commit. -/
def stall (inst : StaticInst) : CommitHeadError :=
  if inst.isLoad then .loadStall
  else if inst.isStore then .storeStall
  else if inst.isMemBarrier then .memBarrier
  else if inst.isWriteBarrier then .writeBarrier
  else .generalStall

/-- The head of a thread that has not executed is sent back to execute. -/
def commitUnexecuted (tid head : Nat) : Option Cycle :=
  let inst := cycle.threads.heap head
  let orderedLoad := inst.staticInst.isLoad && inst.strictlyOrdered
  if inst.staticInst.isNonSpeculative || inst.staticInst.isStoreConditional ||
      inst.staticInst.isMemBarrier || inst.staticInst.isWriteBarrier || orderedLoad then
    if 0 < cycle.numCommitted || setting.hasStoresToWB tid then
      some { cycle with commitStatus := .storeOrder }
    else
      some
        { cycle with
          threads :=
            { cycle.threads with
              heap := cycle.threads.heap.modify head (·.setStatus .canCommit false) }
          commitStatus :=
            if orderedLoad then .loadOrder
            else if inst.staticInst.isLoad then .loadStall
            else if inst.staticInst.isStore then .storeStall
            else .generalStall
          nonSpecSeqNum := Function.update cycle.nonSpecSeqNum tid head
          strictlyOrderedLoad :=
            if orderedLoad then Function.update cycle.strictlyOrderedLoad tid (some head)
            else cycle.strictlyOrderedLoad }
  else none

/-- The head of a thread that has a fault traps. -/
def commitFault (tid head : Nat) : Cycle :=
  if setting.hasStoresToWB tid || 0 < cycle.numCommitted then
    { cycle with commitStatus := .storeOrder }
  else
    { cycle with
      threads :=
        { cycle.threads with
          commitStatus := Function.update cycle.threads.commitStatus tid .trapPending }
      commitStatus := .instructionFault
      pc := Function.update cycle.pc tid (setting.trap tid (some head) (cycle.pc tid))
      trapPending := Function.update cycle.trapPending tid true }

/-- Try to commit the head of a thread. -/
def commitHead (tid head : Nat) : Option Cycle :=
  let inst := cycle.threads.heap head
  if !inst.isExecuted then cycle.commitUnexecuted setting tid head
  else if inst.fault then some (cycle.commitFault setting tid head)
  else
    (cycle.retire setting tid head).map fun cycle =>
      { cycle with
        commitStatus := .commitSuccess
        committedStores :=
          if inst.staticInst.isStore then Function.update cycle.committedStores tid true
          else cycle.committedStores }

/-- Squash everything after an instruction in the next cycle. -/
def squashAfter (tid head : Nat) : Option Cycle :=
  if cycle.squashAfterInst tid = none ∨ cycle.squashAfterInst tid = some head then
    some
      { cycle with
        threads :=
          { cycle.threads with
            commitStatus := Function.update cycle.threads.commitStatus tid .squashAfterPending }
        squashAfterInst := Function.update cycle.squashAfterInst tid (some head) }
  else none

/-- Count a commit. Only thread 0 takes interrupts. -/
def count (tid head : Nat) : Cycle :=
  let inst := (cycle.threads.heap head).staticInst
  { cycle with
    numCommitted := cycle.numCommitted + 1
    committed := cycle.committed ++ [head]
    doneSeqNum := Function.update cycle.doneSeqNum tid head
    canHandleInterrupts := if tid = 0 then !inst.isDelayedCommit else cycle.canHandleInterrupts
    pc := Function.update cycle.pc tid (inst.advancePC (cycle.pc tid)) }

/-- When the core drains, everything after an instruction that ends its microcode is squashed,
and interrupts are no longer taken. -/
def drain (tid head : Nat) : Option Cycle :=
  if setting.drainPending && (cycle.pc tid).upc == 0 && !cycle.interrupt &&
      !cycle.trapPending tid then
    (cycle.squashAfter tid head).map fun cycle => { cycle with drainImminent := true }
  else some cycle

/-- An interrupt that came while interrupts were off would be lost in a core that sleeps, so
everything after the instruction is squashed. -/
def squashForInterrupt (tid head : Nat) : Option Cycle :=
  if !cycle.interrupt && cycle.avoidQuiesceLiveLock &&
      setting.checkInterrupts cycle.removed.length then
    cycle.squashAfter tid head
  else some cycle

/-- The instruction is the last one of its macro-instruction, or may be followed by an
interrupt. -/
def onInstBoundary (inst : StaticInst) : Bool :=
  !inst.isMicroop || inst.isLastMicroop || !inst.isDelayedCommit

/-- What follows between two instructions. The cycle ends if events change the program
counter. -/
def serviceEvents (tid head : Nat) : Option Cycle ⊕ Cycle :=
  if cycle.trapPending tid then .inl none
  else
    match setting.pcEvents tid (cycle.pc tid) with
    | some pc => .inl (some { cycle with pc := Function.update cycle.pc tid pc })
    | none =>
        match cycle.squashForInterrupt setting tid head with
        | none => .inl none
        | some cycle => .inr cycle

/-- What follows a successful commit. -/
def countCommit (tid head : Nat) : Option Cycle ⊕ Cycle :=
  let inst := (cycle.threads.heap head).staticInst
  let counted := cycle.count tid head
  match (if inst.isSquashAfter then counted.squashAfter tid head else some counted).bind
    (·.drain setting tid head) with
  | none => .inl none
  | some cycle =>
      if onInstBoundary inst then cycle.serviceEvents setting tid head else .inr cycle

/-- Try to commit or retire the head of a thread. The cycle ends, where `none` is a failed
assertion, or goes on. -/
def attemptHead (tid head : Nat) : Option Cycle ⊕ Cycle :=
  let inst := cycle.threads.heap head
  if !inst.readyToCommit then
    .inl (some { cycle with commitStatus := stall inst.staticInst })
  else if inst.threadNumber ≠ tid then .inl none
  else if inst.isSquashed then
    match cycle.retire setting tid head with
    | none => .inl none
    | some cycle => .inr { cycle with commitStatus := .retiringSquashes }
  else
    match { cycle with
      pc := Function.update cycle.pc tid inst.pc }.commitHead setting tid head with
    | none => .inl none
    | some cycle =>
        if cycle.commitStatus = .commitSuccess then cycle.countCommit setting tid head
        else .inl (some cycle)

/-- Look at a pending interrupt. It may have been cleared. Otherwise it waits until no
instruction is in flight. -/
def handleInterrupt : Cycle :=
  if !setting.checkInterrupts cycle.removed.length then
    { cycle with clearInterrupt := true, interrupt := false, avoidQuiesceLiveLock := true }
  else if cycle.canHandleInterrupts && setting.noneInFlight then
    { cycle with
      clearInterrupt := true
      threads :=
        { cycle.threads with
          commitStatus := Function.update cycle.threads.commitStatus 0 .trapPending }
      interrupt := false
      pc := Function.update cycle.pc 0 (setting.trap 0 none (cycle.pc 0))
      trapPending := Function.update cycle.trapPending 0 true
      avoidQuiesceLiveLock := false }
  else cycle

/-- A pending interrupt is looked at before each head. -/
def interrupted : Cycle :=
  if cycle.interrupt then cycle.handleInterrupt setting else cycle

/-- One iteration of the loop over the heads. -/
def attempt : Option Cycle ⊕ Cycle :=
  if cycle.numCommitted < setting.commitWidth then
    let cycle := cycle.interrupted setting
    let (chosen, list) := cycle.threads.getCommittingThread setting.commitPolicy
    let cycle := { cycle with threads := { cycle.threads with priorityList := list } }
    match chosen with
    | none => .inl (some { cycle with commitStatus := .noThreadReady })
    | some tid =>
        match cycle.threads.instList tid with
        | [] => .inl (some { cycle with commitStatus := .robEmpty })
        | head :: _ => cycle.attemptHead setting tid head
  else .inl (some cycle)

end Cycle

/-- The number of instructions in the reorder buffers. -/
def numInstsInROB (threads : Smt.Threads) : Nat :=
  ((List.range threads.numThreads).map fun tid => (threads.instList tid).length).sum

/-- Commit in one cycle; `some none` is a failed assertion. A cycle without a commit has to
have a reason. -/
def commitInsts (setting : Setting) (cycle : Cycle) : Option (Option Cycle) :=
  (Library.loop (Cycle.attempt setting) (numInstsInROB cycle.threads + 1) cycle).map
    (·.filter fun last => decide (0 < last.numCommitted ∨ last.commitStatus ≠ .commitSuccess))

variable {rest : List Nat} {last : Cycle} {config : Config}

namespace Cycle

variable {setting : Setting} {cycle next : Cycle} {tid head : Nat}

/-- A head has been taken off its buffer, and was counted unless it was squashed. -/
structure Taken
    (config : Config) (cycle next : Cycle) (tid head : Nat) (rest : List Nat) : Prop where
  owned : (cycle.threads.heap head).threadNumber = tid
  oldest : (cycle.threads.instList tid).head? = some head
  retired : Rob.retireHead config (cycle.threads.instList tid) cycle.threads.heap =
    some (rest, next.threads.heap)
  instList : next.threads.instList = Function.update cycle.threads.instList tid rest
  numThreads : next.threads.numThreads = cycle.threads.numThreads
  activeThreads : next.threads.activeThreads = cycle.threads.activeThreads
  priorityList : next.threads.priorityList.Perm cycle.threads.priorityList
  removed : next.removed = cycle.removed ++ [head]
  interrupt : next.interrupt = cycle.interrupt
  status : ∀ other, next.threads.commitStatus other = .trapPending →
    cycle.threads.commitStatus other = .trapPending
  counted :
    if (cycle.threads.heap head).isSquashed then
      next.numCommitted = cycle.numCommitted ∧ next.committed = cycle.committed ∧
        next.doneSeqNum = cycle.doneSeqNum
    else
      ((cycle.threads.heap head).isExecuted = true ∧ (cycle.threads.heap head).fault = false) ∧
        next.numCommitted = cycle.numCommitted + 1 ∧ next.committed = cycle.committed ++ [head] ∧
          next.doneSeqNum = Function.update cycle.doneSeqNum tid head

/-- The head of a thread that commit looks at, after its program counter is recorded. -/
structure AtHead (cycle : Cycle) (tid head : Nat) : Prop where
  oldest : (cycle.threads.instList tid).head? = some head
  squashed : (cycle.threads.heap head).isSquashed = false
  pc : cycle.pc tid = (cycle.threads.heap head).pc

/-- A thread traps at its head: nothing has committed before it in the cycle, and no store
is left. -/
structure Traps (setting : Setting) (cycle : Cycle) (tid head : Nat) : Prop where
  oldest : (cycle.threads.instList tid).head? = some head
  squashed : (cycle.threads.heap head).isSquashed = false
  pc : cycle.pc tid = setting.trap tid (some head) (cycle.threads.heap head).pc
  fault : (cycle.threads.heap head).fault = true
  executed : (cycle.threads.heap head).isExecuted = true
  first : cycle.numCommitted = 0
  written : setting.hasStoresToWB tid = false

/-- Nothing is retired. -/
structure Still (cycle next : Cycle) : Prop where
  instList : next.threads.instList = cycle.threads.instList
  numThreads : next.threads.numThreads = cycle.threads.numThreads
  heap : ∀ seq, DynInst.Agrees [.canCommit] (cycle.threads.heap seq) (next.threads.heap seq)
  removed : next.removed = cycle.removed
  committed : next.committed = cycle.committed
  numCommitted : next.numCommitted = cycle.numCommitted
  doneSeqNum : next.doneSeqNum = cycle.doneSeqNum
  priorityList : next.threads.priorityList.Perm cycle.threads.priorityList

/-- The cycle has ended without another retirement. -/
structure Ended (setting : Setting) (cycle last : Cycle) : Prop extends Still cycle last where
  trap : ∀ tid, last.threads.commitStatus tid = .trapPending →
    cycle.threads.commitStatus tid = .trapPending ∨ ∃ head, Traps setting last tid head

/-- The cycle ends after a commit, as the events at the next program counter change it. -/
structure Skips (setting : Setting) (last : Cycle) (tid head : Nat) : Prop where
  youngest : last.committed.getLast? = some head
  event : ∃ pc, setting.pcEvents tid pc = some (last.pc tid)

/-- Only marks of threads change, and what commit keeps about them. -/
structure Marks (cycle next : Cycle) : Prop where
  threads : next.threads = { cycle.threads with commitStatus := next.threads.commitStatus }
  removed : next.removed = cycle.removed
  numCommitted : next.numCommitted = cycle.numCommitted
  committed : next.committed = cycle.committed
  doneSeqNum : next.doneSeqNum = cycle.doneSeqNum

/-- No thread starts to trap. -/
structure Quiet (cycle next : Cycle) : Prop extends Marks cycle next where
  interrupt : next.interrupt = cycle.interrupt
  status : ∀ other, next.threads.commitStatus other = .trapPending →
    cycle.threads.commitStatus other = .trapPending

theorem Marks.still (marks : Marks cycle next) : Still cycle next := by
  have threads := marks.threads
  refine ⟨?_, ?_, fun seq => ?_, marks.removed, marks.committed, marks.numCommitted,
    marks.doneSeqNum, ?_⟩ <;> rw [threads]
  exact .refl _ _

namespace Quiet

variable {mid : Cycle}

theorem refl (cycle : Cycle) : Quiet cycle cycle :=
  ⟨⟨rfl, rfl, rfl, rfl, rfl⟩, rfl, fun _ pending => pending⟩

theorem trans (first : Quiet cycle mid) (second : Quiet mid next) : Quiet cycle next where
  threads := by
    rw [second.threads, first.threads]
  removed := second.removed.trans first.removed
  numCommitted := second.numCommitted.trans first.numCommitted
  committed := second.committed.trans first.committed
  doneSeqNum := second.doneSeqNum.trans first.doneSeqNum
  interrupt := second.interrupt.trans first.interrupt
  status other pending := first.status other (second.status other pending)

theorem squashAfter (squashed : cycle.squashAfter tid head = some next) : Quiet cycle next := by
  unfold Cycle.squashAfter at squashed
  obtain ⟨-, marked⟩ := Option.ite_none_right_eq_some.mp squashed
  cases marked
  refine ⟨⟨rfl, rfl, rfl, rfl, rfl⟩, rfl, fun other pending => ?_⟩
  by_cases same : other = tid
  · simp [same] at pending
  · simpa [Function.update_of_ne same] using pending

theorem drain (drained : cycle.drain setting tid head = some next) : Quiet cycle next := by
  unfold Cycle.drain at drained
  split at drained
  · obtain ⟨mid, squashed, rfl⟩ := Option.map_eq_some_iff.mp drained
    exact { squashAfter squashed with }
  · cases drained
    exact refl _

theorem squashForInterrupt (squashed : cycle.squashForInterrupt setting tid head = some next) :
    Quiet cycle next := by
  unfold Cycle.squashForInterrupt at squashed
  split at squashed
  · exact squashAfter squashed
  · cases squashed
    exact refl _

end Quiet

theorem retire_eq_some (retired : cycle.retire setting tid head = some next) :
    ∃ rest heap,
      Rob.retireHead setting.config (cycle.threads.instList tid) cycle.threads.heap =
          some (rest, heap) ∧
        next = { cycle with
          threads :=
            { cycle.threads with
              heap := heap
              instList := Function.update cycle.threads.instList tid rest }
          removed := cycle.removed ++ [head] } := by
  obtain ⟨⟨rest, heap⟩, found, rfl⟩ := Option.map_eq_some_iff.mp retired
  exact ⟨rest, heap, found, rfl⟩

/-- Retirement keeps what the safe-status pass keeps, but for the marks it leaves itself. -/
def retireFlags : List Status :=
  .robEntry :: .committed :: Rob.safeFlags

variable {heap : Heap}

theorem agrees_modify (agrees : DynInst.Agrees flags (heap seq) (change (heap seq))) (other : Nat) :
    DynInst.Agrees flags (heap other) (heap.modify seq change other) := by
  by_cases same : other = seq
  · rw [same, Heap.modify_self]
    exact agrees
  · rw [Heap.modify_of_ne _ same]
    exact .refl _ _

theorem retireHead_agrees
    (sorted : instList.Pairwise (· < ·))
    (retired : Rob.retireHead config instList heap = some (rest, after)) (seq : Nat) :
    DynInst.Agrees retireFlags (heap seq) (after seq) := by
  obtain ⟨head, resolved, -, -, resolving, unchanged, -, rfl⟩ := Rob.retireHead_eq_some retired
  have marked : DynInst.Agrees retireFlags (resolved head)
      (((resolved head).setStatus .robEntry false).setStatus .committed true) := by
    refine .trans (DynInst.agrees_setStatus ?_ _ _) (DynInst.agrees_setStatus ?_ _ _)
    · simp [retireFlags]
    · simp [retireFlags]
  refine .trans ?_ (agrees_modify marked seq)
  cases inducer : (heap head).isDataInducer with
  | false =>
      rw [unchanged inducer]
      exact .refl _ _
  | true =>
      rw [(resolving inducer).2]
      have cleared : DynInst.Agrees Rob.safeFlags (heap seq)
          (heap.modify head (·.setStatus .dataInducer false) seq) :=
        agrees_modify (DynInst.agrees_setStatus (by simp [Rob.safeFlags]) _ _) seq
      exact (cleared.trans (Rob.updateSafeStatus_agrees config _ sorted seq)).mono
        (by simp [retireFlags])

/-- Nothing but the order of the threads and the recorded reason changes. -/
theorem Ended.of_status
    (setting : Setting) (cycle : Cycle) (reordered : list.Perm cycle.threads.priorityList)
    (reason : CommitHeadError) :
    Ended setting cycle { cycle with
      threads := { cycle.threads with priorityList := list }
      commitStatus := reason } :=
  ⟨⟨rfl, rfl, fun _ => .refl _ _, rfl, rfl, rfl, rfl, reordered⟩, fun _ pending => .inl pending⟩

theorem commitUnexecuted_eq_some (sentBack : cycle.commitUnexecuted setting tid head = some next) :
    Ended setting cycle next ∧ next.commitStatus ≠ .commitSuccess := by
  unfold commitUnexecuted at sentBack
  dsimp only at sentBack
  split at sentBack
  · split at sentBack
    · cases sentBack
      exact ⟨.of_status setting cycle (.refl _) _, by simp⟩
    · cases sentBack
      have heap : ∀ seq, DynInst.Agrees [.canCommit] (cycle.threads.heap seq)
          (cycle.threads.heap.modify head (·.setStatus .canCommit false) seq) :=
        agrees_modify (DynInst.agrees_setStatus List.mem_cons_self _ _)
      refine ⟨⟨⟨rfl, rfl, heap, rfl, rfl, rfl, rfl, .refl _⟩, fun _ pending => .inl pending⟩, ?_⟩
      dsimp only
      split_ifs <;> decide
  · cases sentBack

theorem commitFault_eq
    (atHead : AtHead cycle tid head) (fault : (cycle.threads.heap head).fault = true)
    (executed : (cycle.threads.heap head).isExecuted = true) :
    Ended setting cycle (cycle.commitFault setting tid head) ∧
      (cycle.commitFault setting tid head).commitStatus ≠ .commitSuccess := by
  unfold commitFault
  split
  · exact ⟨.of_status setting cycle (.refl _) _, by simp⟩
  · next waits =>
      simp only [Bool.or_eq_true, decide_eq_true_eq, not_or] at waits
      refine ⟨⟨⟨rfl, rfl, fun _ => .refl _ _, rfl, rfl, rfl, rfl, .refl _⟩,
        fun other pending => ?_⟩, by simp⟩
      by_cases same : other = tid
      · rw [same]
        refine .inr ⟨head, atHead.oldest, atHead.squashed, ?_, fault, executed,
          Nat.eq_zero_of_not_pos waits.2, by simpa using waits.1⟩
        dsimp only
        rw [Function.update_self, atHead.pc]
      · exact .inl (by simpa [Function.update_of_ne same] using pending)

/-- A head has left its buffer to commit. It is not yet counted. -/
structure Succeeds
    (config : Config) (cycle next : Cycle) (tid head : Nat) (rest : List Nat) : Prop where
  sound : (cycle.threads.heap head).isExecuted = true ∧ (cycle.threads.heap head).fault = false
  retired : Rob.retireHead config (cycle.threads.instList tid) cycle.threads.heap =
    some (rest, next.threads.heap)
  threads : next.threads = { cycle.threads with
    heap := next.threads.heap
    instList := Function.update cycle.threads.instList tid rest }
  removed : next.removed = cycle.removed ++ [head]
  numCommitted : next.numCommitted = cycle.numCommitted
  committed : next.committed = cycle.committed
  doneSeqNum : next.doneSeqNum = cycle.doneSeqNum
  interrupt : next.interrupt = cycle.interrupt

theorem commitHead_cases
    (atHead : AtHead cycle tid head) (committing : cycle.commitHead setting tid head = some next) :
    Ended setting cycle next ∧ next.commitStatus ≠ .commitSuccess ∨
      next.commitStatus = .commitSuccess ∧
        ∃ rest, Succeeds setting.config cycle next tid head rest := by
  unfold commitHead at committing
  dsimp only at committing
  split at committing
  · exact .inl (commitUnexecuted_eq_some committing)
  · next executed =>
      have executed : (cycle.threads.heap head).isExecuted = true := by simpa using executed
      split at committing
      · next fault =>
          cases committing
          exact .inl (commitFault_eq atHead fault executed)
      · next fault =>
          obtain ⟨_, retiring, rfl⟩ := Option.map_eq_some_iff.mp committing
          obtain ⟨rest, heap, retired, rfl⟩ := retire_eq_some retiring
          exact .inr ⟨rfl, rest, ⟨executed, by simpa using fault⟩, retired, rfl, rfl, rfl, rfl, rfl,
            rfl⟩

theorem serviceEvents_cases (setting : Setting) (cycle : Cycle) (tid head : Nat) :
    (∀ last, cycle.serviceEvents setting tid head = .inl (some last) →
      Quiet cycle last ∧ ∃ pc, setting.pcEvents tid pc = some (last.pc tid)) ∧
    ∀ next, cycle.serviceEvents setting tid head = .inr next → Quiet cycle next := by
  unfold serviceEvents
  split
  · exact ⟨fun _ ended => (by cases ended), fun _ goesOn => (by cases goesOn)⟩
  cases events : setting.pcEvents tid (cycle.pc tid) with
  | some pc =>
      refine ⟨fun last ended => ?_, fun _ goesOn => (by cases goesOn)⟩
      cases ended
      refine ⟨{ Quiet.refl cycle with }, cycle.pc tid, ?_⟩
      dsimp only
      rw [Function.update_self]
      exact events
  | none =>
      cases squashed : cycle.squashForInterrupt setting tid head with
      | none => exact ⟨fun _ ended => (by cases ended), fun _ goesOn => (by cases goesOn)⟩
      | some marked =>
          refine ⟨fun _ ended => (by cases ended), fun next goesOn => ?_⟩
          cases goesOn
          exact .squashForInterrupt squashed

/-- A commit is counted, and the cycle goes on unless events change the program counter. -/
theorem countCommit_cases (setting : Setting) (cycle : Cycle) (tid head : Nat) :
    (∀ last, cycle.countCommit setting tid head = .inl (some last) →
      Quiet (cycle.count tid head) last ∧ Skips setting last tid head) ∧
    ∀ next, cycle.countCommit setting tid head = .inr next → Quiet (cycle.count tid head) next := by
  unfold countCommit
  dsimp only
  split
  · exact ⟨fun _ ended => (by cases ended), fun _ goesOn => (by cases goesOn)⟩
  next marked found =>
  obtain ⟨mid, squashed, drained⟩ := Option.bind_eq_some_iff.mp found
  have first : Quiet (cycle.count tid head) mid := by
    split at squashed
    · exact .squashAfter squashed
    · cases squashed
      exact .refl _
  have marks := first.trans (.drain drained)
  split
  · obtain ⟨ends, goesOn⟩ := serviceEvents_cases setting marked tid head
    refine ⟨fun last ended => ?_, fun next stepped => marks.trans (goesOn next stepped)⟩
    obtain ⟨quiet, event⟩ := ends last ended
    refine ⟨marks.trans quiet, ?_, event⟩
    rw [(marks.trans quiet).committed, count]
    exact List.getLast?_concat
  · refine ⟨fun _ ended => (by cases ended), fun next goesOn => ?_⟩
    cases goesOn
    exact marks

/-- A commit that is counted has taken its head. -/
theorem Succeeds.taken
    (succeeds : Succeeds setting.config cycle reached tid head rest)
    (owned : (cycle.threads.heap head).threadNumber = tid)
    (oldest : (cycle.threads.instList tid).head? = some head)
    (squashed : ¬(cycle.threads.heap head).isSquashed = true)
    (counted : Quiet (reached.count tid head) next) :
    Taken setting.config cycle next tid head rest := by
  have after : next.threads = { reached.threads with commitStatus := next.threads.commitStatus } :=
    counted.threads
  have status : ∀ other, next.threads.commitStatus other = .trapPending →
      reached.threads.commitStatus other = .trapPending := counted.status
  rw [succeeds.threads] at after status
  have heapEq : next.threads.heap = reached.threads.heap := by rw [after]
  refine ⟨owned, oldest, heapEq ▸ succeeds.retired, by rw [after], by rw [after], by rw [after],
    by rw [after], counted.removed.trans succeeds.removed,
    counted.interrupt.trans succeeds.interrupt, status, ?_⟩
  rw [if_neg squashed]
  refine ⟨succeeds.sound, ?_, ?_, ?_⟩
  · rw [counted.numCommitted, count, succeeds.numCommitted]
  · rw [counted.committed, count, succeeds.committed]
  · rw [counted.doneSeqNum, count, succeeds.doneSeqNum]

/-- A head that is looked at stops the cycle, or is taken. In the second case the cycle goes on,
unless events change the program counter. -/
theorem attemptHead_cases
    (setting : Setting) (oldest : (cycle.threads.instList tid).head? = some head) :
    (∀ last, cycle.attemptHead setting tid head = .inl (some last) →
        (Ended setting cycle last ∧ last.commitStatus ≠ .commitSuccess) ∨
          (∃ rest, Taken setting.config cycle last tid head rest) ∧ Skips setting last tid head) ∧
      ∀ next, cycle.attemptHead setting tid head = .inr next →
        ∃ rest, Taken setting.config cycle next tid head rest := by
  unfold attemptHead
  dsimp only
  split
  · refine ⟨fun last ended => ?_, fun _ taken => by cases taken⟩
    cases ended
    refine .inl ⟨.of_status setting cycle (.refl _) _, ?_⟩
    dsimp only [stall]
    split_ifs <;> decide
  split
  · exact ⟨fun _ ended => (by cases ended), fun _ taken => (by cases taken)⟩
  next owned =>
  have owned := not_not.mp owned
  split
  · next squashed =>
      cases retiring : cycle.retire setting tid head with
      | none => exact ⟨fun _ ended => (by cases ended), fun _ taken => (by cases taken)⟩
      | some retired =>
          refine ⟨fun _ ended => (by cases ended), fun next taken => ?_⟩
          cases taken
          obtain ⟨rest, heap, found, rfl⟩ := retire_eq_some retiring
          refine ⟨rest, owned, oldest, found, rfl, rfl, rfl, .refl _, rfl, rfl,
            fun _ pending => pending, ?_⟩
          rw [if_pos squashed]
          exact ⟨rfl, rfl, rfl⟩
  next squashed =>
  split
  · exact ⟨fun _ ended => (by cases ended), fun _ taken => (by cases taken)⟩
  next reached committing =>
  have atHead : AtHead { cycle with
      pc := Function.update cycle.pc tid (cycle.threads.heap head).pc } tid head :=
    ⟨oldest, by simpa using squashed, Function.update_self ..⟩
  have cases := commitHead_cases atHead committing
  split
  · next succeeded =>
      obtain ⟨-, rest, succeeds⟩ := cases.resolve_left fun failed => failed.2 succeeded
      have succeeds : Succeeds setting.config cycle reached tid head rest := { succeeds with }
      obtain ⟨ends, goesOn⟩ := countCommit_cases setting reached tid head
      refine ⟨fun last ended => .inr ?_, fun next stepped => ?_⟩
      · obtain ⟨counted, skips⟩ := ends last ended
        exact ⟨⟨rest, succeeds.taken owned oldest squashed counted⟩, skips⟩
      · exact ⟨rest, succeeds.taken owned oldest squashed (goesOn next stepped)⟩
  · next failed =>
      refine ⟨fun last ended => .inl ?_, fun _ taken => (by cases taken)⟩
      cases ended
      obtain ⟨ended, stopped⟩ := cases.resolve_right fun succeeded => failed succeeded.1
      exact ⟨{ ended with }, stopped⟩

/-- Looking at an interrupt changes marks, and only of thread 0 if nothing is in flight. -/
theorem marks_interrupted (setting : Setting) (cycle : Cycle) :
    Marks cycle (cycle.interrupted setting) := by
  unfold interrupted handleInterrupt
  split_ifs <;> exact ⟨rfl, rfl, rfl, rfl, rfl⟩

theorem interrupt_interrupted (still : (cycle.interrupted setting).interrupt = true) :
    cycle.interrupt = true := by
  unfold interrupted at still
  split at still
  · assumption
  · exact still

theorem trapPending_interrupted
    (pending : (cycle.interrupted setting).threads.commitStatus tid = .trapPending) :
    cycle.threads.commitStatus tid = .trapPending ∨
      tid = 0 ∧ cycle.interrupt = true ∧ setting.noneInFlight = true := by
  unfold interrupted at pending
  split at pending
  · next interrupt =>
      unfold handleInterrupt at pending
      split at pending
      · exact .inl pending
      · split at pending
        · next idle =>
            rw [Bool.and_eq_true] at idle
            by_cases same : tid = 0
            · exact .inr ⟨same, interrupt, idle.2⟩
            · exact .inl (by simpa [Function.update_of_ne same] using pending)
        · exact .inl pending
  · exact .inl pending

theorem attempt_eq_inr (attempted : cycle.attempt setting = .inr next) :
    cycle.numCommitted < setting.commitWidth ∧ ∃ tid head rest,
      ((cycle.interrupted setting).threads.getCommittingThread setting.commitPolicy).1 = some tid ∧
        Taken setting.config (cycle.interrupted setting) next tid head rest := by
  unfold attempt at attempted
  split at attempted
  · next room =>
      refine ⟨room, ?_⟩
      dsimp only at attempted
      split at attempted
      · cases attempted
      · next tid chosen =>
          split at attempted
          · cases attempted
          · next head _ split =>
              obtain ⟨rest, taken⟩ := (attemptHead_cases setting (by simp [split])).2 _ attempted
              exact ⟨tid, head, rest, chosen, { taken with
                priorityList := taken.priorityList.trans Smt.Threads.perm_getCommittingThread }⟩
  · cases attempted

/-- How an iteration ends the cycle. -/
inductive Stops (setting : Setting) (cycle last : Cycle) : Prop
  | full (ended : Ended setting cycle last) (full : setting.commitWidth ≤ last.numCommitted)
  | stalls
      (ended : Ended setting (cycle.interrupted setting) last)
      (stalls : last.commitStatus ≠ .commitSuccess)
  | skips
      (tid head : Nat)
      (rest : List Nat)
      (room : cycle.numCommitted < setting.commitWidth)
      (chosen : ((cycle.interrupted setting).threads.getCommittingThread
        setting.commitPolicy).1 = some tid)
      (taken : Taken setting.config (cycle.interrupted setting) last tid head rest)
      (skips : Skips setting last tid head)

theorem attempt_eq_inl (attempted : cycle.attempt setting = .inl (some last)) :
    Stops setting cycle last := by
  unfold attempt at attempted
  split at attempted
  · next room =>
      dsimp only at attempted
      split at attempted
      · cases attempted
        exact .stalls (.of_status setting _ Smt.Threads.perm_getCommittingThread _) (by simp)
      · next tid chosen =>
          split at attempted
          · cases attempted
            exact .stalls (.of_status setting _ Smt.Threads.perm_getCommittingThread _) (by simp)
          · next head _ split =>
              rcases (attemptHead_cases setting (by simp [split])).1 _ attempted with
                ⟨ended, stalls⟩ | ⟨⟨rest, taken⟩, skips⟩
              · exact .stalls { ended with
                  priorityList := ended.priorityList.trans Smt.Threads.perm_getCommittingThread }
                  stalls
              · exact .skips tid head rest room chosen { taken with
                  priorityList := taken.priorityList.trans Smt.Threads.perm_getCommittingThread }
                  skips
  · next full =>
      cases attempted
      exact .full (.of_status setting _ (.refl _) _) (Nat.le_of_not_lt full)

end Cycle

/-- The threads that commit may select are threads of the core. -/
structure Valid (threads : Smt.Threads) : Prop where
  active : ∀ tid ∈ threads.activeThreads, tid < threads.numThreads
  priority : ∀ tid ∈ threads.priorityList, tid < threads.numThreads

/-- What has happened since the start of the cycle. Each thread has retired the front of its
buffer, and of that the instructions that were not squashed have committed. -/
structure Progress (setting : Setting) (start cycle : Cycle) : Prop where
  agrees : ∀ seq, DynInst.Agrees Cycle.retireFlags (start.threads.heap seq)
    (cycle.threads.heap seq)
  order : ∀ tid, start.threads.instList tid =
    cycle.removed.filter (fun seq => (start.threads.heap seq).threadNumber = tid) ++
      cycle.threads.instList tid
  committed : cycle.committed = cycle.removed.filter fun seq => !(start.threads.heap seq).isSquashed
  priority : cycle.threads.priorityList.Perm start.threads.priorityList
  counted : cycle.numCommitted = cycle.committed.length
  width : cycle.numCommitted ≤ setting.commitWidth
  sound : ∀ seq ∈ cycle.committed, (start.threads.heap seq).isExecuted = true ∧
    (start.threads.heap seq).fault = false
  done : ∀ tid, cycle.doneSeqNum tid = ((cycle.committed.filter fun seq =>
      (start.threads.heap seq).threadNumber = tid).getLast?).getD 0

theorem Cycle.Taken.split (taken : Cycle.Taken config cycle next tid head rest) :
    cycle.threads.instList tid = head :: rest := by
  obtain ⟨first, _, split, -⟩ := Rob.retireHead_eq_some taken.retired
  have oldest := taken.oldest
  rw [split, List.head?_cons, Option.some.injEq] at oldest
  rw [split, oldest]

section Progress

variable {setting : Setting} {start cycle next : Cycle} {tid head : Nat} {rest : List Nat}

section

variable (progress : Progress setting start cycle)
include progress

theorem Progress.owned_taken (taken : Cycle.Taken setting.config cycle next tid head rest) :
    (start.threads.heap head).threadNumber = tid := by
  rw [← taken.owned, (progress.agrees head).threadNumber]

theorem Progress.order_taken
    (taken : Cycle.Taken setting.config cycle next tid head rest) (other : Nat) :
    start.threads.instList other =
      next.removed.filter (fun seq => (start.threads.heap seq).threadNumber = other) ++
        next.threads.instList other := by
  have owned := progress.owned_taken taken
  rw [progress.order, taken.removed, taken.instList, List.filter_append, List.append_assoc]
  by_cases same : other = tid
  · subst same
    simp [owned, taken.split]
  · simp [owned, same, Ne.symm same]

theorem Progress.taken
    (sorted : ∀ tid, (start.threads.instList tid).Pairwise (· < ·))
    (room : cycle.numCommitted < setting.commitWidth)
    (taken : Cycle.Taken setting.config cycle next tid head rest) :
    Progress setting start next := by
  have left : (cycle.threads.instList tid).Pairwise (· < ·) := by
    have whole := sorted tid
    rw [progress.order] at whole
    exact whole.sublist (List.sublist_append_right ..)
  have owned := progress.owned_taken taken
  have squashed : (cycle.threads.heap head).isSquashed = (start.threads.heap head).isSquashed :=
    (progress.agrees head).isSquashed (by decide)
  have agrees := fun seq => (progress.agrees seq).trans
    (Cycle.retireHead_agrees left taken.retired seq)
  have order := progress.order_taken taken
  have priority := taken.priorityList.trans progress.priority
  have counted := taken.counted
  rw [squashed] at counted
  split at counted
  · next squashed =>
      obtain ⟨number, committed, done⟩ := counted
      refine ⟨agrees, order, ?_, priority, ?_, ?_, ?_, ?_⟩
      · rw [committed, progress.committed, taken.removed, List.filter_append]
        simp [squashed]
      · rw [number, committed, progress.counted]
      · rw [number]
        exact progress.width
      · rw [committed]
        exact progress.sound
      · rw [committed, done]
        exact progress.done
  · next squashed =>
      obtain ⟨⟨executed, fault⟩, number, committed, done⟩ := counted
      refine ⟨agrees, order, ?_, priority, ?_, ?_, ?_, ?_⟩
      · rw [committed, progress.committed, taken.removed, List.filter_append]
        simp [squashed]
      · rw [number, committed, progress.counted, List.length_append]
        rfl
      · rw [number]
        exact room
      · rw [committed]
        intro seq member
        rcases List.mem_append.mp member with earlier | last
        · exact progress.sound seq earlier
        · obtain rfl := List.mem_singleton.mp last
          refine ⟨?_, (progress.agrees seq).fault ▸ fault⟩
          rw [← executed]
          exact ((progress.agrees seq).status _ (by decide)).symm
      · intro other
        rw [committed, done, List.filter_append]
        by_cases same : other = tid
        · subst same
          simp [owned]
        · simp [owned, Ne.symm same, Function.update_of_ne same, progress.done]

theorem Progress.still (still : Cycle.Still cycle next) : Progress setting start next := by
  refine ⟨fun seq => ?_, ?_, ?_, still.priorityList.trans progress.priority, ?_, ?_, ?_, ?_⟩
  · exact (progress.agrees seq).trans ((still.heap seq).mono (by decide))
  · rw [still.removed, still.instList]
    exact progress.order
  · rw [still.committed, still.removed]
    exact progress.committed
  · rw [still.numCommitted, still.committed]
    exact progress.counted
  · rw [still.numCommitted]
    exact progress.width
  · rw [still.committed]
    exact progress.sound
  · rw [still.committed, still.doneSeqNum]
    exact progress.done

end

theorem numInstsInROB_taken
    (selected : tid < cycle.threads.numThreads)
    (taken : Cycle.Taken setting.config cycle next tid head rest) :
    numInstsInROB next.threads < numInstsInROB cycle.threads := by
  unfold numInstsInROB
  rw [taken.numThreads, taken.instList]
  apply List.sum_lt_sum
  · intro other _
    by_cases same : other = tid
    · subst same
      simp [taken.split]
    · simp [Function.update_of_ne same]
  · exact ⟨tid, List.mem_range.mpr selected, by simp [taken.split]⟩

/-- What holds as long as the loop goes on. -/
structure Looping (setting : Setting) (start cycle : Cycle) : Prop
    extends Progress setting start cycle where
  valid : Valid cycle.threads
  interrupt : cycle.interrupt = true → start.interrupt = true
  status : ∀ tid, cycle.threads.commitStatus tid = .trapPending →
    start.threads.commitStatus tid = .trapPending
  idle : setting.noneInFlight = true → cycle.removed = [] ∧
    ∀ tid < cycle.threads.numThreads, cycle.threads.instList tid = []

theorem Looping.selected
    (looping : Looping setting start cycle)
    (chosen : ((cycle.interrupted setting).threads.getCommittingThread setting.commitPolicy).1 =
      some tid) :
    tid < cycle.threads.numThreads := by
  have threads := (Cycle.marks_interrupted setting cycle).threads
  have listed := (Smt.Threads.getCommittingThread_eq_some chosen).2
  rw [threads] at listed
  exact listed.elim (looping.valid.active tid) (looping.valid.priority tid)

/-- While a head is taken, instructions are in flight, and no interrupt is taken. -/
theorem Looping.taken
    (looping : Looping setting start cycle)
    (sorted : ∀ tid, (start.threads.instList tid).Pairwise (· < ·))
    (room : cycle.numCommitted < setting.commitWidth) (selected : tid < cycle.threads.numThreads)
    (taken : Cycle.Taken setting.config (cycle.interrupted setting) next tid head rest) :
    Looping setting start next := by
  have marks := Cycle.marks_interrupted setting cycle
  have threads := marks.threads
  have busy : ¬setting.noneInFlight = true := by
    intro idle
    have split := taken.split
    rw [threads] at split
    rw [(looping.idle idle).2 tid selected] at split
    cases split
  refine ⟨(looping.still marks.still).taken sorted (by rwa [marks.numCommitted]) taken, ⟨?_, ?_⟩, ?_,
    fun tid pending => ?_, fun idle => absurd idle busy⟩
  · rw [taken.activeThreads, taken.numThreads, threads]
    exact looping.valid.active
  · intro tid member
    rw [taken.numThreads, threads]
    have listed := taken.priorityList.mem_iff.mp member
    rw [threads] at listed
    exact looping.valid.priority tid listed
  · rw [taken.interrupt]
    exact fun still => looping.interrupt (Cycle.interrupt_interrupted still)
  · refine looping.status tid ?_
    exact (Cycle.trapPending_interrupted (taken.status tid pending)).resolve_right
      fun taken => busy taken.2.2

theorem Looping.attempt
    (looping : Looping setting start cycle)
    (sorted : ∀ tid, (start.threads.instList tid).Pairwise (· < ·))
    (attempted : cycle.attempt setting = .inr next) :
    Looping setting start next ∧ numInstsInROB next.threads < numInstsInROB cycle.threads := by
  obtain ⟨room, tid, head, rest, chosen, taken⟩ := Cycle.attempt_eq_inr attempted
  have threads := (Cycle.marks_interrupted setting cycle).threads
  have selected := looping.selected chosen
  have shorter := numInstsInROB_taken (by rwa [threads]) taken
  refine ⟨looping.taken sorted room selected taken, ?_⟩
  rw [threads] at shorter
  exact shorter

/-- Thread 0 takes an interrupt: nothing is in flight, so its buffer is empty. -/
structure Interrupted (setting : Setting) (start last : Cycle) (tid : Nat) : Prop where
  thread : tid = 0
  pending : start.interrupt = true
  noneInFlight : setting.noneInFlight = true
  nothing : last.removed = []
  empty : ∀ other < last.threads.numThreads, last.threads.instList other = []

/-- How a cycle ends. A thread that starts to trap does so at its oldest instruction, or takes
an interrupt. -/
structure Outcome (setting : Setting) (start last : Cycle) : Prop
    extends Progress setting start last where
  stopped : last.numCommitted = setting.commitWidth ∨ last.commitStatus ≠ .commitSuccess ∨
    ∃ tid head, Cycle.Skips setting last tid head
  trap : ∀ tid, last.threads.commitStatus tid = .trapPending →
    start.threads.commitStatus tid = .trapPending ∨ (∃ head, Cycle.Traps setting last tid head) ∨
      Interrupted setting start last tid

theorem Looping.outcome
    (looping : Looping setting start cycle)
    (sorted : ∀ tid, (start.threads.instList tid).Pairwise (· < ·))
    (stops : Cycle.Stops setting cycle last) :
    Outcome setting start last := by
  cases stops with
  | full ended full =>
      have final := looping.still ended.toStill
      refine ⟨final, .inl (Nat.le_antisymm final.width full), fun tid pending => ?_⟩
      exact (ended.trap tid pending).imp (looping.status tid) .inl
  | stalls ended stalls =>
      have marks := Cycle.marks_interrupted setting cycle
      refine ⟨(looping.still marks.still).still ended.toStill, .inr (.inl stalls),
        fun tid pending => ?_⟩
      rcases ended.trap tid pending with before | traps
      · rcases Cycle.trapPending_interrupted before with earlier | ⟨thread, interrupt, idle⟩
        · exact .inl (looping.status tid earlier)
        · obtain ⟨nothing, empty⟩ := looping.idle idle
          refine .inr (.inr ⟨thread, looping.interrupt interrupt, idle, ?_, ?_⟩)
          · rw [ended.removed, marks.removed, nothing]
          · rw [ended.instList, ended.numThreads, marks.threads]
            exact empty
      · exact .inr (.inl traps)
  | skips tid head rest room chosen taken skips =>
      have final := looping.taken sorted room (looping.selected chosen) taken
      exact ⟨final.toProgress, .inr (.inr ⟨tid, head, skips⟩),
        fun tid pending => .inl (final.status tid pending)⟩

/-- The start of a cycle. -/
def Cycle.new (threads : Smt.Threads) (kept : Kept) : Cycle :=
  { kept with threads := threads }

/-- The loop ends, and unless an assertion fails it ends as it should. -/
theorem exists_commitInsts
    (setting : Setting) (valid : Valid threads)
    (sorted : ∀ tid, (threads.instList tid).Pairwise (· < ·))
    (idle : setting.noneInFlight = true → ∀ tid < threads.numThreads, threads.instList tid = [])
    (kept : Kept) :
    ∃ result, commitInsts setting (.new threads kept) = some result ∧
      ∀ last, result = some last → Outcome setting (.new threads kept) last := by
  have started : Looping setting (.new threads kept) (.new threads kept) :=
    ⟨⟨fun _ => .refl _ _, fun _ => rfl, rfl, .refl _, rfl, Nat.zero_le _,
      fun _ member => (by cases member), fun _ => rfl⟩, valid, fun pending => pending,
      fun _ pending => pending, fun none => ⟨rfl, idle none⟩⟩
  obtain ⟨cycle, result, looping, ended, returned⟩ :=
    Library.exists_loop (fun cycle : Cycle => numInstsInROB cycle.threads)
      (fun _ _ looping attempted => Looping.attempt looping sorted attempted)
      (Nat.lt_succ_self _) started
  refine ⟨_, by rw [commitInsts, returned, Option.map_some], fun last found => ?_⟩
  obtain rfl := (Option.filter_eq_some_iff.mp found).1
  exact looping.outcome sorted (Cycle.attempt_eq_inl ended)

end Progress

end Commit
end Dolma

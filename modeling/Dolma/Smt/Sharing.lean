import Dolma.Library.TransitionSystem
import Mathlib.Algebra.BigOperators.Group.Finset.Piecewise
import Mathlib.Algebra.Order.BigOperators.Group.Finset

/-!
# Queues that the threads share

The instruction queue and the reorder buffer have one set of entries for all threads and a
limit for each thread. Whether an instruction is let in is decided from the limit and the
count of its thread; the insert then asserts that one of the shared entries is free. The
limits follow a sharing policy and are set again when a thread is inserted.
-/

namespace Dolma
namespace Smt

open Library

/-- The sharing policies. -/
inductive Policy where
  | dynamic
  | partitioned
  | threshold
deriving DecidableEq, Repr

/-- The queues that the threads share. -/
inductive Kind where
  | instQueue
  | rob
deriving DecidableEq, Repr

/-- The parameters of a queue. -/
structure Config where
  kind : Kind
  policy : Policy
  numEntries : Nat
  numThreads : Nat
  thresholdEntries : Nat
  unsigned : numEntries < 2 ^ 32 ∧ thresholdEntries < 2 ^ 32

/-- The state of a queue. -/
structure State where
  maxEntries : Nat → Nat
  count : Nat → Nat := fun _ => 0
  /-- The shared counter: `freeEntries` of the instruction queue, `numInstsInROB` of the
  reorder buffer. -/
  total : Nat
  activeThreads : List Nat := []

/-- The shared counter of an empty queue. -/
def resetTotal (config : Config) : Nat :=
  match config.kind with
  | .instQueue => config.numEntries
  | .rob => 0

/-- The limit that the constructor gives to every thread. -/
def constructedLimit (config : Config) : Nat :=
  match config.policy with
  | .dynamic => config.numEntries
  | .partitioned => config.numEntries / config.numThreads
  | .threshold => config.thresholdEntries

/-- The queue after construction. -/
def initial (config : Config) : State where
  maxEntries _ := constructedLimit config
  total := resetTotal config

/-- Empty the queue. -/
def resetState (config : Config) (state : State) : State :=
  { state with count := fun _ => 0, total := resetTotal config }

/-- Set the limit of one active thread again. -/
def resetLimit
    (config : Config) (activeThreads : Nat) (maxEntries : Nat → Nat) (tid : Nat) : Nat → Nat :=
  match config.policy with
  | .partitioned => Function.update maxEntries tid (config.numEntries / activeThreads)
  | .threshold =>
      if activeThreads = 1 then Function.update maxEntries tid config.numEntries else maxEntries
  | .dynamic => maxEntries

/-- Set the limits of the active threads again. -/
def resetEntries (config : Config) (state : State) : State :=
  if config.policy ≠ .dynamic ∨ 1 < config.numThreads then
    { state with
      maxEntries := state.activeThreads.foldl
        (resetLimit config state.activeThreads.length) state.maxEntries }
  else state

/-- The free entries of a thread, a difference of unsigned integers. -/
def numFreeEntries (state : State) (tid : Nat) : Nat :=
  (((state.maxEntries tid : Int) - state.count tid) % 2 ^ 32).toNat

/-- Whether a thread has to wait. -/
def isFull (state : State) (tid : Nat) : Bool := numFreeEntries state tid == 0

/-- What an insert asserts: there is a free shared entry. -/
def hasRoom (config : Config) (state : State) : Bool :=
  match config.kind with
  | .instQueue => state.total != 0
  | .rob => state.total != config.numEntries

/-- Insert an instruction of a thread. -/
def insert (config : Config) (state : State) (tid : Nat) : State :=
  { state with
    count := Function.update state.count tid (state.count tid + 1)
    total := match config.kind with
      | .instQueue => state.total - 1
      | .rob => state.total + 1 }

/-- Remove an instruction of a thread. -/
def remove (config : Config) (state : State) (tid : Nat) : State :=
  { state with
    count := Function.update state.count tid (state.count tid - 1)
    total := match config.kind with
      | .instQueue => state.total + 1
      | .rob => state.total - 1 }

/-- What happens to a queue. -/
inductive Event where
  | insert (tid : Nat)
  | remove (tid : Nat)
  | activateThread (tid : Nat)
  | deactivateThread (tid : Nat)
  | resetEntries
  | resetState
deriving DecidableEq, Repr

/-- The step function. A thread that is full waits, and a failing assertion ends the run. -/
def step (config : Config) (state : State) : Event → Option State
  | .insert tid =>
      if tid < config.numThreads ∧ isFull state tid = false ∧ hasRoom config state then
        some (insert config state tid)
      else none
  | .remove tid =>
      if tid < config.numThreads ∧ 0 < state.count tid then some (remove config state tid)
      else none
  | .activateThread tid =>
      if tid < config.numThreads then
        some { state with
          activeThreads := if tid ∈ state.activeThreads then state.activeThreads
            else state.activeThreads ++ [tid] }
      else none
  | .deactivateThread tid =>
      some { state with activeThreads := state.activeThreads.erase tid }
  | .resetEntries => some (resetEntries config state)
  | .resetState => some (resetState config state)

/-- The sum over all threads. -/
def sum (config : Config) (amount : Nat → Nat) : Nat :=
  ∑ tid ∈ Finset.range config.numThreads, amount tid

/-- Limits that never let in more than there is room for: they add up to at most the
capacity, and no thread holds more than its limit. -/
def Fits (config : Config) (maxEntries count : Nat → Nat) : Prop :=
  sum config maxEntries ≤ config.numEntries ∧ ∀ tid < config.numThreads, count tid ≤ maxEntries tid

/-- Whenever the limits are set again, they fit. -/
def resetsFit (config : Config) (state : State) : Event → Prop
  | .resetEntries => Fits config (resetEntries config state).maxEntries state.count
  | _ => True

/-- The shared counter agrees with the counts of the threads. -/
def Accounts (config : Config) (state : State) : Prop :=
  match config.kind with
  | .instQueue => state.total + sum config state.count = config.numEntries
  | .rob => state.total = sum config state.count ∧ state.total ≤ config.numEntries

section Lemmas

variable {config : Config} {state next : State}
variable {tid : Nat}

theorem sum_insert (valid : tid < config.numThreads) (count : Nat → Nat) :
    sum config (Function.update count tid (count tid + 1)) = sum config count + 1 := by
  have member : tid ∈ Finset.range config.numThreads := Finset.mem_range.mpr valid
  rw [sum, sum, Finset.sum_update_of_mem member,
    ← Finset.add_sum_erase _ count member, Finset.sdiff_singleton_eq_erase]
  omega

theorem sum_remove (valid : tid < config.numThreads) (holds : 0 < count tid) :
    sum config (Function.update count tid (count tid - 1)) + 1 = sum config count := by
  have member : tid ∈ Finset.range config.numThreads := Finset.mem_range.mpr valid
  rw [sum, sum, Finset.sum_update_of_mem member,
    ← Finset.add_sum_erase _ count member, Finset.sdiff_singleton_eq_erase]
  omega

/-- There is room as long as the threads hold less than the capacity. -/
theorem hasRoom_iff (accounts : Accounts config state) :
    hasRoom config state = true ↔ sum config state.count < config.numEntries := by
  unfold Accounts at accounts
  unfold hasRoom
  cases kind : config.kind with
  | instQueue =>
      rw [kind] at accounts
      rw [bne_iff_ne]
      dsimp only at accounts
      omega
  | rob =>
      rw [kind] at accounts
      rw [bne_iff_ne]
      dsimp only at accounts
      omega

/-- A thread below its limit is not full. -/
theorem isFull_eq_false
    (small : state.maxEntries tid < 2 ^ 32) (below : state.count tid < state.maxEntries tid) :
    isFull state tid = false := by
  rw [isFull, beq_eq_false_iff_ne, numFreeEntries]
  omega

/-- A thread that is not full is not at its limit. -/
theorem count_ne_of_not_isFull (notFull : isFull state tid = false) :
    state.count tid ≠ state.maxEntries tid := by
  rw [isFull, beq_eq_false_iff_ne, numFreeEntries] at notFull
  omega

/-- The limits of the constructor do not overflow. -/
theorem constructedLimit_lt (config : Config) : constructedLimit config < 2 ^ 32 := by
  obtain ⟨entries, threshold⟩ := config.unsigned
  unfold constructedLimit
  cases config.policy with
  | dynamic => exact entries
  | partitioned => exact Nat.lt_of_le_of_lt (Nat.div_le_self _ _) entries
  | threshold => exact threshold

theorem Accounts.of_empty
    (counts : state.count = fun _ => 0) (total : state.total = resetTotal config) :
    Accounts config state := by
  have none : sum config (fun _ => 0) = 0 := Finset.sum_const_zero
  unfold Accounts
  unfold resetTotal at total
  cases kind : config.kind with
  | instQueue =>
      rw [kind] at total
      dsimp only
      rw [counts, none, total, Nat.add_zero]
  | rob =>
      rw [kind] at total
      dsimp only
      rw [counts, none, total]
      exact ⟨rfl, Nat.zero_le _⟩

theorem Accounts.congr
    (accounts : Accounts config state) (count : next.count = state.count)
    (total : next.total = state.total) :
    Accounts config next := by
  unfold Accounts at accounts ⊢
  rw [count, total]
  exact accounts

theorem Accounts.insert
    (accounts : Accounts config state) (valid : tid < config.numThreads)
    (room : hasRoom config state = true) :
    Accounts config (insert config state tid) := by
  have below := (hasRoom_iff accounts).mp room
  have more := sum_insert valid state.count
  unfold Accounts at accounts ⊢
  unfold Smt.insert
  cases kind : config.kind with
  | instQueue =>
      rw [kind] at accounts
      dsimp only at accounts ⊢
      omega
  | rob =>
      rw [kind] at accounts
      dsimp only at accounts ⊢
      omega

theorem Accounts.remove
    (accounts : Accounts config state) (valid : tid < config.numThreads)
    (holds : 0 < state.count tid) :
    Accounts config (remove config state tid) := by
  have fewer := sum_remove valid holds
  unfold Accounts at accounts ⊢
  unfold Smt.remove
  cases kind : config.kind with
  | instQueue =>
      rw [kind] at accounts
      dsimp only at accounts ⊢
      omega
  | rob =>
      rw [kind] at accounts
      dsimp only at accounts ⊢
      omega

/-- Setting the limits again changes no count. -/
theorem resetEntries_counts (config : Config) (state : State) :
    (resetEntries config state).count = state.count ∧
      (resetEntries config state).total = state.total := by
  unfold resetEntries
  split
  · exact ⟨rfl, rfl⟩
  · exact ⟨rfl, rfl⟩

/-- Every step keeps the shared counter in agreement. -/
theorem Accounts.step
    (accounts : Accounts config state) (event : Event)
    (enabled : step config state event = some next) :
    Accounts config next := by
  cases event with
  | insert tid =>
      rw [Smt.step, Option.ite_none_right_eq_some] at enabled
      obtain ⟨⟨valid, -, room⟩, enabled⟩ := enabled
      cases enabled
      exact accounts.insert valid room
  | remove tid =>
      rw [Smt.step, Option.ite_none_right_eq_some] at enabled
      obtain ⟨⟨valid, holds⟩, enabled⟩ := enabled
      cases enabled
      exact accounts.remove valid holds
  | activateThread tid =>
      rw [Smt.step, Option.ite_none_right_eq_some] at enabled
      obtain rfl := Option.some.inj enabled.2
      exact accounts.congr rfl rfl
  | deactivateThread tid =>
      cases enabled
      exact accounts.congr rfl rfl
  | resetEntries =>
      cases enabled
      exact accounts.congr (resetEntries_counts config state).1 (resetEntries_counts config state).2
  | resetState =>
      cases enabled
      exact .of_empty rfl rfl

/-- Every step whose resets fit keeps the limits fitting. -/
theorem Fits.step
    (fits : Fits config state.maxEntries state.count) (event : Event)
    (allowed : resetsFit config state event) (enabled : step config state event = some next) :
    Fits config next.maxEntries next.count := by
  obtain ⟨capacity, within⟩ := fits
  cases event with
  | insert tid =>
      rw [Smt.step, Option.ite_none_right_eq_some] at enabled
      obtain ⟨⟨valid, notFull, -⟩, enabled⟩ := enabled
      cases enabled
      refine ⟨capacity, fun other active => ?_⟩
      by_cases same : other = tid
      · subst same
        have below := within other active
        have notAt := count_ne_of_not_isFull notFull
        simp only [Smt.insert, Function.update_self]
        omega
      · simp only [Smt.insert, Function.update_of_ne same]
        exact within other active
  | remove tid =>
      rw [Smt.step, Option.ite_none_right_eq_some] at enabled
      obtain rfl := Option.some.inj enabled.2
      refine ⟨capacity, fun other active => ?_⟩
      by_cases same : other = tid
      · subst same
        simp only [Smt.remove, Function.update_self]
        exact Nat.le_trans (Nat.sub_le _ _) (within other active)
      · simp only [Smt.remove, Function.update_of_ne same]
        exact within other active
  | activateThread tid =>
      rw [Smt.step, Option.ite_none_right_eq_some] at enabled
      obtain rfl := Option.some.inj enabled.2
      exact ⟨capacity, within⟩
  | deactivateThread tid =>
      cases enabled
      exact ⟨capacity, within⟩
  | resetEntries =>
      cases enabled
      rw [(resetEntries_counts config state).1]
      exact allowed
  | resetState =>
      cases enabled
      exact ⟨capacity, fun _ _ => Nat.zero_le _⟩

/-- With fitting limits, a thread that is not full finds room. -/
theorem Fits.hasRoom
    (fits : Fits config state.maxEntries state.count) (accounts : Accounts config state)
    (valid : tid < config.numThreads) (notFull : isFull state tid = false) :
    hasRoom config state = true := by
  obtain ⟨capacity, within⟩ := fits
  have below : state.count tid < state.maxEntries tid :=
    Nat.lt_of_le_of_ne (within tid valid) (count_ne_of_not_isFull notFull)
  have less : sum config state.count < sum config state.maxEntries :=
    Finset.sum_lt_sum (fun other member => within other (Finset.mem_range.mp member))
      ⟨tid, Finset.mem_range.mpr valid, below⟩
  exact (hasRoom_iff accounts).mpr (Nat.lt_of_lt_of_le less capacity)

end Lemmas

theorem sum_constructedLimit (config : Config) :
    sum config (initial config).maxEntries = config.numThreads * constructedLimit config := by
  have each : ∀ tid ∈ Finset.range config.numThreads,
      (initial config).maxEntries tid = constructedLimit config := fun _ _ => rfl
  rw [sum, Finset.sum_const_nat each, Finset.card_range]

variable {config : Config}

/-- With limits that fit from the start on, they fit in every run whose resets fit. -/
theorem accounts_fits
    (capacity : config.numThreads * constructedLimit config ≤ config.numEntries)
    (reachable : Reachable (step config) (resetsFit config) (initial config) state) :
    Accounts config state ∧ Fits config state.maxEntries state.count := by
  induction reachable with
  | init =>
      refine ⟨.of_empty rfl rfl, ?_, fun _ _ => Nat.zero_le _⟩
      rw [sum_constructedLimit]
      exact capacity
  | step event _ allowed enabled ih =>
      exact ⟨ih.1.step event enabled, ih.2.step event allowed enabled⟩

/-- When the limits add up to more than the capacity, the threads can fill the queue. -/
theorem exists_filled
    (overCommitted : config.numEntries < config.numThreads * constructedLimit config)
    (entries : Nat) (bounded : entries ≤ config.numEntries) :
    ∃ state, Reachable (step config) (resetsFit config) (initial config) state ∧
      state.maxEntries = (initial config).maxEntries ∧ Accounts config state ∧
      sum config state.count = entries := by
  induction entries with
  | zero => exact ⟨initial config, .init, rfl, .of_empty rfl rfl, Finset.sum_const_zero⟩
  | succ entries ih =>
      obtain ⟨state, reachable, limits, accounts, filled⟩ := ih (Nat.le_of_succ_le bounded)
      have below : sum config state.count < sum config state.maxEntries := by
        rw [limits, sum_constructedLimit, filled]
        omega
      obtain ⟨tid, member, below⟩ := Finset.exists_lt_of_sum_lt below
      have valid := Finset.mem_range.mp member
      have room := (hasRoom_iff accounts).mpr (by omega)
      have notFull : isFull state tid = false := by
        refine isFull_eq_false ?_ below
        rw [limits]
        exact constructedLimit_lt config
      have enabled : step config state (.insert tid) = some (insert config state tid) :=
        if_pos ⟨valid, notFull, room⟩
      refine ⟨insert config state tid, .step (.insert tid) reachable trivial enabled, limits,
        accounts.insert valid room, ?_⟩
      exact (sum_insert valid state.count).trans (congrArg Nat.succ filled)

/-- The limits add up to at most the capacity exactly if, in every run whose resets fit, a thread
that is not full always finds a free shared entry. -/
theorem hasRoom_of_not_isFull_iff (config : Config) :
    config.numThreads * constructedLimit config ≤ config.numEntries ↔
      ∀ state, Reachable (step config) (resetsFit config) (initial config) state →
        ∀ tid < config.numThreads, isFull state tid = false → hasRoom config state = true := by
  constructor
  · intro capacity state reachable tid valid notFull
    obtain ⟨accounts, fits⟩ := accounts_fits capacity reachable
    exact fits.hasRoom accounts valid notFull
  · intro always
    by_contra overCommitted
    rw [Nat.not_le] at overCommitted
    obtain ⟨state, reachable, limits, accounts, filled⟩ :=
      exists_filled overCommitted config.numEntries (Nat.le_refl _)
    have below : sum config state.count < sum config state.maxEntries := by
      rw [limits, sum_constructedLimit, filled]
      exact overCommitted
    obtain ⟨tid, member, below⟩ := Finset.exists_lt_of_sum_lt below
    have notFull : isFull state tid = false := by
      refine isFull_eq_false ?_ below
      rw [limits]
      exact constructedLimit_lt config
    have room := always state reachable tid (Finset.mem_range.mp member) notFull
    exact absurd ((hasRoom_iff accounts).mp room) (Nat.not_lt.mpr (Nat.le_of_eq filled.symm))

/-- An instruction queue of two entries that two threads share dynamically. -/
private def dynamicQueue : Config where
  kind := .instQueue
  policy := .dynamic
  numEntries := 2
  numThreads := 2
  thresholdEntries := 0
  unsigned := by decide

/-- A partitioned reorder buffer of two entries for two threads. -/
private def partitionedRob : Config where
  kind := .rob
  policy := .partitioned
  numEntries := 2
  numThreads := 2
  thresholdEntries := 0
  unsigned := by decide

/-- Two threads fill a dynamically shared instruction queue, and neither is full; a thread fills
a partitioned reorder buffer on its own, a second one starts, and neither is full. -/
theorem not_hasRoom_of_not_isFull :
    (∃ state, Reachable (step dynamicQueue) (fun _ _ => True) (initial dynamicQueue) state ∧
      isFull state 0 = false ∧ hasRoom dynamicQueue state = false) ∧
    ∃ state, Reachable (step partitionedRob) (fun _ _ => True) (initial partitionedRob) state ∧
      isFull state 0 = false ∧ isFull state 1 = false ∧ hasRoom partitionedRob state = false :=
  ⟨Reachable.exists_imp_of_replay [.insert 0, .insert 1] _ (by decide) fun _ _ tested => tested,
    Reachable.exists_imp_of_replay
      [.activateThread 0, .resetEntries, .insert 0, .insert 0, .activateThread 1, .resetEntries] _
      (by decide) fun _ _ tested => tested⟩

end Smt
end Dolma

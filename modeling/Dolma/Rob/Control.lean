import Dolma.Commit.Defs
import Dolma.Library.TransitionSystem
import Dolma.Rob.Squash
import Mathlib.Logic.Function.Basic

/-!
# Control restriction is exact

The reorder buffers of all threads under any interleaving of the operations
that touch control speculation. In the modes that protect registers and memory
an instruction below an unresolved branch of its thread is control-restricted at
all times, and right after a safe-status update no other instruction is.
-/

namespace Dolma
namespace Rob
namespace Control

/-- The reorder buffers of all threads. -/
structure State where
  heap : Heap
  instList : Nat → List Nat := fun _ => []
  walk : Nat → SquashWalk := fun _ => {}
  lastInserted : Nat → Nat := fun _ => 0

/-- What happens to the reorder buffers. -/
inductive Event where
  | insert (seq : Nat)
  | resolve (seq : Nat)
  /-- Commit redirects a thread for a squasher and keeps the instructions up to
  a sequence number. -/
  | redirect (thread squasher keep : Nat)
  | squashCycle (thread : Nat)
  | squashInst (seq : Nat)
  | retire (thread : Nat)
  | update (thread : Nat)
  /-- Any change of an instruction by the rest of the core that is not about
  control speculation. -/
  | elsewhere (seq : Nat) (inst : DynInst)

/-- The thread of an instruction. -/
def threadOf (state : State) (seq : Nat) : Nat :=
  (state.heap seq).threadNumber

/-- The step function of the reorder buffers. -/
def step (config : Config) (state : State) : Event → Option State
  | .insert seq =>
      let thread := threadOf state seq
      if state.lastInserted thread < seq then
        let inserted :=
          insertInst config (state.instList thread) state.heap seq
        some
          { state with
            heap := inserted.2
            instList := Function.update state.instList thread inserted.1
            lastInserted := Function.update state.lastInserted thread seq }
      else none
  | .resolve seq =>
      some { state with
        heap := state.heap.modify seq (·.setStatus .controlInducer false) }
  | .redirect thread squasher keep =>
      let squashed :=
        squash config (state.instList thread) keep (state.walk thread) state.heap
      some
        { state with
          heap := squashed.2.modify squasher Commit.clearRedirectFlags
          walk := Function.update state.walk thread squashed.1 }
  | .squashCycle thread =>
      let squashed := doSquash config (state.walk thread) state.heap
      some
        { state with
          heap := squashed.2
          walk := Function.update state.walk thread squashed.1 }
  | .squashInst seq =>
      some { state with heap := state.heap.modify seq DynInst.setSquashed }
  | .retire thread =>
      match retireHead config (state.instList thread) state.heap with
      | none => none
      | some (rest, heap) =>
          some
            { state with
              heap := heap
              instList := Function.update state.instList thread rest }
  | .update thread =>
      some { state with
        heap := updateSafeStatus config (state.instList thread) state.heap }
  | .elsewhere seq inst =>
      let old := state.heap seq
      if inst.threadNumber = old.threadNumber ∧
          inst.isSquashed = old.isSquashed ∧
          inst.isControlInducer = old.isControlInducer ∧
          inst.isControlRestricted = old.isControlRestricted then
        some { state with heap := state.heap.modify seq fun _ => inst }
      else none

/-- The empty buffers over any instructions. -/
def initial (heap : Heap) : State := { heap := heap }

/-- The reorder buffers are in program order. -/
structure Ordered (state : State) : Prop where
  sorted : ∀ thread, (state.instList thread).Pairwise (· < ·)
  owned : ∀ thread, ∀ seq ∈ state.instList thread, threadOf state seq = thread
  bounded : ∀ thread, ∀ seq ∈ state.instList thread, seq ≤ state.lastInserted thread

/-- The invariant of the reorder buffers. -/
structure Invariant (state : State) : Prop extends Ordered state where
  restricted : ∀ thread, ∀ older ∈ state.instList thread,
    ∀ seq ∈ state.instList thread, older < seq →
      (state.heap older).isControlInducer = true →
      (state.heap seq).isSquashed = false → (state.heap seq).isControlRestricted = true

/-- A change of the instructions that creates no control inducer, removes no
control restriction and revives nothing. -/
structure Quiet (before after : Heap) : Prop where
  thread : ∀ seq, (after seq).threadNumber = (before seq).threadNumber
  squashed : ∀ seq, (after seq).isSquashed = false → (before seq).isSquashed = false
  inducer : ∀ seq, (after seq).isControlInducer = true → (before seq).isControlInducer = true
  restricted : ∀ seq, (before seq).isControlRestricted = true →
    (after seq).isSquashed = false → (after seq).isControlRestricted = true

variable {state next : State} {config : Config} {heap : Heap} {thread seq head other : Nat}
  {rest : List Nat} {event : Event}

/-- A change that keeps the buffers and the threads keeps the order. -/
theorem Ordered.congr
    (ordered : Ordered state)
    (thread : ∀ seq, (next.heap seq).threadNumber = (state.heap seq).threadNumber)
    (lists : next.instList = state.instList) (last : next.lastInserted = state.lastInserted) :
    Ordered next := by
  constructor
  case sorted => simpa only [lists] using ordered.sorted
  case owned =>
    intro other seq member
    rw [lists] at member
    exact (thread seq).trans (ordered.owned other seq member)
  case bounded =>
    rw [lists, last]
    exact ordered.bounded

theorem Invariant.quiet
    (invariant : Invariant state) (quiet : Quiet state.heap next.heap)
    (lists : next.instList = state.instList) (last : next.lastInserted = state.lastInserted) :
    Invariant next := by
  refine ⟨invariant.congr quiet.thread lists last, ?_⟩
  intro thread older olderMember seq member before inducer unsquashed
  rw [lists] at olderMember member
  refine quiet.restricted seq ?_ unsquashed
  exact invariant.restricted thread older olderMember seq member before
    (quiet.inducer older inducer) (quiet.squashed seq unsquashed)

/-- When the change of one instruction is quiet. -/
theorem Quiet.modify
    (heap : Heap) (seq : Nat) (change : DynInst → DynInst)
    (thread : (change (heap seq)).threadNumber = (heap seq).threadNumber)
    (squashed : (change (heap seq)).isSquashed = false → (heap seq).isSquashed = false)
    (inducer : (change (heap seq)).isControlInducer = true → (heap seq).isControlInducer = true)
    (restricted : (heap seq).isControlRestricted = true →
      (change (heap seq)).isSquashed = false → (change (heap seq)).isControlRestricted = true) :
    Quiet heap (heap.modify seq change) := by
  constructor <;> intro other <;> by_cases same : other = seq <;>
    simp_all

/-- Changing a flag that is not about control speculation is quiet, and so is
resolving a control inducer. -/
theorem Quiet.setStatus
    (heap : Heap) (seq : Nat) (notSquashed : flag ≠ .squashed)
    (notRestricted : flag ≠ .controlRestricted)
    (resolves : flag = .controlInducer → value = false) :
    Quiet heap (heap.modify seq (·.setStatus flag value)) := by
  apply Quiet.modify
  · rfl
  · simp [notSquashed]
  · intro inducer
    by_cases same : flag = .controlInducer
    · subst same
      simp [DynInst.isControlInducer, resolves rfl] at inducer
    · simpa [DynInst.isControlInducer, Ne.symm same, notSquashed] using inducer
  · intro restricted _
    simpa [DynInst.isControlRestricted, notRestricted.symm, notSquashed]
      using restricted

theorem Quiet.trans (left : Quiet first second) (right : Quiet second third) :
    Quiet first third where
  thread seq := (right.thread seq).trans (left.thread seq)
  squashed seq unsquashed := left.squashed seq (right.squashed seq unsquashed)
  inducer seq inducer := left.inducer seq (right.inducer seq inducer)
  restricted seq restricted unsquashed :=
    right.restricted seq
      (left.restricted seq restricted (right.squashed seq unsquashed)) unsquashed

theorem Quiet.of_marks
    (marks : ∀ seq, after seq = before seq ∨ after seq = squashMark (before seq)) :
    Quiet before after := by
  constructor
  case thread =>
    intro seq
    rcases marks seq with same | marked
    · rw [same]
    · rw [marked, (squashMark_agrees _).threadNumber]
  case squashed =>
    intro seq unsquashed
    rcases marks seq with same | marked
    · rwa [same] at unsquashed
    · simp [marked] at unsquashed
  case inducer =>
    intro seq inducer
    rcases marks seq with same | marked
    · rwa [same] at inducer
    · simp [marked, DynInst.isControlInducer] at inducer
  case restricted =>
    intro seq restricted unsquashed
    rcases marks seq with same | marked
    · rwa [same]
    · simp [marked] at unsquashed

theorem Quiet.clearRedirectFlags (heap : Heap) (squasher : Nat) :
    Quiet heap (heap.modify squasher Commit.clearRedirectFlags) := by
  apply Quiet.modify
  · rfl
  · simp [Commit.clearRedirectFlags, DynInst.clearPendingMemOrder, DynInst.clearPendingBranch]
  · simp [Commit.clearRedirectFlags, DynInst.clearPendingMemOrder,
      DynInst.clearPendingBranch, DynInst.isControlInducer]
  · intro restricted _
    simpa [Commit.clearRedirectFlags, DynInst.clearPendingMemOrder,
      DynInst.clearPendingBranch, DynInst.isControlRestricted] using restricted

/-- The safe-status update keeps the invariant. -/
theorem Invariant.update (invariant : Invariant state) (config : Config) (thread : Nat) :
    Invariant { state with
      heap := updateSafeStatus config (state.instList thread) state.heap } := by
  have agrees := updateSafeStatus_agrees config state.heap (invariant.sorted thread)
  have inducer : ∀ seq,
      (updateSafeStatus config (state.instList thread) state.heap
        seq).isControlInducer = (state.heap seq).isControlInducer := fun seq =>
    (agrees seq).isLive .controlInducer (by simp [safeFlags]) (by simp [safeFlags])
  have squashed : ∀ seq,
      (updateSafeStatus config (state.instList thread) state.heap
        seq).isSquashed = (state.heap seq).isSquashed := fun seq =>
    (agrees seq).isSquashed (by simp [safeFlags])
  constructor
  case toOrdered => exact invariant.congr (fun seq => (agrees seq).threadNumber) rfl rfl
  case restricted =>
    intro other older olderMember seq member before inducing unsquashed
    dsimp only at olderMember member inducing unsquashed ⊢
    rw [inducer] at inducing
    rw [squashed] at unsquashed
    have restricted :=
      invariant.restricted other older olderMember seq member before inducing
        unsquashed
    by_cases same : other = thread
    · subst same
      rw [isControlRestricted_updateSafeStatus config state.heap
        (invariant.sorted other) member, restricted, Bool.true_and,
        List.any_eq_true]
      exact ⟨older, olderMember, by simp [before, inducing]⟩
    · -- The instruction belongs to another thread, so the pass did not see it.
      have absent : seq ∉ state.instList thread := by
        intro present
        exact same ((invariant.owned other seq member).symm.trans
          (invariant.owned thread seq present))
      have untouched :=
        updateSafeStatus_untouched config state.heap (invariant.sorted thread)
          absent
      exact (untouched.isLive .controlRestricted (by simp) (by simp)).trans
        restricted

theorem mem_of_mem_tail
    {instList : Nat → List Nat} (split : instList thread = head :: rest)
    (member : seq ∈ Function.update instList thread rest other) :
    seq ∈ instList other := by
  by_cases same : other = thread
  · subst same
    rw [Function.update_self] at member
    rw [split]
    exact List.mem_cons_of_mem _ member
  · rwa [Function.update_of_ne same] at member

theorem Ordered.tail (ordered : Ordered state) (split : state.instList thread = head :: rest) :
    Ordered { state with
      instList := Function.update state.instList thread rest } := by
  constructor
  case sorted =>
    intro other
    by_cases same : other = thread
    · subst same
      have sorted := ordered.sorted other
      rw [split] at sorted
      simpa using (List.pairwise_cons.mp sorted).2
    · simpa [Function.update_of_ne same] using ordered.sorted other
  case owned =>
    intro other seq member
    exact ordered.owned other seq (mem_of_mem_tail split member)
  case bounded =>
    intro other seq member
    exact ordered.bounded other seq (mem_of_mem_tail split member)

/-- The tail of a buffer keeps the invariant. -/
theorem Invariant.tail
    (invariant : Invariant state) (split : state.instList thread = head :: rest) :
    Invariant { state with
      instList := Function.update state.instList thread rest } := by
  refine ⟨invariant.toOrdered.tail split, ?_⟩
  intro other older olderMember seq member
  exact invariant.restricted other older (mem_of_mem_tail split olderMember)
    seq (mem_of_mem_tail split member)

/-- An instruction below a control inducer is restricted. -/
theorem isControlRestricted_classify
    (dolma : config.isDolma = true) (registers : config.isDolmaMemOnly = false)
    (found : older.any (fun seq => (heap seq).isControlInducer) = true)
    (unsquashed : (classify config older heap inst).isSquashed = false) :
    (classify config older heap inst).isControlRestricted = true := by
  have alive : inst.isSquashed = false := by
    cases squashed : inst.isSquashed with
    | false => rfl
    | true =>
        simp only [classify, squashed, Bool.not_true, Bool.and_false,
          if_neg Bool.false_ne_true] at unsquashed
        exact (squashed ▸ unsquashed : true = false)
  simp only [classify, dolma, registers, found, alive, Bool.not_false, Bool.and_true, if_true]
  split <;> simp [DynInst.isControlRestricted, alive]

theorem threadNumber_classify (config : Config) (older : List Nat) (heap : Heap) (inst : DynInst) :
    (classify config older heap inst).threadNumber = inst.threadNumber := by
  unfold classify
  dsimp only
  split
  · split <;> split <;> rfl
  · rfl

/-- The buffers after an insertion. -/
def inserted (config : Config) (state : State) (seq : Nat) : State :=
  { state with
    heap := (insertInst config (state.instList (threadOf state seq)) state.heap seq).2
    instList := Function.update state.instList (threadOf state seq)
      (state.instList (threadOf state seq) ++ [seq])
    lastInserted := Function.update state.lastInserted (threadOf state seq) seq }

theorem inserted_heap_of_ne (config : Config) (state : State) (distinct : other ≠ seq) :
    (inserted config state seq).heap other = state.heap other := by
  simp [inserted, insertInst, distinct]

/-- The buffers hold one instruction more. -/
theorem Ordered.mem_inserted
    (ordered : Ordered state) (newer : state.lastInserted (threadOf state seq) < seq)
    (member : other ∈ (inserted config state seq).instList thread) :
    (other ∈ state.instList thread ∧ other ≠ seq) ∨
      (other = seq ∧ thread = threadOf state seq) := by
  have absent : seq ∉ state.instList thread := by
    intro present
    have owner := ordered.owned thread seq present
    have bound := ordered.bounded thread seq present
    rw [owner] at newer
    omega
  unfold inserted at member
  dsimp only at member
  by_cases same : thread = threadOf state seq
  · rw [same, Function.update_self, List.mem_append, List.mem_singleton, ← same] at member
    rcases member with old | new
    · exact .inl ⟨old, fun equal => absent (equal ▸ old)⟩
    · exact .inr ⟨new, same⟩
  · rw [Function.update_of_ne same] at member
    exact .inl ⟨member, fun equal => absent (equal ▸ member)⟩

theorem Ordered.insert
    (config : Config) (ordered : Ordered state)
    (newer : state.lastInserted (threadOf state seq) < seq) :
    Ordered (inserted config state seq) := by
  constructor
  case sorted =>
    intro other
    unfold inserted
    dsimp only
    by_cases same : other = threadOf state seq
    · rw [same, Function.update_self, List.pairwise_append]
      refine ⟨ordered.sorted _, List.pairwise_singleton _ _, ?_⟩
      intro older member last isLast
      rw [List.mem_singleton.mp isLast]
      exact Nat.lt_of_le_of_lt (ordered.bounded _ older member) newer
    · rw [Function.update_of_ne same]
      exact ordered.sorted other
  case owned =>
    intro thread other member
    rcases ordered.mem_inserted newer member with ⟨old, distinct⟩ | ⟨rfl, rfl⟩
    · rw [threadOf, inserted_heap_of_ne config state distinct]
      exact ordered.owned thread other old
    · simp [threadOf, inserted, insertInst, threadNumber_classify]
  case bounded =>
    intro thread other member
    have found := ordered.mem_inserted newer member
    unfold inserted
    dsimp only
    by_cases same : thread = threadOf state seq
    · rw [same, Function.update_self]
      rcases found with ⟨old, -⟩ | ⟨rfl, -⟩
      · have bound := ordered.bounded thread other old
        rw [same] at bound
        omega
      · exact Nat.le_refl _
    · rw [Function.update_of_ne same]
      rcases found with ⟨old, -⟩ | ⟨-, own⟩
      · exact ordered.bounded thread other old
      · exact absurd own same

/-- Insertion keeps the invariant. -/
theorem Invariant.insert
    (dolma : config.isDolma = true) (registers : config.isDolmaMemOnly = false)
    (invariant : Invariant state) (newer : state.lastInserted (threadOf state seq) < seq) :
    Invariant (inserted config state seq) := by
  refine ⟨invariant.toOrdered.insert config newer, ?_⟩
  intro thread older olderMember other member before inducing unsquashed
  rcases invariant.mem_inserted newer olderMember with
    ⟨olderOld, olderDistinct⟩ | ⟨rfl, own⟩
  · rw [inserted_heap_of_ne config state olderDistinct] at inducing
    rcases invariant.mem_inserted newer member with ⟨old, distinct⟩ | ⟨rfl, rfl⟩
    · rw [inserted_heap_of_ne config state distinct] at unsquashed ⊢
      exact invariant.restricted thread older olderOld other old before inducing
        unsquashed
    · -- The new instruction scans the buffer and finds the inducer.
      simp only [inserted, insertInst, Heap.modify_self] at unsquashed ⊢
      refine isControlRestricted_classify dolma registers ?_ unsquashed
      exact List.any_eq_true.mpr ⟨older, olderOld, inducing⟩
  · -- Nothing in the buffer is younger than the new instruction.
    rcases invariant.mem_inserted newer member with ⟨old, -⟩ | ⟨rfl, -⟩
    · have bound := invariant.bounded thread other old
      rw [own] at bound
      omega
    · omega

/-- What a step does. -/
inductive Steps (config : Config) (state next : State) : Prop
  | inserts (seq : Nat)
      (newer : state.lastInserted (threadOf state seq) < seq)
      (result : next = inserted config state seq)
  | retires (thread : Nat) (rest : List Nat) (heap : Heap)
      (retired : retireHead config (state.instList thread) state.heap = some (rest, heap))
      (result : next =
        { state with
          heap := heap, instList := Function.update state.instList thread rest })
  | updates (thread : Nat)
      (result : next =
        { state with heap := updateSafeStatus config (state.instList thread) state.heap })
  | rests (quiet : Quiet state.heap next.heap)
      (lists : next.instList = state.instList)
      (last : next.lastInserted = state.lastInserted)

theorem step_cases (enabled : step config state event = some next) : Steps config state next := by
  cases event with
  | insert seq =>
      simp only [step, Option.ite_none_right_eq_some] at enabled
      exact .inserts seq enabled.1 (Option.some.inj enabled.2).symm
  | resolve seq =>
      cases enabled
      exact .rests (Quiet.setStatus state.heap seq (by simp) (by simp) (by simp)) rfl rfl
  | redirect thread squasher keep =>
      cases enabled
      refine .rests ?_ rfl rfl
      refine Quiet.trans (Quiet.of_marks ?_) (Quiet.clearRedirectFlags _ squasher)
      intro seq
      rcases squash_heap config (state.instList thread) keep (state.walk thread)
        state.heap seq with same | ⟨_, _, marked⟩
      · exact .inl same
      · exact .inr marked
  | squashCycle thread =>
      cases enabled
      refine .rests (Quiet.of_marks ?_) rfl rfl
      intro seq
      rcases doSquash_heap config (state.walk thread) state.heap seq with
        same | ⟨_, _, marked⟩
      · exact .inl same
      · exact .inr marked
  | squashInst seq =>
      cases enabled
      refine .rests ?_ rfl rfl
      dsimp only
      apply Quiet.modify <;>
        simp [DynInst.setSquashed, DynInst.isControlInducer, DynInst.isLive, DynInst.isSquashed]
  | retire thread =>
      simp only [step] at enabled
      split at enabled
      · cases enabled
      · rename_i rest heap retired
        exact .retires thread rest heap retired (Option.some.inj enabled).symm
  | update thread => exact .updates thread (Option.some.inj enabled).symm
  | elsewhere seq inst =>
      simp only [step, Option.ite_none_right_eq_some] at enabled
      obtain ⟨⟨thread, squashed, inducer, restricted⟩, changed⟩ := enabled
      cases changed
      refine .rests ?_ rfl rfl
      dsimp only
      apply Quiet.modify
      · exact thread
      · exact fun unsquashed => squashed ▸ unsquashed
      · exact fun inducing => inducer ▸ inducing
      · exact fun restricting _ => restricted ▸ restricting

/-- The heap after a retirement: the head's mark as a data inducer is cleared and the status
updated, if it had the mark, and the marks of the retirement are set. -/
theorem retireHead_steps
    (property : Heap → Prop)
    (retired : retireHead config (state.instList thread) state.heap = some (rest, heap))
    (base : property state.heap)
    (quiet : ∀ before after, Quiet before after → property before → property after)
    (update : ∀ before, property before →
      property (updateSafeStatus config (state.instList thread) before)) :
    property heap ∧ ∃ head, state.instList thread = head :: rest := by
  obtain ⟨head, resolved, split, _, resolving, unchanged, _, after⟩ :=
    retireHead_eq_some retired
  refine ⟨?_, head, split⟩
  have holds : property resolved := by
    cases inducer : (state.heap head).isDataInducer with
    | false =>
        rw [unchanged inducer]
        exact base
    | true =>
        rw [(resolving inducer).2]
        refine update _ (quiet _ _ ?_ base)
        exact Quiet.setStatus state.heap head (by simp) (by simp) (by simp)
  refine quiet _ _ ?_ holds
  rw [after]
  apply Quiet.modify
  · rfl
  · simp
  · simp [DynInst.isControlInducer]
  · intro restricted _
    simpa [DynInst.isControlRestricted] using restricted

/-- A cycle without squashes keeps the order. -/
theorem Ordered.step (ordered : Ordered state) (enabled : step config state event = some next) :
    Ordered next := by
  have update : ∀ heap thread,
      Ordered { state with heap := heap } →
      Ordered { state with heap := updateSafeStatus config (state.instList thread) heap } := by
    intro heap thread before
    refine before.congr (fun seq => ?_) rfl rfl
    exact (updateSafeStatus_agrees config heap (ordered.sorted thread) seq).threadNumber
  cases step_cases enabled with
  | inserts seq newer result =>
      rw [result]
      exact ordered.insert config newer
  | retires thread rest heap retired result =>
      obtain ⟨resolved, head, split⟩ := retireHead_steps
        (fun heap => Ordered { state with heap := heap }) retired ordered
        (fun _ _ quiet before => before.congr quiet.thread rfl rfl)
        fun heap before => update heap thread before
      rw [result]
      exact resolved.tail split
  | updates thread result =>
      rw [result]
      exact update state.heap thread ordered
  | rests quiet lists last => exact ordered.congr quiet.thread lists last

/-- Every step keeps the invariant. -/
theorem Invariant.step
    (dolma : config.isDolma = true) (registers : config.isDolmaMemOnly = false)
    (invariant : Invariant state) (enabled : step config state event = some next) :
    Invariant next := by
  cases step_cases enabled with
  | inserts seq newer result =>
      rw [result]
      exact invariant.insert dolma registers newer
  | retires thread rest heap retired result =>
      obtain ⟨resolved, head, split⟩ := retireHead_steps
        (fun heap => Invariant { state with heap := heap }) retired invariant
        (fun _ _ quiet before => before.quiet quiet rfl rfl)
        fun heap before => before.update config thread
      rw [result]
      exact resolved.tail split
  | updates thread result =>
      rw [result]
      exact invariant.update config thread
  | rests quiet lists last => exact invariant.quiet quiet lists last

theorem Ordered.initial (heap : Heap) : Ordered (initial heap) := by
  constructor <;> simp [Control.initial]

theorem Invariant.initial (heap : Heap) : Invariant (initial heap) :=
  ⟨Ordered.initial heap, by simp [Control.initial]⟩

/-- In the modes that protect registers and memory, an instruction in the buffer that is not
squashed and has an older control inducer of its thread is control-restricted in every reachable
state, and right after a safe-status update exactly then. -/
theorem controlRestricted_exact
    (config : Config) (dolma : config.isDolma = true) (registers : config.isDolmaMemOnly = false)
    (heap : Heap) (state : State)
    (reachable : Library.Reachable (step config) (fun _ _ => True)
      (initial heap) state) :
    (∀ thread, ∀ older ∈ state.instList thread,
      ∀ seq ∈ state.instList thread, older < seq →
        (state.heap older).isControlInducer = true →
        (state.heap seq).isSquashed = false → (state.heap seq).isControlRestricted = true) ∧
    ∀ thread next, step config state (.update thread) = some next →
      ∀ seq ∈ next.instList thread,
        (next.heap seq).isControlRestricted = true ↔
          (next.heap seq).isSquashed = false ∧
            ∃ older ∈ next.instList thread, older < seq ∧
              (next.heap older).isControlInducer = true := by
  have invariant : Invariant state :=
    Library.Reachable.invariant (Invariant.initial heap)
      (fun _ _ _ holds _ enabled => holds.step dolma registers enabled) reachable
  refine ⟨invariant.restricted, ?_⟩
  intro thread next enabled seq member
  have nextInvariant := invariant.step dolma registers enabled
  constructor
  · intro restricted
    refine ⟨DynInst.isSquashed_of_isLive _ restricted, ?_⟩
    cases enabled
    dsimp only at member restricted ⊢
    rw [isControlRestricted_updateSafeStatus config state.heap
      (invariant.sorted thread) member, Bool.and_eq_true,
      List.any_eq_true] at restricted
    obtain ⟨older, olderMember, facts⟩ := restricted.2
    rw [Bool.and_eq_true, decide_eq_true_eq] at facts
    refine ⟨older, olderMember, facts.1, ?_⟩
    have agrees :=
      updateSafeStatus_agrees config state.heap (invariant.sorted thread) older
    exact (agrees.isLive .controlInducer (by simp [safeFlags])
      (by simp [safeFlags])).trans facts.2
  · rintro ⟨unsquashed, older, olderMember, before, inducer⟩
    exact nextInvariant.restricted thread older olderMember seq member before
      inducer unsquashed

/-- A conditional branch followed by other instructions. -/
def branchHeap : Heap := fun seq =>
  if seq = 1 then
    { staticInst := { isControl := true, isDirectCtrl := true, isCondCtrl := true } }
  else {}

/-- In mode one an instruction behind a conditional branch is restricted until the branch has
resolved and the status is updated. -/
theorem controlRestricted_exact_branch :
    (∃ state, Library.Reachable (step { mode := 1 }) (fun _ _ => True)
        (initial branchHeap) state ∧
      (state.heap 2).isControlRestricted = true) ∧
    ∃ state next, Library.Reachable (step { mode := 1 }) (fun _ _ => True)
        (initial branchHeap) state ∧
      step { mode := 1 } state (.update 0) = some next ∧
      2 ∈ next.instList 0 ∧ (next.heap 2).isControlRestricted = false := by
  constructor
  · refine Library.Reachable.exists_imp_of_replay [.insert 1, .insert 2]
      (fun state => state.instList 0 = [1, 2] ∧ (state.heap 1).isControlInducer = true ∧
        (state.heap 2).isSquashed = false) (by decide) ?_
    rintro state reachable ⟨list, inducer, unsquashed⟩
    have exact := controlRestricted_exact { mode := 1 } (by decide) (by decide)
      branchHeap state reachable
    exact exact.1 0 1 (by simp [list]) 2 (by simp [list]) (by decide) inducer unsquashed
  · have run : ∃ state, Library.Reachable (step { mode := 1 }) (fun _ _ => True)
        (initial branchHeap) state ∧
          (state.instList 0 == [1, 2] && !(state.heap 1).isControlInducer &&
            !(state.heap 2).isControlInducer) = true :=
      Library.Reachable.exists_of_replay [.insert 1, .insert 2, .resolve 1] _
        (by decide)
    obtain ⟨state, reachable, facts⟩ := run
    simp only [Bool.and_eq_true, beq_iff_eq, Bool.not_eq_eq_eq_not, Bool.not_true] at facts
    obtain ⟨⟨list, resolved⟩, other⟩ := facts
    have exact := controlRestricted_exact { mode := 1 } (by decide) (by decide)
      branchHeap state reachable
    have updated := exact.2 0 _ rfl 2 (by simp [list])
    refine ⟨state, _, reachable, rfl, by simp [list], ?_⟩
    rw [← Bool.not_eq_true, updated]
    rintro ⟨_, older, member, _, inducer⟩
    have sorted : (state.instList 0).Pairwise (· < ·) := by simp [list]
    have agrees := updateSafeStatus_agrees { mode := 1 } state.heap sorted older
    have kept := agrees.isLive .controlInducer (by simp [safeFlags])
      (by simp [safeFlags])
    have original : (state.heap older).isControlInducer = true :=
      kept.symm.trans inducer
    simp only [list, List.mem_cons, List.not_mem_nil, or_false] at member
    rcases member with rfl | rfl
    · rw [resolved] at original
      cases original
    · rw [other] at original
      cases original

end Control
end Rob
end Dolma

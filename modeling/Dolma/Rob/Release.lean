import Dolma.Rob.Control
import Dolma.Sched.Drain

/-!
# The stall list and the oldest instruction

An instruction that DOLMA stalls waits on the stall list of the instruction queue. Only
restricted instructions are stalled, and the pass that ends a restriction ends the stall
with it. Nothing restricts the oldest instruction of a reorder buffer after such a pass,
so the scheduling pass that follows takes it off the list.
-/

namespace Dolma
namespace Rob
namespace Release

open Library

/-- The reorder buffers with the stall list of the instruction queue. -/
structure State extends Control.State where
  dolmaStalledInsts : List Nat := []

/-- How the translation buffer and the cache answer the requests of an execution. -/
inductive Answer where
  | tlbMiss
  | cacheMiss
  | hits
deriving DecidableEq, Repr

/-- What happens to the buffers and the stall list. -/
inductive Event where
  | rob (event : Control.Event)
  | issue (seq : Nat)
  | contend (issuing unitBusy : Nat)
  | execute (seq : Nat) (answer : Answer)
  | scheduleReadyInsts

/-- The request of an access is marked unsafe. STT does not treat stores as unsafe. -/
def isUnsafe (config : Config) (inst : DynInst) : Bool :=
  inst.isDolmaRestricted && (!config.isSTT || !inst.staticInst.isStore)

/-- The access is stalled: an unsafe request that misses comes back as a safe one. -/
def isMissed (config : Config) (inst : DynInst) : Answer → Bool
  | .tlbMiss => isUnsafe config inst && inst.isDolmaRestricted
  | .cacheMiss => isUnsafe config inst && inst.staticInst.isLoad
  | .hits => false

/-- An instruction is stalled and put on the stall list; `none` is a failed assertion. -/
def dolmaStallInst (state : State) (seq : Nat) : Option State :=
  if state.dolmaStalledInsts.contains seq then none
  else
    some
      { state with
        heap := state.heap.modify seq fun inst =>
          inst.setDolmaStalled.setStatus .issued false
        dolmaStalledInsts := state.dolmaStalledInsts ++ [seq] }

/-- The flags that the scheduler reads. -/
def scheduled (heap : Heap) (seq : Nat) : Sched.Inst where
  squashed := (heap seq).isSquashed
  stalled := (heap seq).status .dolmaStalled

/-- What the scheduling pass does first: it takes the instructions that are not stalled any
more off the list and makes them ready. -/
def drainStalled (heap : Heap) (dolmaStalledInsts : List Nat) : Option (Drain Nat (List Nat)) :=
  Drain.run (Sched.getDolmaStalledInstToExecute (scheduled heap))
    (fun ready seq => ready ++ [seq]) [] dolmaStalledInsts

/-- The rest of the core neither stalls an instruction nor ends a stall, and it ends no data
restriction. -/
def keepsStalls (heap : Heap) : Control.Event → Bool
  | .elsewhere seq inst =>
      inst.status .dolmaStalled == (heap seq).status .dolmaStalled &&
        (!(heap seq).status .dataRestricted || inst.status .dataRestricted)
  | _ => true

/-- The step function; `none` is a failed assertion or something that does not happen. -/
def step (config : Config) (state : State) : Event → Option State
  | .rob event =>
      if keepsStalls state.heap event then
        (Control.step config state.toState event).map fun buffers =>
          { state with toState := buffers }
      else none
  | .issue seq =>
      let inst := state.heap seq
      if config.isSTT && inst.isDolmaRestricted && inst.staticInst.isLoad then
        if inst.isDolmaStalled then none else dolmaStallInst state seq
      else some state
  | .contend issuing unitBusy =>
      match findInst (state.instList (Control.threadOf state.toState issuing)) unitBusy with
      | none => some state
      | some occupying =>
          let inst := state.heap occupying
          if config.isDolma && !config.isSTT && inst.isDolmaRestricted &&
              decide (issuing < occupying) && !inst.isDolmaStalled then
            dolmaStallInst state occupying
          else some state
  | .execute seq answer =>
      let inst := state.heap seq
      if inst.isSquashed then some state
      else if inst.isDolmaStalled ||
          (config.isSTT && inst.staticInst.isLoad && inst.isDolmaRestricted) then none
      else if isMissed config inst answer then dolmaStallInst state seq
      else some state
  | .scheduleReadyInsts =>
      (drainStalled state.heap state.dolmaStalledInsts).map fun drain =>
        { state with dolmaStalledInsts := drain.left }

/-- The empty buffers. The instructions of the program have no flag set when they are made. -/
def initial (staticInst : Nat → StaticInst) (threadNumber : Nat → Nat) : State where
  heap seq := { staticInst := staticInst seq, threadNumber := threadNumber seq }

/-! ## Stalls and restrictions -/

/-- A stalled instruction is not squashed, and its flag is set. -/
theorem isDolmaStalled_iff (inst : DynInst) :
    inst.isDolmaStalled = true ↔ inst.isSquashed = false ∧ inst.status .dolmaStalled = true := by
  rw [DynInst.isDolmaStalled, DynInst.isLive, Bool.and_eq_true, Bool.not_eq_true']

/-- An instruction that is stalled afterwards was stalled before, and it is still
restricted if it was. -/
def Restrains (before after : DynInst) : Prop :=
  after.isDolmaStalled = true →
    before.isDolmaStalled = true ∧
      (before.isDolmaRestricted = true → after.isDolmaRestricted = true)

variable {seq : Nat} {config : Config} {event : Control.Event} {state : State}

namespace Restrains

variable {before middle after : DynInst}

theorem refl (inst : DynInst) : Restrains inst inst := fun stalled => ⟨stalled, id⟩

theorem trans (first : Restrains before middle) (second : Restrains middle after) :
    Restrains before after := by
  intro stalled
  obtain ⟨stalledBetween, restrictedAfter⟩ := second stalled
  obtain ⟨stalledBefore, restrictedBetween⟩ := first stalledBetween
  exact ⟨stalledBefore, fun restricted => restrictedAfter (restrictedBetween restricted)⟩

/-- A change that leaves the stall and ends no restriction. -/
theorem of_flags
    (squashed : after.isSquashed = before.isSquashed)
    (stalled : after.status .dolmaStalled = before.status .dolmaStalled)
    (control : before.isControlRestricted = true → after.isControlRestricted = true)
    (data : before.isDataRestricted = true → after.isDataRestricted = true) :
    Restrains before after := by
  intro stalledAfter
  rw [isDolmaStalled_iff, squashed, stalled, ← isDolmaStalled_iff] at stalledAfter
  refine ⟨stalledAfter, fun restricted => ?_⟩
  rw [DynInst.isDolmaRestricted_eq, Bool.or_eq_true] at restricted ⊢
  exact restricted.imp control data

/-- A change of other flags stalls nothing. -/
theorem of_agrees
    (agrees : DynInst.Agrees flags before after)
    (others : ∀ flag ∈ [Status.squashed, .dolmaStalled, .controlRestricted, .dataRestricted],
      flag ∉ flags) :
    Restrains before after := by
  have squashed := others .squashed (by decide)
  refine of_flags (agrees.isSquashed squashed) (agrees.status _ (others _ (by decide)))
    (fun restricted => ?_) fun restricted => ?_
  · exact (agrees.isLive .controlRestricted squashed (others _ (by decide))).trans restricted
  · exact (agrees.isLive .dataRestricted squashed (others _ (by decide))).trans restricted

/-- A squashed instruction is not stalled. -/
theorem of_squashed (squashed : after.isSquashed = true) : Restrains before after := by
  intro stalled
  rw [isDolmaStalled_iff, squashed] at stalled
  cases stalled.1

/-- It is enough to look at the changed instruction. -/
theorem modify (heap : Heap) (own : Restrains (heap seq) (change (heap seq))) (other : Nat) :
    Restrains (heap other) (heap.modify seq change other) := by
  by_cases same : other = seq
  · subst same
    rw [Heap.modify_self]
    exact own
  · rw [Heap.modify_of_ne _ same]
    exact refl _

theorem setStatus
    (inst : DynInst)
    (other : flag ∉ [Status.squashed, .dolmaStalled, .controlRestricted, .dataRestricted])
    (value : Bool) :
    Restrains inst (inst.setStatus flag value) := by
  refine of_agrees (DynInst.agrees_setStatus (List.mem_singleton_self flag) value inst) ?_
  rintro listed member same
  rw [List.mem_singleton.mp same] at member
  exact other member

theorem of_marks (marked : after = before ∨ after = squashMark before) :
    Restrains before after := by
  rcases marked with rfl | rfl
  · exact refl _
  · exact of_squashed (isSquashed_squashMark _)

/-- An instruction that enters the buffer may become restricted. -/
theorem classify (config : Config) (older : List Nat) (heap : Heap) (inst : DynInst) :
    Restrains inst (classify config older heap inst) := by
  have restricts : Restrains inst (inst.setStatus .controlRestricted true) := by
    refine of_flags rfl rfl (fun restricted => ?_) id
    rw [DynInst.isControlRestricted, DynInst.isLive_setStatus_self _ (by decide),
      DynInst.isSquashed_of_isLive _ restricted]
    rfl
  have induces : ∀ middle : DynInst, Restrains middle (middle.setStatus .controlInducer true) :=
    fun middle => setStatus middle (by decide) true
  unfold Rob.classify
  dsimp only
  split
  case isFalse => exact refl _
  case isTrue =>
    split <;> split
    · exact restricts.trans (induces _)
    · exact induces _
    · exact restricts
    · exact refl _

/-- The safe-status pass ends a stall with the restriction. -/
theorem updateSafeStatus
    (config : Config) (heap : Heap) (sorted : instList.Pairwise (· < ·)) (seq : Nat) :
    Restrains (heap seq) (updateSafeStatus config instList heap seq) := by
  by_cases member : seq ∈ instList
  case neg => exact of_agrees (updateSafeStatus_untouched config heap sorted member) (by decide)
  case pos =>
    obtain ⟨scan, processed, result⟩ := updateSafeStatus_processed config heap sorted
    rw [result]
    intro stalled
    have ends := processed.stalled seq member
    rw [stalled, eq_comm, Bool.and_eq_true, Bool.or_eq_true, Bool.not_eq_true'] at ends
    refine ⟨ends.1, fun restricted => ends.2.resolve_left ?_⟩
    rw [restricted]
    exact Bool.noConfusion

end Restrains

/-- The work of the buffers stalls nothing and ends restrictions only together with stalls. -/
theorem restrains_of_step
    {state next : Control.State} (ordered : Control.Ordered state)
    (keeps : keepsStalls state.heap event = true)
    (enabled : Control.step config state event = some next) (seq : Nat) :
    Restrains (state.heap seq) (next.heap seq) := by
  cases event with
  | insert entering =>
      simp only [Control.step, Option.ite_none_right_eq_some] at enabled
      cases enabled.2
      refine Restrains.modify state.heap ?_ seq
      exact (Restrains.setStatus _ (by decide) true).trans (Restrains.classify _ _ _ _)
  | resolve resolved =>
      cases enabled
      exact Restrains.modify state.heap (Restrains.setStatus _ (by decide) false) seq
  | redirect thread squasher keep =>
      cases enabled
      have marks := squash_heap config (state.instList thread) keep (state.walk thread)
        state.heap seq
      refine (Restrains.of_marks (marks.imp_right fun marked => marked.2.2)).trans ?_
      refine Restrains.modify _ ?_ seq
      exact Restrains.of_flags rfl rfl id id
  | squashCycle thread =>
      cases enabled
      have marks := doSquash_heap config (state.walk thread) state.heap seq
      exact Restrains.of_marks (marks.imp_right fun marked => marked.2.2)
  | squashInst squashed =>
      cases enabled
      exact Restrains.modify state.heap (Restrains.of_squashed rfl) seq
  | retire thread =>
      simp only [Control.step] at enabled
      split at enabled
      case h_1 => cases enabled
      case h_2 rest heap retired =>
        cases enabled
        obtain ⟨head, resolved, -, -, resolving, unchanged, -, after⟩ :=
          retireHead_eq_some retired
        have marks : Restrains (resolved seq) (heap seq) := by
          rw [after]
          exact Restrains.modify resolved ((Restrains.setStatus _ (by decide) false).trans
            (Restrains.setStatus _ (by decide) true)) seq
        refine Restrains.trans ?_ marks
        cases inducer : (state.heap head).isDataInducer with
        | false =>
            rw [unchanged inducer]
            exact Restrains.refl _
        | true =>
            rw [(resolving inducer).2]
            exact (Restrains.modify state.heap (Restrains.setStatus _ (by decide) false) seq).trans
              (Restrains.updateSafeStatus config _ (ordered.sorted thread) seq)
  | update thread =>
      cases enabled
      exact Restrains.updateSafeStatus config state.heap (ordered.sorted thread) seq
  | elsewhere changed inst =>
      simp only [Control.step, Option.ite_none_right_eq_some] at enabled
      obtain ⟨⟨-, squashed, -, control⟩, result⟩ := enabled
      cases result
      refine Restrains.modify state.heap ?_ seq
      simp only [keepsStalls, Bool.and_eq_true, beq_iff_eq] at keeps
      refine Restrains.of_flags squashed keeps.1 (fun restricted => control.trans restricted) ?_
      simp only [DynInst.isDataRestricted, DynInst.isLive, Bool.and_eq_true, squashed]
      refine And.imp_right fun restricted => ?_
      simpa [restricted] using keeps.2

/-! ## The invariant -/

/-- A stalled instruction is restricted and waits on the stall list. -/
structure StallsListed (state : State) : Prop where
  ordered : Control.Ordered state.toState
  restricted : ∀ seq, (state.heap seq).isDolmaStalled = true →
    (state.heap seq).isDolmaRestricted = true
  listed : ∀ seq, (state.heap seq).isDolmaStalled = true → seq ∈ state.dolmaStalledInsts

namespace StallsListed

variable {config : Config} {state next : State}

theorem initial (staticInst : Nat → StaticInst) (threadNumber : Nat → Nat) :
    StallsListed (initial staticInst threadNumber) where
  ordered := Control.Ordered.initial _
  restricted _ stalled := by cases stalled
  listed _ stalled := by cases stalled

theorem dolmaStallInst
    (stalls : StallsListed state) (restricted : (state.heap seq).isDolmaRestricted = true)
    (stalled : dolmaStallInst state seq = some next) :
    StallsListed next := by
  rw [Release.dolmaStallInst, Option.ite_none_left_eq_some] at stalled
  cases stalled.2
  have own : ((state.heap seq).setDolmaStalled.setStatus .issued false).isDolmaRestricted =
      (state.heap seq).isDolmaRestricted := rfl
  constructor
  case ordered =>
    refine stalls.ordered.congr (fun other => ?_) rfl rfl
    dsimp only
    by_cases same : other = seq
    · rw [same, Heap.modify_self]
      rfl
    · rw [Heap.modify_of_ne _ same]
  case restricted =>
    intro other
    dsimp only
    by_cases same : other = seq
    · rw [same, Heap.modify_self, own]
      exact fun _ => restricted
    · rw [Heap.modify_of_ne _ same]
      exact stalls.restricted other
  case listed =>
    intro other
    dsimp only
    by_cases same : other = seq
    · rw [same]
      exact fun _ => List.mem_append_right _ (List.mem_singleton_self seq)
    · rw [Heap.modify_of_ne _ same]
      exact fun stalled => List.mem_append_left _ (stalls.listed other stalled)

/-- The buffers keep the list of stalls. -/
theorem rob
    (stalls : StallsListed state) (enabled : Release.step config state (.rob event) = some next) :
    StallsListed next ∧ next.dolmaStalledInsts = state.dolmaStalledInsts ∧
      ∀ seq, Restrains (state.heap seq) (next.heap seq) := by
  rw [Release.step, Option.ite_none_right_eq_some, Option.map_eq_some_iff] at enabled
  obtain ⟨keeps, buffers, stepped, rfl⟩ := enabled
  have restrains := restrains_of_step stalls.ordered keeps stepped
  refine ⟨⟨stalls.ordered.step stepped, fun seq stalled => ?_, fun seq stalled => ?_⟩, rfl,
    restrains⟩
  · obtain ⟨before, restricts⟩ := restrains seq stalled
    exact restricts (stalls.restricted seq before)
  · exact stalls.listed seq (restrains seq stalled).1

end StallsListed

/-- The pass ends, and takes what is not stalled off the list. -/
theorem exists_drainStalled (heap : Heap) (dolmaStalledInsts : List Nat) :
    ∃ drain, drainStalled heap dolmaStalledInsts = some drain ∧
      ∀ seq ∈ dolmaStalledInsts,
        if (heap seq).isDolmaStalled then seq ∈ drain.left else seq ∈ drain.out := by
  let test := fun seq => !(scheduled heap seq).isDolmaStalled
  let give := fun (ready : List Nat) (seq : Nat) => ready ++ [seq]
  have picks := Sched.getDolmaStalledInstToExecute_picks (scheduled heap)
  have base : Drain.Progress test give dolmaStalledInsts []
      { left := dolmaStalledInsts, out := [] } :=
    ⟨List.Perm.refl _, rfl, rfl⟩
  obtain ⟨drain, finished, progress, nothing⟩ :=
    Drain.exists_run picks base fun _ _ before taken => before.hand picks taken
  obtain ⟨handed, left⟩ := progress.done picks nothing
  have out : drain.out = drain.handed := by
    rw [progress.given]
    have appends : ∀ before after : List Nat, after.foldl give before = before ++ after := by
      intro before after
      induction after generalizing before with
      | nil => exact (List.append_nil before).symm
      | cons seq rest ih =>
          rw [List.foldl_cons, ih]
          exact List.append_assoc before [seq] rest
    exact appends [] drain.handed
  refine ⟨drain, finished, fun seq listed => ?_⟩
  rw [left, out]
  split
  case isTrue stalled =>
    refine List.mem_filter.mpr ⟨listed, ?_⟩
    rw [Bool.not_not]
    exact stalled
  case isFalse running =>
    refine handed.mem_iff.mpr (List.mem_filter.mpr ⟨listed, ?_⟩)
    rw [Bool.not_eq_true] at running
    exact congrArg not running

/-- Every step keeps the invariant. -/
theorem StallsListed.step
    {next : State} {event : Event} (stalls : StallsListed state)
    (enabled : step config state event = some next) :
    StallsListed next := by
  cases event with
  | rob event => exact (stalls.rob enabled).1
  | issue seq =>
      simp only [Release.step] at enabled
      split at enabled
      case isFalse =>
        cases enabled
        exact stalls
      case isTrue restricted =>
        rw [Option.ite_none_left_eq_some] at enabled
        rw [Bool.and_eq_true, Bool.and_eq_true] at restricted
        exact stalls.dolmaStallInst restricted.1.2 enabled.2
  | contend issuing unitBusy =>
      simp only [Release.step] at enabled
      split at enabled
      case h_1 =>
        cases enabled
        exact stalls
      case h_2 occupying found =>
        split at enabled
        case isFalse =>
          cases enabled
          exact stalls
        case isTrue restricted =>
          simp only [Bool.and_eq_true] at restricted
          exact stalls.dolmaStallInst restricted.1.1.2 enabled
  | execute seq answer =>
      simp only [Release.step] at enabled
      split at enabled
      case isTrue =>
        cases enabled
        exact stalls
      case isFalse =>
        obtain ⟨-, enabled⟩ := Option.ite_none_left_eq_some.mp enabled
        split at enabled
        case isFalse =>
          cases enabled
          exact stalls
        case isTrue missed =>
          -- only an unsafe request is taken for a miss under restriction
          have isUnsafe : isUnsafe config (state.heap seq) = true := by
            cases answer with
            | tlbMiss => exact (Bool.and_eq_true_iff.mp missed).1
            | cacheMiss => exact (Bool.and_eq_true_iff.mp missed).1
            | hits => cases missed
          exact stalls.dolmaStallInst (Bool.and_eq_true_iff.mp isUnsafe).1 enabled
  | scheduleReadyInsts =>
      obtain ⟨drain, finished, kept⟩ := exists_drainStalled state.heap state.dolmaStalledInsts
      rw [Release.step, finished] at enabled
      cases enabled
      refine ⟨stalls.ordered, stalls.restricted, fun seq stalled => ?_⟩
      have stays := kept seq (stalls.listed seq stalled)
      rwa [if_pos stalled] at stays

/-! ## The oldest instruction -/

/-- The oldest instruction of a buffer that is not squashed. -/
structure IsOldest (instList : List Nat) (heap : Heap) (seq : Nat) : Prop where
  member : seq ∈ instList
  unsquashed : (heap seq).isSquashed = false
  older : ∀ other ∈ instList, other < seq → (heap other).isSquashed = true

section Oldest

variable (config : Config) {instList : List Nat} {heap : Heap} {seq : Nat}
  (sorted : instList.Pairwise (· < ·)) (oldest : IsOldest instList heap seq)

include sorted oldest

/-- Nothing restricts the oldest instruction after a pass. -/
theorem isDolmaRestricted_updateSafeStatus_oldest :
    (updateSafeStatus config instList heap seq).isDolmaRestricted = false := by
  rw [DynInst.isDolmaRestricted_eq, Bool.or_eq_false_iff]
  constructor
  · rw [isControlRestricted_updateSafeStatus config heap sorted oldest.member,
      Bool.and_eq_false_iff, List.any_eq_false]
    refine .inr fun other mem => ?_
    rw [Bool.and_eq_true, decide_eq_true_eq]
    rintro ⟨older, inducer⟩
    rw [DynInst.isControlInducer, DynInst.isLive, oldest.older other mem older] at inducer
    cases inducer
  · obtain ⟨scan, processed, result⟩ := updateSafeStatus_processed config heap sorted
    rw [result, ← Bool.not_eq_true, processed.data seq oldest.member]
    rintro ⟨-, mem, older, inducer⟩
    -- The inducer would be an older instruction that is not squashed.
    rw [DynInst.isDataInducer, DynInst.isLive, (processed.agrees _).isSquashed (by decide),
      oldest.older _ mem older] at inducer
    cases inducer

/-- Nothing stalls the oldest instruction after a pass. -/
theorem isDolmaStalled_updateSafeStatus_oldest
    (restricted : (heap seq).isDolmaStalled = true → (heap seq).isDolmaRestricted = true) :
    (updateSafeStatus config instList heap seq).isDolmaStalled = false := by
  rw [← Bool.not_eq_true]
  intro stalled
  obtain ⟨before, restricts⟩ := Restrains.updateSafeStatus config heap sorted seq stalled
  have held := restricts (restricted before)
  rw [isDolmaRestricted_updateSafeStatus_oldest config sorted oldest] at held
  cases held

end Oldest

/-- The oldest instruction is released. -/
structure ReleasesOldest (config : Config) (state : State) : Prop where
  restricted : ∀ seq, (state.heap seq).isDolmaStalled = true →
    (state.heap seq).isDolmaRestricted = true
  /-- After the update of its thread the oldest instruction is neither restricted nor
  stalled. -/
  updated : ∀ thread seq, IsOldest (state.instList thread) state.heap seq →
    let after := updateSafeStatus config (state.instList thread) state.heap seq
    after.isDolmaRestricted = false ∧ after.isDolmaStalled = false
  retired : ∀ thread seq head, IsOldest (state.instList thread) state.heap seq →
    let after := updateSafeStatus config (state.instList thread)
      (state.heap.modify head (·.setStatus .dataInducer false)) seq
    after.isDolmaRestricted = false ∧ after.isDolmaStalled = false
  /-- A stalled instruction that has become the oldest is returned from the stall list by the
  scheduling pass that follows the update, whatever the buffers do in between. -/
  returned : ∀ thread seq between later, (state.heap seq).isDolmaStalled = true →
    IsOldest (state.instList thread) state.heap seq →
    ((.update thread :: between).map Event.rob).foldlM (step config) state = some later →
      ∃ drain, drainStalled later.heap later.dolmaStalledInsts = some drain ∧ seq ∈ drain.out

/-- A released instruction stays released and listed until the scheduling pass. -/
theorem released_of_run
    {later : State} (stalls : StallsListed state) (listed : seq ∈ state.dolmaStalledInsts)
    (running : (state.heap seq).isDolmaStalled = false) {between : List Control.Event}
    (run : (between.map Event.rob).foldlM (step config) state = some later) :
    seq ∈ later.dolmaStalledInsts ∧ (later.heap seq).isDolmaStalled = false := by
  induction between generalizing state with
  | nil =>
      cases run
      exact ⟨listed, running⟩
  | cons event rest ih =>
      rw [List.map_cons, List.foldlM_cons, Option.bind_eq_bind, Option.bind_eq_some_iff] at run
      obtain ⟨middle, stepped, run⟩ := run
      obtain ⟨kept, list, restrains⟩ := stalls.rob stepped
      refine ih kept (list ▸ listed) ?_ run
      rw [← Bool.not_eq_true]
      intro stalled
      rw [(restrains seq stalled).1] at running
      cases running

/-- In every run a stalled instruction is restricted, the oldest instruction of a thread is
neither restricted nor stalled after a safe-status update, and one that was stalled leaves the
stall list with the next scheduling pass. -/
theorem releasesOldest
    (config : Config) (staticInst : Nat → StaticInst) (threadNumber : Nat → Nat) {state : State}
    (reached : Reachable (step config) (fun _ _ => True) (initial staticInst threadNumber)
      state) :
    ReleasesOldest config state := by
  have stalls : StallsListed state :=
    reached.invariant (StallsListed.initial staticInst threadNumber)
      fun _ _ _ before _ enabled => before.step enabled
  have sorted := stalls.ordered.sorted
  constructor
  case restricted => exact stalls.restricted
  case updated =>
    intro thread seq oldest
    exact ⟨isDolmaRestricted_updateSafeStatus_oldest config (sorted thread) oldest,
      isDolmaStalled_updateSafeStatus_oldest config (sorted thread) oldest
        (stalls.restricted seq)⟩
  case retired =>
    intro thread seq head oldest
    have same : ∀ other, (state.heap.modify head (·.setStatus .dataInducer false)
        other).isSquashed = (state.heap other).isSquashed := by
      intro other
      by_cases equal : other = head
      · rw [equal, Heap.modify_self]
        rfl
      · rw [Heap.modify_of_ne _ equal]
    have first : IsOldest (state.instList thread)
        (state.heap.modify head (·.setStatus .dataInducer false)) seq :=
      ⟨oldest.member, (same seq).trans oldest.unsquashed,
        fun other mem older => (same other).trans (oldest.older other mem older)⟩
    refine ⟨isDolmaRestricted_updateSafeStatus_oldest config (sorted thread) first,
      isDolmaStalled_updateSafeStatus_oldest config (sorted thread) first fun stalled => ?_⟩
    obtain ⟨before, restricts⟩ :=
      Restrains.modify state.heap (Restrains.setStatus _ (by decide) false) seq stalled
    exact restricts (stalls.restricted seq before)
  case returned =>
    intro thread seq between later stalled oldest run
    rw [List.map_cons, List.foldlM_cons, Option.bind_eq_bind, Option.bind_eq_some_iff] at run
    obtain ⟨middle, updated, run⟩ := run
    obtain ⟨kept, list, -⟩ := stalls.rob updated
    cases updated
    have waits := released_of_run kept (list ▸ stalls.listed seq stalled)
      (isDolmaStalled_updateSafeStatus_oldest config (sorted thread) oldest
        (stalls.restricted seq)) run
    obtain ⟨drain, finished, handed⟩ :=
      exists_drainStalled later.heap later.dolmaStalledInsts
    have returned := handed seq waits.1
    rw [waits.2, if_neg Bool.false_ne_true] at returned
    exact ⟨drain, finished, returned⟩

/-- A load below a branch misses and is stalled; the branch is resolved and retires. -/
def stalledBelowBranch : List Event :=
  [.rob (.insert 1), .rob (.insert 2), .execute 2 .cacheMiss, .rob (.resolve 1),
    .rob (.elsewhere 1
      { staticInst := { isControl := true, isDirectCtrl := true, isCondCtrl := true }
        status := fun flag => flag == .robEntry || flag == .canCommit }),
    .rob (.retire 0)]

theorem releasesOldest_stalledBelowBranch :
    ∃ state, Reachable (step { mode := 1 }) (fun _ _ => True)
        (initial (fun seq =>
          if seq = 1 then { isControl := true, isDirectCtrl := true, isCondCtrl := true }
          else { isLoad := true }) fun _ => 0) state ∧
      (state.heap 2).isDolmaStalled = true ∧ state.instList 0 = [2] ∧
      ∃ later drain,
        ([Event.rob (.update 0)]).foldlM (step { mode := 1 }) state = some later ∧
          drainStalled later.heap later.dolmaStalledInsts = some drain ∧ 2 ∈ drain.out := by
  refine Reachable.exists_imp_of_replay stalledBelowBranch
    (fun state => (state.heap 2).isDolmaStalled = true ∧ state.instList 0 = [2]) (by decide) ?_
  rintro state reached ⟨stalled, list⟩
  have oldest : IsOldest (state.instList 0) state.heap 2 := by
    rw [list]
    refine ⟨List.mem_cons_self, ((isDolmaStalled_iff _).mp stalled).1, fun other mem older => ?_⟩
    rw [List.mem_singleton.mp mem] at older
    exact absurd older (Nat.lt_irrefl 2)
  obtain ⟨drain, finished, returned⟩ :=
    (releasesOldest _ _ _ reached).returned 0 2 [] _ stalled oldest rfl
  exact ⟨stalled, list, _, drain, rfl, finished, returned⟩

end Release
end Rob
end Dolma

import Dolma.Sched.Occupancy

/-!
# Stalled instructions do not run

As long as no running instruction is thrown out of its unit, an instruction whose
stall flag is set is on the stall list and nowhere else. So it is neither executed
nor written back, and no instruction finishes twice.
-/

namespace Dolma
namespace Sched

open Library

/-- What has run. -/
inductive Ran where
  | executed (seq : Nat) (stalled : Bool)
  | finished (seq : Nat)
  /-- A result has been written back and has woken the dependents of its instruction; the
  flag tells whether the instruction was stalled. -/
  | written (seq : Nat) (stalled : Bool)
deriving DecidableEq, Repr

/-- The execution comes to its end with this outcome. -/
def State.Outcome.isEnd : State.Outcome → Bool
  | .finishes | .faults => true
  | .stalls | .defers | .blocks | .reschedules => false

/-- Take note of what an event runs. Squashed instructions are passed over. -/
def noteRun (state : State) (event : Event) (history : List Ran) : List Ran :=
  match event with
  | .execute outcome =>
      match state.instsToExecute with
      | [] => history
      | seq :: _ =>
          let inst := state.heap seq
          if inst.squashed then history
          else
            .executed seq inst.isDolmaStalled ::
              (if outcome.isEnd then .finished seq :: history else history)
  | .writeback seq =>
      let inst := state.heap seq
      if inst.squashed then history else .written seq inst.isDolmaStalled :: history
  | _ => history

/-- Stalled instructions are on the stall list once, and they do not run. -/
structure AtRest (state : State) : Prop where
  listed : ∀ seq, (state.heap seq).isDolmaStalled = true → state.dolmaStalledInsts.count seq = 1
  notExecuting : ∀ seq, (state.heap seq).isDolmaStalled = true → seq ∉ state.instsToExecute
  notCompleting : ∀ seq, (state.heap seq).isDolmaStalled = true →
    ∀ event ∈ state.completions, event.inst ≠ seq
  notWriting : ∀ seq, (state.heap seq).isDolmaStalled = true → seq ∉ state.writebacks

/-- No stalled instruction has run, and no instruction has finished twice. -/
structure RunsOnce (history : List Ran) : Prop where
  executed : ∀ seq stalled, .executed seq stalled ∈ history → stalled = false
  written : ∀ seq stalled, .written seq stalled ∈ history → stalled = false
  once : ∀ seq, history.count (.finished seq) ≤ 1

/-- A stalled instruction is missing on the stall list. -/
def State.Unlisted (state : State) (seq : Nat) : Prop :=
  (state.heap seq).isDolmaStalled = true ∧ seq ∉ state.dolmaStalledInsts

/-- Instructions stay known, and no stalled instruction is lost. -/
structure Quiet (state next : State) : Prop where
  inserted : ∀ seq, (state.heap seq).inserted = true → (next.heap seq).inserted = true
  unlisted : ∀ seq, next.Unlisted seq → state.Unlisted seq

variable {seq : Nat} {event : Event} {params : Params} {state : State} {history : List Ran}
  {rest : List Nat} {outcome : State.Outcome}

namespace Quiet

variable {params : Params} {state mid next : State} {seq : Nat}

theorem congr
    (heap : next.heap = state.heap) (list : next.dolmaStalledInsts = state.dolmaStalledInsts) :
    Quiet state next := by
  constructor
  case inserted =>
    rw [heap]
    exact fun _ => id
  case unlisted =>
    intro seq missing
    unfold State.Unlisted at missing ⊢
    rwa [heap, list] at missing

theorem trans (first : Quiet state mid) (second : Quiet mid next) : Quiet state next where
  inserted seq known := second.inserted seq (first.inserted seq known)
  unlisted seq missing := first.unlisted seq (second.unlisted seq missing)

theorem of_heap
    (inserted : ∀ seq, (state.heap seq).inserted = true → (next.heap seq).inserted = true)
    (stalled : ∀ seq, (next.heap seq).isDolmaStalled = true →
      (state.heap seq).isDolmaStalled = true)
    (list : next.dolmaStalledInsts = state.dolmaStalledInsts) :
    Quiet state next where
  inserted := inserted
  unlisted seq missing := ⟨stalled seq missing.1, list ▸ missing.2⟩

theorem modify
    (state : State) (seq : Nat)
    (known : ∀ inst, inst.inserted = true → (change inst).inserted = true)
    (calm : ∀ inst, (change inst).isDolmaStalled = true → inst.isDolmaStalled = true) :
    Quiet state (state.modify seq change) := by
  refine of_heap (fun other => ?_) (fun other => ?_) rfl
  all_goals
    dsimp only [State.modify]
    split
  · exact known _
  · exact id
  · exact calm _
  · exact id

/-- A stall puts the instruction on the list. -/
theorem stall (state : State) (seq : Nat) : Quiet state (state.stall seq) := by
  constructor
  case inserted =>
    intro other known
    dsimp only [State.stall, State.dolmaStallInst, State.modify]
    split <;> exact known
  case unlisted =>
    rintro other ⟨flag, missing⟩
    have distinct : other ≠ seq := by
      rintro rfl
      exact missing (List.mem_append_right _ List.mem_cons_self)
    refine ⟨?_, fun mem => missing (List.mem_append_left _ mem)⟩
    simpa [State.stall, State.dolmaStallInst, State.modify, distinct] using flag

theorem giveBack (state : State) (seq : Nat) : Quiet state (state.giveBack seq) := by
  have changed : Quiet state (state.modify seq fun inst => { inst with inIQ := false }) :=
    modify state seq (fun _ => id) fun _ => id
  exact changed.trans (.congr rfl rfl)

theorem issue (state : State) (seq : Nat) (unit : Option Nat) :
    Quiet state (state.issue params seq unit) := by
  have started : Quiet state ((state.start params seq unit).popReady seq) := by
    unfold State.start
    dsimp only
    split
    · exact .congr rfl rfl
    · split
      · exact .congr rfl rfl
      · exact .congr rfl rfl
  have issued : Quiet state (((state.start params seq unit).popReady seq).modify seq fun inst =>
      { inst with issued := true }) := started.trans (modify _ seq (fun _ => id) fun _ => id)
  unfold State.issue
  dsimp only
  split
  · exact issued
  · exact issued.trans (giveBack _ seq)

/-- The scheduler looks at a ready instruction. -/
theorem schedule (calm : state.evictsRunning params seq = false) :
    Quiet state (state.schedule params seq) := by
  have popped : Quiet state (state.popReady seq) := .congr rfl rfl
  have scheduled := State.schedule_scheduled calm
  generalize state.schedule params seq = next at scheduled
  cases scheduled with
  | stalled => exact popped.trans (stall _ seq)
  | squashed => exact popped
  | full => exact .congr rfl rfl
  | @issued pool unit =>
      have turned : Quiet state (state.setPool pool) := .congr rfl rfl
      exact turned.trans (issue _ seq unit)

theorem execute (state : State) (seq : Nat) (outcome : State.Outcome) :
    Quiet state (state.execute seq outcome) := by
  have checked : Quiet state
      { state with failed := state.failed || (state.heap seq).isDolmaStalled } := .congr rfl rfl
  unfold State.execute
  dsimp only
  split
  case isTrue => exact .congr rfl rfl
  case isFalse =>
    cases outcome
    case stalls => exact checked.trans (stall _ seq)
    case blocks =>
      have cleared : Quiet state
          ({ state with failed := state.failed || (state.heap seq).isDolmaStalled }.modify seq
            fun inst => { inst with issued := false }) :=
        checked.trans (modify _ seq (fun _ => id) fun _ => id)
      exact cleared.trans (.congr rfl rfl)
    all_goals exact checked.trans (.congr rfl rfl)

theorem writeback (state : State) (seq : Nat) : Quiet state (state.writeback seq) := by
  have popped : Quiet state { state with writebacks := state.writebacks.erase seq } :=
    .congr rfl rfl
  have completed : Quiet state
      ({ state with writebacks := state.writebacks.erase seq }.modify seq fun inst =>
        { inst with completed := true }) :=
    popped.trans (modify _ seq (fun _ => id) fun _ => id)
  have woken : Quiet state
      { { state with writebacks := state.writebacks.erase seq }.modify seq fun inst =>
          { inst with completed := true } with
        failed := state.failed || (state.heap seq).isDolmaStalled } :=
    completed.trans (.congr rfl rfl)
  unfold State.writeback
  dsimp only
  split
  · exact popped
  · split
    · exact (woken.trans (giveBack _ seq)).trans (modify _ seq (fun _ => id) fun _ => id)
    · exact woken

theorem squashInst (state : State) (seq : Nat) : Quiet state (state.squashInst seq) := by
  have squashed : Quiet state (state.modify seq fun inst =>
      { inst with squashedInIQ := true, squashed := true, issued := true }) :=
    modify state seq (fun _ => id) fun inst flag => by cases flag
  unfold State.squashInst
  dsimp only
  split
  · exact squashed.trans (giveBack _ seq)
  · exact .congr rfl rfl

/-- A walk of the queue stalls no instruction. -/
theorem squashWalk (state : State) (tid limit : Nat) (list : List Nat) :
    Quiet state (State.squashWalk tid limit state list).1 := by
  induction list generalizing state with
  | nil => exact .congr rfl rfl
  | cons seq older ih =>
      unfold State.squashWalk
      split
      · exact .congr rfl rfl
      · split
        · exact ih state
        · exact (squashInst state seq).trans (ih (state.squashInst seq))

theorem squash (state : State) (tid limit : Nat) : Quiet state (state.squash tid limit) := by
  have walked : Quiet state (state.doSquash tid limit) :=
    (squashWalk state tid limit (state.instList tid).reverse).trans (.congr rfl rfl)
  refine walked.trans (of_heap (fun seq => ?_) (fun seq flag => ?_) rfl)
  · dsimp only [State.squash]
    split <;> exact id
  · dsimp only [State.squash] at flag
    split at flag
    · cases flag
    · exact flag

theorem step
    (keeps : keepsRunning params state event = true) (stepped : Stepped params state event next) :
    Quiet state next := by
  cases stepped with
  | @insert seq tid opClass isMemRef isLoad restricted =>
      refine of_heap (fun other known => ?_) (fun other flag => ?_) rfl
      · dsimp only [State.insert]
        split
        · rfl
        · exact known
      · dsimp only [State.insert] at flag
        split at flag
        · cases flag
        · exact flag
  | schedule => exact schedule (Bool.not_eq_true' _ ▸ keeps)
  | @drainStalled seq mem released =>
      refine ⟨fun _ => id, fun other missing => ⟨missing.1, fun before => missing.2 ?_⟩⟩
      have distinct : other ≠ seq := by
        rintro rfl
        exact absurd missing.1 (ne_true_of_eq_false released)
      exact (List.mem_erase_of_ne distinct).mpr before
  | @execute seq rest outcome =>
      have popped : Quiet state { state with instsToExecute := rest } := .congr rfl rfl
      exact popped.trans (execute _ seq outcome)
  | @writeback seq => exact writeback state seq
  | restrict seq => exact modify state seq (fun _ => id) fun _ => id
  | release seq =>
      refine modify state seq (fun _ => id) fun inst flag => ?_
      simp [Inst.isDolmaStalled] at flag
  | @flagSquashed seq => exact modify state seq (fun _ => id) fun inst flag => by cases flag
  | squash tid limit => exact squash state tid limit
  | @commit tid limit =>
      refine of_heap (fun seq => ?_) (fun seq => ?_) rfl
      all_goals
        dsimp only [State.commit]
        split <;> exact id
  | wake | drainDeferred | cacheUnblocked | drainRetry | completeFU | freeUnits =>
      exact .congr rfl rfl

end Quiet

/-- Stalled instructions do not run when they are on the stall list and every instruction
is in one place. -/
theorem Occupied.atRest (occupied : Occupied params state) (listed : ∀ seq, ¬state.Unlisted seq) :
    AtRest state := by
  have single : ∀ seq, (state.heap seq).isDolmaStalled = true →
      state.placeCount seq ≤ 1 ∧ 0 < state.dolmaStalledInsts.count seq := by
    refine fun seq flag => ⟨(occupied.flags seq).single, List.count_pos_iff.mpr ?_⟩
    by_contra missing
    exact listed seq ⟨flag, missing⟩
  constructor
  case listed =>
    intro seq flag
    obtain ⟨most, least⟩ := single seq flag
    unfold State.placeCount at most
    omega
  case notExecuting =>
    intro seq flag mem
    obtain ⟨most, least⟩ := single seq flag
    have present := List.count_pos_iff.mpr mem
    unfold State.placeCount at most
    omega
  case notCompleting =>
    rintro seq flag event mem rfl
    obtain ⟨most, least⟩ := single _ flag
    have present := List.count_pos_iff.mpr (List.mem_map_of_mem mem : event.inst ∈
      state.completions.map (·.inst))
    unfold State.placeCount at most
    omega
  case notWriting =>
    intro seq flag mem
    obtain ⟨most, least⟩ := single seq flag
    have present := List.count_pos_iff.mpr mem
    unfold State.placeCount at most
    omega

/-- An instruction that has finished is on no list, or it is still to be written back. -/
def State.HasEnded (state : State) (seq : Nat) : Prop :=
  (state.heap seq).inserted = true ∧ state.placeCount seq = state.writebacks.count seq

namespace State.HasEnded

variable {params : Params} {state next : State} {seq : Nat} {event : Event}

/-- What has finished is not executed. -/
theorem notMem_instsToExecute (ended : state.HasEnded seq) : seq ∉ state.instsToExecute := by
  intro mem
  have present := List.count_pos_iff.mpr mem
  have places := ended.2
  unfold placeCount at places
  omega

/-- An instruction stays finished when nothing is written back. -/
theorem stays
    (ended : state.HasEnded seq) (known : (next.heap seq).inserted = true)
    (fewer : next.placeCount seq ≤ state.placeCount seq)
    (writebacks : state.writebacks.count seq ≤ next.writebacks.count seq) :
    next.HasEnded seq := by
  refine ⟨known, ?_⟩
  have places := ended.2
  have least : next.writebacks.count seq ≤ next.placeCount seq := by
    unfold placeCount
    omega
  omega

end State.HasEnded

section Writebacks

variable {params : Params} {state next : State} {seq : Nat} {event : Event}

theorem writebacks_schedule (calm : state.evictsRunning params seq = false) :
    (state.schedule params seq).writebacks = state.writebacks := by
  have scheduled := State.schedule_scheduled calm
  generalize state.schedule params seq = next at scheduled
  cases scheduled with
  | stalled | squashed | full => rfl
  | @issued pool unit =>
      have started : ((state.setPool pool).start params seq unit).writebacks =
          state.writebacks := by
        unfold State.start
        dsimp only
        split
        · rfl
        · split <;> rfl
      rw [← started]
      unfold State.issue
      dsimp only
      split <;> rfl

theorem writebacks_squashWalk (state : State) (tid limit : Nat) (list : List Nat) :
    (State.squashWalk tid limit state list).1.writebacks = state.writebacks := by
  refine squashWalk_keeps State.writebacks ?_ state tid limit list
  intro state seq
  unfold State.squashInst
  dsimp only
  split <;> rfl

/-- An execution removes no write-back. -/
theorem writebacks_execute (state : State) (seq : Nat) (outcome : State.Outcome) :
    state.writebacks <+: (state.execute seq outcome).writebacks := by
  unfold State.execute
  dsimp only
  split
  case isTrue => exact List.prefix_rfl
  case isFalse =>
    cases outcome
    case finishes => exact List.prefix_append _ _
    all_goals exact List.prefix_rfl

theorem writebacks_step
    (keeps : keepsRunning params state event = true) (stepped : Stepped params state event next)
    (other : ∀ seq, event ≠ .writeback seq) :
    state.writebacks <+: next.writebacks := by
  cases stepped with
  | schedule =>
      rw [writebacks_schedule (Bool.not_eq_true' _ ▸ keeps)]
  | @execute seq rest outcome =>
      exact writebacks_execute { state with instsToExecute := rest } seq outcome
  | @writeback seq => exact absurd rfl (other seq)
  | squash tid limit =>
      have walked := writebacks_squashWalk state tid limit (state.instList tid).reverse
      exact ⟨[], (List.append_nil _).trans walked.symm⟩
  | _ => exact List.prefix_rfl

end Writebacks

/-- An instruction that has finished stays so. -/
theorem State.HasEnded.step
    (ended : state.HasEnded seq) (keeps : keepsRunning params state event = true)
    (stepped : Stepped params state event next) :
    next.HasEnded seq := by
  have known := (Quiet.step keeps stepped).inserted seq ended.1
  have fewer : next.placeCount seq ≤ state.placeCount seq := by
    have most := placeCount_step keeps stepped seq
    have none : placed seq event = 0 := by
      cases stepped with
      | @insert other _ _ _ _ _ _ fresh =>
          have distinct : other ≠ seq := by
            rintro rfl
            rw [ended.1] at fresh
            cases fresh
          exact if_neg distinct
      | _ => rfl
    omega
  by_cases written : ∃ other, event = .writeback other
  · obtain ⟨other, rfl⟩ := written
    cases stepped with
    | writeback mem =>
        have moved := placeCount_writeback mem seq
        have erased := count_erase_of_mem mem seq
        have places := ended.2
        have list : (state.writeback other).writebacks = state.writebacks.erase other := by
          unfold State.writeback
          dsimp only
          split
          · rfl
          · split <;> rfl
        refine ⟨known, ?_⟩
        rw [list]
        omega
  · have grown := writebacks_step keeps stepped fun other same => written ⟨other, same⟩
    exact ended.stays known fewer (grown.sublist.count_le seq)

/-- An instruction that is executed to its end has finished. -/
theorem Occupied.hasEnded
    (occupied : Occupied params state) (executing : state.instsToExecute = seq :: rest)
    (live : (state.heap seq).squashed = false) (ends : outcome.isEnd = true) :
    ({ state with instsToExecute := rest }.execute seq outcome).HasEnded seq := by
  have single := (occupied.flags seq).single
  have mem : seq ∈ state.instsToExecute := executing ▸ List.mem_cons_self
  have known : (state.heap seq).inserted = true :=
    (occupied.flags seq).inserted_of_somewhere
      (State.placeCount_pos (.inr (.inr (.inl mem))))
  have popped : { state with instsToExecute := rest }.placeCount seq + 1 =
      state.placeCount seq := by
    simp only [State.placeCount, executing, List.count_cons_self]
    omega
  have nowhere : { state with instsToExecute := rest }.placeCount seq = 0 := by omega
  have unwritten : state.writebacks.count seq = 0 := by
    unfold State.placeCount at nowhere
    dsimp only at nowhere
    omega
  have kept := (Quiet.execute { state with instsToExecute := rest } seq outcome).inserted seq
    known
  refine ⟨kept, ?_⟩
  cases outcome with
  | finishes =>
      simp only [State.placeCount] at nowhere
      simp only [State.execute, live, Bool.false_eq_true, if_false, State.placeCount,
        List.count_append, List.count_singleton_self]
      omega
  | faults =>
      simp only [State.placeCount] at nowhere
      simp only [State.execute, live, Bool.false_eq_true, if_false, State.placeCount]
      omega
  | stalls | defers | blocks | reschedules => cases ends

/-- What holds in every state of a run with its history. -/
structure Rests (params : Params) (run : State × List Ran) : Prop where
  occupied : Occupied params run.1
  listed : ∀ seq, ¬run.1.Unlisted seq
  runsOnce : RunsOnce run.2
  ended : ∀ seq, .finished seq ∈ run.2 → run.1.HasEnded seq

theorem RunsOnce.executed_cons (runsOnce : RunsOnce history) :
    RunsOnce (.executed seq false :: history) where
  executed other stalled noted := by
    rcases List.mem_cons.mp noted with same | before
    · exact (Ran.executed.inj same).2
    · exact runsOnce.executed other stalled before
  written other stalled noted :=
    runsOnce.written other stalled (List.mem_of_ne_of_mem Ran.noConfusion noted)
  once other := by
    rw [List.count_cons_of_ne (by simp)]
    exact runsOnce.once other

theorem RunsOnce.finished_cons (runsOnce : RunsOnce history) (first : .finished seq ∉ history) :
    RunsOnce (.finished seq :: history) where
  executed other stalled noted :=
    runsOnce.executed other stalled (List.mem_of_ne_of_mem Ran.noConfusion noted)
  written other stalled noted :=
    runsOnce.written other stalled (List.mem_of_ne_of_mem Ran.noConfusion noted)
  once other := by
    by_cases same : other = seq
    · rw [same, List.count_cons_self, List.count_eq_zero.mpr first]
    · rw [List.count_cons_of_ne (by simpa using Ne.symm same)]
      exact runsOnce.once other

theorem RunsOnce.written_cons (runsOnce : RunsOnce history) :
    RunsOnce (.written seq false :: history) where
  executed other stalled noted :=
    runsOnce.executed other stalled (List.mem_of_ne_of_mem Ran.noConfusion noted)
  written other stalled noted := by
    rcases List.mem_cons.mp noted with same | before
    · exact (Ran.written.inj same).2
    · exact runsOnce.written other stalled before
  once other := by
    rw [List.count_cons_of_ne (by simp)]
    exact runsOnce.once other

namespace Rests

variable {params : Params} {state next : State} {history : List Ran} {seq : Nat}

theorem noteExecute
    (rests : Rests params (state, history)) (executing : state.instsToExecute = seq :: rest) :
    RunsOnce (noteRun state (.execute outcome) history) ∧
      ∀ other, .finished other ∈ noteRun state (.execute outcome) history →
        .finished other ∈ history ∨
          other = seq ∧ (state.heap seq).squashed = false ∧ outcome.isEnd = true := by
  have mem : seq ∈ state.instsToExecute := executing ▸ List.mem_cons_self
  have calm : (state.heap seq).isDolmaStalled = false := by
    by_contra flag
    exact (rests.occupied.atRest rests.listed).notExecuting seq (by simpa using flag) mem
  have first : .finished seq ∉ history :=
    fun finished => (rests.ended seq finished).notMem_instsToExecute mem
  simp only [noteRun, executing, calm]
  by_cases squashed : (state.heap seq).squashed = true
  · rw [if_pos squashed]
    exact ⟨rests.runsOnce, fun _ => .inl⟩
  · rw [if_neg squashed]
    rw [Bool.not_eq_true] at squashed
    by_cases ends : outcome.isEnd = true
    · rw [if_pos ends]
      refine ⟨(rests.runsOnce.finished_cons first).executed_cons, fun other noted => ?_⟩
      rcases List.mem_cons.mp (List.mem_of_ne_of_mem Ran.noConfusion noted) with same | before
      · exact .inr ⟨Ran.finished.inj same, squashed, ends⟩
      · exact .inl before
    · rw [if_neg ends]
      exact ⟨rests.runsOnce.executed_cons,
        fun other noted => .inl (List.mem_of_ne_of_mem Ran.noConfusion noted)⟩

theorem noteWriteback (rests : Rests params (state, history)) (mem : seq ∈ state.writebacks) :
    RunsOnce (noteRun state (.writeback seq) history) ∧
      ∀ other, .finished other ∈ noteRun state (.writeback seq) history →
        .finished other ∈ history := by
  have calm : (state.heap seq).isDolmaStalled = false := by
    by_contra flag
    exact (rests.occupied.atRest rests.listed).notWriting seq (by simpa using flag) mem
  simp only [noteRun, calm]
  by_cases squashed : (state.heap seq).squashed = true
  · rw [if_pos squashed]
    exact ⟨rests.runsOnce, fun _ => id⟩
  · rw [if_neg squashed]
    exact ⟨rests.runsOnce.written_cons,
      fun other noted => List.mem_of_ne_of_mem Ran.noConfusion noted⟩

theorem step
    (rests : Rests params (state, history)) (keeps : keepsRunning params state event = true)
    (happens : Sched.step params state event = some next) :
    Rests params (next, noteRun state event history) := by
  have stepped := step_stepped happens
  have occupied := rests.occupied.step keeps happens
  have listed : ∀ seq, ¬next.Unlisted seq :=
    fun seq missing => rests.listed seq ((Quiet.step keeps stepped).unlisted seq missing)
  have ended : ∀ seq, .finished seq ∈ history → next.HasEnded seq :=
    fun seq finished => (rests.ended seq finished).step keeps stepped
  cases stepped with
  | execute executing =>
      obtain ⟨runsOnce, finished⟩ := rests.noteExecute executing
      refine ⟨occupied, listed, runsOnce, fun other noted => ?_⟩
      rcases finished other noted with before | ⟨rfl, live, ends⟩
      · exact ended other before
      · exact rests.occupied.hasEnded executing live ends
  | writeback mem =>
      obtain ⟨runsOnce, finished⟩ := rests.noteWriteback mem
      exact ⟨occupied, listed, runsOnce, fun other noted => ended other (finished other noted)⟩
  | _ => exact ⟨occupied, listed, rests.runsOnce, ended⟩

end Rests

/-- The scheduler together with what has run. -/
abbrev stepNoted (params : Params) : State × List Ran → Event → Option (State × List Ran) :=
  withHistory (step params) noteRun

/-- In every run in which no running instruction is thrown out of its unit, stalled instructions
are on the stall list only, none is executed or written back, and no instruction finishes twice.
-/
theorem stalled_atRest
    (params : Params) (units : Nat → Option (CircularQueue Nat)) {run : State × List Ran}
    (reachable : Reachable (stepNoted params)
      (fun run event => keepsRunning params run.1 event = true)
      (initial params units, []) run) :
    AtRest run.1 ∧ RunsOnce run.2 := by
  have start : Rests params (initial params units, []) := by
    refine ⟨initial_occupied params units, ?_, ?_, ?_⟩
    · rintro seq ⟨flag, -⟩
      cases flag
    · refine ⟨fun _ _ noted => ?_, fun _ _ noted => ?_, fun _ => Nat.zero_le 1⟩
      · cases noted
      · cases noted
    · intro _ noted
      cases noted
  have rests : Rests params run := by
    refine reachable.invariant start fun before event after rests keeps happens => ?_
    obtain ⟨stepped, noted⟩ := withHistory_eq_some.mp happens
    have next := rests.step keeps stepped
    rw [noted] at next
    exact next
  exact ⟨rests.occupied.atRest rests.listed, rests.runsOnce⟩

section Samples

/-- A restricted load misses and is stalled, is released and finishes. -/
theorem stalled_atRest_load :
    ∃ run, Reachable (stepNoted divider)
        (fun run event => keepsRunning divider run.1 event = true)
        (initial divider dividerUnits, []) run ∧
      ((run.1.heap 1).isDolmaStalled = true ∧ run.2 = [.executed 1 false]) ∧
      AtRest run.1 ∧ RunsOnce run.2 :=
  Reachable.exists_and_of_replay
    [.insert 1 0 0 true true true, .wake 1, .schedule 1, .execute .stalls] (by decide)
    fun _ reachable _ => stalled_atRest divider dividerUnits reachable

/-- The younger division is thrown out of its unit while its completion is pending, and is to be
executed although it is stalled. Once released it issues again and finishes twice. -/
theorem stalled_atRest_evicted :
    (∃ run, Reachable (stepNoted divider) (fun _ _ => True)
        (initial divider dividerUnits, []) run ∧
      ((run.1.heap 2).isDolmaStalled = true ∧ 2 ∈ run.1.instsToExecute) ∧
      ¬AtRest run.1) ∧
    ∃ run, Reachable (stepNoted divider) (fun _ _ => True)
        (initial divider dividerUnits, []) run ∧
      run.2.count (.finished 2) = 2 ∧ ¬RunsOnce run.2 := by
  constructor
  · refine Reachable.exists_and_of_replay
      (youngerFirst ++ [.schedule 1, .completeFU ⟨2, 0, true⟩]) (by decide) ?_
    rintro run - ⟨stalled, executes⟩ rests
    exact rests.notExecuting 2 stalled executes
  · refine Reachable.exists_and_of_replay
      (youngerFirst ++ [.schedule 1, .completeFU ⟨2, 0, true⟩, .execute .finishes,
        .writeback 2, .release 2, .drainStalled, .freeUnits, .schedule 2,
        .completeFU ⟨2, 0, true⟩, .execute .finishes]) (by decide) ?_
    intro run _ twice runsOnce
    have once := runsOnce.once 2
    omega

end Samples

end Sched
end Dolma

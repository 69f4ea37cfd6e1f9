import Dolma.Library.Loop
import Dolma.Library.TransitionSystem
import Dolma.Sched.Contention
import Dolma.Sched.ReadyLists
import Mathlib.Algebra.Order.Ring.Nat

/-!
# A scheduling pass

The scheduler walks over the classes with ready instructions and looks at the oldest
instruction of each, until the issue width is used up. An instruction that issues or is
dropped leaves the ready lists, and its class is put on the list again behind the iterator.
With STT a restricted load is stalled instead; the iterator is then advanced once more, and
passes over the entry after it.
-/

namespace Dolma
namespace Sched

open Library

/-- What the scheduler does with an instruction. -/
inductive Verdict where
  | stalls
  | drops
  | waits
  | issues
deriving DecidableEq, Repr

/-- What the scheduler does with an instruction. -/
def State.verdict (params : Params) (state : State) (seq : Nat) : Verdict :=
  let inst := state.heap seq
  if params.config.isSTT && inst.isDolmaRestricted && inst.isLoad then .stalls
  else if inst.squashed then .drops
  else if (state.findUnit params seq).1 = .noFreeFU then .waits
  else .issues

/-- The local variables of a pass. -/
structure Pass where
  state : State
  lists : ReadyLists
  orderIt : Nat := 0
  totalIssued : Nat := 0
  /-- History: the classes looked at. -/
  examined : List Nat := []
  /-- History: the age of each entry was that of the instruction looked at. -/
  agreed : Bool := true
  pastEnd : Bool := false

namespace Pass

variable (params : Params) (totalWidth : Nat) (pass : Pass)

/-- The entry the iterator is at. -/
def current : Option ListOrderEntry :=
  pass.lists.listOrder[pass.orderIt]?

/-- The instruction at the iterator leaves the ready lists; the iterator is then at the next
entry. -/
def take (entry : ListOrderEntry) : Pass :=
  { pass with lists := pass.lists.takeTop pass.orderIt entry }

/-- Advance the iterator. -/
def advance : Pass :=
  { pass with orderIt := pass.orderIt + 1 }

/-- One iteration. The scheduler asks what to do with the oldest instruction of the class the
iterator is at. -/
def examine : Pass ⊕ Pass :=
  if pass.totalIssued < totalWidth then
    match pass.current with
    | none => .inl pass
    | some entry =>
        let seq := pass.lists.top entry.queueType
        let looked :=
          { pass with
            state := pass.state.schedule params seq
            examined := entry.queueType :: pass.examined }
        let checked := { looked with agreed := pass.agreed && seq == entry.oldestInst }
        match pass.state.verdict params seq with
        | .stalls =>
            let left := looked.take entry
            if left.orderIt < left.lists.listOrder.length then .inr left.advance
            else .inl { left with pastEnd := true }
        | .drops => .inr (checked.take entry)
        | .waits => .inr checked.advance
        | .issues => .inr { checked.take entry with totalIssued := pass.totalIssued + 1 }
  else .inl pass

/-- The number of instructions that may still be looked at. -/
def work : Nat :=
  ((pass.lists.listOrder.drop pass.orderIt).map fun entry =>
    (pass.lists.readyInsts entry.queueType).length).sum

end Pass

/-- A pass over the ready lists. -/
def scheduleLoop
    (params : Params) (totalWidth : Nat) (state : State) (lists : ReadyLists) : Option Pass :=
  let start : Pass := { state := state, lists := lists }
  loop (Pass.examine params totalWidth) (start.work + 1) start

/-! ## One iteration -/

namespace Pass

variable {params : Params} {totalWidth : Nat} {pass next : Pass}

/-- What an iteration that goes on does. -/
inductive Examined (params : Params) (totalWidth : Nat) (pass : Pass) : Pass → Prop where
  | leaves {entry : ListOrderEntry} {issued : Nat} :
      pass.current = some entry →
      pass.state.verdict params (pass.lists.top entry.queueType) ≠ .waits →
      Examined params totalWidth pass
        { pass with
          state := pass.state.schedule params (pass.lists.top entry.queueType)
          lists := pass.lists.takeTop pass.orderIt entry
          examined := entry.queueType :: pass.examined
          agreed := pass.agreed && pass.lists.top entry.queueType == entry.oldestInst
          totalIssued := issued }
  | waits {entry : ListOrderEntry} :
      pass.current = some entry →
      pass.state.verdict params (pass.lists.top entry.queueType) = .waits →
      Examined params totalWidth pass
        { pass with
          state := pass.state.schedule params (pass.lists.top entry.queueType)
          orderIt := pass.orderIt + 1
          examined := entry.queueType :: pass.examined
          agreed := pass.agreed && pass.lists.top entry.queueType == entry.oldestInst }
  | stalls {entry : ListOrderEntry} :
      pass.current = some entry →
      pass.state.verdict params (pass.lists.top entry.queueType) = .stalls →
      pass.orderIt < (pass.lists.takeTop pass.orderIt entry).listOrder.length →
      Examined params totalWidth pass
        { pass with
          state := pass.state.schedule params (pass.lists.top entry.queueType)
          lists := pass.lists.takeTop pass.orderIt entry
          orderIt := pass.orderIt + 1
          examined := entry.queueType :: pass.examined }

/-- What a pass ends with. -/
inductive Finished (params : Params) (totalWidth : Nat) (pass : Pass) : Pass → Prop where
  | full : totalWidth ≤ pass.totalIssued → Finished params totalWidth pass pass
  | atEnd : pass.current = none → Finished params totalWidth pass pass
  | pastEnd {entry : ListOrderEntry} :
      pass.current = some entry →
      pass.state.verdict params (pass.lists.top entry.queueType) = .stalls →
      (pass.lists.takeTop pass.orderIt entry).listOrder.length ≤ pass.orderIt →
      Finished params totalWidth pass
        { pass with
          state := pass.state.schedule params (pass.lists.top entry.queueType)
          lists := pass.lists.takeTop pass.orderIt entry
          examined := entry.queueType :: pass.examined
          pastEnd := true }

/-- An iteration returns or goes on. -/
theorem examine_spec :
    (pass.examine params totalWidth).elim (Finished params totalWidth pass)
      (Examined params totalWidth pass) := by
  unfold examine
  split
  case isFalse full => exact Finished.full (Nat.le_of_not_lt full)
  case isTrue =>
    cases here : pass.current with
    | none => exact Finished.atEnd here
    | some entry =>
        dsimp only
        cases verdict : pass.state.verdict params (pass.lists.top entry.queueType) with
        | stalls =>
            dsimp only
            split
            case isTrue inside => exact Examined.stalls here verdict inside
            case isFalse outside =>
              exact Finished.pastEnd here verdict (Nat.le_of_not_lt outside)
        | drops => exact Examined.leaves here (by rw [verdict]; exact Verdict.noConfusion)
        | waits => exact Examined.waits here verdict
        | issues => exact Examined.leaves here (by rw [verdict]; exact Verdict.noConfusion)

theorem examine_inr (stepped : pass.examine params totalWidth = .inr next) :
    Examined params totalWidth pass next := by
  have spec : (pass.examine params totalWidth).elim _ _ := examine_spec
  rw [stepped] at spec
  exact spec

theorem examine_inl (returned : pass.examine params totalWidth = .inl next) :
    Finished params totalWidth pass next := by
  have spec : (pass.examine params totalWidth).elim _ _ := examine_spec
  rw [returned] at spec
  exact spec

/-! ## Every pass ends -/

variable {entry : ListOrderEntry}

/-- A list of classes with one fewer ready instruction. -/
theorem work_takeTop (ordered : Ordered pass.lists) (here : pass.current = some entry) :
    (pass.take entry).work < pass.work := by
  obtain ⟨added, own, perm⟩ := Ordered.drop_takeTop_perm here
  have oldest := ordered.oldest entry (List.mem_of_getElem? here)
  have top := Ordered.top_eq oldest
  have fewer := List.length_erase_of_mem (List.min?_mem oldest)
  have nonempty := List.length_pos_of_mem (List.min?_mem oldest)
  have rest :
      (pass.lists.listOrder.drop (pass.orderIt + 1)).map (fun other =>
          ((pass.lists.takeTop pass.orderIt entry).readyInsts other.queueType).length) =
        (pass.lists.listOrder.drop (pass.orderIt + 1)).map (fun other =>
          (pass.lists.readyInsts other.queueType).length) := by
    apply List.map_congr_left
    intro other behind
    rw [Ordered.takeTop_readyInsts, Function.update_of_ne (ordered.ne_of_mem_drop here behind)]
  have before : pass.lists.listOrder.drop pass.orderIt =
      entry :: pass.lists.listOrder.drop (pass.orderIt + 1) := by
    obtain ⟨inside, rfl⟩ := List.getElem?_eq_some_iff.mp here
    exact List.drop_eq_getElem_cons inside
  unfold work take
  dsimp only
  rw [List.Perm.sum_nat (perm.map _), List.map_append, List.sum_append, rest, before, List.map_cons,
    List.sum_cons]
  cases added with
  | none =>
      rw [Option.toList, List.map_nil, List.sum_nil]
      omega
  | some new =>
      rw [Option.toList, List.map_singleton, List.sum_singleton, own new rfl,
        Ordered.takeTop_readyInsts, Function.update_self, top, fewer]
      omega

theorem work_advance (here : pass.current = some entry) :
    pass.advance.work + (pass.lists.readyInsts entry.queueType).length = pass.work := by
  obtain ⟨inside, rfl⟩ := List.getElem?_eq_some_iff.mp here
  unfold work advance
  dsimp only
  rw [List.drop_eq_getElem_cons inside, List.map_cons, List.sum_cons, Nat.add_comm]

/-- An iteration that goes on keeps the ready lists in order and leaves fewer instructions to
look at. -/
theorem Examined.ordered
    (examined : Examined params totalWidth pass next) (ordered : Ordered pass.lists) :
    Ordered next.lists ∧ next.work < pass.work := by
  cases examined with
  | leaves here => exact ⟨ordered.takeTop here, work_takeTop ordered here⟩
  | @waits entry here =>
      have oldest := ordered.oldest entry (List.mem_of_getElem? here)
      have nonempty := List.length_pos_of_mem (List.min?_mem oldest)
      have moved := work_advance here
      refine ⟨ordered, ?_⟩
      change pass.advance.work < pass.work
      omega
  | @stalls entry here _ inside =>
      have smaller := work_takeTop ordered here
      have next : (pass.take entry).current = some (pass.take entry).lists.listOrder[pass.orderIt] :=
        List.getElem?_eq_getElem inside
      have moved := work_advance next
      refine ⟨ordered.takeTop here, ?_⟩
      change (pass.take entry).advance.work < pass.work
      omega

/-- An iteration that returns keeps the ready lists in order. -/
theorem Finished.ordered
    (finished : Finished params totalWidth pass next) (ordered : Ordered pass.lists) :
    Ordered next.lists := by
  cases finished with
  | full => exact ordered
  | atEnd => exact ordered
  | pastEnd here => exact ordered.takeTop here

/-- The entry has the age of its instruction. -/
theorem Examined.agreed
    (examined : Examined params totalWidth pass next) (ordered : Ordered pass.lists) :
    next.agreed = pass.agreed := by
  have same : ∀ {entry : ListOrderEntry}, pass.current = some entry →
      (pass.agreed && pass.lists.top entry.queueType == entry.oldestInst) = pass.agreed := by
    intro entry here
    have top := Ordered.top_eq (ordered.oldest entry (List.mem_of_getElem? here))
    rw [top, beq_self_eq_true, Bool.and_true]
  cases examined with
  | leaves here => exact same here
  | waits here => exact same here
  | stalls => rfl

theorem Finished.agreed (finished : Finished params totalWidth pass next) :
    next.agreed = pass.agreed := by
  cases finished with
  | full => rfl
  | atEnd => rfl
  | pastEnd => rfl

theorem Examined.pastEnd_eq (examined : Examined params totalWidth pass next) :
    next.pastEnd = pass.pastEnd := by
  cases examined with
  | leaves => rfl
  | waits => rfl
  | stalls => rfl

theorem verdict_ne_stalls (plain : params.config.isSTT = false) (state : State) (seq : Nat) :
    state.verdict params seq ≠ .stalls := by
  unfold State.verdict
  dsimp only
  rw [plain, Bool.false_and, Bool.false_and, if_neg Bool.false_ne_true]
  split
  · exact Verdict.noConfusion
  · split
    · exact Verdict.noConfusion
    · exact Verdict.noConfusion

/-- Without STT the iterator never goes past the end. -/
theorem Finished.pastEnd_eq
    (plain : params.config.isSTT = false) (finished : Finished params totalWidth pass next) :
    next.pastEnd = pass.pastEnd := by
  cases finished with
  | full => rfl
  | atEnd => rfl
  | pastEnd _ stalls => exact absurd stalls (verdict_ne_stalls plain _ _)

end Pass

variable {lists : ReadyLists}

/-- A pass over ready lists in order ends, and what each iteration keeps holds before the
last one. -/
theorem exists_lastExamine
    (ordered : Ordered lists) (params : Params) (totalWidth : Nat) (state : State)
    (Kept : Pass → Prop) (holds : Kept { state := state, lists := lists })
    (kept : ∀ pass next, Ordered pass.lists → Kept pass →
      pass.examine params totalWidth = .inr next → Kept next) :
    ∃ last pass, Ordered last.lists ∧ Kept last ∧
      last.examine params totalWidth = .inl pass ∧
      scheduleLoop params totalWidth state lists = some pass := by
  let start : Pass := { state := state, lists := lists }
  have goesOn : ∀ pass next : Pass, Ordered pass.lists ∧ Kept pass →
      pass.examine params totalWidth = .inr next →
      (Ordered next.lists ∧ Kept next) ∧ next.work < pass.work := by
    rintro pass next ⟨ordered, holds⟩ stepped
    obtain ⟨stays, smaller⟩ := (Pass.examine_inr stepped).ordered ordered
    exact ⟨⟨stays, kept pass next ordered holds stepped⟩, smaller⟩
  obtain ⟨last, pass, ⟨stays, holds⟩, returned, finished⟩ :=
    exists_loop Pass.work goesOn (Nat.lt_succ_self start.work) ⟨ordered, holds⟩
  exact ⟨last, pass, stays, holds, returned, finished⟩

/-- A pass over ready lists in order ends with ready lists in order, and every age it checks
is right. -/
theorem exists_scheduleLoop
    (ordered : Ordered lists) (params : Params) (totalWidth : Nat) (state : State) :
    ∃ pass, scheduleLoop params totalWidth state lists = some pass ∧
      Ordered pass.lists ∧ pass.agreed = true ∧
        (params.config.isSTT = false → pass.pastEnd = false) := by
  let Kept (pass : Pass) : Prop := pass.agreed = true ∧ pass.pastEnd = false
  have kept : ∀ pass next : Pass, Ordered pass.lists → Kept pass →
      pass.examine params totalWidth = .inr next → Kept next := by
    rintro pass next holds ⟨right, inside⟩ stepped
    have examined := Pass.examine_inr stepped
    exact ⟨(examined.agreed holds).trans right, examined.pastEnd_eq.trans inside⟩
  obtain ⟨last, pass, stays, ⟨right, inside⟩, returned, finished⟩ :=
    exists_lastExamine ordered params totalWidth state Kept ⟨rfl, rfl⟩ kept
  have done := Pass.examine_inl returned
  exact ⟨pass, finished, done.ordered stays, done.agreed.trans right,
    fun plain => (done.pastEnd_eq plain).trans inside⟩

/-! ## The ready lists over a run -/

/-- What happens to the ready lists. -/
inductive ReadyEvent where
  | ready (opClass seq : Nat)
  | pass (params : Params) (totalWidth : Nat) (state : State)

/-- The ready lists and a history. -/
structure Readied where
  lists : ReadyLists := {}
  /-- History: in every pass the age of each entry was that of the instruction looked at. -/
  agreed : Bool := true

/-- One event. -/
def Readied.step (readied : Readied) : ReadyEvent → Option Readied
  | .ready opClass seq =>
      some { readied with lists := readied.lists.addReadyMemInst opClass seq }
  | .pass params totalWidth state =>
      (scheduleLoop params totalWidth state readied.lists).map fun pass =>
        { lists := pass.lists, agreed := readied.agreed && pass.agreed }

/-- The passes are not those of STT. -/
def ReadyEvent.isPlain : ReadyEvent → Bool
  | .ready _ _ => true
  | .pass params _ _ => !params.config.isSTT

theorem Readied.step_ordered
    {readied next : Readied} {event : ReadyEvent} (ordered : Ordered readied.lists)
    (stepped : readied.step event = some next) :
    Ordered next.lists ∧ next.agreed = readied.agreed := by
  cases event with
  | ready opClass seq =>
      cases stepped
      exact ⟨ordered.addReadyMemInst opClass seq, rfl⟩
  | pass params totalWidth state =>
      obtain ⟨pass, finished, stays, right, -⟩ :=
        exists_scheduleLoop ordered params totalWidth state
      unfold Readied.step at stepped
      dsimp only at stepped
      rw [finished] at stepped
      cases stepped
      refine ⟨stays, ?_⟩
      dsimp only
      rw [right, Bool.and_true]

/-- After any run the list of classes has one entry for each class with ready instructions, by
age, and every pass has checked only ages that are right and ends. -/
theorem readyLists_ordered
    {readied : Readied}
    (reachable :
      Reachable Readied.step (fun _ event => event.isPlain = true) {} readied) :
    Ordered readied.lists ∧ readied.agreed = true ∧
      ∀ params totalWidth state, params.config.isSTT = false →
        ∃ pass, scheduleLoop params totalWidth state readied.lists = some pass ∧
          pass.pastEnd = false := by
  have kept : Ordered readied.lists ∧ readied.agreed = true := by
    induction reachable with
    | init => exact ⟨Ordered.empty, rfl⟩
    | step event _ _ stepped ih =>
        obtain ⟨stays, same⟩ := Readied.step_ordered ih.1 stepped
        exact ⟨stays, same.trans ih.2⟩
  refine ⟨kept.1, kept.2, ?_⟩
  intro params totalWidth state plain
  obtain ⟨pass, finished, -, -, inside⟩ :=
    exists_scheduleLoop kept.1 params totalWidth state
  exact ⟨pass, finished, inside plain⟩

/-- An instruction that becomes ready after another of its class has issued. -/
theorem readyLists_ordered_oneIssued :
    ∃ readied : Readied,
      readied.lists.listOrder.map (fun entry => (entry.queueType, entry.oldestInst)) =
          [(2, 4), (1, 5), (3, 6)] ∧
        Ordered readied.lists ∧ readied.agreed = true := by
  have replayed :
      (replay Readied.step (fun _ event => event.isPlain = true) {}
        [.ready 1 5, .ready 2 7, .ready 1 3, .ready 3 6,
          .pass State.slowUnits 1 (initial State.slowUnits fun _ => none), .ready 2 4]).any
        (fun readied =>
          readied.lists.listOrder.map (fun entry => (entry.queueType, entry.oldestInst)) ==
            [(2, 4), (1, 5), (3, 6)]) = true := by
    decide
  obtain ⟨readied, reachable, test⟩ := Reachable.exists_of_replay _ _ replayed
  obtain ⟨ordered, agreed, -⟩ := readyLists_ordered reachable
  exact ⟨readied, eq_of_beq test, ordered, agreed⟩

end Sched
end Dolma

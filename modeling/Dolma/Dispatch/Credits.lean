import Dolma.Dispatch.Rename
import Dolma.Library.ListFold
import Dolma.Library.TransitionSystem

/-!
# The credits of rename are exact

An instruction that rename has sent is on its way to dispatch, in the input queue, in the
skid buffer, or it has been reported back. The counts of rename are the instructions that
wait and the reports that rename has not read yet, whatever path the instructions take
out of the stage.
-/

namespace Dolma
namespace Dispatch

open Library

/-- A report is exact about the instructions it tells of. -/
structure IsReport (info : IewInfo) (told : List Inst) : Prop where
  insts : info.dispatched = told.length
  loads : info.dispatchedToLQ = told.countP (·.staticInst.isLoad)
  stores : info.dispatchedToSQ = told.countP (·.staticInst.isStore)

variable {inst : Inst} {tid : Nat}

namespace Thread

/-- What the thread has been given in this cycle or before: reported or waiting. -/
def held (thread : Thread) : List Inst :=
  thread.reported ++ (thread.skidBuffer ++ thread.insts)

/-- The report of the cycle is exact. -/
abbrev Reports (thread : Thread) : Prop :=
  IsReport thread.toRename thread.reported

/-- A part of the stage loses no instruction and reports what it takes out. -/
structure Conserves (before after : Thread) : Prop where
  held : before.held.Perm after.held
  reports : before.Reports → after.Reports

namespace Conserves

variable {first second third : Thread}

theorem refl (thread : Thread) : Conserves thread thread := ⟨.refl _, id⟩

theorem trans (left : Conserves first second) (right : Conserves second third) :
    Conserves first third where
  held := left.held.trans right.held
  reports counted := right.reports (left.reports counted)

theorem of_same
    (held : second.held = first.held) (reported : second.reported = first.reported)
    (insts : second.toRename.dispatched = first.toRename.dispatched)
    (loads : second.toRename.dispatchedToLQ = first.toRename.dispatchedToLQ)
    (stores : second.toRename.dispatchedToSQ = first.toRename.dispatchedToSQ) :
    Conserves first second where
  held := by rw [held]
  reports counted :=
    ⟨by rw [insts, reported, counted.insts], by rw [loads, reported, counted.loads],
      by rw [stores, reported, counted.stores]⟩

end Conserves

variable (thread : Thread)

theorem skidInsert_conserves : Conserves thread thread.skidInsert :=
  .of_same (by simp [held, skidInsert]) rfl rfl rfl rfl

theorem block_conserves : Conserves thread thread.block :=
  .of_same (by simp [held, block, skidInsert]) rfl rfl rfl rfl

theorem blockAgain_conserves : Conserves thread thread.blockAgain :=
  thread.block_conserves.trans (.of_same rfl rfl rfl rfl rfl)

theorem unblock_conserves : Conserves thread thread.unblock := by
  unfold unblock
  split
  · exact .of_same rfl rfl rfl rfl rfl
  · exact .refl _

theorem Reports.release {thread : Thread} (counted : thread.Reports) (inst : Inst) :
    (thread.release inst).Reports := by
  constructor
  case insts => simp [Thread.release, counted.insts]
  case loads => simp [Thread.release, counted.loads, List.countP_cons]
  case stores => simp [Thread.release, counted.stores, List.countP_cons]

/-- A dispatched instruction is reported as a dropped one is. -/
theorem insertInst_reports (inst : Inst) :
    (thread.insertInst inst).Reports ↔ (thread.release inst).Reports := by
  have store : (!inst.staticInst.isLoad && inst.staticInst.isStore) = inst.staticInst.isStore := by
    have single := inst.single
    cases isLoad : inst.staticInst.isLoad with
    | false => rfl
    | true =>
        rw [isLoad, Bool.true_and] at single
        rw [single]
        rfl
  have same : (thread.insertInst inst).toRename = (thread.release inst).toRename := by
    simp only [insertInst, Thread.release, store]
  constructor
  · rintro ⟨insts, loads, stores⟩
    rw [same] at insts loads stores
    exact ⟨insts, loads, stores⟩
  · rintro ⟨insts, loads, stores⟩
    rw [← same] at insts loads stores
    exact ⟨insts, loads, stores⟩

/-- Dropping a list of instructions reports them all. -/
theorem foldl_release_held (dropped : List Inst) :
    (dropped.foldl Thread.release thread).held.Perm (dropped ++ thread.held) ∧
      (thread.Reports → (dropped.foldl Thread.release thread).Reports) := by
  induction dropped generalizing thread with
  | nil => exact ⟨.refl _, id⟩
  | cons inst rest ih =>
      obtain ⟨held, reports⟩ := ih (thread.release inst)
      refine ⟨held.trans ?_, fun counted => reports (counted.release inst)⟩
      have moved : (thread.release inst).held.Perm (inst :: thread.held) := by
        simp only [Thread.held, Thread.release, List.append_assoc, List.singleton_append]
        exact List.perm_middle
      exact (moved.append_left rest).trans List.perm_middle

theorem emptyRenameInsts_conserves : Conserves thread thread.emptyRenameInsts := by
  obtain ⟨held, reports⟩ := foldl_release_held { thread with insts := [] } thread.insts
  refine ⟨List.Perm.symm (held.trans ?_), fun counted => reports ⟨counted.1, counted.2, counted.3⟩⟩
  simp only [Thread.held, List.append_nil]
  rw [← List.append_assoc thread.reported]
  exact List.perm_append_comm

theorem emptySkidBuffer_conserves : Conserves thread thread.emptySkidBuffer := by
  obtain ⟨held, reports⟩ := foldl_release_held { thread with skidBuffer := [] } thread.skidBuffer
  refine ⟨List.Perm.symm (held.trans ?_), fun counted => reports ⟨counted.1, counted.2, counted.3⟩⟩
  simp only [Thread.held, List.nil_append]
  rw [← List.append_assoc, ← List.append_assoc]
  exact (List.perm_append_comm).append_right _

theorem squash_conserves : Conserves thread thread.squash :=
  thread.emptySkidBuffer_conserves.trans (emptyRenameInsts_conserves _)

theorem checkSignalsAndUpdate_conserves (signals : Signals) :
    Conserves thread (thread.checkSignalsAndUpdate signals) := by
  unfold checkSignalsAndUpdate
  dsimp only
  split
  case isTrue => exact thread.squash_conserves.trans (.of_same rfl rfl rfl rfl rfl)
  case isFalse =>
    have emptied : Conserves thread
        (if signals.robSquashing then
          emptyRenameInsts { thread with dispatchStatus := .squashing } else thread) := by
      split
      case isTrue =>
        have marked : Conserves thread { thread with dispatchStatus := .squashing } :=
          .of_same rfl rfl rfl rfl rfl
        exact marked.trans (emptyRenameInsts_conserves _)
      case isFalse => exact .refl _
    refine emptied.trans ?_
    generalize (if signals.robSquashing then _ else _ : Thread) = middle
    split
    case isTrue => exact middle.block_conserves
    case isFalse =>
      split
      case h_1 =>
        have marked : Conserves middle { middle with dispatchStatus := .unblocking } :=
          .of_same rfl rfl rfl rfl rfl
        exact marked.trans (unblock_conserves _)
      case h_2 => exact .of_same rfl rfl rfl rfl rfl
      case h_3 => exact .refl _

variable {fromSkid : Bool} {rest : List Inst}

/-- The first instruction of the queue is dropped. -/
theorem pop_release_conserves
    {thread : Thread} (first : thread.instsToDispatch fromSkid = inst :: rest) :
    Conserves thread ((thread.pop fromSkid).release inst) := by
  have popped : (thread.pop fromSkid).Reports ↔ thread.Reports := by
    cases fromSkid with
    | false => exact ⟨fun ⟨a, b, c⟩ => ⟨a, b, c⟩, fun ⟨a, b, c⟩ => ⟨a, b, c⟩⟩
    | true => exact ⟨fun ⟨a, b, c⟩ => ⟨a, b, c⟩, fun ⟨a, b, c⟩ => ⟨a, b, c⟩⟩
  refine ⟨?_, fun counted => (popped.mpr counted).release inst⟩
  cases fromSkid with
  | true =>
      have skidBuffer : thread.skidBuffer = inst :: rest := first
      simp [Thread.held, Thread.release, pop, skidBuffer]
  | false =>
      have insts : thread.insts = inst :: rest := first
      simp only [Thread.held, Thread.release, pop, insts, List.tail_cons, Bool.false_eq_true,
        if_false, List.append_assoc, List.singleton_append]
      exact List.perm_middle.append_left _

/-- The first instruction of the queue is dispatched. -/
theorem pop_insertInst_conserves
    {thread : Thread} (first : thread.instsToDispatch fromSkid = inst :: rest) :
    Conserves thread ((thread.pop fromSkid).insertInst inst) := by
  have dropped := pop_release_conserves first
  exact ⟨dropped.held, fun counted =>
    (insertInst_reports _ inst).mpr (dropped.reports counted)⟩

/-- The loop over the instructions conserves them. -/
theorem dispatchLoop_conserves
    (signals : Signals) (isSquashed : Inst → Bool) (fromSkid : Bool) (left disNumInst : Nat) :
    Conserves thread (dispatchLoop signals isSquashed fromSkid left disNumInst thread).1 := by
  induction left generalizing disNumInst thread with
  | zero => exact .refl _
  | succ left ih =>
      rw [dispatchLoop]
      cases first : thread.instsToDispatch fromSkid with
      | nil => exact .refl _
      | cons inst rest =>
          dsimp only
          split
          case isTrue => exact (pop_release_conserves first).trans (ih _ _)
          case isFalse =>
            split
            case isTrue => exact thread.blockAgain_conserves
            case isFalse =>
              split
              case isTrue => exact thread.blockAgain_conserves
              case isFalse =>
                exact (pop_insertInst_conserves first).trans (ih _ _)

theorem dispatchInsts_conserves
    (dispatchWidth : Nat) (signals : Signals) (isSquashed : Inst → Bool) :
    Conserves thread (thread.dispatchInsts dispatchWidth signals isSquashed) := by
  unfold dispatchInsts
  dsimp only
  generalize looping : dispatchLoop signals isSquashed _ _ _ _ = looped
  have loop : Conserves thread looped.1 := by
    rw [← looping]
    exact dispatchLoop_conserves thread signals isSquashed _ _ _
  have full : Conserves looped.1
      (if (looped.1.instsToDispatch (thread.dispatchStatus == .unblocking)).isEmpty then looped.1
        else looped.1.blockAgain) := by
    split
    case isTrue => exact .refl _
    case isFalse => exact looped.1.blockAgain_conserves
  refine (loop.trans full).trans ?_
  generalize (if (looped.1.instsToDispatch _).isEmpty then _ else _ : Thread) = filled
  split
  case isTrue => exact .of_same rfl rfl rfl rfl rfl
  case isFalse => exact .refl _

theorem dispatch_conserves
    (dispatchWidth : Nat) (signals : Signals) (isSquashed : Inst → Bool) (valid : Bool) :
    Conserves thread (thread.dispatch dispatchWidth signals isSquashed valid) := by
  have dispatched := thread.dispatchInsts_conserves dispatchWidth signals isSquashed
  unfold dispatch
  split
  case h_1 | h_2 => exact dispatched
  case h_3 =>
    refine dispatched.trans (Conserves.trans ?_ (unblock_conserves _))
    split
    case isTrue => exact skidInsert_conserves _
    case isFalse => exact .refl _
  case h_4 | h_5 => exact .refl _

end Thread

/-- A cycle of a thread: what waited and what arrives is reported or waits, and the report
is exact. -/
theorem tickThread_conserves (dispatchWidth : Nat) (cycle : Cycle) (tid : Nat) (thread : Thread) :
    (thread.skidBuffer ++ thread.insts ++ ofThread tid cycle.fromRename).Perm
        (tickThread dispatchWidth cycle tid thread).held ∧
      (tickThread dispatchWidth cycle tid thread).Reports := by
  have start : (thread.receive (ofThread tid cycle.fromRename)).Reports := ⟨rfl, rfl, rfl⟩
  have held : (thread.receive (ofThread tid cycle.fromRename)).held =
      thread.skidBuffer ++ thread.insts ++ ofThread tid cycle.fromRename := by
    simp [Thread.held, Thread.receive]
  rw [← held]
  unfold tickThread
  dsimp only
  split
  case isFalse => exact ⟨.refl _, start⟩
  case isTrue =>
    have conserves := (Thread.checkSignalsAndUpdate_conserves
      (thread.receive (ofThread tid cycle.fromRename)) (cycle.signals tid)).trans
      (Thread.dispatch_conserves _ dispatchWidth (cycle.signals tid) cycle.isSquashed
        (validInstsFromRename cycle))
    exact ⟨conserves.held, conserves.reports start⟩

section Rename

/-- The counts are those at the start and what has been sent since. -/
structure Counted (start : Nat → InProgress) (sending : Sending) (tid : Nat) : Prop where
  insts : (sending.inProgress tid).insts = (start tid).insts + (ofThread tid sending.toIEW).length
  loads : (sending.inProgress tid).loads =
    (start tid).loads + (ofThread tid sending.toIEW).countP (·.staticInst.isLoad)
  stores : (sending.inProgress tid).stores =
    (start tid).stores + (ofThread tid sending.toIEW).countP (·.staticInst.isStore)

@[simp] theorem ofThread_append (tid : Nat) (first second : List Inst) :
    ofThread tid (first ++ second) = ofThread tid first ++ ofThread tid second :=
  List.filter_append first second

theorem threadNumber_of_mem {tid : Nat} {insts : List Inst} {inst : Inst}
    (inside : inst ∈ ofThread tid insts) : inst.threadNumber = tid := by
  simpa using (List.mem_filter.mp inside).2

variable {start : Nat → InProgress} {sending : Sending}

/-- An instruction is counted for its own thread. -/
theorem Counted.send
    {own : Nat} (counted : Counted start sending tid) (isOwn : inst.threadNumber = own) :
    Counted start (sending.send own inst) tid := by
  obtain ⟨insts, loads, stores⟩ := counted
  by_cases same : own = tid
  case neg =>
    have absent : ofThread tid [inst] = [] := by simp [ofThread, isOwn, same]
    have kept : (sending.send own inst).inProgress tid = sending.inProgress tid :=
      Function.update_of_ne (Ne.symm same) _ _
    constructor <;> rw [kept, Sending.send, ofThread_append, absent, List.append_nil]
    · exact insts
    · exact loads
    · exact stores
  case pos =>
    subst same
    have present : ofThread own [inst] = [inst] := by simp [ofThread, isOwn]
    have added : (sending.send own inst).inProgress own = (sending.inProgress own).add inst :=
      Function.update_self _ _ _
    constructor <;> rw [added, Sending.send, ofThread_append, present]
    · simp [InProgress.add, insts, Int.add_assoc]
    · cases isLoad : inst.staticInst.isLoad <;>
        simp [InProgress.add, isLoad, loads, Int.add_assoc]
    · cases isStore : inst.staticInst.isStore <;>
        simp [InProgress.add, isStore, stores, Int.add_assoc]

/-- The loop over the instructions keeps the counts. -/
theorem Counted.renameLoop
    (renameWidth own : Nat) (verdict : Verdict) (free : FreeEntries) (fromIEW : IewInfo)
    (instsAvailable : Nat) {instsToRename : List Inst}
    (isOwn : ∀ inst ∈ instsToRename, inst.threadNumber = own)
    (counted : Counted start sending tid) :
    Counted start
      (renameLoop renameWidth own verdict free fromIEW instsAvailable instsToRename sending)
      tid := by
  induction instsToRename generalizing instsAvailable sending with
  | nil => cases instsAvailable <;> exact counted
  | cons inst rest ih =>
      cases instsAvailable with
      | zero => exact counted
      | succ instsAvailable =>
          have others : ∀ other ∈ rest, other.threadNumber = own := fun other inside =>
            isOwn other (List.mem_cons_of_mem _ inside)
          rw [Dispatch.renameLoop]
          dsimp only
          split
          case isFalse => exact counted
          case isTrue =>
            split
            case isTrue => exact counted
            case isFalse =>
              split
              case isTrue => exact ih _ others counted
              case isFalse =>
                split
                case isTrue => exact counted
                case isFalse =>
                  exact ih _ others
                    (counted.send (isOwn inst List.mem_cons_self))

theorem renameTick_counted (params : Params) (link : Link) (turn : Turn) (tid : Nat) :
    Counted link.inProgress (link.renameTick params turn) tid := by
  unfold Link.renameTick
  refine List.foldlRecOn (motive := fun sending => Counted link.inProgress sending tid) _ _
    ⟨by simp [ofThread], by simp [ofThread], by simp [ofThread]⟩ ?_
  intro sending counted own _
  unfold renameInsts
  dsimp only
  split
  case isTrue => exact counted
  case isFalse =>
    exact counted.renameLoop _ _ _ _ _ _ fun inst inside => threadNumber_of_mem inside

end Rename

namespace Link

variable (params : Params) (link : Link) (tid : Nat)

/-- The instructions on their way from rename to dispatch. -/
def onTheWay : List Inst :=
  ofThread tid (DelayLine.unread params.renameToIEWDelay link.now link.renameQueue).flatten

/-- The instructions that rename has sent and that have not been reported. -/
def waiting : List Inst :=
  (link.threads tid).skidBuffer ++ (link.threads tid).insts ++ link.onTheWay params tid

/-- The instructions of the reports that rename has not read. -/
def unreadReports : List Inst :=
  ((DelayLine.unread params.iewToRenameDelay link.now link.reported).map (· tid)).flatten

/-- The instructions of the report that rename reads in this cycle. -/
def readReport : List Inst :=
  ((DelayLine.read params.iewToRenameDelay link.now link.reported).map (· tid)).getD []

/-- All instructions of a thread that rename has sent. -/
def renamed : List Inst :=
  ofThread tid ((List.range link.now).map link.renameQueue).flatten

/-- All instructions of a thread that have been reported. -/
def credited : List Inst :=
  ((List.range link.now).map fun cycle => link.reported cycle tid).flatten

theorem flatten_toList (entry : Option (List Inst)) : entry.toList.flatten = entry.getD [] := by
  cases entry <;> simp

/-- A cycle moves instructions along: what waited and what is sent is reported or waits. -/
theorem waiting_step (turn : Turn) :
    (link.waiting params tid ++ ofThread tid (link.renameTick params turn).toIEW).Perm
      (((link.step params turn).threads tid).reported ++
        (link.step params turn).waiting params tid) := by
  -- The instructions that arrive are the oldest on their way.
  have line := congrArg List.flatten (DelayLine.read_append_unread params.renameToIEWDelay
    link.now link.renameQueue (link.renameTick params turn).toIEW)
  rw [List.flatten_append, List.flatten_append, flatten_toList, List.flatten_singleton] at line
  have arrives : ofThread tid
        ((DelayLine.read params.renameToIEWDelay link.now (link.sent params turn)).getD []) ++
      (link.step params turn).onTheWay params tid =
      link.onTheWay params tid ++ ofThread tid (link.renameTick params turn).toIEW := by
    rw [onTheWay, onTheWay, ← ofThread_append, ← ofThread_append, ← line]
    rfl
  obtain ⟨held, -⟩ := tickThread_conserves params.dispatchWidth
    { fromRename :=
        (DelayLine.read params.renameToIEWDelay link.now (link.sent params turn)).getD []
      activeThreads := turn.activeThreads
      signals := turn.signals
      isSquashed := turn.isSquashed } tid (link.threads tid)
  have moved := held.append_right ((link.step params turn).onTheWay params tid)
  rw [List.append_assoc, arrives] at moved
  simp only [waiting, List.append_assoc]
  simp only [Thread.held, List.append_assoc] at moved
  exact moved

theorem readReport_append (turn : Turn) :
    link.readReport params tid ++ (link.step params turn).unreadReports params tid =
      link.unreadReports params tid ++ ((link.step params turn).threads tid).reported := by
  have line := congrArg (fun entries => (entries.map (· tid)).flatten)
    (DelayLine.read_append_unread params.iewToRenameDelay link.now link.reported
      fun tid => ((link.step params turn).threads tid).reported)
  rw [DelayLine.read_update_of_pos params.backwards] at line
  simp only [List.map_append, List.flatten_append, List.map_singleton, List.flatten_singleton]
    at line
  have first : ((DelayLine.read params.iewToRenameDelay link.now link.reported).toList.map
      (· tid)).flatten = link.readReport params tid := by
    rw [readReport, ← flatten_toList]
    cases DelayLine.read params.iewToRenameDelay link.now link.reported <;> rfl
  rw [first] at line
  exact line

/-- A cycle keeps the balance of every kind of instruction. -/
theorem countP_step (kind : Inst → Bool) (turn : Turn) :
    (link.readReport params tid).countP kind +
        (((link.step params turn).waiting params tid).countP kind +
          ((link.step params turn).unreadReports params tid).countP kind) =
      (link.waiting params tid).countP kind + (link.unreadReports params tid).countP kind +
        (ofThread tid (link.renameTick params turn).toIEW).countP kind := by
  have moved := (link.waiting_step params tid turn).countP_eq kind
  have read := congrArg (List.countP kind) (link.readReport_append params tid turn)
  rw [List.countP_append, List.countP_append] at moved read
  omega

/-- The counts of rename are the instructions that wait and those of the reports that
rename has not read. -/
structure Balanced : Prop where
  reports : ∀ cycle, IsReport (link.timeBuffer cycle tid) (link.reported cycle tid)
  insts : (link.inProgress tid).insts =
    (link.waiting params tid).length + (link.unreadReports params tid).length
  loads : (link.inProgress tid).loads =
    (link.waiting params tid).countP (·.staticInst.isLoad) +
      (link.unreadReports params tid).countP (·.staticInst.isLoad)
  stores : (link.inProgress tid).stores =
    (link.waiting params tid).countP (·.staticInst.isStore) +
      (link.unreadReports params tid).countP (·.staticInst.isStore)
  once : (link.renamed tid).Perm (link.credited tid ++ link.waiting params tid)

/-- The instructions sent and reported in a cycle join the others. -/
theorem renamed_step (turn : Turn) :
    (link.step params turn).renamed tid =
        link.renamed tid ++ ofThread tid (link.renameTick params turn).toIEW ∧
      (link.step params turn).credited tid =
        link.credited tid ++ ((link.step params turn).threads tid).reported := by
  have earlier : ∀ {α : Type} (entries : Nat → α) (sent : α),
      (List.range (link.now + 1)).map (Function.update entries link.now sent) =
        (List.range link.now).map entries ++ [sent] := by
    intro α entries sent
    rw [List.range_succ, List.map_append, List.map_singleton, Function.update_self]
    congr 1
    apply List.map_congr_left
    intro cycle inside
    exact Function.update_of_ne (Nat.ne_of_lt (List.mem_range.mp inside)) _ _
  constructor
  · have sent := earlier link.renameQueue (link.renameTick params turn).toIEW
    have joined := congrArg List.flatten sent
    rw [List.flatten_append, List.flatten_singleton] at joined
    rw [renamed, renamed, ← ofThread_append, ← joined]
    rfl
  · have reported := congrArg (List.map (· tid)) (earlier link.reported
      fun tid => ((link.step params turn).threads tid).reported)
    rw [List.map_append, List.map_map, List.map_map] at reported
    have joined := congrArg List.flatten reported
    rw [List.flatten_append, List.map_singleton, List.flatten_singleton] at joined
    exact joined

variable {params link tid}

/-- The counts are exact before the first cycle. -/
theorem Balanced.start (params : Params) (tid : Nat) : Balanced params {} tid := by
  refine ⟨fun _ => ⟨rfl, rfl, rfl⟩, ?_, ?_, ?_, ?_⟩ <;>
    simp [waiting, onTheWay, unreadReports, Link.renamed, Link.credited, DelayLine.unread,
      DelayLine.unreadCycles, ofThread]

theorem Balanced.fromIEW (balanced : Balanced params link tid) :
    IsReport (link.fromIEW params tid) (link.readReport params tid) := by
  unfold Link.fromIEW readReport DelayLine.read
  split
  case isTrue => exact balanced.reports _
  case isFalse => exact ⟨rfl, rfl, rfl⟩

theorem Balanced.step (balanced : Balanced params link tid) (turn : Turn) :
    Balanced params (link.step params turn) tid := by
  have counted := renameTick_counted params link turn tid
  have read := balanced.fromIEW
  constructor
  case reports =>
    intro cycle
    by_cases present : cycle = link.now
    case neg =>
      have timeBuffer : (link.step params turn).timeBuffer cycle = link.timeBuffer cycle :=
        Function.update_of_ne present _ _
      have reported : (link.step params turn).reported cycle = link.reported cycle :=
        Function.update_of_ne present _ _
      rw [timeBuffer, reported]
      exact balanced.reports cycle
    case pos =>
      subst present
      have timeBuffer : (link.step params turn).timeBuffer link.now =
          fun tid => ((link.step params turn).threads tid).toRename := Function.update_self _ _ _
      have reported : (link.step params turn).reported link.now =
          fun tid => ((link.step params turn).threads tid).reported := Function.update_self _ _ _
      rw [timeBuffer, reported]
      obtain ⟨-, insts, loads, stores⟩ := tickThread_conserves params.dispatchWidth
        { fromRename :=
            (DelayLine.read params.renameToIEWDelay link.now (link.sent params turn)).getD []
          activeThreads := turn.activeThreads
          signals := turn.signals
          isSquashed := turn.isSquashed } tid (link.threads tid)
      exact ⟨insts, loads, stores⟩
  case insts =>
    have moved := link.countP_step params tid (fun _ => true) turn
    simp only [List.countP_true] at moved
    change ((link.renameTick params turn).inProgress tid).insts -
      (link.fromIEW params tid).dispatched = _
    rw [counted.insts, balanced.insts, read.insts]
    omega
  case loads =>
    have moved := link.countP_step params tid (·.staticInst.isLoad) turn
    change ((link.renameTick params turn).inProgress tid).loads -
      (link.fromIEW params tid).dispatchedToLQ = _
    rw [counted.loads, balanced.loads, read.loads]
    omega
  case stores =>
    have moved := link.countP_step params tid (·.staticInst.isStore) turn
    change ((link.renameTick params turn).inProgress tid).stores -
      (link.fromIEW params tid).dispatchedToSQ = _
    rw [counted.stores, balanced.stores, read.stores]
    omega
  case once =>
    obtain ⟨renamed, credited⟩ := link.renamed_step params tid turn
    rw [renamed, credited, List.append_assoc]
    have moved := (link.waiting_step params tid turn).append_left (link.credited tid)
    rw [← List.append_assoc] at moved
    exact (balanced.once.append_right _).trans moved

end Link

/-- The removals of a kind that dispatch has signalled and that rename has not read. -/
def unreadSignals (params : Params) (link : Link) (tid : Nat) (kind : IewInfo → Nat) : Nat :=
  ((DelayLine.unread params.iewToRenameDelay link.now link.timeBuffer).map
    fun told => kind (told tid)).sum

/-- The counts of rename are exact. -/
structure ExactCredits (params : Params) (link : Link) (tid : Nat) : Prop where
  insts : (link.inProgress tid).insts =
    (link.onTheWay params tid).length + (link.threads tid).insts.length +
      (link.threads tid).skidBuffer.length + unreadSignals params link tid (·.dispatched)
  loads : (link.inProgress tid).loads =
    (link.onTheWay params tid).countP (·.staticInst.isLoad) +
      (link.threads tid).insts.countP (·.staticInst.isLoad) +
      (link.threads tid).skidBuffer.countP (·.staticInst.isLoad) +
      unreadSignals params link tid (·.dispatchedToLQ)
  stores : (link.inProgress tid).stores =
    (link.onTheWay params tid).countP (·.staticInst.isStore) +
      (link.threads tid).insts.countP (·.staticInst.isStore) +
      (link.threads tid).skidBuffer.countP (·.staticInst.isStore) +
      unreadSignals params link tid (·.dispatchedToSQ)
  once : (link.renamed tid).Perm
    (link.credited tid ++ ((link.threads tid).skidBuffer ++ (link.threads tid).insts ++
      link.onTheWay params tid))
  nonneg : 0 ≤ (link.inProgress tid).insts ∧ 0 ≤ (link.inProgress tid).loads ∧
    0 ≤ (link.inProgress tid).stores

/-- Unread signals count unread reports. -/
theorem unreadSignals_eq
    {params : Params} {link : Link} {kind : IewInfo → Nat} {count : List Inst → Nat}
    (nil : count [] = 0)
    (append : ∀ first second, count (first ++ second) = count first + count second)
    (reports : ∀ cycle, kind (link.timeBuffer cycle tid) = count (link.reported cycle tid)) :
    unreadSignals params link tid kind = count (link.unreadReports params tid) := by
  unfold unreadSignals Link.unreadReports DelayLine.unread
  rw [List.map_map, List.map_map]
  induction DelayLine.unreadCycles params.iewToRenameDelay link.now with
  | nil => simp [nil]
  | cons cycle rest ih =>
      simp only [List.map_cons, List.sum_cons, List.flatten_cons, append, Function.comp_apply,
        reports, ih]

/-- After any sequence of cycles, with any widths and delays, the counts of rename are
exact for every thread. -/
theorem credits_exact (params : Params) (turns : List Turn) (tid : Nat) :
    ExactCredits params (Link.run params turns) tid := by
  have balanced : Link.Balanced params (Link.run params turns) tid :=
    List.foldlRecOn (motive := fun link => Link.Balanced params link tid) turns _
      (.start params tid) fun link balanced turn _ => balanced.step turn
  generalize Link.run params turns = link at balanced ⊢
  have dispatched : unreadSignals params link tid (·.dispatched) =
      (link.unreadReports params tid).length :=
    unreadSignals_eq List.length_nil (fun _ _ => List.length_append)
      fun cycle => (balanced.reports cycle).insts
  have toLQ : unreadSignals params link tid (·.dispatchedToLQ) =
      (link.unreadReports params tid).countP (·.staticInst.isLoad) :=
    unreadSignals_eq List.countP_nil (fun _ _ => List.countP_append)
      fun cycle => (balanced.reports cycle).loads
  have toSQ : unreadSignals params link tid (·.dispatchedToSQ) =
      (link.unreadReports params tid).countP (·.staticInst.isStore) :=
    unreadSignals_eq List.countP_nil (fun _ _ => List.countP_append)
      fun cycle => (balanced.reports cycle).stores
  constructor
  case insts =>
    rw [balanced.insts, dispatched, Link.waiting, List.length_append, List.length_append]
    omega
  case loads =>
    rw [balanced.loads, toLQ, Link.waiting, List.countP_append, List.countP_append]
    omega
  case stores =>
    rw [balanced.stores, toSQ, Link.waiting, List.countP_append, List.countP_append]
    omega
  case once => exact balanced.once
  case nonneg =>
    rw [balanced.insts, balanced.loads, balanced.stores]
    omega

end Dispatch
end Dolma

import Dolma.Dispatch.Credits
import Mathlib.Algebra.Order.BigOperators.Group.Finset

/-!
# The reorder buffer of a single thread does not overflow

Commit takes the instructions of rename into the reorder buffer without a look at the
room in it. Rename sends no more than the free entries of the last report, less the
instructions in progress. The report is older than the instructions it does not know of,
and as long as the way over dispatch is not shorter than the way over the reorder buffer,
all of these are still in progress.
-/

namespace Dolma
namespace Dispatch

open Library

/-- The parameters with commit. -/
structure RobParams extends Params where
  numEntries : Nat
  renameToROBDelay : Nat
  commitToRenameDelay : Nat
  reportsBackwards : 0 < commitToRenameDelay

/-- What commit does in a cycle. -/
structure CommitTurn where
  squashing : Bool
  accepts : Inst → Bool
  retired : Nat
  /-- Commit reports the free entries although their number has not changed. -/
  announces : Bool

/-- The reorder buffer in a cycle. -/
structure RobCount where
  numInstsInROB : Nat
  changedROBNumEntries : Bool
  failed : Bool
deriving DecidableEq, Repr

/-- Insert an instruction. -/
def RobCount.insertInst (numEntries : Nat) (rob : RobCount) : RobCount where
  numInstsInROB := rob.numInstsInROB + 1
  changedROBNumEntries := true
  failed := rob.failed || rob.numInstsInROB == numEntries

/-- Take an instruction of rename. -/
def RobCount.getInst
    (numEntries : Nat) (accepts : Inst → Bool) (rob : RobCount) (inst : Inst) : RobCount :=
  if accepts inst then rob.insertInst numEntries else rob

/-- Take the instructions of rename. -/
def RobCount.getInsts
    (numEntries renameWidth : Nat) (accepts : Inst → Bool) (fromRename : List Inst)
    (rob : RobCount) : RobCount :=
  (fromRename.take renameWidth).foldl (getInst numEntries accepts) rob

/-- Retire instructions. -/
def RobCount.retire (retired : Nat) (rob : RobCount) : RobCount where
  numInstsInROB := rob.numInstsInROB - retired
  changedROBNumEntries := rob.changedROBNumEntries || retired != 0
  failed := rob.failed

/-- The state of rename, dispatch and commit between cycles. -/
structure Backend where
  link : Link := {}
  robEntries : Int
  numInstsInROB : Nat := 0
  /-- The free entries that commit has reported in each cycle. -/
  freeROBEntries : Nat → Option Int := fun _ => none
  failed : Bool := false
  /-- The number of instructions after a number of cycles. No function reads it. -/
  occupancy : Nat → Nat := fun _ => 0

namespace Backend

variable (params : RobParams) (backend : Backend) (turn : Turn) (commitTurn : CommitTurn)

/-- What rename knows after it has read the report of commit. -/
def readFreeEntries : Int :=
  match DelayLine.read params.commitToRenameDelay backend.link.now backend.freeROBEntries with
  | some (some free) => free
  | _ => backend.robEntries

/-- The cycle of rename and dispatch, for the one thread and with the report of commit. -/
def ownTurn : Turn :=
  { turn with
    activeThreads := [0]
    freeEntries := fun tid =>
      { turn.freeEntries tid with robEntries := backend.readFreeEntries params } }

/-- Rename and dispatch after the cycle. -/
def nextLink : Link :=
  backend.link.step params.toParams (backend.ownTurn params turn)

/-- The work of commit. -/
def commit : RobCount :=
  let start : RobCount := ⟨backend.numInstsInROB, false, backend.failed⟩
  if commitTurn.squashing then start
  else
    (start.getInsts params.numEntries params.renameWidth commitTurn.accepts
      ((DelayLine.read params.renameToROBDelay backend.link.now
        (backend.nextLink params turn).renameQueue).getD [])).retire commitTurn.retired

/-- One cycle. -/
def step : Backend :=
  let rob := backend.commit params turn commitTurn
  { link := backend.nextLink params turn
    robEntries := backend.readFreeEntries params
    numInstsInROB := rob.numInstsInROB
    freeROBEntries := Function.update backend.freeROBEntries backend.link.now
      (if rob.changedROBNumEntries || commitTurn.announces then
        some ((params.numEntries : Int) - rob.numInstsInROB)
      else none)
    failed := rob.failed
    occupancy := Function.update backend.occupancy (backend.link.now + 1) rob.numInstsInROB }

/-- The state after a sequence of cycles. -/
def run (turns : List (Turn × CommitTurn)) : Backend :=
  turns.foldl (fun backend turn => backend.step params turn.1 turn.2)
    { robEntries := params.numEntries }

end Backend

section Rename

/-- The loop sends no more than the instructions available. -/
theorem length_renameLoop_le
    (renameWidth tid : Nat) (verdict : Verdict) (free : FreeEntries) (fromIEW : IewInfo)
    (instsAvailable : Nat) (instsToRename : List Inst) (sending : Sending) :
    (renameLoop renameWidth tid verdict free fromIEW instsAvailable instsToRename
      sending).toIEW.length ≤ sending.toIEW.length + instsAvailable := by
  induction instsToRename generalizing instsAvailable sending with
  | nil => cases instsAvailable <;> exact Nat.le_add_right _ _
  | cons inst rest ih =>
      cases instsAvailable with
      | zero => exact Nat.le_add_right _ _
      | succ instsAvailable =>
          have skipped := ih instsAvailable sending
          have sent := ih instsAvailable (sending.send tid inst)
          have length : (sending.send tid inst).toIEW.length = sending.toIEW.length + 1 := by
            simp [Sending.send]
          rw [renameLoop]
          dsimp only
          repeat' split
          all_goals omega

variable {renameWidth tid : Nat} {verdict : Verdict} {free : FreeEntries} {fromIEW : IewInfo}
  {instsToRename : List Inst} {sending : Sending} {inst : Inst}

theorem mem_renameLoop
    {instsAvailable : Nat}
    (inside : inst ∈ (renameLoop renameWidth tid verdict free fromIEW instsAvailable
      instsToRename sending).toIEW) :
    inst ∈ sending.toIEW ∨ inst ∈ instsToRename := by
  induction instsToRename generalizing instsAvailable sending with
  | nil =>
      left
      cases instsAvailable <;> exact inside
  | cons first rest ih =>
      cases instsAvailable with
      | zero => exact .inl inside
      | succ instsAvailable =>
          rw [renameLoop] at inside
          dsimp only at inside
          split at inside
          case isFalse => exact .inl inside
          case isTrue =>
            split at inside
            case isTrue => exact .inl inside
            case isFalse =>
              split at inside
              case isTrue =>
                exact (ih inside).imp_right (List.mem_cons_of_mem _)
              case isFalse =>
                split at inside
                case isTrue => exact .inl inside
                case isFalse =>
                  rcases ih inside with sent | later
                  · rw [Sending.send, List.mem_append, List.mem_singleton] at sent
                    rcases sent with sent | rfl
                    · exact .inl sent
                    · exact .inr List.mem_cons_self
                  · exact .inr (List.mem_cons_of_mem _ later)

/-- Rename sends no more than the free entries of the reorder buffer that it computes. -/
theorem length_renameInsts_le
    (renameWidth tid : Nat) (verdict : Verdict) (free : FreeEntries) (fromIEW : IewInfo)
    (instsToRename : List Inst) (sending : Sending) :
    (renameInsts renameWidth tid verdict free fromIEW instsToRename sending).toIEW.length ≤
      sending.toIEW.length + (calcFreeROBEntries free (sending.inProgress tid) fromIEW).toNat := by
  unfold renameInsts
  dsimp only
  split
  case isTrue => exact Nat.le_add_right _ _
  case isFalse =>
    refine Nat.le_trans (length_renameLoop_le _ _ _ _ _ _ _ _) (Nat.add_le_add_left ?_ _)
    omega

theorem mem_renameInsts
    (inside : inst ∈
      (renameInsts renameWidth tid verdict free fromIEW instsToRename sending).toIEW) :
    inst ∈ sending.toIEW ∨ inst ∈ instsToRename := by
  unfold renameInsts at inside
  dsimp only at inside
  split at inside
  case isTrue => exact .inl inside
  case isFalse => exact mem_renameLoop inside

variable (params : RobParams) (backend : Backend) (turn : Turn)

/-- What the thread sends in a cycle. -/
def Backend.sent : List Inst :=
  (backend.link.renameTick params.toParams (backend.ownTurn params turn)).toIEW

/-- The thread sends no more than the free entries. -/
theorem length_sent_le :
    (backend.sent params turn).length ≤
      (backend.readFreeEntries params - ((backend.link.inProgress 0).insts -
        (backend.link.fromIEW params.toParams 0).dispatched)).toNat := by
  have bound := length_renameInsts_le params.renameWidth 0 turn.verdict
    ((backend.ownTurn params turn).freeEntries 0) (backend.link.fromIEW params.toParams 0)
    (ofThread 0 turn.instsToRename) { toIEW := [], inProgress := backend.link.inProgress }
  rw [List.length_nil, Nat.zero_add] at bound
  exact bound

/-- All that is sent belongs to the thread. -/
theorem ofThread_sent : ofThread 0 (backend.sent params turn) = backend.sent params turn := by
  rw [ofThread, List.filter_eq_self]
  intro inst inside
  rcases mem_renameInsts inside with early | own
  · cases early
  · simpa using threadNumber_of_mem own

end Rename

/-- Instructions are added to the reorder buffer without a failure. -/
structure Takes (added : Nat) (before after : RobCount) : Prop where
  count : after.numInstsInROB ≤ before.numInstsInROB + added
  failed : after.failed = before.failed
  changed : after.changedROBNumEntries = false →
    before.changedROBNumEntries = false ∧ after.numInstsInROB = before.numInstsInROB

variable {numEntries : Nat} {rob : RobCount}

/-- Where there is room, taking instructions does not fail. -/
theorem foldl_getInst_takes
    (accepts : Inst → Bool) {insts : List Inst}
    (room : insts = [] ∨ rob.numInstsInROB + insts.length ≤ numEntries) :
    Takes insts.length rob (insts.foldl (RobCount.getInst numEntries accepts) rob) := by
  induction insts generalizing rob with
  | nil => exact ⟨Nat.le_refl _, rfl, fun unchanged => ⟨unchanged, rfl⟩⟩
  | cons inst rest ih =>
      have room : rob.numInstsInROB + (rest.length + 1) ≤ numEntries :=
        room.resolve_left (List.cons_ne_nil _ _)
      rw [List.foldl_cons, List.length_cons, RobCount.getInst]
      split
      case isFalse =>
        obtain ⟨count, failed, changed⟩ := @ih rob (.inr (by omega))
        exact ⟨by omega, failed, changed⟩
      case isTrue =>
        have inserted : (rob.insertInst numEntries).numInstsInROB = rob.numInstsInROB + 1 := rfl
        obtain ⟨count, failed, changed⟩ :=
          @ih (rob.insertInst numEntries) (.inr (by omega))
        refine ⟨by omega, ?_, fun unchanged => ?_⟩
        · have notFull : (rob.numInstsInROB == numEntries) = false := by
            rw [beq_eq_false_iff_ne]
            omega
          rw [failed, RobCount.insertInst, notFull, Bool.or_false]
        · cases (changed unchanged).1

/-- Where there is room for the instructions of rename, taking them does not fail. -/
theorem getInsts_takes
    (renameWidth : Nat) (accepts : Inst → Bool) {fromRename : List Inst}
    (room : fromRename = [] ∨ rob.numInstsInROB + fromRename.length ≤ numEntries) :
    Takes fromRename.length rob (rob.getInsts numEntries renameWidth accepts fromRename) := by
  have shorter : (fromRename.take renameWidth).length ≤ fromRename.length :=
    List.length_take_le' _ _
  have fits : fromRename.take renameWidth = [] ∨
      rob.numInstsInROB + (fromRename.take renameWidth).length ≤ numEntries := by
    rcases room with rfl | room
    · exact .inl List.take_nil
    · exact .inr (by omega)
  obtain ⟨count, failed, changed⟩ := foldl_getInst_takes accepts fits
  exact ⟨Nat.le_trans count (by omega), failed, changed⟩

namespace Link

variable {params : Params} {link : Link}

/-- The number of instructions sent in the first cycles. -/
def sentBefore (link : Link) (cycles : Nat) : Nat :=
  ∑ cycle ∈ Finset.range cycles, (link.renameQueue cycle).length

/-- The number of instructions of the thread reported in the first cycles. -/
def reportedBefore (link : Link) (cycles : Nat) : Nat :=
  ∑ cycle ∈ Finset.range cycles, (link.reported cycle 0).length

/-- Every instruction belongs to the one thread. -/
def Single (link : Link) : Prop :=
  ∀ cycle, ∀ inst ∈ link.renameQueue cycle, inst.threadNumber = 0

theorem Single.ofThread_flatten (single : Single link) (cycles : List Nat) :
    ofThread 0 (cycles.map link.renameQueue).flatten = (cycles.map link.renameQueue).flatten := by
  rw [ofThread, List.filter_eq_self]
  intro inst inside
  obtain ⟨entry, member, inside⟩ := List.mem_flatten.mp inside
  obtain ⟨cycle, -, rfl⟩ := List.mem_map.mp member
  simpa using single cycle inst inside

theorem sentBefore_mono {first second : Nat} (earlier : first ≤ second) :
    link.sentBefore first ≤ link.sentBefore second :=
  Finset.sum_le_sum_of_subset (Finset.range_mono earlier)

/-- What is reported was sent early enough to arrive. -/
theorem Balanced.reportedBefore_le (balanced : Balanced params link 0) (single : Single link) :
    link.reportedBefore link.now + (link.waiting params 0).length = link.sentBefore link.now ∧
      link.reportedBefore link.now ≤ link.sentBefore (link.now - params.renameToIEWDelay) := by
  have total := balanced.once.length_eq
  rw [renamed, single.ofThread_flatten, List.length_flatten, List.map_map, List.length_append,
    credited, List.length_flatten, List.map_map] at total
  have arrived := DelayLine.sum_unread params.renameToIEWDelay link.now
    fun cycle => (link.renameQueue cycle).length
  have onTheWay : (link.onTheWay params 0).length =
      (DelayLine.unread params.renameToIEWDelay link.now
        fun cycle => (link.renameQueue cycle).length).sum := by
    rw [Link.onTheWay, DelayLine.unread, single.ofThread_flatten, List.length_flatten, List.map_map]
    rfl
  have sent : ((List.range link.now).map (List.length ∘ link.renameQueue)).sum =
      link.sentBefore link.now := rfl
  have reported : ((List.range link.now).map
      (List.length ∘ fun cycle => link.reported cycle 0)).sum = link.reportedBefore link.now := rfl
  rw [sent, reported] at total
  refine ⟨total.symm, ?_⟩
  have waits : (link.onTheWay params 0).length ≤ (link.waiting params 0).length := by
    rw [waiting, List.length_append]
    exact Nat.le_add_left _ _
  change link.sentBefore _ + _ = link.sentBefore _ at arrived
  omega

/-- The instructions in progress, less the report of the cycle, are those that have been
sent and whose report has not been read. -/
theorem Balanced.inProgress_eq (balanced : Balanced params link 0) (single : Single link) :
    (link.inProgress 0).insts - (link.fromIEW params 0).dispatched =
      (link.sentBefore link.now : Int) -
        link.reportedBefore (link.now + 1 - params.iewToRenameDelay) := by
  have total := (balanced.reportedBefore_le single).1
  have unread := DelayLine.sum_unread params.iewToRenameDelay link.now
    fun cycle => (link.reported cycle 0).length
  have read := DelayLine.sum_read params.iewToRenameDelay link.now
    fun cycle => (link.reported cycle 0).length
  have unreadLength : (link.unreadReports params 0).length =
      (DelayLine.unread params.iewToRenameDelay link.now
        fun cycle => (link.reported cycle 0).length).sum := by
    rw [unreadReports, DelayLine.unread, List.length_flatten, List.map_map, List.map_map]
    rfl
  have readLength : (link.readReport params 0).length =
      (DelayLine.read params.iewToRenameDelay link.now
        fun cycle => (link.reported cycle 0).length).getD 0 := by
    unfold readReport DelayLine.read
    split <;> rfl
  change link.reportedBefore _ + _ = link.reportedBefore _ at unread
  change link.reportedBefore _ + _ = link.reportedBefore _ at read
  rw [balanced.insts, balanced.fromIEW.insts, unreadLength, readLength]
  omega

end Link

/-- What holds between cycles. Cycles are counted from the start, so the number of
instructions after `now` cycles is the present one. -/
structure Roomy (params : RobParams) (backend : Backend) : Prop where
  balanced : Link.Balanced params.toParams backend.link 0
  single : backend.link.Single
  aged : ∀ cycles ≤ backend.link.now,
    backend.link.reportedBefore cycles ≤ backend.link.sentBefore (cycles - params.renameToIEWDelay)
  count : backend.occupancy backend.link.now = backend.numInstsInROB
  empty : backend.occupancy 0 = 0
  grows : ∀ cycle < backend.link.now,
    backend.occupancy (cycle + 1) ≤ backend.occupancy cycle +
      (DelayLine.read params.renameToROBDelay cycle
        fun cycle => (backend.link.renameQueue cycle).length).getD 0
  knows : backend.robEntries =
    params.numEntries - backend.occupancy (backend.link.now - params.commitToRenameDelay)
  reports : ∀ cycle < backend.link.now,
    backend.freeROBEntries cycle =
        some ((params.numEntries : Int) - backend.occupancy (cycle + 1)) ∨
      backend.freeROBEntries cycle = none ∧ backend.occupancy (cycle + 1) = backend.occupancy cycle
  window : ∀ cycle < backend.link.now, backend.link.renameQueue cycle = [] ∨
    backend.occupancy (cycle + 1 - params.commitToRenameDelay) +
        backend.link.sentBefore (cycle + 1) ≤
      params.numEntries + backend.link.sentBefore
        (cycle + 1 - (params.renameToROBDelay + params.commitToRenameDelay))
  sound : backend.failed = false

namespace Roomy

variable {params : RobParams} {backend : Backend}

/-- Rename reads the free entries of an earlier cycle. -/
theorem readFreeEntries_eq (roomy : Roomy params backend) :
    backend.readFreeEntries params = params.numEntries -
      backend.occupancy (backend.link.now + 1 - params.commitToRenameDelay) := by
  have positive := params.reportsBackwards
  unfold Backend.readFreeEntries DelayLine.read
  by_cases early : params.commitToRenameDelay ≤ backend.link.now
  case neg =>
    have start : backend.link.now - params.commitToRenameDelay = 0 := by omega
    have next : backend.link.now + 1 - params.commitToRenameDelay = 0 := by omega
    rw [if_neg early, roomy.knows, start, next]
  case pos =>
    have next : backend.link.now + 1 - params.commitToRenameDelay =
        backend.link.now - params.commitToRenameDelay + 1 := by omega
    rw [if_pos early, next]
    rcases roomy.reports (backend.link.now - params.commitToRenameDelay) (by omega) with
      told | ⟨silent, same⟩
    · rw [told]
    · rw [silent, same]
      exact roomy.knows

/-- Between two points in time the reorder buffer grows by what reaches it at most. -/
theorem occupancy_le
    (roomy : Roomy params backend) {first last : Nat} (earlier : first ≤ last)
    (past : last ≤ backend.link.now) :
    backend.occupancy last + backend.link.sentBefore (first - params.renameToROBDelay) ≤
      backend.occupancy first + backend.link.sentBefore (last - params.renameToROBDelay) := by
  induction last, earlier using Nat.le_induction with
  | base => exact Nat.le_refl _
  | succ last earlier ih =>
      have before := ih (by omega)
      have grows := roomy.grows last (by omega)
      have arrives := DelayLine.sum_read params.renameToROBDelay last
        fun cycle => (backend.link.renameQueue cycle).length
      change backend.link.sentBefore _ + _ = backend.link.sentBefore _ at arrives
      omega

/-- There is room for what rename sends in this cycle. -/
theorem window_now
    (roomy : Roomy params backend) (turn : Turn)
    (longer : params.renameToROBDelay + params.commitToRenameDelay ≤
      params.renameToIEWDelay + params.iewToRenameDelay) :
    backend.sent params turn = [] ∨
      backend.occupancy (backend.link.now + 1 - params.commitToRenameDelay) +
          (backend.link.sentBefore backend.link.now + (backend.sent params turn).length) ≤
        params.numEntries + backend.link.sentBefore
          (backend.link.now + 1 - (params.renameToROBDelay + params.commitToRenameDelay)) := by
  have bound := length_sent_le params backend turn
  rw [roomy.readFreeEntries_eq, roomy.balanced.inProgress_eq roomy.single] at bound
  have aged := roomy.aged (backend.link.now + 1 - params.iewToRenameDelay) (by
    have := params.backwards
    omega)
  have older : backend.link.sentBefore
        (backend.link.now + 1 - params.iewToRenameDelay - params.renameToIEWDelay) ≤
      backend.link.sentBefore
        (backend.link.now + 1 - (params.renameToROBDelay + params.commitToRenameDelay)) :=
    Link.sentBefore_mono (by omega)
  by_cases none : backend.sent params turn = []
  case pos => exact .inl none
  case neg =>
    have some : 0 < (backend.sent params turn).length := List.length_pos_iff.mpr none
    right
    omega

section Step

variable (turn : Turn) (commitTurn : CommitTurn)

theorem renameQueue_of_lt {cycle : Nat} (past : cycle < backend.link.now) :
    (backend.nextLink params turn).renameQueue cycle = backend.link.renameQueue cycle :=
  Function.update_of_ne (Nat.ne_of_lt past) _ _

theorem renameQueue_now :
    (backend.nextLink params turn).renameQueue backend.link.now = backend.sent params turn :=
  Function.update_self _ _ _

/-- What has been sent before this cycle stays. -/
theorem sentBefore_of_le {cycles : Nat} (past : cycles ≤ backend.link.now) :
    (backend.nextLink params turn).sentBefore cycles = backend.link.sentBefore cycles := by
  apply Finset.sum_congr rfl
  intro cycle inside
  rw [renameQueue_of_lt turn (Nat.lt_of_lt_of_le (Finset.mem_range.mp inside) past)]

theorem sentBefore_succ (link : Link) (cycle : Nat) :
    link.sentBefore (cycle + 1) = link.sentBefore cycle + (link.renameQueue cycle).length :=
  Finset.sum_range_succ _ _

/-- There was and is room for what has been sent. -/
theorem window_next
    (roomy : Roomy params backend)
    (longer : params.renameToROBDelay + params.commitToRenameDelay ≤
      params.renameToIEWDelay + params.iewToRenameDelay)
    {cycle : Nat} (past : cycle ≤ backend.link.now) :
    (backend.nextLink params turn).renameQueue cycle = [] ∨
      backend.occupancy (cycle + 1 - params.commitToRenameDelay) +
          (backend.nextLink params turn).sentBefore (cycle + 1) ≤
        params.numEntries + (backend.nextLink params turn).sentBefore
          (cycle + 1 - (params.renameToROBDelay + params.commitToRenameDelay)) := by
  have positive := params.reportsBackwards
  have older : (backend.nextLink params turn).sentBefore
        (cycle + 1 - (params.renameToROBDelay + params.commitToRenameDelay)) =
      backend.link.sentBefore
        (cycle + 1 - (params.renameToROBDelay + params.commitToRenameDelay)) :=
    sentBefore_of_le turn (by omega)
  rw [older]
  rcases Nat.lt_or_eq_of_le past with past | rfl
  · rw [renameQueue_of_lt turn past, sentBefore_of_le turn (by omega)]
    exact roomy.window cycle past
  · rw [sentBefore_succ, renameQueue_now, sentBefore_of_le turn (Nat.le_refl _)]
    exact roomy.window_now turn longer

/-- The instructions that reach the reorder buffer in this cycle. -/
def arriving (params : RobParams) (backend : Backend) (turn : Turn) : List Inst :=
  (DelayLine.read params.renameToROBDelay backend.link.now
    (backend.nextLink params turn).renameQueue).getD []

/-- There is room for the instructions that reach the reorder buffer. -/
theorem room
    (roomy : Roomy params backend)
    (longer : params.renameToROBDelay + params.commitToRenameDelay ≤
      params.renameToIEWDelay + params.iewToRenameDelay) :
    arriving params backend turn = [] ∨
      backend.numInstsInROB + (arriving params backend turn).length ≤ params.numEntries := by
  have positive := params.reportsBackwards
  unfold arriving DelayLine.read
  split
  case isFalse => exact .inl rfl
  case isTrue early =>
    rw [Option.getD_some]
    -- The report that rename had read when it sent them, and what has come in since.
    have known : backend.link.now - params.renameToROBDelay + 1 - params.commitToRenameDelay ≤
        backend.link.now := by omega
    have grown := roomy.occupancy_le known (Nat.le_refl _)
    have sent : backend.link.now - params.renameToROBDelay ≤ backend.link.now := by omega
    refine (roomy.window_next turn longer sent).imp_right fun window => ?_
    rw [sentBefore_succ, sentBefore_of_le turn (by omega), sentBefore_of_le turn (by omega)]
      at window
    rw [← roomy.count]
    have same : backend.link.now - params.renameToROBDelay + 1 - params.commitToRenameDelay -
          params.renameToROBDelay =
        backend.link.now - params.renameToROBDelay + 1 -
          (params.renameToROBDelay + params.commitToRenameDelay) := by omega
    rw [same] at grown
    omega

/-- The work of commit in a cycle does not fail. -/
theorem commit_takes
    (roomy : Roomy params backend)
    (longer : params.renameToROBDelay + params.commitToRenameDelay ≤
      params.renameToIEWDelay + params.iewToRenameDelay) :
    Takes (arriving params backend turn).length ⟨backend.numInstsInROB, false, backend.failed⟩
      (backend.commit params turn commitTurn) := by
  unfold Backend.commit
  dsimp only
  split
  case isTrue => exact ⟨Nat.le_add_right _ _, rfl, fun unchanged => ⟨unchanged, rfl⟩⟩
  case isFalse =>
    obtain ⟨count, failed, changed⟩ := @getInsts_takes params.numEntries
      ⟨backend.numInstsInROB, false, backend.failed⟩ params.renameWidth commitTurn.accepts
      (arriving params backend turn) (roomy.room turn longer)
    refine ⟨Nat.le_trans (Nat.sub_le _ _) count, failed, fun unchanged => ?_⟩
    simp only [RobCount.retire, Bool.or_eq_false_iff, bne_eq_false_iff_eq] at unchanged
    refine ⟨rfl, ?_⟩
    simp only [RobCount.retire, unchanged.2, Nat.sub_zero]
    exact (changed unchanged.1).2

theorem step
    (roomy : Roomy params backend)
    (longer : params.renameToROBDelay + params.commitToRenameDelay ≤
      params.renameToIEWDelay + params.iewToRenameDelay) :
    Roomy params (backend.step params turn commitTurn) := by
  have positive := params.reportsBackwards
  have takes := roomy.commit_takes turn commitTurn longer
  have balanced : Link.Balanced params.toParams (backend.nextLink params turn) 0 :=
    roomy.balanced.step _
  have single : (backend.nextLink params turn).Single := by
    intro cycle inst inside
    by_cases present : cycle = backend.link.now
    case neg =>
      have kept : (backend.nextLink params turn).renameQueue cycle =
          backend.link.renameQueue cycle := Function.update_of_ne present _ _
      rw [kept] at inside
      exact roomy.single cycle inst inside
    case pos =>
      rw [present, renameQueue_now, ← ofThread_sent] at inside
      exact threadNumber_of_mem inside
  -- The record of earlier cycles stays.
  have past : ∀ cycles ≤ backend.link.now,
      (backend.step params turn commitTurn).occupancy cycles = backend.occupancy cycles :=
    fun cycles past => Function.update_of_ne (by omega) _ _
  have present : (backend.step params turn commitTurn).occupancy (backend.link.now + 1) =
      (backend.commit params turn commitTurn).numInstsInROB := Function.update_self _ _ _
  constructor
  case balanced => exact balanced
  case single => exact single
  case aged =>
    intro cycles upTo
    change cycles ≤ backend.link.now + 1 at upTo
    rcases Nat.lt_or_eq_of_le upTo with earlier | rfl
    · have reported : (backend.nextLink params turn).reportedBefore cycles =
          backend.link.reportedBefore cycles := by
        apply Finset.sum_congr rfl
        intro cycle inside
        have earlier := Finset.mem_range.mp inside
        have kept : (backend.nextLink params turn).reported cycle =
            backend.link.reported cycle := Function.update_of_ne (by omega) _ _
        rw [kept]
      change (backend.nextLink params turn).reportedBefore cycles ≤
        (backend.nextLink params turn).sentBefore _
      rw [reported, sentBefore_of_le turn (by omega)]
      exact roomy.aged cycles (by omega)
    · exact (balanced.reportedBefore_le single).2
  case count => exact present
  case empty =>
    rw [past 0 (Nat.zero_le _)]
    exact roomy.empty
  case grows =>
    intro cycle upTo
    change cycle < backend.link.now + 1 at upTo
    rcases Nat.lt_or_eq_of_le (Nat.le_of_lt_succ upTo) with earlier | rfl
    · rw [past _ (by omega), past _ (by omega)]
      refine Nat.le_trans (roomy.grows cycle earlier) (Nat.add_le_add_left (Nat.le_of_eq ?_) _)
      unfold DelayLine.read
      split
      case isTrue =>
        rw [Option.getD_some, Option.getD_some]
        exact congrArg List.length
          (renameQueue_of_lt turn (Nat.lt_of_le_of_lt (Nat.sub_le _ _) earlier)).symm
      case isFalse => rfl
    · rw [present, past _ (Nat.le_refl _), roomy.count]
      refine Nat.le_trans takes.count (Nat.add_le_add_left (Nat.le_of_eq ?_) _)
      unfold arriving DelayLine.read
      split <;> rfl
  case knows =>
    rw [past _ (by
      change backend.link.now + 1 - params.commitToRenameDelay ≤ _
      omega)]
    exact roomy.readFreeEntries_eq
  case reports =>
    intro cycle upTo
    change cycle < backend.link.now + 1 at upTo
    rcases Nat.lt_or_eq_of_le (Nat.le_of_lt_succ upTo) with earlier | rfl
    · have kept : (backend.step params turn commitTurn).freeROBEntries cycle =
          backend.freeROBEntries cycle := Function.update_of_ne (by omega) _ _
      rw [kept, past _ (by omega), past _ (by omega)]
      exact roomy.reports cycle earlier
    · have told : (backend.step params turn commitTurn).freeROBEntries backend.link.now = _ :=
        Function.update_self _ _ _
      rw [told, present, past _ (Nat.le_refl _), roomy.count]
      split
      case isTrue => exact .inl rfl
      case isFalse silent =>
        rw [Bool.or_eq_true, not_or, Bool.not_eq_true] at silent
        exact .inr ⟨rfl, (takes.changed silent.1).2⟩
  case window =>
    intro cycle upTo
    have upTo : cycle ≤ backend.link.now := Nat.le_of_lt_succ upTo
    rw [past _ (by omega)]
    exact roomy.window_next turn longer upTo
  case sound => exact takes.failed.trans roomy.sound

end Step

/-- The invariant holds before the first cycle. -/
theorem start (params : RobParams) : Roomy params { robEntries := params.numEntries } where
  balanced := .start params.toParams 0
  single := fun _ _ inside => absurd inside List.not_mem_nil
  aged := fun cycles _ => by simp [Link.reportedBefore]
  count := rfl
  empty := rfl
  grows := fun _ past => absurd past (Nat.not_lt_zero _)
  knows := (sub_zero _).symm
  reports := fun _ past => absurd past (Nat.not_lt_zero _)
  window := fun _ past => absurd past (Nat.not_lt_zero _)
  sound := rfl

end Roomy

/-- Commit never inserts an instruction into a full reorder buffer, as long as a report over
dispatch takes no less time than one over the reorder buffer. -/
theorem run_not_failed
    (params : RobParams)
    (longer : params.renameToROBDelay + params.commitToRenameDelay ≤
      params.renameToIEWDelay + params.iewToRenameDelay)
    (turns : List (Turn × CommitTurn)) :
    (Backend.run params turns).failed = false := by
  have roomy : Roomy params (Backend.run params turns) :=
    List.foldlRecOn (motive := Roomy params) turns _ (.start params)
      fun _ roomy turn _ => roomy.step turn.1 turn.2 longer
  exact roomy.sound

/-- A reorder buffer of three entries with the default delays. -/
def threeEntries : RobParams where
  renameWidth := 2
  dispatchWidth := 2
  renameToIEWDelay := 2
  iewToRenameDelay := 1
  backwards := Nat.one_pos
  numEntries := 3
  renameToROBDelay := 1
  commitToRenameDelay := 1
  reportsBackwards := Nat.one_pos

/-- An instruction that does not access memory. -/
def microop (seqNum : Nat) : Inst where
  seqNum := seqNum
  threadNumber := 0
  staticInst := {}
  single := rfl

/-- A cycle in which rename has two instructions to send and nothing retires. -/
def renamesTwo : Turn × CommitTurn :=
  ({ activeThreads := [0]
     instsToRename := [microop 1, microop 2]
     verdict := ⟨fun _ => false, fun _ => false⟩
     freeEntries := fun _ => ⟨0, 8, 8, 8⟩
     signals := fun _ => {}
     isSquashed := fun _ => false },
    ⟨false, fun _ => true, 0, false⟩)

/-- Six cycles fill the buffer, and no insertion fails. -/
theorem run_not_failed_threeEntries :
    (Backend.run threeEntries (List.replicate 6 renamesTwo)).numInstsInROB = 3 ∧
      (Backend.run threeEntries (List.replicate 6 renamesTwo)).failed = false :=
  ⟨by decide, run_not_failed threeEntries (by decide) _⟩

end Dispatch
end Dolma

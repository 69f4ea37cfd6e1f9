import Dolma.LsqUnit.Answers

/-!
# Stores are sent one packet after the other

The queues in program order, the marks of the stores and the state of their packets
belong together. The functions that send packets keep them, move the write-back index
forward and replay the waiting loads when the store named in the record is passed.
-/

namespace Dolma
namespace LsqUnit

open Library LSQUnit

/-- The queues, the marks and the packets agree with the stores in program order. -/
structure Stores
    (params : Params) (lsq : LSQUnit) (queue : Queue) (written : Nat) (sent : List Packet)
    (started : Bool) : Prop where
  rings : Rings params lsq queue
  writeback : Writeback params lsq queue written
  sending : Sending params lsq queue written sent started

/-- Loads, instructions and the bounds of the run are not concerned. -/
structure SameLoads (lsq next : LSQUnit) : Prop where
  insts : next.insts = lsq.insts
  lqIdx : next.lqIdx = lsq.lqIdx
  sqIdx : next.sqIdx = lsq.sqIdx
  loadQueue : next.loadQueue = lsq.loadQueue
  loadHead : next.loadHead = lsq.loadHead
  stallingLoadIdx : next.stallingLoadIdx = lsq.stallingLoadIdx
  owed : next.owed = lsq.owed
  lastSeq : next.lastSeq = lsq.lastSeq
  doneSeqNum : next.doneSeqNum = lsq.doneSeqNum

namespace SameLoads

variable {lsq mid next : LSQUnit}

theorem trans (first : SameLoads lsq mid) (second : SameLoads mid next) :
    SameLoads lsq next where
  insts := second.insts.trans first.insts
  lqIdx := second.lqIdx.trans first.lqIdx
  sqIdx := second.sqIdx.trans first.sqIdx
  loadQueue := second.loadQueue.trans first.loadQueue
  loadHead := second.loadHead.trans first.loadHead
  stallingLoadIdx := second.stallingLoadIdx.trans first.stallingLoadIdx
  owed := second.owed.trans first.owed
  lastSeq := second.lastSeq.trans first.lastSeq
  doneSeqNum := second.doneSeqNum.trans first.doneSeqNum

end SameLoads

/-- The queues hold the same loads and stores, up to the progress of the stores. -/
structure Alike (queue queue' : Queue) : Prop where
  loads : queue'.loads = queue.loads
  loadHead : queue'.loadHead = queue.loadHead
  seqNums : queue'.stores.map SQEntry.seqNum = queue.stores.map SQEntry.seqNum
  canWBs : queue'.stores.map SQEntry.canWB = queue.stores.map SQEntry.canWB
  sizes : queue'.stores.map SQEntry.size = queue.stores.map SQEntry.size

namespace Alike

theorem refl (queue : Queue) : Alike queue queue := ⟨rfl, rfl, rfl, rfl, rfl⟩

theorem trans (first : Alike queue mid) (second : Alike mid queue') : Alike queue queue' where
  loads := second.loads.trans first.loads
  loadHead := second.loadHead.trans first.loadHead
  seqNums := second.seqNums.trans first.seqNums
  canWBs := second.canWBs.trans first.canWBs
  sizes := second.sizes.trans first.sizes

theorem set
    {queue : Queue} (inside : i < queue.stores.length) (head : Nat)
    (seqNum : entry.seqNum = queue.stores[i].seqNum) (canWB : entry.canWB = queue.stores[i].canWB)
    (size : entry.size = queue.stores[i].size) :
    Alike queue { queue with stores := queue.stores.set i entry, storeHead := head } :=
  ⟨rfl, rfl, map_set_eq _ inside seqNum, map_set_eq _ inside canWB, map_set_eq _ inside size⟩

end Alike

/-- The write-back index moves forward over stores of which none is named in the record,
or all waiting loads are replayed. -/
structure Passed
    (lsq : LSQUnit) (queue : Queue) (written : Nat) (next : LSQUnit) (queue' : Queue)
    (written' : Nat) : Prop extends Alike queue queue' where
  le : written ≤ written'
  frame : SameLoads lsq next
  record :
    next.stalled = lsq.stalled ∧ next.stallingStoreIsn = lsq.stallingStoreIsn ∧
        next.instsToReplay = lsq.instsToReplay ∧
        (lsq.stalled = true → ∀ k (inside : k < queue.stores.length), written ≤ k →
          k < written' → queue.stores[k].seqNum ≠ lsq.stallingStoreIsn) ∨
      next.stalled = false ∧ next.instsToReplay = []

namespace Passed

variable {lsq mid next : LSQUnit} {queue queue' queue'' : Queue}
  {written written' written'' : Nat}

/-- The write-back index stays where it is, and the record is kept. -/
theorem stay
    (frame : SameLoads lsq next) (alike : Alike queue queue')
    (stalled : next.stalled = lsq.stalled)
    (stallingStoreIsn : next.stallingStoreIsn = lsq.stallingStoreIsn)
    (instsToReplay : next.instsToReplay = lsq.instsToReplay) :
    Passed lsq queue written next queue' written where
  toAlike := alike
  le := Nat.le_refl _
  frame := frame
  record := .inl ⟨stalled, stallingStoreIsn, instsToReplay, fun _ _ _ _ _ => by omega⟩

theorem trans
    (first : Passed lsq queue written mid queue' written')
    (second : Passed mid queue' written' next queue'' written'') :
    Passed lsq queue written next queue'' written'' where
  toAlike := first.toAlike.trans second.toAlike
  le := Nat.le_trans first.le second.le
  frame := first.frame.trans second.frame
  record := by
    rcases second.record with ⟨stalled, isn, replay, apart⟩ | cleared
    · rcases first.record with ⟨stalled', isn', replay', apart'⟩ | ⟨cleared, empty⟩
      · refine .inl ⟨stalled.trans stalled', isn.trans isn', replay.trans replay', ?_⟩
        intro waits k inside after before
        by_cases early : k < written'
        · exact apart' waits k inside after early
        · -- the store is the same one in both views of the queue
          have lengths := congrArg List.length first.seqNums
          rw [List.length_map, List.length_map] at lengths
          have same : queue'.stores[k].seqNum = queue.stores[k].seqNum := by
            have both := List.getElem_of_eq first.seqNums (i := k) (by simpa using by omega)
            simpa using both
          rw [← same, ← isn']
          exact apart (stalled'.trans waits) k (by omega) (by omega) before
      · exact .inr ⟨stalled.trans cleared, replay.trans empty⟩
    · exact .inr cleared

/-- A store is passed or completed, and its loads are replayed. -/
theorem of_replays
    (frame : SameLoads lsq next) (alike : Alike queue queue') (le : written ≤ written')
    (named : ∀ k (inside : k < queue.stores.length), written ≤ k → k < written' →
      queue.stores[k].seqNum = seq)
    (replays : Replays lsq seq next) :
    Passed lsq queue written next queue' written' where
  toAlike := alike
  le := le
  frame := frame
  record := by
    rcases replays with ⟨_, _, cleared, empty⟩ | ⟨other, stalled, isn, replay⟩
    · exact .inr ⟨cleared, empty⟩
    · refine .inl ⟨stalled, isn, replay, fun waits k inside after before same => ?_⟩
      rw [named k inside after before] at same
      exact other ⟨waits, same⟩

end Passed

/-- Only what the port keeps is changed. -/
def PortOnly (lsq next : LSQUnit) : Prop :=
  next = { lsq with
    usedStorePorts := next.usedStorePorts
    retryPkt := next.retryPkt
    isStoreBlocked := next.isStoreBlocked
    hasPendingPkt := next.hasPendingPkt
    pendingPkt := next.pendingPkt
    answers := next.answers }

theorem PortOnly.refl (lsq : LSQUnit) : PortOnly lsq lsq := rfl

variable {params : Params} {lsq next : LSQUnit} {queue : Queue} {written : Nat}
  {sent : List Packet} {pkt : Packet} {started : Bool}

/-- The stores do not depend on what the port keeps. -/
theorem Stores.port
    (stores : Stores params lsq queue written sent started) (only : PortOnly lsq next) :
    Stores params next queue written sent started := by
  rw [PortOnly] at only
  refine ⟨?_, ?_, ?_⟩
  · refine stores.rings.congr ?_ ?_ ?_ ?_ ?_ ?_ ?_ ?_ ?_ ?_ ?_ <;> rw [only]
  · refine stores.writeback.congr ?_ ?_ <;> rw [only]
  · refine stores.sending.congr (fun _ => ⟨?_, ?_⟩) ?_ ?_ ?_ fun _ _ => ?_ <;> rw [only]

/-- Packets are offered and answered, and nothing happens to the queues. -/
def Sends (lsq next : LSQUnit) : Prop :=
  next = { lsq with
    usedStorePorts := next.usedStorePorts
    retryPkt := next.retryPkt
    isStoreBlocked := next.isStoreBlocked
    hasPendingPkt := next.hasPendingPkt
    pendingPkt := next.pendingPkt
    answers := next.answers
    senderState := next.senderState
    inFlight := next.inFlight
    trace := next.trace }

theorem Sends.passed (sends : Sends lsq next) : Passed lsq queue written next queue written := by
  rw [Sends] at sends
  refine .stay ?_ (.refl queue) ?_ ?_ ?_
  · constructor <;> rw [sends]
  all_goals rw [sends]

/-- No store is passed when the port changes. -/
theorem PortOnly.passed (only : PortOnly lsq next) :
    Passed lsq queue written next queue written := by
  rw [PortOnly] at only
  exact Sends.passed (by rw [Sends, only])

/-- After the last packet the write-back index moves on. -/
theorem Stores.storePostSend
    (stores : Stores params lsq queue written sent true) (inside : written < queue.stores.length)
    (all : sent = queue.stores[written].packets)
    (unanswered : 0 < lsq.unanswered queue.stores[written].seqNum)
    (ended : storePostSend params lsq = some next) :
    Stores params next queue (written + 1) [] false ∧
      Passed lsq queue written next queue (written + 1) ∧
      next = { lsq with
        stalled := next.stalled
        stallingStoreIsn := next.stallingStoreIsn
        instsToReplay := next.instsToReplay
        storeInFlight := next.storeInFlight
        storeWBIdx := next.storeWBIdx } := by
  obtain ⟨rings, writeback, sending⟩ := stores
  obtain ⟨_, current⟩ := sending.current rfl
  have slot := writeback.slot rings inside
  rw [LsqUnit.storePostSend, slot, rings.inst_eq inside, Option.bind_eq_bind,
    Option.bind_some, Option.bind_eq_bind, Option.bind_eq_some_iff] at ended
  obtain ⟨mid, unstalled, last⟩ := ended
  obtain ⟨replays, frame⟩ := unstall_replays unstalled
  have idx : Ring.next params.sqEntries mid.storeWBIdx = (written + 1) % params.sqEntries := by
    have same : mid.storeWBIdx = lsq.storeWBIdx := by rw [frame]
    rw [same, writeback.idx]
    exact Ring.next_mod rings.storeRing.positive _
  cases last
  refine ⟨⟨?_, ?_, ?_⟩, ?_, ?_⟩
  · refine rings.congr ?_ ?_ ?_ ?_ ?_ ?_ ?_ ?_ ?_ ?_ ?_ <;> dsimp only <;> rw [frame]
  · refine writeback.advance inside current.allowed idx ?_
    dsimp only
    rw [frame]
  · refine sending.finish writeback inside all unanswered ?_ ?_ ?_ ?_ ?_
    · dsimp only
      rw [frame]
    · dsimp only
      rw [frame]
    · dsimp only
      rw [frame]
    · exact fun tso => if_pos tso
    · dsimp only
      rw [frame]
  · refine Passed.of_replays ?_ (.refl queue) (Nat.le_succ _) ?_ replays
    · refine ⟨?_, ?_, ?_, ?_, ?_, ?_, ?_, ?_, ?_⟩ <;> dsimp only <;> rw [frame]
    · intro k _ after before
      have same : k = written := by omega
      subst same
      rfl
  · rw [frame]

variable {rest : List Packet}

theorem Stores.sendTimingReq
    (stores : Stores params lsq queue written sent true) (inside : written < queue.stores.length)
    (following : sent ++ pkt :: rest = queue.stores[written].packets) :
    Stores params (sendTimingReq lsq pkt).2 queue written
      (if (sendTimingReq lsq pkt).1 then sent ++ [pkt] else sent) true where
  rings := stores.rings.congr rfl rfl rfl rfl rfl rfl rfl rfl rfl rfl rfl
  writeback := stores.writeback.congr rfl rfl
  sending := stores.sending.offer stores.rings inside following ⟨rfl, rfl, rfl, rfl, rfl⟩

/-- A packet of the store at the write-back index is sent, or kept for a retry. -/
theorem Stores.sendStore
    (stores : Stores params lsq queue written sent true) (inside : written < queue.stores.length)
    (following : sent ++ pkt :: rest = queue.stores[written].packets)
    (ended : sendStore lsq pkt = some (accepted, next)) :
    Stores params next queue written (if accepted then sent ++ [pkt] else sent) true ∧
      next = { lsq with
        answers := next.answers
        inFlight := if accepted then lsq.inFlight ++ [pkt] else lsq.inFlight
        trace := lsq.trace ++ [.offered pkt accepted]
        isStoreBlocked := if accepted then lsq.isStoreBlocked else true
        retryPkt := if accepted then lsq.retryPkt else some pkt } := by
  have offered := stores.sendTimingReq inside following
  unfold LsqUnit.sendStore at ended
  dsimp only at ended
  split at ended
  case isTrue yes =>
    cases ended
    rw [yes] at offered
    have answer : lsq.answers.headD false = true := yes
    refine ⟨offered, ?_⟩
    rw [LsqUnit.sendTimingReq, answer]
    rfl
  case isFalse no =>
    obtain ⟨-, last⟩ := Option.ite_none_left_eq_some.mp ended
    rw [Bool.not_eq_true] at no
    cases last
    rw [no] at offered
    have answer : lsq.answers.headD false = false := no
    refine ⟨offered.port rfl, ?_⟩
    rw [LsqUnit.sendTimingReq, answer]
    rfl

/-- Send the last packet of a store. -/
def sendLast (params : Params) (lsq : LSQUnit) (pkt : Packet) : Option LSQUnit := do
  let (sent, lsq) ← sendStore lsq pkt
  if sent then storePostSend params lsq else some lsq

/-- The same packet waits in the port, and no other. -/
structure SamePort (lsq next : LSQUnit) : Prop where
  isStoreBlocked : next.isStoreBlocked = lsq.isStoreBlocked
  retryPkt : next.retryPkt = lsq.retryPkt
  hasPendingPkt : next.hasPendingPkt = lsq.hasPendingPkt
  pendingPkt : next.pendingPkt = lsq.pendingPkt

/-- The port keeps the packet that was refused and the one that found no port. -/
structure Keeps (lsq : LSQUnit) (retry pending : Option Packet) : Prop where
  isStoreBlocked : lsq.isStoreBlocked = retry.isSome
  retryPkt : lsq.retryPkt = retry
  hasPendingPkt : lsq.hasPendingPkt = pending.isSome
  pendingPkt : lsq.pendingPkt = pending

theorem Keeps.congr (keeps : Keeps lsq retry pending) (same : SamePort lsq next) :
    Keeps next retry pending where
  isStoreBlocked := same.isStoreBlocked.trans keeps.isStoreBlocked
  retryPkt := same.retryPkt.trans keeps.retryPkt
  hasPendingPkt := same.hasPendingPkt.trans keeps.hasPendingPkt
  pendingPkt := same.pendingPkt.trans keeps.pendingPkt

/-- The last packet is sent and the write-back index moves on, or it is refused and kept
for a retry. -/
theorem Stores.sendLast
    (stores : Stores params lsq queue written sent true) (inside : written < queue.stores.length)
    (following : sent ++ [pkt] = queue.stores[written].packets)
    (ended : sendLast params lsq pkt = some next) :
    Stores params next queue (written + 1) [] false ∧
        Passed lsq queue written next queue (written + 1) ∧ SamePort lsq next ∨
      Stores params next queue written sent true ∧
        Passed lsq queue written next queue written ∧
        SamePort { lsq with isStoreBlocked := true, retryPkt := some pkt } next ∧
        next.senderState = lsq.senderState := by
  rw [LsqUnit.sendLast, Option.bind_eq_bind, Option.bind_eq_some_iff] at ended
  obtain ⟨⟨accepted, mid⟩, offered, rest⟩ := ended
  obtain ⟨stores', frame⟩ := stores.sendStore inside following offered
  cases accepted
  · right
    cases rest
    refine ⟨stores', Sends.passed (by rw [Sends, frame]), ?_, ?_⟩
    · constructor <;> rw [frame] <;> rfl
    · rw [frame]
  · left
    have unanswered : 0 < mid.unanswered queue.stores[written].seqNum := by
      have packet : pkt ∈ queue.stores[written].packets := by
        rw [← following]
        simp
      refine LSQUnit.unanswered_pos ?_ packet
      rw [frame]
      simp
    obtain ⟨stores'', passed, frame'⟩ :=
      stores'.storePostSend inside following unanswered rest
    refine ⟨stores'', .trans (Sends.passed (by rw [Sends, frame])) passed, ?_⟩
    constructor <;> rw [frame', frame] <;> rfl

/-- A store without packets is completed at once and passed over. Its entry may have been
marked before. -/
theorem Stores.skip
    (stores : Stores params lsq queue written [] false) (inside : written < queue.stores.length)
    (allowed : queue.stores[written].canWB = true)
    (alone : params.needsTSO = true → lsq.storeInFlight = false)
    (none : queue.stores[written].parts = [])
    (same : entry = { queue.stores[written] with committed := entry.committed })
    (ended : completeStore params (lsq.setEntry lsq.storeWBIdx entry) lsq.storeWBIdx = some next) :
    ∃ queue',
      Stores params
          { next with storeWBIdx := Ring.next params.sqEntries next.storeWBIdx }
          queue' (written + 1) [] false ∧
        Passed lsq queue written
          { next with storeWBIdx := Ring.next params.sqEntries next.storeWBIdx }
          queue' (written + 1) ∧
        SamePort lsq next := by
  obtain ⟨rings, writeback, sending⟩ := stores
  have inst : entry.inst = queue.stores[written].inst := by rw [same]
  have seqNum : entry.seqNum = queue.stores[written].seqNum := by rw [same]; rfl
  have canWB : entry.canWB = queue.stores[written].canWB := by rw [same]
  have size : entry.size = queue.stores[written].size := by rw [same]
  have parts : entry.parts = queue.stores[written].parts := by rw [same]; rfl
  have completed : entry.completed = queue.stores[written].completed := by rw [same]
  have plain : entry.isDataPrefetch = queue.stores[written].isDataPrefetch := by rw [same]
  have waits := (writeback.marks written inside).waiting (Nat.le_refl _)
  have inside' : written < (queue.stores.set written entry).length := by
    rwa [List.length_set]
  have self : (queue.stores.set written entry)[written] = entry := List.getElem_set_self _
  rw [writeback.idx] at ended
  have rings' := rings.setEntry writeback.head_le inside inst
  have writeback' := writeback.set inside canWB completed plain
  obtain ⟨head, completes⟩ := rings'.completeStore writeback.head_le inside' ended
  have frame := completes.frame
  have idx : Ring.next params.sqEntries next.storeWBIdx = (written + 1) % params.sqEntries := by
    have unchanged : next.storeWBIdx = lsq.storeWBIdx := by
      rw [frame]
      rfl
    rw [unchanged, writeback.idx]
    exact Ring.next_mod rings.storeRing.positive _
  have collapsed : (queue.stores.set written entry).set written
      (queue.stores.set written entry)[written].setCompleted =
        queue.stores.set written entry.setCompleted := by
    rw [self, List.set_set]
  refine ⟨{ queue with
    stores := queue.stores.set written entry.setCompleted
    storeHead := head }, ⟨?rings, ?writeback, ?sending⟩, ?passed, ?port⟩
  case rings =>
    have rings := completes.rings inside'
    dsimp only at rings
    rw [collapsed] at rings
    exact rings.congr rfl rfl rfl rfl rfl rfl rfl rfl rfl rfl rfl
  case writeback =>
    have marked : Writeback params (lsq.setEntry (written % params.sqEntries) entry)
        { queue with stores := queue.stores.set written entry } written :=
      writeback'.congr rfl rfl
    have counter : next.storesToWB = lsq.storesToWB - 1 := by
      rw [frame]
      rfl
    have allowed' : (queue.stores.set written entry)[written].canWB = true := by
      rw [self, canWB]
      exact allowed
    have waits' : (queue.stores.set written entry)[written].completed = false := by
      rw [self, completed]
      exact waits
    rw [← collapsed]
    exact marked.complete inside' (.inr ⟨rfl, rfl⟩) allowed' waits' completes idx counter
  case sending =>
    have seqNum' : entry.setCompleted.seqNum = queue.stores[written].seqNum := seqNum
    refine sending.skip inside alone none seqNum' parts canWB rfl head ?_ ?_ ?_ ?_
    · dsimp only
      rw [frame]
      rfl
    · dsimp only
      rw [frame]
      rfl
    · dsimp only
      rw [frame, self, seqNum]
      rfl
    · dsimp only
      rw [frame]
      rfl
  case passed =>
    have replays := completes.replays
    rw [self, seqNum] at replays
    refine Passed.of_replays ?_ (.set inside head seqNum canWB size) (Nat.le_succ _) ?_ replays
    · constructor <;> dsimp only <;> rw [frame] <;> rfl
    · intro k _ after before
      have equal : k = written := by omega
      subst equal
      rfl
  case port => constructor <;> rw [frame] <;> rfl

end LsqUnit
end Dolma

import Dolma.LsqUnit.Sending

/-!
# Single actions of the write-back

A store is started, its packets are offered to the memory port one after the other, and
after the last one the write-back index moves on. Stores without packets are passed
over.
-/

namespace Dolma
namespace LsqUnit

open Library LSQUnit

variable {params : Params} {lsq next : LSQUnit} {queue : Queue} {written i : Nat}
  {sent : List Packet} {started : Bool} {j : Nat}

/-- Different numbers stand for different stores. -/
theorem Rings.seqNum_ne
    (rings : Rings params lsq queue) (inside : i < queue.stores.length)
    (inside' : j < queue.stores.length) (distinct : i ≠ j) :
    queue.stores[i].seqNum ≠ queue.stores[j].seqNum := by
  rcases Nat.lt_or_gt_of_ne distinct with before | after
  · exact Nat.ne_of_lt (rings.store_lt inside' before)
  · exact Nat.ne_of_gt (rings.store_lt inside after)

theorem Rings.index_lt
    (rings : Rings params lsq queue) (inside : i < queue.stores.length)
    (inside' : j < queue.stores.length) (older : queue.stores[i].seqNum < queue.stores[j].seqNum) :
    i < j := by
  by_contra after
  rcases Nat.eq_or_lt_of_le (Nat.le_of_not_lt after) with same | before
  · subst same
    exact Nat.lt_irrefl _ older
  · exact Nat.lt_asymm older (rings.store_lt inside before)

namespace Sending

variable {entry : SQEntry}

/-- An entry that changes keeps its packets. -/
theorem known_set
    {inFlight : List Packet} (inside : i < queue.stores.length)
    (packets : entry.packets = queue.stores[i].packets)
    (known : ∀ pkt ∈ inFlight, ∃ entry ∈ queue.stores, pkt ∈ entry.packets) :
    ∀ pkt ∈ inFlight, ∃ other ∈ queue.stores.set i entry, pkt ∈ other.packets := by
  intro pkt member
  obtain ⟨other, listed, packet⟩ := known pkt member
  obtain ⟨j, small, rfl⟩ := List.getElem_of_mem listed
  by_cases equal : i = j
  · subst equal
    exact ⟨entry, List.mem_set small entry, packets ▸ packet⟩
  · refine ⟨queue.stores[j], ?_, packet⟩
    rw [← List.getElem_set_ne equal (by simpa using small)]
    exact List.getElem_mem _

theorem start
    (sending : Sending params lsq queue written [] false) (rings : Rings params lsq queue)
    (inside : written < queue.stores.length) (allowed : queue.stores[written].canWB = true)
    (alone : params.needsTSO = true → lsq.storeInFlight = false)
    (idx : sender.idx = written % params.sqEntries)
    (outstanding : sender.outstanding = queue.stores[written].packets.length)
    (senderState : next.senderState =
      Function.update lsq.senderState queue.stores[written].seqNum sender)
    (inFlight : next.inFlight = lsq.inFlight) (trace : next.trace = lsq.trace)
    (storeInFlight : next.storeInFlight = lsq.storeInFlight) (insts : next.insts = lsq.insts) :
    Sending params next
      { queue with stores := queue.stores.set written queue.stores[written].setCommitted }
      written [] true := by
  have course := sending.course written inside
  constructor
  case toTraced =>
    rw [trace]
    exact sending.toTraced.set inside rfl rfl fun _ => rfl
  case course =>
    refine forall_set _ (fun j inside' distinct => ?_) fun _ => ?_
    · have course := sending.course j inside'
      have apart := rings.seqNum_ne inside' inside distinct
      refine course.congr ⟨?_, ?_, unanswered_congr inFlight _, trace ▸ id, by rw [insts]⟩ id
        (fun after _ => ⟨after, fun busy => by cases busy⟩) (storeInFlight ▸ course.tso)
      · rw [senderState, Function.update_of_ne apart]
      · rw [senderState, Function.update_of_ne apart]
    · exact .of_started (trace ▸ course.noted) (insts ▸ course.unsquashed)
  case current =>
    intro _
    have none := (course.fresh (Nat.le_refl _) fun busy => by cases busy).2
    refine ⟨by rwa [List.length_set], ?_⟩
    rw [List.getElem_set_self]
    refine ⟨allowed, ?_, ?_, List.nil_prefix, ?_⟩
    · rw [SQEntry.seqNum_setCommitted, senderState, Function.update_self]
      exact idx
    · rw [SQEntry.seqNum_setCommitted, senderState, Function.update_self,
        unanswered_congr inFlight, none, outstanding]
      simp
    · rw [storeInFlight]
      exact alone
  case idle => exact fun busy => by cases busy
  case small =>
    intro seq
    rw [senderState]
    by_cases equal : seq = queue.stores[written].seqNum
    · rw [equal, Function.update_self, outstanding]
      exact SQEntry.packets_length_le
    · rw [Function.update_of_ne equal]
      exact sending.small seq
  case known =>
    rw [inFlight]
    exact known_set inside rfl sending.known

end Sending

/-- A packet is offered to the port, which accepts it or not. -/
structure Offers (lsq : LSQUnit) (pkt : Packet) (accepted : Bool) (next : LSQUnit) : Prop where
  senderState : next.senderState = lsq.senderState
  inFlight : next.inFlight = if accepted then lsq.inFlight ++ [pkt] else lsq.inFlight
  trace : next.trace = lsq.trace ++ [.offered pkt accepted]
  storeInFlight : next.storeInFlight = lsq.storeInFlight
  insts : next.insts = lsq.insts

namespace Offers

variable {pkt : Packet} {rest : List Packet} {accepted : Bool}
  (offers : Offers lsq pkt accepted next)
include offers

theorem unanswered_eq (seq : Nat) :
    next.unanswered seq =
      lsq.unanswered seq + if accepted = true ∧ pkt.inst = seq then 1 else 0 := by
  rw [LSQUnit.unanswered, offers.inFlight]
  cases accepted
  · simp [LSQUnit.unanswered]
  · rw [if_pos rfl, List.countP_append, List.countP_singleton]
    simp [LSQUnit.unanswered]

/-- The other stores go on as before. -/
theorem sameCourse (apart : seq ≠ pkt.inst) : SameCourse lsq next seq := by
  refine ⟨by rw [offers.senderState], by rw [offers.senderState], ?_, ?_, by rw [offers.insts]⟩
  · rw [offers.unanswered_eq, if_neg fun self => apart self.2.symm]
    rfl
  · rw [offers.trace]
    exact List.mem_append_left _

/-- The current store is sent as before. -/
theorem current
    (current : Current params lsq written sent entry)
    (following : sent ++ pkt :: rest = entry.packets) (inst : pkt.inst = entry.seqNum) :
    Current params next written (if accepted then sent ++ [pkt] else sent) entry := by
  have outstanding := current.outstanding
  refine ⟨current.allowed, ?_, ?_, ?_, ?_⟩
  · rw [offers.senderState]
    exact current.idx
  · rw [offers.senderState, offers.unanswered_eq]
    cases accepted
    · simpa using outstanding
    · rw [if_pos rfl, if_pos ⟨rfl, inst⟩, List.length_append, List.length_singleton]
      omega
  · cases accepted
    · exact current.inOrder
    · refine ⟨rest, ?_⟩
      rw [← following]
      simp
  · rw [offers.storeInFlight]
    exact current.alone

/-- With total store order all older stores are completed when a packet is offered. -/
theorem traced
    (sending : Sending params lsq queue written sent true) (rings : Rings params lsq queue)
    (inside : written < queue.stores.length) (inst : pkt.inst = queue.stores[written].seqNum) :
    Traced params next.trace queue.stores written (if accepted then sent ++ [pkt] else sent) := by
  obtain ⟨_, current⟩ := sending.current rfl
  rw [offers.trace]
  refine ⟨?_, ?_, fun other answer member => ?_, fun tso => ?_⟩
  · rw [acceptedPackets_append, sending.accepted]
    cases accepted
    · exact List.append_nil _
    · exact List.append_assoc _ _ _
  · rw [committedStores_append, sending.committed]
    exact List.append_nil _
  · rcases List.mem_append.mp member with old | new
    · exact sending.offered other answer old
    · cases List.mem_singleton.mp new
      exact ⟨_, List.getElem_mem inside, inst, current.allowed⟩
  · refine (sending.inOrder tso).offer fun _ entry member _ older => ?_
    obtain ⟨j, small, rfl⟩ := List.getElem_of_mem member
    rw [inst] at older
    have course := sending.course j small
    refine course.noted (course.tso tso (rings.index_lt small inside older) fun flying => ?_)
    rw [current.alone tso] at flying
    cases flying

end Offers

namespace Sending

variable {entry : SQEntry}

/-- A packet of the store at the write-back index is offered. -/
theorem offer
    {pkt : Packet} {rest : List Packet}
    (sending : Sending params lsq queue written sent true) (rings : Rings params lsq queue)
    (inside : written < queue.stores.length)
    (following : sent ++ pkt :: rest = queue.stores[written].packets)
    (offers : Offers lsq pkt accepted next) :
    Sending params next queue written (if accepted then sent ++ [pkt] else sent) true := by
  have packet : pkt ∈ queue.stores[written].packets := by
    rw [← following]
    simp
  have inst := SQEntry.inst_of_mem_packets packet
  constructor
  case toTraced => exact offers.traced sending rings inside inst
  case course =>
    intro j inside'
    have course := sending.course j inside'
    by_cases distinct : j = written
    · subst distinct
      refine .of_started (fun done => ?_) (offers.insts ▸ course.unsquashed)
      rw [offers.trace]
      exact List.mem_append_left _ (course.noted done)
    · have apart := rings.seqNum_ne inside' inside distinct
      exact course.congr (offers.sameCourse (inst ▸ apart)) id
        (fun after apart => ⟨after, apart⟩) (offers.storeInFlight ▸ course.tso)
  case current =>
    obtain ⟨_, current⟩ := sending.current rfl
    exact fun _ => ⟨inside, offers.current current following inst⟩
  case idle => exact fun busy => by cases busy
  case small =>
    rw [offers.senderState]
    exact sending.small
  case known =>
    intro other member
    rw [offers.inFlight] at member
    cases accepted
    · exact sending.known other member
    · rcases List.mem_append.mp member with old | new
      · exact sending.known other old
      · rw [List.mem_singleton.mp new]
        exact ⟨_, List.getElem_mem inside, packet⟩

/-- The last packet of the store at the write-back index is sent. -/
theorem finish
    (sending : Sending params lsq queue written sent true)
    (writeback : Writeback params lsq queue written) (inside : written < queue.stores.length)
    (all : sent = queue.stores[written].packets)
    (some : 0 < lsq.unanswered queue.stores[written].seqNum)
    (senderState : next.senderState = lsq.senderState) (inFlight : next.inFlight = lsq.inFlight)
    (trace : next.trace = lsq.trace)
    (storeInFlight : params.needsTSO = true → next.storeInFlight = true)
    (insts : next.insts = lsq.insts) :
    Sending params next queue (written + 1) [] false := by
  obtain ⟨_, current⟩ := sending.current rfl
  have same := unanswered_congr inFlight
  have closed : ∀ j (inside : j < queue.stores.length), params.needsTSO = true →
      j < written + 1 → (next.storeInFlight = true → j + 1 ≠ written + 1) →
        queue.stores[j].completed = true := by
    intro j inside' tso before last
    have earlier := last (storeInFlight tso)
    refine (sending.course j inside').tso tso (by omega) fun flying => ?_
    rw [current.alone tso] at flying
    cases flying
  constructor
  case toTraced =>
    rw [trace]
    exact sending.toTraced.advance inside all
  case course =>
    intro j inside'
    have course := sending.course j inside'
    by_cases equal : j = written
    · subst equal
      have outstanding := current.outstanding
      rw [all] at outstanding
      refine ⟨fun _ _ => ?_, fun _ => ?_, fun after => by omega, trace ▸ course.noted,
        insts ▸ course.unsquashed, closed j inside'⟩
      · rw [senderState, same]
        exact ⟨current.idx, by omega⟩
      · rw [same, (writeback.marks j inside').waiting (Nat.le_refl _)]
        exact ⟨fun done => (by cases done), fun none => by omega⟩
    · exact course.congr
        ⟨by rw [senderState], by rw [senderState], same _, trace ▸ id, by rw [insts]⟩
        (fun before => by omega) (fun after _ => ⟨by omega, fun _ => equal⟩) (closed j inside')
  case current => exact fun busy => by cases busy
  case idle => exact fun _ => rfl
  case small =>
    rw [senderState]
    exact sending.small
  case known =>
    rw [inFlight]
    exact sending.known

/-- A store without packets is completed and passed over. -/
theorem skip
    (sending : Sending params lsq queue written [] false) (inside : written < queue.stores.length)
    (alone : params.needsTSO = true → lsq.storeInFlight = false)
    (none : queue.stores[written].parts = []) (seqNum : entry.seqNum = queue.stores[written].seqNum)
    (parts : entry.parts = queue.stores[written].parts)
    (canWB : entry.canWB = queue.stores[written].canWB) (completed : entry.completed = true)
    (head : Nat) (senderState : next.senderState = lsq.senderState)
    (inFlight : next.inFlight = lsq.inFlight)
    (trace : next.trace = lsq.trace ++ [.completed queue.stores[written].seqNum])
    (insts : next.insts = lsq.insts) :
    Sending params next
      { queue with stores := queue.stores.set written entry, storeHead := head }
      (written + 1) [] false := by
  have same := unanswered_congr inFlight
  constructor
  case toTraced =>
    rw [trace]
    have traced := (sending.toTraced.complete queue.stores[written].seqNum).set inside seqNum canWB
      fun _ => parts
    refine traced.advance (by rwa [List.length_set]) ?_
    rw [List.getElem_set_self, SQEntry.packets, parts, none]
    rfl
  case course =>
    refine forall_set _ (fun j inside' distinct => ?_) fun _ => ?_
    · have course := sending.course j inside'
      refine course.congr ⟨by rw [senderState], by rw [senderState], same _, fun done => ?_,
        by rw [insts]⟩ (fun before => by omega)
        (fun after _ => ⟨by omega, fun busy => by cases busy⟩) fun tso before _ => ?_
      · rw [trace]
        exact List.mem_append_left _ done
      · refine course.tso tso (by omega) fun flying => ?_
        rw [alone tso] at flying
        cases flying
    · have course := sending.course written inside
      have unsent := (course.fresh (Nat.le_refl _) fun busy => by cases busy).2
      refine ⟨fun _ some => absurd (parts.trans none) some, fun _ => ?_, fun after => by omega,
        fun _ => ?_, ?_, fun _ _ _ => completed⟩
      · rw [seqNum, same, unsent, completed]
        exact ⟨fun _ => rfl, fun _ => rfl⟩
      · rw [trace, seqNum]
        exact List.mem_append_right _ (List.mem_singleton_self _)
      · rw [insts, seqNum]
        exact course.unsquashed
  case current => exact fun busy => by cases busy
  case idle => exact fun _ => rfl
  case small =>
    rw [senderState]
    exact sending.small
  case known =>
    rw [inFlight]
    refine known_set inside ?_ sending.known
    rw [SQEntry.packets, seqNum, parts]
    rfl

end Sending

end LsqUnit
end Dolma

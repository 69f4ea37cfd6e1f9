import Dolma.LsqUnit.Port

/-!
# Answers of the memory

The memory answers packets that it has accepted, in any order. A store is completed by
the answer to its last unanswered packet.
-/

namespace Dolma
namespace LsqUnit

open Library LSQUnit

variable {params : Params} {lsq next : LSQUnit} {queue : Queue} {written i : Nat}
  {sent : List Packet} {started : Bool} {pkt : Packet}

/-- An unanswered packet belongs to a store that is sent or started. -/
theorem Sending.exists_index
    (sending : Sending params lsq queue written sent started) (member : pkt ∈ lsq.inFlight) :
    ∃ i, ∃ inside : i < queue.stores.length, pkt ∈ queue.stores[i].packets ∧
      0 < lsq.unanswered queue.stores[i].seqNum ∧
      (i < written ∨ started = true ∧ i = written) := by
  obtain ⟨entry, listed, packet⟩ := sending.known pkt member
  obtain ⟨i, inside, rfl⟩ := List.getElem_of_mem listed
  exact ⟨i, inside, packet, unanswered_pos member packet,
    sending.started_of_mem inside member packet⟩

/-- A packet is answered, and its store expects one answer less. -/
structure Answers (lsq : LSQUnit) (pkt : Packet) (next : LSQUnit) : Prop where
  member : pkt ∈ lsq.inFlight
  inFlight : next.inFlight = lsq.inFlight.erase pkt
  idx : (next.senderState pkt.inst).idx = (lsq.senderState pkt.inst).idx
  outstanding : (next.senderState pkt.inst).outstanding + 1 = (lsq.senderState pkt.inst).outstanding
  others : ∀ seq, seq ≠ pkt.inst → next.senderState seq = lsq.senderState seq
  insts : next.insts = lsq.insts

namespace Answers

theorem unanswered_eq (answers : Answers lsq pkt next) (seq : Nat) :
    lsq.unanswered seq = next.unanswered seq + if pkt.inst == seq then 1 else 0 := by
  have split :=
    (List.perm_cons_erase answers.member).countP_eq (fun pkt => pkt.inst == seq)
  rw [List.countP_cons, ← answers.inFlight] at split
  exact split

theorem unanswered_self (answers : Answers lsq pkt next) :
    lsq.unanswered pkt.inst = next.unanswered pkt.inst + 1 := by
  rw [answers.unanswered_eq, if_pos (by simp)]

theorem unanswered_other (answers : Answers lsq pkt next) (apart : seq ≠ pkt.inst) :
    next.unanswered seq = lsq.unanswered seq := by
  rw [answers.unanswered_eq seq, if_neg (by simpa using Ne.symm apart)]
  rfl

variable {entry : SQEntry}

/-- The other stores go on as before. -/
theorem sameCourse
    (answers : Answers lsq pkt next) (apart : seq ≠ pkt.inst)
    (noted : .completed seq ∈ lsq.trace → .completed seq ∈ next.trace) :
    SameCourse lsq next seq :=
  ⟨by rw [answers.others _ apart], by rw [answers.others _ apart],
    answers.unanswered_other apart, noted, by rw [answers.insts]⟩

theorem small
    (answers : Answers lsq pkt next) (sending : Sending params lsq queue written sent started)
    (seq : Nat) :
    (next.senderState seq).outstanding ≤ 2 := by
  by_cases equal : seq = pkt.inst
  · have bound := sending.small pkt.inst
    have less := answers.outstanding
    rw [equal]
    omega
  · rw [answers.others seq equal]
    exact sending.small seq

/-- The store at the write-back index is being sent as before. -/
theorem current
    (answers : Answers lsq pkt next) (current : Current params lsq written sent entry)
    (alone : params.needsTSO = true → next.storeInFlight = false) :
    Current params next written sent entry := by
  have before := current.outstanding
  refine ⟨current.allowed, ?_, ?_, current.inOrder, alone⟩
  · by_cases equal : entry.seqNum = pkt.inst
    · rw [equal, answers.idx, ← equal]
      exact current.idx
    · rw [answers.others _ equal]
      exact current.idx
  · by_cases equal : entry.seqNum = pkt.inst
    · have outstanding := answers.outstanding
      have counted := answers.unanswered_self
      rw [equal] at before ⊢
      omega
    · rw [answers.others _ equal, answers.unanswered_other equal]
      exact before

end Answers

namespace Sending

theorem parts_ne_nil {entry : SQEntry} (packet : pkt ∈ entry.packets) : entry.parts ≠ [] := by
  intro none
  rw [SQEntry.packets, none] at packet
  cases packet

/-- A sent store with an unanswered packet is not completed. -/
theorem not_completed
    (sending : Sending params lsq queue written sent started) (inside : i < queue.stores.length)
    (packet : pkt ∈ queue.stores[i].packets) (before : i < written) (member : pkt ∈ lsq.inFlight) :
    queue.stores[i].completed = false := by
  have some := unanswered_pos member packet
  rw [← Bool.not_eq_true, (sending.course i inside).answered before]
  omega

/-- The store of a packet that is answered waits for another answer. -/
theorem course_answer
    (sending : Sending params lsq queue written sent started) (answers : Answers lsq pkt next)
    (more : (next.senderState pkt.inst).outstanding ≠ 0) (trace : next.trace = lsq.trace)
    (storeInFlight : next.storeInFlight = lsq.storeInFlight) (inside : i < queue.stores.length)
    (packet : pkt ∈ queue.stores[i].packets) :
    Course params next written started i queue.stores[i] := by
  have course := sending.course i inside
  have inst := SQEntry.inst_of_mem_packets packet
  have counted := answers.unanswered_self
  have outstanding := answers.outstanding
  refine ⟨fun before parts => ?_, fun before => ?_, fun after apart => ?_, trace ▸ course.noted,
    answers.insts ▸ course.unsquashed, storeInFlight ▸ course.tso⟩
  · obtain ⟨place, count⟩ := course.sender before parts
    rw [← inst] at place count ⊢
    exact ⟨answers.idx.trans place, by omega⟩
  · obtain ⟨-, count⟩ := course.sender before (parts_ne_nil packet)
    rw [sending.not_completed inside packet before answers.member]
    rw [← inst] at count ⊢
    exact ⟨fun done => (by cases done), fun none => by omega⟩
  · have none := (course.fresh after apart).2
    rw [← inst] at none
    omega

theorem answer
    (sending : Sending params lsq queue written sent started) (rings : Rings params lsq queue)
    (answers : Answers lsq pkt next) (more : (next.senderState pkt.inst).outstanding ≠ 0)
    (trace : next.trace = lsq.trace) (storeInFlight : next.storeInFlight = lsq.storeInFlight) :
    Sending params next queue written sent started := by
  obtain ⟨k, inside, packet, -⟩ := sending.exists_index answers.member
  have inst := SQEntry.inst_of_mem_packets packet
  constructor
  case toTraced =>
    rw [trace]
    exact sending.toTraced
  case course =>
    intro j inside'
    have course := sending.course j inside'
    by_cases equal : j = k
    · subst equal
      exact sending.course_answer answers more trace storeInFlight inside packet
    · have apart := rings.seqNum_ne inside' inside equal
      exact course.congr (answers.sameCourse (inst ▸ apart) (trace ▸ id)) id
        (fun after apart => ⟨after, apart⟩) (storeInFlight ▸ course.tso)
  case current =>
    intro busy
    obtain ⟨inside', current⟩ := sending.current busy
    exact ⟨inside', answers.current current (storeInFlight ▸ current.alone)⟩
  case idle => exact sending.idle
  case small => exact answers.small sending
  case known =>
    intro other rest
    rw [answers.inFlight] at rest
    exact sending.known other (List.mem_of_mem_erase rest)

/-- A store is completed by its last answer. -/
theorem complete
    (sending : Sending params lsq queue written sent started) (rings : Rings params lsq queue)
    (answers : Answers lsq pkt next) (last : (next.senderState pkt.inst).outstanding = 0)
    (inside : i < queue.stores.length) (packet : pkt ∈ queue.stores[i].packets)
    (before : i < written) (head : Nat)
    (trace : next.trace = lsq.trace ++ [.completed queue.stores[i].seqNum])
    (storeInFlight : params.needsTSO = true → next.storeInFlight = false) :
    Sending params next
      { queue with
        stores := queue.stores.set i queue.stores[i].setCompleted
        storeHead := head }
      written sent started := by
  have inst := SQEntry.inst_of_mem_packets packet
  have waits := sending.not_completed inside packet before answers.member
  constructor
  case toTraced =>
    rw [trace]
    exact (sending.toTraced.complete _).set inside rfl rfl fun _ => rfl
  case course =>
    refine forall_set _ (fun j inside' distinct => ?_) fun _ => ?_
    · have course := sending.course j inside'
      have apart := rings.seqNum_ne inside' inside distinct
      refine course.congr (answers.sameCourse (inst ▸ apart) fun done => ?_) id
        (fun after apart => ⟨after, apart⟩) fun tso earlier _ => ?_
      · rw [trace]
        exact List.mem_append_left _ done
      · -- the store that is completed was the only one that was open
        refine course.tso tso earlier fun _ second => ?_
        have done := (sending.course i inside).tso tso before fun _ first => by omega
        rw [waits] at done
        cases done
    · have course := sending.course i inside
      have counted := answers.unanswered_self
      have outstanding := answers.outstanding
      obtain ⟨place, count⟩ := course.sender before (parts_ne_nil packet)
      rw [← inst] at place count
      refine ⟨fun _ _ => ?_, fun _ => ?_, fun after => by omega, fun _ => ?_,
        answers.insts ▸ course.unsquashed, fun _ _ _ => rfl⟩
      · rw [SQEntry.seqNum_setCompleted, ← inst]
        exact ⟨answers.idx.trans place, by omega⟩
      · rw [SQEntry.seqNum_setCompleted, ← inst]
        exact ⟨fun _ => by omega, fun _ => rfl⟩
      · rw [trace]
        exact List.mem_append_right _ (List.mem_singleton_self _)
  case current =>
    intro busy
    obtain ⟨inside', current⟩ := sending.current busy
    refine ⟨by rwa [List.length_set], ?_⟩
    rw [List.getElem_set_ne (Nat.ne_of_lt before)]
    exact answers.current current storeInFlight
  case idle => exact sending.idle
  case small => exact answers.small sending
  case known =>
    intro other rest
    rw [answers.inFlight] at rest
    exact known_set inside SQEntry.packets_setCompleted sending.known other
      (List.mem_of_mem_erase rest)

end Sending

end LsqUnit
end Dolma

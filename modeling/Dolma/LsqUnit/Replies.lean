import Dolma.LsqUnit.Cycle

/-!
# What the memory port does

The port asks for a packet that it has refused, and the unit goes on with the store that
is interrupted. The memory answers packets, and a store is completed with its last answer.
-/

namespace Dolma
namespace LsqUnit

open Library LSQUnit

variable {params : Params} {lsq mid next : LSQUnit} {queue queue' : Queue}
  {written written' : Nat} {sent : List Packet} {pkt : Packet} {started : Bool}

theorem Stores.offered
    (stores : Stores params lsq queue written sent true) (inside : written < queue.stores.length)
    (following : sent ++ pkt :: rest = queue.stores[written].packets)
    (offered : LsqUnit.sendTimingReq lsq pkt = (accepted, mid)) :
    Stores params mid queue written (if accepted then sent ++ [pkt] else sent) true ∧
      Passed lsq queue written mid queue written ∧ SamePort lsq mid ∧
      mid.senderState = lsq.senderState ∧
      (accepted = true → 0 < mid.unanswered queue.stores[written].seqNum) := by
  have stores' := stores.sendTimingReq inside following
  rw [offered] at stores'
  have equal : mid = (LsqUnit.sendTimingReq lsq pkt).2 := by rw [offered]
  refine ⟨stores', ?_, ?_, ?_, fun yes => ?_⟩
  · rw [equal]
    exact Sends.passed rfl
  · rw [equal]
    exact ⟨rfl, rfl, rfl, rfl⟩
  · rw [equal]
    rfl
  · have packet : pkt ∈ queue.stores[written].packets := by
      rw [← following]
      simp
    have answer : lsq.answers.headD false = true := (Prod.ext_iff.mp offered).1.trans yes
    refine LSQUnit.unanswered_pos ?_ packet
    rw [equal, LsqUnit.sendTimingReq, answer]
    simp

/-- The refused packet was the last one and is sent now. -/
theorem Stores.retryLast
    (stores : Stores params lsq queue written sent true) (inside : written < queue.stores.length)
    (following : sent ++ [pkt] = queue.stores[written].packets)
    (kept : Keeps lsq retry none) (offered : LsqUnit.sendTimingReq lsq pkt = (true, mid))
    (idx : sender.idx = (lsq.senderState pkt.inst).idx)
    (outstanding : sender.outstanding = (lsq.senderState pkt.inst).outstanding)
    (ended : LsqUnit.storePostSend params (mid.setSender pkt.inst sender) = some next) :
    Settles params lsq queue written
      { next with retryPkt := none, isStoreBlocked := false, answers := [] } := by
  obtain ⟨stores', passed, port, senders, unanswered⟩ :=
    stores.offered inside following offered
  rw [← senders] at idx outstanding
  have resumed : Stores params (mid.setSender pkt.inst sender) queue written (sent ++ [pkt])
      true := stores'.setSender idx outstanding
  have quiet : Passed mid queue written (mid.setSender pkt.inst sender) queue written :=
    Sends.passed rfl
  obtain ⟨stores'', passed', frame⟩ :=
    resumed.storePostSend inside following (unanswered rfl) ended
  refine ⟨queue, written + 1, [], false, stores''.port rfl, .idle ⟨rfl, rfl, ?_, ?_⟩, ?_⟩
  · dsimp only
    rw [frame]
    exact (kept.congr port).hasPendingPkt
  · dsimp only
    rw [frame]
    exact (kept.congr port).pendingPkt
  · exact ((passed.trans quiet).trans passed').trans (PortOnly.passed rfl)

/-- The refused packet was the first one of its store. It is sent now, and the second one
is sent or refused. -/
theorem Stores.retryFirst
    (stores : Stores params lsq queue written sent true) (inside : written < queue.stores.length)
    (following : sent ++ [pkt, second] = queue.stores[written].packets)
    (pendingPacket : (lsq.senderState second.inst).pendingPacket = some second)
    (kept : Keeps lsq retry none) (offered : LsqUnit.sendTimingReq lsq pkt = (true, mid))
    (ended : LsqUnit.sendLast params { mid with retryPkt := none, isStoreBlocked := false }
      second = some next) :
    Settles params lsq queue written { next with answers := [] } := by
  obtain ⟨stores', passed, port, senders, -⟩ := stores.offered inside following offered
  have rest : (sent ++ [pkt]) ++ [second] = queue.stores[written].packets := by
    rw [← following]
    simp
  rw [← senders] at pendingPacket
  have only : PortOnly mid { mid with retryPkt := none, isStoreBlocked := false } := rfl
  have kept := kept.congr port
  obtain ⟨settles, -⟩ := (stores'.port only).settles_sendLast inside rest (.inr pendingPacket)
    ⟨rfl, rfl, kept.hasPendingPkt, kept.pendingPkt⟩ ended (.refl _) fun _ kept => kept
  exact ((settles.after (PortOnly.passed only)).after passed).before rfl ⟨rfl, rfl, rfl, rfl⟩

/-- The port asks for the refused packet, and the store goes on. -/
theorem Stores.recvRetry
    {answers : List Bool} (stores : Stores params lsq queue written sent started)
    (hold : Hold lsq queue written sent started)
    (ended : recvRetry params lsq answers = some next) :
    Settles params lsq queue written next := by
  have only : PortOnly lsq { lsq with answers := answers } := rfl
  rw [LsqUnit.recvRetry] at ended
  split at ended
  case isFalse =>
    cases ended
    exact stores.settles hold
  case isTrue blocked =>
    cases hold with
    | idle port =>
        rw [port.isStoreBlocked] at blocked
        cases blocked
    | pending _ _ _ port =>
        rw [port.isStoreBlocked] at blocked
        cases blocked
    | @retry pkt _ rest inside following resumes kept =>
        obtain ⟨packet, refused, ended⟩ := Option.bind_eq_some_iff.mp ended
        rw [kept.retryPkt] at refused
        cases refused
        have kept : Keeps { lsq with answers := answers } (some pkt) none :=
          kept.congr ⟨rfl, rfl, rfl, rfl⟩
        cases offered : LsqUnit.sendTimingReq { lsq with answers := answers } pkt with
        | mk accepted mid =>
        rw [offered] at ended
        dsimp only at ended
        obtain ⟨stores', passed, port, senders, -⟩ :=
            (stores.port only).offered inside following offered
        cases accepted
        · cases ended
          rw [← senders] at resumes
          exact ⟨queue, written, sent, true, stores'.port rfl,
            .retry inside following resumes ((kept.congr port).congr ⟨rfl, rfl, rfl, rfl⟩),
            ((PortOnly.passed only).trans passed).trans (PortOnly.passed rfl)⟩
        · rw [if_pos rfl] at ended
          cases rest with
          | nil =>
              have last : (!(lsq.senderState pkt.inst).pktToSend ||
                  (lsq.senderState pkt.inst).pendingPacket == some pkt) = true := by
                rcases resumes with whole | second
                · simp [whole]
                · simp [second]
              rw [if_pos last, Option.bind_eq_bind, Option.bind_eq_some_iff] at ended
              obtain ⟨after, posted, final⟩ := ended
              cases final
              refine Settles.after ((stores.port only).retryLast inside following kept offered
                ?_ ?_ posted) (PortOnly.passed only)
              · rfl
              · rfl
          | cons second rest =>
              obtain ⟨toSend, carried, distinct⟩ := resumes
              have more : ¬(!(lsq.senderState pkt.inst).pktToSend ||
                  (lsq.senderState pkt.inst).pendingPacket == some pkt) = true := by
                simp [toSend, carried, distinct]
              rw [if_neg more, carried, Option.bind_eq_bind, Option.bind_some] at ended
              have mapped := (sendLast_map _).symm.trans ended
              obtain ⟨after, sentLast, rfl⟩ := Option.map_eq_some_iff.mp mapped
              have none : rest = [] := by
                have small := congrArg List.length following
                have bound : queue.stores[written].packets.length ≤ 2 :=
                  SQEntry.packets_length_le
                rw [List.length_append, List.length_cons, List.length_cons] at small
                exact List.eq_nil_of_length_eq_zero (by omega)
              subst none
              have inst : second.inst = pkt.inst := by
                have first : pkt ∈ queue.stores[written].packets := by simp [← following]
                have last : second ∈ queue.stores[written].packets := by simp [← following]
                rw [SQEntry.inst_of_mem_packets first, SQEntry.inst_of_mem_packets last]
              rw [← inst] at carried
              exact ((stores.port only).retryFirst inside following carried kept offered
                sentLast).after (PortOnly.passed only)

/-- The store that is interrupted has packets to send. -/
theorem Hold.length_lt (hold : Hold lsq queue written sent started) (busy : started = true) :
    ∃ inside : written < queue.stores.length,
      sent.length < queue.stores[written].packets.length := by
  cases hold with
  | idle => cases busy
  | retry inside following =>
      refine ⟨inside, ?_⟩
      rw [← following, List.length_append, List.length_cons]
      omega
  | pending inside following =>
      refine ⟨inside, ?_⟩
      rw [← following, List.length_append, List.length_cons]
      omega

/-- The unit after an answer is counted. -/
def takeAnswer (lsq : LSQUnit) (pkt : Packet) : LSQUnit :=
  { lsq.setSender pkt.inst
      { lsq.senderState pkt.inst with
        outstanding := ((lsq.senderState pkt.inst).outstanding + 255) % 256 } with
    inFlight := lsq.inFlight.erase pkt }

section

variable (stores : Stores params lsq queue written sent started)
include stores

/-- A store with an unanswered packet expects an answer. -/
theorem Stores.outstanding_pos (member : pkt ∈ lsq.inFlight) :
    0 < (lsq.senderState pkt.inst).outstanding := by
  obtain ⟨i, inside, packet, unanswered, place⟩ := stores.sending.exists_index member
  rw [SQEntry.inst_of_mem_packets packet]
  have parts : queue.stores[i].parts ≠ [] := by
    intro none
    rw [SQEntry.packets, none] at packet
    cases packet
  rcases place with before | ⟨busy, rfl⟩
  · rw [((stores.sending.course i inside).sender before parts).2]
    exact unanswered
  · obtain ⟨_, current⟩ := stores.sending.current busy
    have count := current.outstanding
    have bound := current.inOrder.length_le
    omega

/-- The answer is counted without wrapping. -/
theorem Stores.answers_takeAnswer (member : pkt ∈ lsq.inFlight) :
    Answers lsq pkt (takeAnswer lsq pkt) := by
  have positive := stores.outstanding_pos member
  have small := stores.sending.small pkt.inst
  have counted : (takeAnswer lsq pkt).senderState pkt.inst =
      { lsq.senderState pkt.inst with
        outstanding := ((lsq.senderState pkt.inst).outstanding + 255) % 256 } :=
    Function.update_self ..
  refine ⟨member, rfl, ?_, ?_, fun seq apart => Function.update_of_ne apart .., rfl⟩
  · rw [counted]
  · rw [counted]
    dsimp only
    omega

/-- The last answer comes for a store that is sent. -/
theorem Stores.sent_of_last
    (hold : Hold lsq queue written sent started) (member : pkt ∈ lsq.inFlight)
    (last : (lsq.senderState pkt.inst).outstanding = 1) :
    ∃ i, ∃ inside : i < queue.stores.length, pkt ∈ queue.stores[i].packets ∧ i < written := by
  obtain ⟨i, inside, packet, unanswered, place⟩ := stores.sending.exists_index member
  refine ⟨i, inside, packet, ?_⟩
  rcases place with before | ⟨busy, rfl⟩
  · exact before
  · -- the store at the write-back index expects an answer for each packet not yet sent
    obtain ⟨_, current⟩ := stores.sending.current busy
    obtain ⟨_, more⟩ := hold.length_lt busy
    have count := current.outstanding
    rw [← SQEntry.inst_of_mem_packets packet] at count unanswered
    omega

/-- A packet is answered, and with the last its store is completed. -/
theorem Stores.completeDataAccess
    (hold : Hold lsq queue written sent started) (member : pkt ∈ lsq.inFlight)
    (ended : completeDataAccess params lsq pkt = some next) :
    Settles params lsq queue written next := by
  have answers := stores.answers_takeAnswer member
  have positive := stores.outstanding_pos member
  have small := stores.sending.small pkt.inst
  have counted : (takeAnswer lsq pkt).senderState pkt.inst =
      { lsq.senderState pkt.inst with
        outstanding := ((lsq.senderState pkt.inst).outstanding + 255) % 256 } :=
    Function.update_self ..
  have resume : SameResume lsq (takeAnswer lsq pkt) := by
    intro seq
    by_cases same : seq = pkt.inst
    · rw [same, counted]
      exact ⟨rfl, rfl⟩
    · rw [answers.others seq same]
      exact ⟨rfl, rfl⟩
  have unfolded : (if ((lsq.senderState pkt.inst).outstanding + 255) % 256 ≠ 0 then
      some (takeAnswer lsq pkt)
    else if ((takeAnswer lsq pkt).insts pkt.inst).isSquashed then some (takeAnswer lsq pkt)
    else completeStore params (takeAnswer lsq pkt) (lsq.senderState pkt.inst).idx) =
      some next := ended
  split at unfolded
  case isTrue more =>
    cases unfolded
    refine ⟨queue, written, sent, started, ⟨?_, ?_, ?_⟩, ?_, ?_⟩
    · exact stores.rings.congr rfl rfl rfl rfl rfl rfl rfl rfl rfl rfl rfl
    · exact stores.writeback.congr rfl rfl
    · refine stores.sending.answer stores.rings answers ?_ rfl rfl
      rw [counted]
      exact more
    · exact hold.congr ⟨rfl, rfl, rfl, rfl⟩ resume fun _ inside => ⟨inside, rfl⟩
    · exact Sends.passed rfl
  case isFalse none =>
    obtain ⟨i, inside, packet, before⟩ := stores.sent_of_last hold member (by omega)
    have inst := SQEntry.inst_of_mem_packets packet
    have course := stores.sending.course i inside
    have waits := stores.sending.not_completed inside packet before member
    have parts : queue.stores[i].parts ≠ [] := by
      intro none
      rw [SQEntry.packets, none] at packet
      cases packet
    have fromHead : queue.storeHead ≤ i := by
      by_contra gone
      rw [(stores.writeback.marks i inside).left (by omega)] at waits
      cases waits
    have alive : ((takeAnswer lsq pkt).insts pkt.inst).isSquashed = false := by
      rw [answers.insts, inst]
      exact course.unsquashed
    have idx := (course.sender before parts).1
    rw [← inst] at idx
    rw [alive, if_neg Bool.false_ne_true, idx] at unfolded
    have rings : Rings params (takeAnswer lsq pkt) queue :=
      stores.rings.congr rfl rfl rfl rfl rfl rfl rfl rfl rfl rfl rfl
    obtain ⟨head, completes⟩ := rings.completeStore fromHead inside unfolded
    have frame := completes.frame
    have senders : next.senderState = (takeAnswer lsq pkt).senderState := by rw [frame]
    have answers' : Answers lsq pkt next := by
      refine ⟨member, ?_, ?_, ?_, ?_, ?_⟩
      · rw [frame]
        exact answers.inFlight
      · rw [senders]
        exact answers.idx
      · rw [senders]
        exact answers.outstanding
      · rw [senders]
        exact answers.others
      · rw [frame]
        exact answers.insts
    refine ⟨_, written, sent, started, ⟨completes.rings inside, ?_, ?_⟩, ?_, ?_⟩
    · have writeback : Writeback params (takeAnswer lsq pkt) queue written :=
        stores.writeback.congr rfl rfl
      refine writeback.complete inside (.inl ⟨rfl, before⟩)
        ((stores.writeback.marks i inside).sent before) waits completes ?_ ?_
      · rw [frame]
        exact stores.writeback.idx
      · rw [frame]
    · refine stores.sending.complete stores.rings answers' ?_ inside packet before head ?_ ?_
      · rw [senders, counted]
        dsimp only
        omega
      · rw [frame]
        rfl
      · intro tso
        rw [frame]
        exact if_pos tso
    · refine hold.congr ?_ (fun seq => ?_) fun _ inside' => ⟨by rwa [List.length_set], ?_⟩
      · constructor <;> rw [frame] <;> rfl
      · rw [senders]
        exact resume seq
      · dsimp only
        rw [List.getElem_set_ne (Nat.ne_of_lt before)]
    · refine .of_replays ?_ (.set inside head rfl rfl rfl) (Nat.le_refl _)
        (fun _ _ _ _ => by omega) completes.replays
      constructor <;> rw [frame] <;> rfl

end

end LsqUnit
end Dolma

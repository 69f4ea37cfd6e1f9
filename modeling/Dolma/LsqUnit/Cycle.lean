import Dolma.LsqUnit.Stores

/-!
# Cycles of the write-back

A split store can be interrupted between its packets in three ways: no port is left for
the second packet, the first packet is refused, or the second one is. In each case the
port keeps what is needed to go on, and what it keeps is the next packet of the store at
the write-back index.
-/

namespace Dolma
namespace LsqUnit

open Library LSQUnit

/-- After the packet the sender goes on with the rest. -/
def Resumes (sender : LSQSenderState) (pkt : Packet) : List Packet → Prop
  | [] => sender.pktToSend = false ∨ sender.pendingPacket = some pkt
  | second :: _ =>
      sender.pktToSend = true ∧ sender.pendingPacket = some second ∧ second ≠ pkt

/-- Nothing waits in the port. -/
abbrev Idle (lsq : LSQUnit) : Prop := Keeps lsq none none

/-- The packet at which the store at the write-back index is interrupted. -/
inductive Hold (lsq : LSQUnit) (queue : Queue) (written : Nat) : List Packet → Bool → Prop
  | idle (port : Idle lsq) : Hold lsq queue written [] false
  | retry
      {pkt : Packet}
      {sent rest : List Packet}
      (inside : written < queue.stores.length)
      (following : sent ++ pkt :: rest = queue.stores[written].packets)
      (resumes : Resumes (lsq.senderState pkt.inst) pkt rest)
      (port : Keeps lsq (some pkt) none) : Hold lsq queue written sent true
  | pending
      {pkt : Packet}
      {sent : List Packet}
      (inside : written < queue.stores.length)
      (following : sent ++ [pkt] = queue.stores[written].packets)
      (resumes : Resumes (lsq.senderState pkt.inst) pkt [])
      (port : Keeps lsq none (some pkt)) : Hold lsq queue written sent true

/-- The unit gets to a state in which its parts agree. -/
def Settles
    (params : Params) (lsq : LSQUnit) (queue : Queue) (written : Nat) (next : LSQUnit) : Prop :=
  ∃ queue' written' sent started, Stores params next queue' written' sent started ∧
    Hold next queue' written' sent started ∧ Passed lsq queue written next queue' written'

variable {params : Params} {lsq mid next : LSQUnit} {queue queue' : Queue}
  {written written' : Nat} {sent : List Packet} {pkt : Packet} {started : Bool}

theorem Settles.after
    (settles : Settles params mid queue' written' next)
    (passed : Passed lsq queue written mid queue' written') :
    Settles params lsq queue written next := by
  obtain ⟨queue'', written'', sent, started, stores, hold, rest⟩ := settles
  exact ⟨queue'', written'', sent, started, stores, hold, passed.trans rest⟩

/-- Senders go on in the same way. -/
def SameResume (lsq next : LSQUnit) : Prop :=
  ∀ seq, (next.senderState seq).pktToSend = (lsq.senderState seq).pktToSend ∧
    (next.senderState seq).pendingPacket = (lsq.senderState seq).pendingPacket

variable {seq : Nat} {sender : LSQSenderState}

/-- The rest of the store is sent in the same way. -/
theorem Resumes.congr
    (resumes : Resumes sender pkt rest) (pktToSend : sender'.pktToSend = sender.pktToSend)
    (pendingPacket : sender'.pendingPacket = sender.pendingPacket) :
    Resumes sender' pkt rest := by
  cases rest
  · rw [Resumes, pktToSend, pendingPacket]
    exact resumes
  · rw [Resumes, pktToSend, pendingPacket]
    exact resumes

/-- What is interrupted depends on the port, the senders and the packets. -/
theorem Hold.congr
    (hold : Hold lsq queue written sent started) (same : SamePort lsq next)
    (senders : SameResume lsq next)
    (packets : started = true → ∀ inside : written < queue.stores.length,
      ∃ inside' : written < queue'.stores.length,
        queue'.stores[written].packets = queue.stores[written].packets) :
    Hold next queue' written sent started := by
  cases hold with
  | idle port => exact .idle (port.congr same)
  | retry inside following resumes port =>
      obtain ⟨inside', equal⟩ := packets rfl inside
      exact .retry inside' (following.trans equal.symm)
        (resumes.congr (senders _).1 (senders _).2) (port.congr same)
  | pending inside following resumes port =>
      obtain ⟨inside', equal⟩ := packets rfl inside
      exact .pending inside' (following.trans equal.symm)
        (resumes.congr (senders _).1 (senders _).2) (port.congr same)

theorem Settles.before
    (settles : Settles params lsq queue written mid) (only : PortOnly mid next)
    (same : SamePort mid next) :
    Settles params lsq queue written next := by
  obtain ⟨queue', written', sent, started, stores, hold, passed⟩ := settles
  refine ⟨queue', written', sent, started, stores.port only,
    hold.congr same (fun _ => ?_) fun _ inside => ⟨inside, rfl⟩, passed.trans only.passed⟩
  rw [PortOnly] at only
  rw [only]
  exact ⟨rfl, rfl⟩

/-- The last packet is sent or refused, and no packet waits for a port any more. -/
theorem Stores.settles_sendLast
    (stores : Stores params lsq queue written sent true) (inside : written < queue.stores.length)
    (following : sent ++ [pkt] = queue.stores[written].packets)
    (resumes : Resumes (lsq.senderState pkt.inst) pkt []) (port : Keeps lsq none pending)
    (ended : LsqUnit.sendLast params lsq pkt = some mid) (only : PortOnly mid next)
    (freed : ∀ retry, Keeps mid retry pending → Keeps next retry none) :
    Settles params lsq queue written next ∧ next.hasPendingPkt = false := by
  rcases stores.sendLast inside following ended with
    ⟨stores', passed, same⟩ | ⟨stores', passed, same, senders⟩
  · have idle := freed none (port.congr same)
    exact ⟨⟨queue, written + 1, [], false, stores'.port only, .idle idle,
      passed.trans only.passed⟩, idle.hasPendingPkt⟩
  · have sameSenders : next.senderState = mid.senderState := by
      rw [PortOnly] at only
      rw [only]
    have kept : Keeps { lsq with isStoreBlocked := true, retryPkt := some pkt } (some pkt)
        pending := ⟨rfl, rfl, port.hasPendingPkt, port.pendingPkt⟩
    have refused := freed (some pkt) (kept.congr same)
    refine ⟨⟨queue, written, sent, true, stores'.port only, .retry inside following ?_ refused,
      passed.trans only.passed⟩, refused.hasPendingPkt⟩
    rw [sameSenders, senders]
    exact resumes

theorem Stores.settles
    (stores : Stores params lsq queue written sent started)
    (hold : Hold lsq queue written sent started) :
    Settles params lsq queue written lsq :=
  ⟨queue, written, sent, started, stores, hold, Sends.passed rfl⟩

theorem sendLast_map (change : LSQUnit → LSQUnit) :
    (do
      let (sent, lsq) ← LsqUnit.sendStore lsq pkt
      let lsq ← if sent then LsqUnit.storePostSend params lsq else some lsq
      return change lsq) = (LsqUnit.sendLast params lsq pkt).map change := by
  rw [LsqUnit.sendLast]
  cases LsqUnit.sendStore lsq pkt with
  | none => rfl
  | some result =>
      obtain ⟨accepted, mid⟩ := result
      cases accepted
      · rfl
      · cases sent : LsqUnit.storePostSend params mid <;> simp [sent]

/-- The packet that waits for a port is sent first. -/
theorem Stores.writebackPendingStore
    (stores : Stores params lsq queue written sent started)
    (hold : Hold lsq queue written sent started)
    (ended : writebackPendingStore params lsq = some next) :
    Settles params lsq queue written next ∧ next.hasPendingPkt = false := by
  cases hold with
  | idle port =>
      rw [LsqUnit.writebackPendingStore, port.hasPendingPkt] at ended
      cases ended
      exact ⟨stores.settles (.idle port), port.hasPendingPkt⟩
  | retry inside following resumes port =>
      rw [LsqUnit.writebackPendingStore, port.hasPendingPkt] at ended
      cases ended
      exact ⟨stores.settles (.retry inside following resumes port), port.hasPendingPkt⟩
  | pending inside following resumes port =>
      rw [LsqUnit.writebackPendingStore, port.hasPendingPkt, Option.isSome_some, if_pos rfl,
        port.pendingPkt] at ended
      have mapped := (sendLast_map _).symm.trans ended
      obtain ⟨mid, sent, rfl⟩ := Option.map_eq_some_iff.mp mapped
      exact stores.settles_sendLast inside following resumes port sent rfl
        fun _ kept => ⟨kept.isStoreBlocked, kept.retryPkt, rfl, rfl⟩

/-- The second packet is sent, refused or waits for a port. -/
theorem Stores.sendSecond
    (stores : Stores params lsq queue written sent true) (inside : written < queue.stores.length)
    (following : sent ++ [pkt] = queue.stores[written].packets)
    (resumes : Resumes (lsq.senderState pkt.inst) pkt []) (port : Idle lsq)
    (ended : sendSecond params lsq pkt = some next) :
    Settles params lsq queue written next ∧
      (next.hasPendingPkt = true → params.cacheStorePorts ≤ next.usedStorePorts) := by
  rw [LsqUnit.sendSecond] at ended
  split at ended
  case isTrue free =>
    have last : LsqUnit.sendLast params
        { lsq with usedStorePorts := lsq.usedStorePorts + 1 } pkt = some next := ended
    have used : PortOnly lsq { lsq with usedStorePorts := lsq.usedStorePorts + 1 } := rfl
    obtain ⟨settles, none⟩ := (stores.port used).settles_sendLast inside following resumes
      (port.congr ⟨rfl, rfl, rfl, rfl⟩) last (.refl _) fun _ kept => kept
    refine ⟨settles.after (PortOnly.passed used), fun waits => ?_⟩
    rw [none] at waits
    cases waits
  case isFalse full =>
    obtain ⟨-, last⟩ := Option.ite_none_left_eq_some.mp ended
    cases last
    refine ⟨⟨queue, written, sent, true, stores.port rfl,
      .pending inside following resumes ⟨port.isStoreBlocked, port.retryPkt, rfl, rfl⟩,
      PortOnly.passed rfl⟩, fun _ => Nat.le_of_not_lt full⟩

/-- The unit after the store at the write-back index is started. -/
def startStore (lsq : LSQUnit) (entry : SQEntry) (seq : Nat) : LSQUnit :=
  (lsq.setEntry lsq.storeWBIdx entry.setCommitted).setSender seq (newSender lsq entry)

/-- The queue after the store at the write-back index is started. -/
def Queue.start (queue : Queue) (written : Nat) (entry : SQEntry) : Queue :=
  { queue with stores := queue.stores.set written entry.setCommitted }

theorem Queue.getElem_start (inside : written < (queue.start written entry).stores.length) :
    (queue.start written entry).stores[written] = entry.setCommitted :=
  List.getElem_set_self _

/-- The store at the write-back index is started. -/
theorem Stores.start
    (stores : Stores params lsq queue written [] false) (inside : written < queue.stores.length)
    (allowed : queue.stores[written].canWB = true)
    (alone : params.needsTSO = true → lsq.storeInFlight = false)
    (packets : queue.stores[written].packets.length =
      if queue.stores[written].isSplit then 2 else 1) :
    Stores params (startStore lsq queue.stores[written] queue.stores[written].seqNum)
        (queue.start written queue.stores[written]) written [] true ∧
      Passed lsq queue written
        (startStore lsq queue.stores[written] queue.stores[written].seqNum)
        (queue.start written queue.stores[written]) written := by
  obtain ⟨rings, writeback, sending⟩ := stores
  have small : written % params.sqEntries % 256 = written % params.sqEntries := by
    have below := Nat.mod_lt written rings.storeRing.positive
    have bound : params.sqEntries ≤ 256 := params.sqBound
    exact Nat.mod_eq_of_lt (by omega)
  have idx : (newSender lsq queue.stores[written]).idx = written % params.sqEntries := by
    rw [newSender, writeback.idx]
    exact small
  refine ⟨⟨?_, ?_, ?_⟩, Passed.stay ?_ (.set inside _ rfl rfl rfl) rfl rfl rfl⟩
  · have rings : Rings params
        (lsq.setEntry (written % params.sqEntries) queue.stores[written].setCommitted)
        (queue.start written queue.stores[written]) :=
      rings.setEntry writeback.head_le inside rfl
    rw [← writeback.idx] at rings
    exact rings.congr rfl rfl rfl rfl rfl rfl rfl rfl rfl rfl rfl
  · have marked : Writeback params lsq (queue.start written queue.stores[written]) written :=
      writeback.set inside rfl rfl rfl
    exact marked.congr rfl rfl
  · exact sending.start rings inside allowed alone idx packets.symm rfl rfl rfl rfl rfl
  · exact ⟨rfl, rfl, rfl, rfl, rfl, rfl, rfl, rfl, rfl⟩

theorem setSender_self (lsq : LSQUnit) (seq : Nat) (sender : LSQSenderState) :
    (lsq.setSender seq sender).senderState seq = sender :=
  Function.update_self ..

theorem setSender_other (lsq : LSQUnit) (sender : LSQSenderState) (apart : other ≠ seq) :
    (lsq.setSender seq sender).senderState other = lsq.senderState other :=
  Function.update_of_ne apart ..

/-- The sender goes on in another way, with the same index and as many answers. -/
theorem Stores.setSender
    (stores : Stores params lsq queue written sent started)
    (idx : sender.idx = (lsq.senderState seq).idx)
    (outstanding : sender.outstanding = (lsq.senderState seq).outstanding) :
    Stores params (lsq.setSender seq sender) queue written sent started where
  rings := stores.rings.congr rfl rfl rfl rfl rfl rfl rfl rfl rfl rfl rfl
  writeback := stores.writeback.congr rfl rfl
  sending := by
    refine stores.sending.congr (fun other => ?_) rfl rfl rfl fun _ _ => rfl
    by_cases same : other = seq
    · subst same
      rw [setSender_self]
      exact ⟨idx, outstanding⟩
    · rw [setSender_other lsq sender same]
      exact ⟨rfl, rfl⟩

/-- The halves of a split store are sent one after the other, as far as possible. -/
theorem Stores.sendHalves
    (stores : Stores params lsq queue written [] true) (inside : written < queue.stores.length)
    (following : [⟨seq, .low⟩, ⟨seq, .high⟩] = queue.stores[written].packets)
    (fresh : (lsq.senderState seq).pktToSend = false) (port : Idle lsq)
    (offered : LsqUnit.sendStore lsq ⟨seq, .low⟩ = some (accepted, mid))
    (ended : (if accepted then LsqUnit.sendSecond params mid ⟨seq, .high⟩
      else some (mid.setSender seq
        { lsq.senderState seq with
          pktToSend := true
          pendingPacket := some ⟨seq, .high⟩ })) = some next) :
    Settles params lsq queue written next ∧
      (next.hasPendingPkt = true → params.cacheStorePorts ≤ next.usedStorePorts) := by
  obtain ⟨stores', frame⟩ := stores.sendStore inside following offered
  have senders : mid.senderState = lsq.senderState := by rw [frame]
  have passed : Passed lsq queue written mid queue written :=
    Sends.passed (by rw [Sends, frame])
  cases accepted
  · -- the first half is refused, and the second one is kept with it
    cases ended
    have refused : Keeps mid (some ⟨seq, .low⟩) none := by
      rw [frame]
      exact ⟨rfl, rfl, port.hasPendingPkt, port.pendingPkt⟩
    refine ⟨⟨queue, written, [], true, stores'.setSender ?_ ?_,
      .retry inside following ?_ (refused.congr ⟨rfl, rfl, rfl, rfl⟩),
      passed.trans (Sends.passed rfl)⟩, fun waits => ?_⟩
    · rw [senders]
    · rw [senders]
    · rw [setSender_self]
      exact ⟨rfl, rfl, by simp⟩
    · rw [LSQUnit.setSender, refused.hasPendingPkt] at waits
      cases waits
  · have port' : Idle mid := by
      rw [frame]
      exact port.congr ⟨rfl, rfl, rfl, rfl⟩
    have resumes : Resumes (mid.senderState seq) ⟨seq, .high⟩ [] := by
      left
      rw [senders]
      exact fresh
    obtain ⟨settles, ports⟩ := stores'.sendSecond inside following resumes port' ended
    exact ⟨settles.after passed, ports⟩

/-- The store at the write-back index may be interrupted. -/
theorem Stores.writebackStore
    (stores : Stores params lsq queue written [] false) (port : Idle lsq)
    (inside : written < queue.stores.length) (allowed : queue.stores[written].canWB = true)
    (alone : params.needsTSO = true → lsq.storeInFlight = false)
    (nonempty : queue.stores[written].size ≠ 0)
    (ended : writebackStore params lsq queue.stores[written] queue.stores[written].seqNum =
      some next) :
    Settles params lsq queue written next ∧
      (next.hasPendingPkt = true → params.cacheStorePorts ≤ next.usedStorePorts) := by
  have plain := (stores.writeback.marks written inside).plain
  rw [LsqUnit.writebackStore, Option.ite_none_left_eq_some] at ended
  obtain ⟨-, ended⟩ := ended
  dsimp only at ended
  split at ended
  case isTrue mapped =>
    have none : queue.stores[written].parts = [] := by simp [SQEntry.parts, mapped]
    obtain ⟨mid, completed, last⟩ := Option.bind_eq_some_iff.mp ended
    cases last
    obtain ⟨queue', stores', passed, same⟩ :=
      stores.skip inside allowed alone none rfl completed
    have idle : Idle mid := port.congr same
    refine ⟨⟨queue', written + 1, [], false, stores', .idle ?_, passed⟩, fun waits => ?_⟩
    · exact idle.congr ⟨rfl, rfl, rfl, rfl⟩
    · rw [idle.hasPendingPkt] at waits
      cases waits
  case isFalse unmapped =>
    have parts : queue.stores[written].parts =
        if queue.stores[written].isSplit then [.low, .high] else [.whole] := by
      rw [SQEntry.parts, if_neg (by simpa [plain, unmapped] using nonempty)]
    have count : queue.stores[written].packets.length =
        if queue.stores[written].isSplit then 2 else 1 := by
      rw [SQEntry.packets, List.length_map, parts]
      split <;> rfl
    obtain ⟨started, passed⟩ := stores.start inside allowed alone count
    have port' : Idle (startStore lsq queue.stores[written] queue.stores[written].seqNum) :=
      port.congr ⟨rfl, rfl, rfl, rfl⟩
    have inside' : written < (queue.start written queue.stores[written]).stores.length := by
      rwa [Queue.start, List.length_set]
    have packets : (queue.start written queue.stores[written]).stores[written].packets =
        queue.stores[written].packets := by
      rw [Queue.getElem_start inside', SQEntry.packets_setCommitted]
    have carried : (startStore lsq queue.stores[written]
        queue.stores[written].seqNum).senderState queue.stores[written].seqNum =
          newSender lsq queue.stores[written] := setSender_self ..
    by_cases split : queue.stores[written].isSplit = true
    · rw [if_pos split] at parts
      simp only [split, if_true] at ended
      obtain ⟨⟨accepted, mid⟩, offered, rest⟩ := Option.bind_eq_some_iff.mp ended
      have following : [⟨queue.stores[written].seqNum, .low⟩,
          ⟨queue.stores[written].seqNum, .high⟩] =
            (queue.start written queue.stores[written]).stores[written].packets := by
        rw [packets, SQEntry.packets, parts]
        rfl
      have fresh : ((startStore lsq queue.stores[written]
          queue.stores[written].seqNum).senderState
            queue.stores[written].seqNum).pktToSend = false := by
        rw [carried]
        rfl
      obtain ⟨settles, ports⟩ := started.sendHalves inside' following fresh port' offered
        (by rw [carried]; exact rest)
      exact ⟨settles.after passed, ports⟩
    · rw [if_neg split] at parts
      simp only [split] at ended
      have last : LsqUnit.sendLast params
          (startStore lsq queue.stores[written] queue.stores[written].seqNum)
          ⟨queue.stores[written].seqNum, .whole⟩ = some next := ended
      have following : [] ++ [⟨queue.stores[written].seqNum, .whole⟩] =
          (queue.start written queue.stores[written]).stores[written].packets := by
        rw [packets, SQEntry.packets, parts]
        rfl
      have resumes : Resumes ((startStore lsq queue.stores[written]
          queue.stores[written].seqNum).senderState queue.stores[written].seqNum)
          ⟨queue.stores[written].seqNum, .whole⟩ [] := by
        left
        rw [carried]
        rfl
      obtain ⟨settles, none⟩ := started.settles_sendLast inside' following resumes port' last
        (.refl _) fun _ kept => kept
      refine ⟨settles.after passed, fun waits => ?_⟩
      rw [none] at waits
      cases waits

/-- If a store may be written back, none is interrupted. -/
theorem Hold.idle_of_mayWriteback
    (hold : Hold lsq queue written sent started)
    (ports : lsq.hasPendingPkt = true → params.cacheStorePorts ≤ lsq.usedStorePorts)
    (may : mayWriteback params lsq = true) :
    Idle lsq ∧ sent = [] ∧ started = false := by
  simp only [mayWriteback, Bool.and_eq_true, decide_eq_true_eq, Bool.not_eq_true'] at may
  cases hold with
  | idle port => exact ⟨port, rfl, rfl⟩
  | retry _ _ _ port =>
      rw [port.isStoreBlocked] at may
      cases may.2
  | pending _ _ _ port =>
      have none := ports port.hasPendingPkt
      omega

/-- Stores are written back one after the other. -/
theorem Stores.writebackLoop
    (bound : Nat) (stores : Stores params lsq queue written sent started)
    (hold : Hold lsq queue written sent started)
    (ports : lsq.hasPendingPkt = true → params.cacheStorePorts ≤ lsq.usedStorePorts)
    (ended : writebackLoop params bound lsq = some next) :
    Settles params lsq queue written next := by
  induction bound generalizing lsq queue written sent started with
  | zero =>
      cases ended
      exact stores.settles hold
  | succ bound ih =>
      rw [LsqUnit.writebackLoop] at ended
      split at ended
      case isFalse =>
        cases ended
        exact stores.settles hold
      case isTrue may =>
        obtain ⟨port, rfl, rfl⟩ := hold.idle_of_mayWriteback ports may
        simp only [mayWriteback, Bool.and_eq_true, decide_eq_true_eq, Bool.or_eq_true,
          Bool.not_eq_true'] at may
        obtain ⟨⟨⟨⟨⟨⟨-, further⟩, -⟩, allowed⟩, inFlight⟩, -⟩, -⟩ := may
        have inside := stores.writeback.lt_length stores.rings further
        have slot := stores.writeback.slot stores.rings inside
        rw [slot] at allowed
        have alone : params.needsTSO = true → lsq.storeInFlight = false := by
          intro tso
          rw [tso] at inFlight
          simpa using inFlight
        simp only [slot, stores.rings.inst_eq inside, Option.bind_eq_bind,
          Option.bind_some] at ended
        split at ended
        case isTrue empty =>
          obtain ⟨mid, completed, rest⟩ := Option.bind_eq_some_iff.mp ended
          have unchanged : lsq.setEntry lsq.storeWBIdx queue.stores[written] = lsq := by
            rw [← slot, LSQUnit.setEntry, Function.update_eq_self]
          rw [← unchanged] at completed
          have none : queue.stores[written].parts = [] := by simp [SQEntry.parts, empty]
          obtain ⟨queue', stores', passed, same⟩ :=
            stores.skip inside allowed alone none rfl completed
          have idle : Idle { mid with
              storeWBIdx := Ring.next params.sqEntries mid.storeWBIdx } :=
            (port.congr same).congr ⟨rfl, rfl, rfl, rfl⟩
          refine (ih stores' (.idle idle) (fun waits => ?_) rest).after passed
          rw [idle.hasPendingPkt] at waits
          cases waits
        case isFalse nonempty =>
          rw [(stores.writeback.marks written inside).plain] at ended
          simp only [Bool.false_eq_true, if_false] at ended
          obtain ⟨mid, wrote, rest⟩ := Option.bind_eq_some_iff.mp ended
          have used : PortOnly lsq { lsq with usedStorePorts := lsq.usedStorePorts + 1 } := rfl
          have port' : Idle { lsq with usedStorePorts := lsq.usedStorePorts + 1 } :=
            port.congr ⟨rfl, rfl, rfl, rfl⟩
          obtain ⟨⟨queue', written', sent, started, stores', hold', passed⟩, ports'⟩ :=
            (stores.port used).writebackStore port' inside allowed alone nonempty wrote
          exact ((ih stores' hold' ports' rest).after passed).after (PortOnly.passed used)

/-- A cycle's stores are written back, after the packet that waits for a port. -/
theorem Stores.writebackStores
    {answers : List Bool} (stores : Stores params lsq queue written sent started)
    (hold : Hold lsq queue written sent started)
    (ended : writebackStores params lsq answers = some next) :
    Settles params lsq queue written next := by
  rw [LsqUnit.writebackStores, Option.bind_eq_bind, Option.bind_eq_some_iff] at ended
  obtain ⟨mid, pending, ended⟩ := ended
  obtain ⟨last, looped, rest⟩ := Option.bind_eq_some_iff.mp ended
  cases rest
  have only : PortOnly lsq { lsq with answers := answers } := rfl
  obtain ⟨⟨queue', written', sent, started, stores', hold', passed⟩, none⟩ :=
    (stores.port only).writebackPendingStore
      (hold.congr ⟨rfl, rfl, rfl, rfl⟩ (fun _ => ⟨rfl, rfl⟩) fun _ inside => ⟨inside, rfl⟩) pending
  have settles := stores'.writebackLoop params.sqEntries hold' (fun waits => by
    rw [none] at waits
    cases waits) looped
  exact ((settles.after passed).after (PortOnly.passed only)).before rfl ⟨rfl, rfl, rfl, rfl⟩

end LsqUnit
end Dolma

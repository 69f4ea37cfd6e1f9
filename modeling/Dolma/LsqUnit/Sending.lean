import Dolma.LsqUnit.Writeback

/-!
# Stores on their way to memory

The packets that the memory port has accepted are those of the stores before the
write-back index, in program order, and some of the packets of the store at the
write-back index. A store is completed when all of its packets are answered.
-/

namespace Dolma
namespace LsqUnit

open Library LSQUnit

/-- The packets in which an entry goes to memory. -/
def SQEntry.packets (entry : SQEntry) : List Packet :=
  entry.parts.map (Packet.mk entry.seqNum)

/-- The store of an entry and its parts, if it is committed. -/
def SQEntry.claim (entry : SQEntry) : Option (Nat × List Part) :=
  if entry.canWB then some (entry.seqNum, entry.parts) else none

/-- The packet the port has accepted, if this is what has happened. -/
def Happening.accepted? : Happening → Option Packet
  | .offered pkt true => some pkt
  | _ => none

/-- The store that is committed and its parts, if this is what has happened. -/
def Happening.committed? : Happening → Option (Nat × List Part)
  | .committed store parts => some (store, parts)
  | _ => none

/-- The packets the port has accepted, in order. -/
def acceptedPackets (trace : List Happening) : List Packet :=
  trace.filterMap Happening.accepted?

/-- The stores that are committed, in order. -/
def committedStores (trace : List Happening) : List (Nat × List Part) :=
  trace.filterMap Happening.committed?

@[simp] theorem acceptedPackets_append (trace rest : List Happening) :
    acceptedPackets (trace ++ rest) = acceptedPackets trace ++ acceptedPackets rest :=
  List.filterMap_append

@[simp] theorem committedStores_append (trace rest : List Happening) :
    committedStores (trace ++ rest) = committedStores trace ++ committedStores rest :=
  List.filterMap_append

/-- No packet is accepted while stores are noted as committed. -/
theorem acceptedPackets_notes (entries : List SQEntry) :
    acceptedPackets (entries.map SQEntry.note) = [] := by
  rw [acceptedPackets, List.filterMap_map, List.filterMap_eq_nil_iff]
  intro entry _
  rfl

theorem committedStores_notes (entries : List SQEntry) :
    committedStores (entries.map SQEntry.note) =
      entries.map fun entry => (entry.seqNum, entry.parts) := by
  rw [committedStores, List.filterMap_map]
  exact congrFun List.filterMap_eq_map _

/-- The number of unanswered packets of a store. -/
def LSQUnit.unanswered (lsq : LSQUnit) (seq : Nat) : Nat :=
  lsq.inFlight.countP fun pkt => pkt.inst == seq

/-- The first packet of a store is offered after all older committed stores are
completed. -/
def InOrder (trace : List Happening) (stores : List SQEntry) : Prop :=
  ∀ before pkt accepted after, trace = before ++ .offered pkt accepted :: after →
    pkt.part ≠ .high → ∀ entry ∈ stores, entry.canWB = true → entry.seqNum < pkt.inst →
      .completed entry.seqNum ∈ before

/-- The course of a store, by its number. The store at the write-back index may have been
started. -/
structure Course
    (params : Params) (lsq : LSQUnit) (written : Nat) (started : Bool) (i : Nat)
    (entry : SQEntry) : Prop where
  sender : i < written → entry.parts ≠ [] →
    (lsq.senderState entry.seqNum).idx = i % params.sqEntries ∧
      (lsq.senderState entry.seqNum).outstanding = lsq.unanswered entry.seqNum
  answered : i < written → (entry.completed = true ↔ lsq.unanswered entry.seqNum = 0)
  fresh : written ≤ i → (started = true → i ≠ written) →
    entry.committed = false ∧ lsq.unanswered entry.seqNum = 0
  noted : entry.completed = true → .completed entry.seqNum ∈ lsq.trace
  unsquashed : (lsq.insts entry.seqNum).isSquashed = false
  /-- With total store order only the last store that is sent may be open. -/
  tso : params.needsTSO = true → i < written →
    (lsq.storeInFlight = true → i + 1 ≠ written) → entry.completed = true

/-- The store at the write-back index is started, and some of its packets are sent. -/
structure Current
    (params : Params) (lsq : LSQUnit) (written : Nat) (sent : List Packet)
    (entry : SQEntry) : Prop where
  allowed : entry.canWB = true
  idx : (lsq.senderState entry.seqNum).idx = written % params.sqEntries
  outstanding : (lsq.senderState entry.seqNum).outstanding + sent.length =
    lsq.unanswered entry.seqNum + entry.packets.length
  inOrder : sent <+: entry.packets
  alone : params.needsTSO = true → lsq.storeInFlight = false

/-- What has happened to the stores: those that are committed, and the packets that were offered
and accepted. -/
structure Traced
    (params : Params) (trace : List Happening) (stores : List SQEntry) (written : Nat)
    (sent : List Packet) : Prop where
  accepted : acceptedPackets trace =
    ((stores.map SQEntry.packets).take written).flatten ++ sent
  committed : committedStores trace = (stores.map SQEntry.claim).reduceOption
  offered : ∀ pkt accepted, .offered pkt accepted ∈ trace →
    ∃ entry ∈ stores, pkt.inst = entry.seqNum ∧ entry.canWB = true
  inOrder : params.needsTSO = true → InOrder trace stores

/-- The state of the stores on their way to memory. -/
structure Sending
    (params : Params) (lsq : LSQUnit) (queue : Queue) (written : Nat) (sent : List Packet)
    (started : Bool) : Prop
    extends Traced params lsq.trace queue.stores written sent where
  course : ∀ i (inside : i < queue.stores.length),
    Course params lsq written started i queue.stores[i]
  current : started = true → ∃ inside : written < queue.stores.length,
    Current params lsq written sent queue.stores[written]
  idle : started = false → sent = []
  small : ∀ seq, (lsq.senderState seq).outstanding ≤ 2
  known : ∀ pkt ∈ lsq.inFlight, ∃ entry ∈ queue.stores, pkt ∈ entry.packets

variable {pkt : Packet} {entry : SQEntry}

namespace InOrder

variable {trace : List Happening} {stores : List SQEntry} {happening : Happening}

theorem quiet
    (inOrder : InOrder trace stores) (other : ∀ pkt accepted, happening ≠ .offered pkt accepted) :
    InOrder (trace ++ [happening]) stores := by
  intro before pkt accepted after split
  rcases List.eq_nil_or_concat after with rfl | ⟨rest, last, rfl⟩
  · have ends := (List.append_inj' split rfl).2
    exact absurd (List.cons.inj ends).1 (other pkt accepted)
  · rw [List.concat_eq_append, ← List.cons_append, ← List.append_assoc] at split
    exact inOrder before pkt accepted rest (List.append_inj' split rfl).1

theorem notes (inOrder : InOrder trace stores) (entries : List SQEntry) :
    InOrder (trace ++ entries.map SQEntry.note) stores := by
  induction entries generalizing trace with
  | nil => simpa using inOrder
  | cons entry entries ih =>
      have first : InOrder (trace ++ [entry.note]) stores :=
        inOrder.quiet fun _ _ => Happening.noConfusion
      simpa using ih first

/-- A packet is offered, and if it is the first of its store, the older stores are
completed. -/
theorem offer
    (inOrder : InOrder trace stores)
    (completed : pkt.part ≠ .high → ∀ entry ∈ stores, entry.canWB = true →
      entry.seqNum < pkt.inst → .completed entry.seqNum ∈ trace) :
    InOrder (trace ++ [.offered pkt accepted]) stores := by
  intro before other answer after split
  rcases List.eq_nil_or_concat after with rfl | ⟨rest, last, rfl⟩
  · obtain ⟨rfl, ends⟩ := List.append_inj' split rfl
    cases (List.cons.inj ends).1
    exact completed
  · rw [List.concat_eq_append, ← List.cons_append, ← List.append_assoc] at split
    exact inOrder before other answer rest (List.append_inj' split rfl).1

theorem mono
    (inOrder : InOrder trace stores)
    (offered : ∀ pkt accepted, .offered pkt accepted ∈ trace → ∀ entry ∈ stores',
      entry.canWB = true → entry.seqNum < pkt.inst →
        ∃ old ∈ stores, old.canWB = true ∧ old.seqNum = entry.seqNum) :
    InOrder trace stores' := by
  intro before pkt accepted after split first entry member allowed older
  obtain ⟨old, listed, wasAllowed, same⟩ :=
    offered pkt accepted (by simp [split]) entry member allowed older
  rw [← same] at older ⊢
  exact inOrder before pkt accepted after split first old listed wasAllowed older

end InOrder

namespace SQEntry

variable {entry : SQEntry}

theorem inst_of_mem_packets (member : pkt ∈ entry.packets) : pkt.inst = entry.seqNum := by
  obtain ⟨part, -, rfl⟩ := List.mem_map.mp member
  rfl

theorem packets_length_le : entry.packets.length ≤ 2 := by
  rw [packets, List.length_map, parts]
  split
  · simp
  · split <;> simp

@[simp] theorem packets_mark : (entry.mark youngestInst).packets = entry.packets := by
  rw [packets, parts_mark, seqNum_mark]
  rfl

@[simp] theorem packets_setCommitted : entry.setCommitted.packets = entry.packets := rfl

@[simp] theorem packets_setCompleted : entry.setCompleted.packets = entry.packets := rfl

@[simp] theorem claim_setCommitted : entry.setCommitted.claim = entry.claim := rfl

@[simp] theorem claim_setCompleted : entry.setCompleted.claim = entry.claim := rfl

@[simp] theorem seqNum_setCommitted : entry.setCommitted.seqNum = entry.seqNum := rfl

@[simp] theorem seqNum_setCompleted : entry.setCompleted.seqNum = entry.seqNum := rfl

end SQEntry

variable {params : Params} {lsq next : LSQUnit} {queue : Queue} {written i : Nat}
  {sent : List Packet} {started : Bool}

theorem LSQUnit.unanswered_congr (inFlight : next.inFlight = lsq.inFlight) (seq : Nat) :
    next.unanswered seq = lsq.unanswered seq := by
  rw [LSQUnit.unanswered, inFlight]
  rfl

/-- A store that has a packet on its way has an answer to come. -/
theorem LSQUnit.unanswered_pos (member : pkt ∈ lsq.inFlight) (packet : pkt ∈ entry.packets) :
    0 < lsq.unanswered entry.seqNum := by
  rw [LSQUnit.unanswered, List.countP_pos_iff]
  exact ⟨pkt, member, by simpa using SQEntry.inst_of_mem_packets packet⟩

/-- What the course of a store depends on is the same. -/
structure SameCourse (lsq next : LSQUnit) (seq : Nat) : Prop where
  idx : (next.senderState seq).idx = (lsq.senderState seq).idx
  outstanding : (next.senderState seq).outstanding = (lsq.senderState seq).outstanding
  unanswered : next.unanswered seq = lsq.unanswered seq
  noted : .completed seq ∈ lsq.trace → .completed seq ∈ next.trace
  isSquashed : (next.insts seq).isSquashed = (lsq.insts seq).isSquashed

/-- The write-back index may move past other stores. -/
theorem Course.congr
    (course : Course params lsq written started i entry) (same : SameCourse lsq next entry.seqNum)
    (earlier : i < written' → i < written)
    (later : written' ≤ i → (started' = true → i ≠ written') →
      written ≤ i ∧ (started = true → i ≠ written))
    (tso : params.needsTSO = true → i < written' →
      (next.storeInFlight = true → i + 1 ≠ written') → entry.completed = true) :
    Course params next written' started' i entry := by
  constructor
  case sender =>
    intro before
    rw [same.idx, same.outstanding, same.unanswered]
    exact course.sender (earlier before)
  case answered =>
    intro before
    rw [same.unanswered]
    exact course.answered (earlier before)
  case fresh =>
    intro after apart
    rw [same.unanswered]
    exact course.fresh (later after apart).1 (later after apart).2
  case noted => exact fun done => same.noted (course.noted done)
  case unsquashed =>
    rw [same.isSquashed]
    exact course.unsquashed
  case tso => exact tso

/-- The store at the write-back index is not sent yet. -/
theorem Course.of_started
    (noted : entry.completed = true → .completed entry.seqNum ∈ lsq.trace)
    (unsquashed : (lsq.insts entry.seqNum).isSquashed = false) :
    Course params lsq i true i entry :=
  ⟨fun before => absurd before (Nat.lt_irrefl _), fun before => absurd before (Nat.lt_irrefl _),
    fun _ other => absurd rfl (other rfl), noted, unsquashed,
    fun _ before => absurd before (Nat.lt_irrefl _)⟩

theorem Current.congr
    (current : Current params lsq written sent entry) (same : SameCourse lsq next entry.seqNum)
    (storeInFlight : next.storeInFlight = lsq.storeInFlight) :
    Current params next written sent entry := by
  refine ⟨current.allowed, ?_, ?_, current.inOrder, ?_⟩
  · rw [same.idx]
    exact current.idx
  · rw [same.outstanding, same.unanswered]
    exact current.outstanding
  · rw [storeInFlight]
    exact current.alone

/-- A store that is committed goes on as before. -/
theorem Course.mark (course : Course params lsq written started i entry) (youngestInst : Nat) :
    Course params lsq written started i (entry.mark youngestInst) := by
  constructor
  case sender =>
    rw [SQEntry.seqNum_mark, SQEntry.parts_mark]
    exact course.sender
  case answered =>
    rw [SQEntry.seqNum_mark, SQEntry.completed_mark]
    exact course.answered
  case fresh =>
    rw [SQEntry.seqNum_mark, SQEntry.committed_mark]
    exact course.fresh
  case noted =>
    rw [SQEntry.seqNum_mark, SQEntry.completed_mark]
    exact course.noted
  case unsquashed =>
    rw [SQEntry.seqNum_mark]
    exact course.unsquashed
  case tso =>
    rw [SQEntry.completed_mark]
    exact course.tso

theorem Current.mark (current : Current params lsq written sent entry) (youngestInst : Nat) :
    Current params lsq written sent (entry.mark youngestInst) := by
  refine ⟨SQEntry.canWB_mark youngestInst current.allowed, ?_, ?_, ?_, current.alone⟩
  · rw [SQEntry.seqNum_mark]
    exact current.idx
  · rw [SQEntry.seqNum_mark, SQEntry.packets_mark]
    exact current.outstanding
  · rw [SQEntry.packets_mark]
    exact current.inOrder

namespace Traced

variable {trace : List Happening} {stores : List SQEntry}
  (traced : Traced params trace stores written sent)
include traced

theorem push (upTo : written ≤ stores.length) (seq : Nat) :
    Traced params trace (stores ++ [{ inst := some seq }]) written sent := by
  refine ⟨?_, ?_, fun pkt accepted member => ?_, fun tso => ?_⟩
  · rw [List.map_append, List.take_append_of_le_length (by simpa using upTo)]
    exact traced.accepted
  · rw [List.map_append, List.reduceOption_append]
    simpa [SQEntry.claim] using traced.committed
  · obtain ⟨entry, listed, rest⟩ := traced.offered pkt accepted member
    exact ⟨entry, List.mem_append_left _ listed, rest⟩
  · refine (traced.inOrder tso).mono fun pkt accepted _ entry member allowed _ => ?_
    rcases List.mem_append.mp member with old | new
    · exact ⟨entry, old, allowed, rfl⟩
    · rw [List.mem_singleton.mp new] at allowed
      cases allowed

/-- A store that is sent or committed keeps its packets. -/
theorem set
    (inside : i < stores.length) (seqNum : entry.seqNum = stores[i].seqNum)
    (canWB : entry.canWB = stores[i].canWB)
    (parts : i < written ∨ stores[i].canWB = true → entry.parts = stores[i].parts) :
    Traced params trace (stores.set i entry) written sent := by
  refine ⟨?_, ?_, fun pkt accepted member => ?_, fun tso => ?_⟩
  · rw [traced.accepted, List.map_set]
    rcases Nat.lt_or_ge i written with before | after
    · have packets : entry.packets = stores[i].packets := by
        rw [SQEntry.packets, seqNum, parts (.inl before)]
        rfl
      rw [← List.map_set, map_set_eq SQEntry.packets inside packets]
    · rw [List.take_set_of_le after]
  · have claim : entry.claim = stores[i].claim := by
      unfold SQEntry.claim
      rw [canWB]
      split
      · next allowed => rw [seqNum, parts (.inr allowed)]
      · rfl
    rw [map_set_eq SQEntry.claim inside claim]
    exact traced.committed
  · obtain ⟨old, listed, facts⟩ := traced.offered pkt accepted member
    obtain ⟨j, small, rfl⟩ := List.getElem_of_mem listed
    by_cases equal : i = j
    · subst equal
      rw [← seqNum, ← canWB] at facts
      exact ⟨entry, List.mem_set small entry, facts⟩
    · refine ⟨stores[j], ?_, facts⟩
      rw [← List.getElem_set_ne equal (by simpa using small)]
      exact List.getElem_mem _
  · refine (traced.inOrder tso).mono fun pkt accepted _ other member allowed _ => ?_
    rcases List.mem_or_eq_of_mem_set member with old | rfl
    · exact ⟨other, old, allowed, rfl⟩
    · rw [canWB] at allowed
      exact ⟨_, List.getElem_mem inside, allowed, seqNum.symm⟩

theorem complete (seq : Nat) : Traced params (trace ++ [.completed seq]) stores written sent := by
  refine ⟨?_, ?_, fun pkt accepted member => ?_, fun tso => ?_⟩
  · rw [acceptedPackets_append, traced.accepted]
    exact List.append_nil _
  · rw [committedStores_append, traced.committed]
    exact List.append_nil _
  · rcases List.mem_append.mp member with old | new
    · exact traced.offered pkt accepted old
    · cases List.mem_singleton.mp new
  · exact (traced.inOrder tso).quiet fun _ _ => Happening.noConfusion

/-- The write-back index moves past a store whose packets are all sent. -/
theorem advance (inside : written < stores.length) (all : sent = stores[written].packets) :
    Traced params trace stores (written + 1) [] := by
  refine { traced with accepted := ?_ }
  have inside' : written < (stores.map SQEntry.packets).length := by simpa using inside
  rw [traced.accepted, all, List.take_succ_eq_append_getElem inside', List.getElem_map,
    List.flatten_append]
  simp

theorem take
    (far : written ≤ kept)
    (younger : ∀ i (inside : i < stores.length), kept ≤ i → stores[i].canWB = false) :
    Traced params trace (stores.take kept) written sent := by
  refine ⟨?_, ?_, fun pkt accepted member => ?_, fun tso => ?_⟩
  · rw [List.map_take, List.take_take, Nat.min_eq_left far]
    exact traced.accepted
  · have none : ((stores.drop kept).map SQEntry.claim).reduceOption = [] := by
      rw [List.reduceOption, List.filterMap_eq_nil_iff]
      intro claim member
      obtain ⟨entry, listed, rfl⟩ := List.mem_map.mp member
      obtain ⟨j, small, rfl⟩ := List.getElem_of_mem listed
      rw [List.length_drop] at small
      rw [List.getElem_drop]
      refine if_neg ?_
      rw [younger (kept + j) (by omega) (by omega)]
      exact Bool.false_ne_true
    have split := traced.committed
    rw [← List.take_append_drop kept stores, List.map_append, List.reduceOption_append, none,
      List.append_nil] at split
    exact split
  · obtain ⟨entry, listed, inst, allowed⟩ := traced.offered pkt accepted member
    obtain ⟨i, inside, rfl⟩ := List.getElem_of_mem listed
    refine ⟨stores[i], List.mem_take_iff_getElem.mpr ⟨i, ?_, rfl⟩, inst, allowed⟩
    by_contra beyond
    rw [younger i inside (by omega)] at allowed
    cases allowed
  · refine (traced.inOrder tso).mono fun pkt accepted _ entry member allowed _ => ?_
    exact ⟨entry, List.mem_of_mem_take member, allowed, rfl⟩

end Traced

namespace Sending

/-- The state of the stores depends on a few fields of the unit. -/
theorem congr
    (sending : Sending params lsq queue written sent started)
    (senders : ∀ seq, (next.senderState seq).idx = (lsq.senderState seq).idx ∧
      (next.senderState seq).outstanding = (lsq.senderState seq).outstanding)
    (inFlight : next.inFlight = lsq.inFlight) (trace : next.trace = lsq.trace)
    (storeInFlight : next.storeInFlight = lsq.storeInFlight)
    (insts : ∀ entry ∈ queue.stores, (next.insts entry.seqNum).isSquashed =
      (lsq.insts entry.seqNum).isSquashed) :
    Sending params next queue written sent started := by
  have same : ∀ i (inside : i < queue.stores.length),
      SameCourse lsq next queue.stores[i].seqNum := fun i inside =>
    ⟨(senders _).1, (senders _).2, unanswered_congr inFlight _, trace ▸ id,
      insts _ (List.getElem_mem inside)⟩
  constructor
  case toTraced =>
    rw [trace]
    exact sending.toTraced
  case course =>
    intro i inside
    have course := sending.course i inside
    refine course.congr (same i inside) id (fun after apart => ⟨after, apart⟩) ?_
    rw [storeInFlight]
    exact course.tso
  case current =>
    intro busy
    obtain ⟨inside, current⟩ := sending.current busy
    exact ⟨inside, current.congr (same _ inside) storeInFlight⟩
  case idle => exact sending.idle
  case small =>
    intro seq
    rw [(senders seq).2]
    exact sending.small seq
  case known =>
    rw [inFlight]
    exact sending.known

variable {seq : Nat}

theorem unanswered_fresh
    (sending : Sending params lsq queue written sent started) (rings : Rings params lsq queue)
    (fresh : lsq.lastSeq < seq) :
    lsq.unanswered seq = 0 := by
  rw [LSQUnit.unanswered, List.countP_eq_zero]
  intro pkt member same
  obtain ⟨entry, listed, packet⟩ := sending.known pkt member
  have bound := rings.storeBound entry listed
  have inst := SQEntry.inst_of_mem_packets packet
  rw [beq_iff_eq] at same
  omega

theorem push
    (sending : Sending params lsq queue written sent started) (upTo : written ≤ queue.stores.length)
    (none : lsq.unanswered seq = 0) (unsquashed : (lsq.insts seq).isSquashed = false) :
    Sending params lsq { queue with stores := queue.stores ++ [{ inst := some seq }] }
      written sent started := by
  refine ⟨sending.toTraced.push upTo seq, ?_, fun busy => ?_, sending.idle, sending.small,
    fun pkt member => ?_⟩
  · refine forall_append _ sending.course ?_
    refine ⟨fun before => by omega, fun before => by omega, fun _ _ => ⟨rfl, none⟩,
      fun done => ?_, unsquashed, fun _ before => by omega⟩
    cases done
  · obtain ⟨inside, current⟩ := sending.current busy
    refine ⟨by rw [List.length_append]; omega, ?_⟩
    rw [List.getElem_append_left inside]
    exact current
  · obtain ⟨entry, listed, packet⟩ := sending.known pkt member
    exact ⟨entry, List.mem_append_left _ listed, packet⟩

/-- A packet that is on its way belongs to a store that was started. -/
theorem started_of_mem
    (sending : Sending params lsq queue written sent started) (inside : i < queue.stores.length)
    (member : pkt ∈ lsq.inFlight) (packet : pkt ∈ queue.stores[i].packets) :
    i < written ∨ started = true ∧ i = written := by
  by_contra elsewhere
  rw [not_or, not_and] at elsewhere
  have none := ((sending.course i inside).fresh (Nat.le_of_not_lt elsewhere.1) elsewhere.2).2
  have some := unanswered_pos member packet
  omega

/-- An entry that is not yet committed gets its data. -/
theorem set
    (sending : Sending params lsq queue written sent started)
    (writeback : Writeback params lsq queue written) (inside : i < queue.stores.length)
    (forbidden : queue.stores[i].canWB = false) (seqNum : entry.seqNum = queue.stores[i].seqNum)
    (canWB : entry.canWB = queue.stores[i].canWB)
    (committed : entry.committed = queue.stores[i].committed)
    (completed : entry.completed = queue.stores[i].completed) :
    Sending params lsq { queue with stores := queue.stores.set i entry } written sent
      started := by
  have after : written ≤ i := by
    by_contra before
    rw [(writeback.marks i inside).sent (by omega)] at forbidden
    cases forbidden
  have distinct : started = true → i ≠ written := by
    rintro busy rfl
    obtain ⟨_, current⟩ := sending.current busy
    rw [current.allowed] at forbidden
    cases forbidden
  constructor
  case toTraced =>
    refine sending.toTraced.set inside seqNum canWB fun sent => ?_
    rw [forbidden] at sent
    rcases sent with before | allowed
    · omega
    · cases allowed
  case course =>
    refine forall_set _ (fun j inside _ => sending.course j inside) fun inside => ?_
    have course := sending.course i inside
    refine ⟨fun before => by omega, fun before => by omega, ?_, ?_, ?_, fun _ before => by omega⟩
    · rw [committed, seqNum]
      exact course.fresh
    · rw [completed, seqNum]
      exact course.noted
    · rw [seqNum]
      exact course.unsquashed
  case current =>
    intro busy
    obtain ⟨inside', current⟩ := sending.current busy
    refine ⟨by rw [List.length_set]; exact inside', ?_⟩
    rw [List.getElem_set_ne (distinct busy)]
    exact current
  case idle => exact sending.idle
  case small => exact sending.small
  case known =>
    intro pkt member
    obtain ⟨old, listed, packet⟩ := sending.known pkt member
    obtain ⟨j, small, rfl⟩ := List.getElem_of_mem listed
    have apart : i ≠ j := by
      rintro rfl
      rcases sending.started_of_mem inside member packet with before | ⟨busy, same⟩
      · omega
      · exact distinct busy same
    refine ⟨_, ?_, packet⟩
    rw [← List.getElem_set_ne apart (by simpa using small)]
    exact List.getElem_mem _

/-- The new committed stores come after the old ones. -/
theorem claim_mark
    (youngestInst : Nat) {stores : List SQEntry}
    (ordered : stores.Pairwise fun older younger =>
      younger.canWB = true → older.canWB = true) :
    ((stores.map (SQEntry.mark youngestInst)).map SQEntry.claim).reduceOption =
      (stores.map SQEntry.claim).reduceOption ++
        (stores.filter (SQEntry.isNew youngestInst)).map fun entry =>
          (entry.seqNum, entry.parts) := by
  induction stores with
  | nil => rfl
  | cons entry stores ih =>
      rw [List.pairwise_cons] at ordered
      have rest := ih ordered.2
      simp only [List.map_cons]
      by_cases allowed : entry.canWB = true
      · have claim : entry.claim = some (entry.seqNum, entry.parts) := if_pos allowed
        have old : entry.isNew youngestInst = false := by simp [SQEntry.isNew, allowed]
        rw [SQEntry.mark_of_canWB allowed, claim, List.reduceOption_cons_of_some,
          List.reduceOption_cons_of_some, rest, List.filter_cons, old]
        rfl
      · have none : (stores.map SQEntry.claim).reduceOption = [] := by
          rw [List.reduceOption, List.filterMap_eq_nil_iff]
          intro claim member
          obtain ⟨other, listed, rfl⟩ := List.mem_map.mp member
          exact if_neg fun younger => allowed (ordered.1 other listed younger)
        have claim : entry.claim = Option.none := if_neg allowed
        rw [Bool.not_eq_true] at allowed
        rw [none, List.nil_append] at rest
        rw [claim, List.reduceOption_cons_of_none, none, List.nil_append]
        by_cases committed : entry.seqNum ≤ youngestInst
        · have new : entry.isNew youngestInst = true := by
            simp [SQEntry.isNew, allowed, committed]
          have marked : (entry.mark youngestInst).claim = some (entry.seqNum, entry.parts) := by
            rw [SQEntry.mark_of_le committed]
            rfl
          rw [marked, List.reduceOption_cons_of_some, rest, List.filter_cons, new]
          rfl
        · have old : entry.isNew youngestInst = false := by
            simp [SQEntry.isNew, committed]
          rw [SQEntry.mark_of_lt (Nat.lt_of_not_le committed), claim,
            List.reduceOption_cons_of_none, rest, List.filter_cons, old]
          rfl

theorem traced_mark
    (sending : Sending params lsq queue written sent started)
    (writeback : Writeback params lsq queue written) (rings : Rings params lsq queue)
    (youngestInst : Nat) :
    Traced params
      (lsq.trace ++ (queue.stores.filter (SQEntry.isNew youngestInst)).map SQEntry.note)
      (queue.stores.map (SQEntry.mark youngestInst)) written sent := by
  refine ⟨?_, ?_, fun pkt accepted member => ?_, fun tso => .notes ?_ _⟩
  · rw [acceptedPackets_append, acceptedPackets_notes, List.append_nil, sending.accepted,
      List.map_map]
    congr 3
    exact List.map_congr_left fun _ _ => SQEntry.packets_mark.symm
  · rw [committedStores_append, committedStores_notes, sending.committed,
      claim_mark youngestInst (List.pairwise_map.mp writeback.allowed)]
  · rcases List.mem_append.mp member with old | new
    · obtain ⟨entry, listed, inst, allowed⟩ := sending.offered pkt accepted old
      exact ⟨_, List.mem_map_of_mem listed, by rw [SQEntry.seqNum_mark, inst],
        SQEntry.canWB_mark youngestInst allowed⟩
    · obtain ⟨entry, -, note⟩ := List.mem_map.mp new
      cases note
  · refine (sending.inOrder tso).mono fun pkt accepted member entry listed _ older => ?_
    -- an offered store is committed, so the older ones were committed before
    obtain ⟨offered, position, inst, allowed⟩ := sending.offered pkt accepted member
    obtain ⟨old, place, rfl⟩ := List.mem_map.mp listed
    rw [SQEntry.seqNum_mark, inst] at older
    obtain ⟨j, small, rfl⟩ := List.getElem_of_mem place
    obtain ⟨k, small', rfl⟩ := List.getElem_of_mem position
    refine ⟨_, place, ?_, (SQEntry.seqNum_mark _ _).symm⟩
    by_contra forbidden
    have before := writeback.lt_of_allowed small' small allowed (Bool.not_eq_true _ ▸ forbidden)
    have order := rings.store_lt small before
    omega

theorem mark
    (sending : Sending params lsq queue written sent started)
    (writeback : Writeback params lsq queue written) (rings : Rings params lsq queue)
    (marked : StoresMarked params youngestInst lsq queue queue.storeHead next) :
    Sending params next
      { queue with stores := queue.stores.map (SQEntry.mark youngestInst) } written sent
      started := by
  have trace := marked.noted
  rw [writeback.filter_isNew] at trace
  have frame := marked.frame
  have inFlight : next.inFlight = lsq.inFlight := by rw [frame]
  have storeInFlight : next.storeInFlight = lsq.storeInFlight := by rw [frame]
  have same : ∀ seq, SameCourse lsq next seq := by
    refine fun seq => ⟨?_, ?_, unanswered_congr inFlight _, fun done => ?_, ?_⟩
    on_goal 3 =>
      rw [trace]
      exact List.mem_append_left _ done
    all_goals rw [frame]
  constructor
  case toTraced =>
    rw [trace]
    exact sending.traced_mark writeback rings youngestInst
  case course =>
    intro i inside
    rw [List.length_map] at inside
    rw [List.getElem_map]
    have course := (sending.course i inside).mark youngestInst
    refine course.congr (same _) id (fun after apart => ⟨after, apart⟩) ?_
    rw [storeInFlight]
    exact course.tso
  case current =>
    intro busy
    obtain ⟨inside, current⟩ := sending.current busy
    refine ⟨by rwa [List.length_map], ?_⟩
    rw [List.getElem_map]
    exact (current.mark youngestInst).congr (same _) storeInFlight
  case idle => exact sending.idle
  case small =>
    rw [frame]
    exact sending.small
  case known =>
    intro pkt member
    rw [inFlight] at member
    obtain ⟨entry, listed, packet⟩ := sending.known pkt member
    refine ⟨_, List.mem_map_of_mem listed, ?_⟩
    rw [SQEntry.packets_mark]
    exact packet

theorem take
    (sending : Sending params lsq queue written sent started) (upTo : kept ≤ queue.stores.length)
    (far : written ≤ kept)
    (younger : ∀ i (inside : i < queue.stores.length), kept ≤ i → queue.stores[i].canWB = false) :
    Sending params lsq { queue with stores := queue.stores.take kept } written sent
      started := by
  have currentStays : started = true → written < kept := by
    intro busy
    obtain ⟨inside, current⟩ := sending.current busy
    by_contra beyond
    have forbidden := younger written inside (by omega)
    rw [current.allowed] at forbidden
    cases forbidden
  refine ⟨sending.toTraced.take far younger, fun i inside => ?_, fun busy => ?_, sending.idle,
    sending.small, fun pkt member => ?_⟩
  · rw [List.length_take] at inside
    rw [List.getElem_take]
    exact sending.course i (by omega)
  · obtain ⟨inside, current⟩ := sending.current busy
    have before := currentStays busy
    refine ⟨by rw [List.length_take]; omega, ?_⟩
    rw [List.getElem_take]
    exact current
  · obtain ⟨entry, listed, packet⟩ := sending.known pkt member
    obtain ⟨i, inside, rfl⟩ := List.getElem_of_mem listed
    refine ⟨_, List.mem_take_iff_getElem.mpr ⟨i, ?_, rfl⟩, packet⟩
    rcases sending.started_of_mem inside member packet with before | ⟨busy, rfl⟩
    · omega
    · have before := currentStays busy
      omega

end Sending

end LsqUnit
end Dolma

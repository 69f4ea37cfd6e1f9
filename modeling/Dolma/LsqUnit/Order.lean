import Dolma.LsqUnit.Invariant
import Mathlib.Data.List.Nodup

/-!
# Stores reach memory in program order

The packets that the memory port has accepted are those of the committed stores in
program order, as far as they are sent. With total store order a store is first offered
when all older ones are completed.
-/

namespace Dolma
namespace LsqUnit

open Library LSQUnit

/-- The packets of a committed store. -/
def claimedPackets (claim : Nat × List Part) : List Packet :=
  claim.2.map (Packet.mk claim.1)

/-- The parts in which a store may go to memory: none if it is empty, and the low half
before the high half if it is split. -/
def isWhole (parts : List Part) : Bool :=
  parts == [] || parts == [.whole] || parts == [.low, .high]

/-- What has happened to stores is what program order demands. -/
structure InProgramOrder (params : Params) (lsq : LSQUnit) : Prop where
  increasing : ((committedStores lsq.trace).map Prod.fst).Pairwise (· < ·)
  whole : ∀ claim ∈ committedStores lsq.trace, isWhole claim.2 = true
  accepted : acceptedPackets lsq.trace <+: (committedStores lsq.trace).flatMap claimedPackets
  once : (acceptedPackets lsq.trace).Nodup
  complete : lsq.storesToWB = 0 →
    acceptedPackets lsq.trace = (committedStores lsq.trace).flatMap claimedPackets
  /-- With total store order the first packet of a store is offered after all older stores,
  committed or still in the queue, are completed. -/
  oneByOne : params.needsTSO = true → ∀ before pkt accepted after,
    lsq.trace = before ++ .offered pkt accepted :: after → pkt.part ≠ .high →
      ∀ store, ((∃ parts, .committed store parts ∈ lsq.trace) ∨
          lsq.hasStore params store = true) →
        store < pkt.inst → .completed store ∈ before

namespace SQEntry

variable {entry : SQEntry}

theorem isWhole_parts : isWhole entry.parts = true := by
  unfold parts
  split
  · rfl
  · split <;> rfl

theorem nodup_packets : entry.packets.Nodup := by
  have parts : entry.parts.Nodup := by
    unfold SQEntry.parts
    split
    · simp
    · split <;> simp
  exact List.Nodup.map (fun _ _ same => (Packet.mk.inj same).2) parts

end SQEntry

/-- The claims of stores are those of the committed ones. -/
theorem claims_eq (stores : List SQEntry) :
    (stores.map SQEntry.claim).reduceOption =
      (stores.filter SQEntry.canWB).map fun entry => (entry.seqNum, entry.parts) := by
  induction stores with
  | nil => rfl
  | cons entry stores ih =>
      rw [List.map_cons, List.filter_cons]
      by_cases allowed : entry.canWB = true
      · have claim : entry.claim = some (entry.seqNum, entry.parts) := if_pos allowed
        rw [if_pos allowed, claim, List.reduceOption_cons_of_some, ih, List.map_cons]
      · have claim : entry.claim = none := if_neg allowed
        rw [if_neg allowed, claim, List.reduceOption_cons_of_none, ih]

theorem flatMap_claims (stores : List SQEntry) :
    ((stores.map fun entry => (entry.seqNum, entry.parts)).flatMap claimedPackets) =
      stores.flatMap SQEntry.packets := by
  rw [List.flatMap_map]
  rfl

variable {params : Params} {lsq : LSQUnit} {queue : Queue} {written : Nat}
  {sent : List Packet} {started : Bool}

namespace Stores

theorem filter_canWB (stores : Stores params lsq queue written sent started) :
    queue.stores.filter SQEntry.canWB =
      queue.stores.take written ++ (queue.stores.drop written).filter SQEntry.canWB := by
  have all : (queue.stores.take written).filter SQEntry.canWB = queue.stores.take written := by
    rw [List.filter_eq_self]
    intro entry member
    obtain ⟨i, short, rfl⟩ := List.getElem_of_mem member
    rw [List.length_take] at short
    rw [List.getElem_take]
    exact (stores.writeback.marks i (by omega)).sent (by omega)
  nth_rewrite 1 [← List.take_append_drop written queue.stores]
  rw [List.filter_append, all]

/-- The accepted packets are those of the committed stores, as far as they are sent. -/
theorem accepted_inOrder (stores : Stores params lsq queue written sent started) :
    acceptedPackets lsq.trace <+: (queue.stores.filter SQEntry.canWB).flatMap
      SQEntry.packets := by
  rw [stores.sending.accepted, stores.filter_canWB, List.flatMap_append, ← List.map_take,
    ← List.flatMap_def]
  refine List.prefix_append_right_inj _ |>.mpr ?_
  cases started with
  | false =>
      rw [stores.sending.idle rfl]
      exact List.nil_prefix
  | true =>
      obtain ⟨inside, current⟩ := stores.sending.current rfl
      rw [List.drop_eq_getElem_cons inside, List.filter_cons, if_pos current.allowed,
        List.flatMap_cons]
      exact current.inOrder.trans (List.prefix_append _ _)

/-- No packet of the committed stores occurs twice. -/
theorem nodup_packets (stores : Stores params lsq queue written sent started) :
    ((queue.stores.filter SQEntry.canWB).flatMap SQEntry.packets).Nodup := by
  rw [List.nodup_flatMap]
  refine ⟨fun entry _ => SQEntry.nodup_packets, ?_⟩
  have ordered := List.pairwise_map.mp stores.rings.storeOrder
  refine (ordered.filter _).imp fun {first second} before pkt member member' => ?_
  have inst := SQEntry.inst_of_mem_packets member
  have inst' := SQEntry.inst_of_mem_packets member'
  omega

/-- When no store is left to be written back, the committed stores are sent. -/
theorem accepted_all
    (stores : Stores params lsq queue written sent started) (done : lsq.storesToWB = 0) :
    acceptedPackets lsq.trace = (queue.stores.filter SQEntry.canWB).flatMap SQEntry.packets := by
  have completed : ∀ entry ∈ queue.stores, entry.canWB = true → entry.completed = true := by
    have counter := stores.writeback.counter
    rw [done] at counter
    have none : (queue.stores.map SQEntry.isPending).count true = 0 := by omega
    intro entry member allowed
    by_contra waits
    refine List.count_eq_zero.mp none (List.mem_map.mpr ⟨entry, member, ?_⟩)
    simpa [SQEntry.isPending, allowed] using waits
  have rest : (queue.stores.drop written).filter SQEntry.canWB = [] := by
    rw [List.filter_eq_nil_iff]
    intro entry member allowed
    obtain ⟨i, short, rfl⟩ := List.getElem_of_mem member
    rw [List.length_drop] at short
    rw [List.getElem_drop] at allowed
    have inside : written + i < queue.stores.length := by omega
    have waits := (stores.writeback.marks _ inside).waiting (Nat.le_add_right _ _)
    rw [completed _ (List.getElem_mem inside) allowed] at waits
    cases waits
  have idle : started = false := by
    cases started with
    | false => rfl
    | true =>
        obtain ⟨inside, current⟩ := stores.sending.current rfl
        have waits := (stores.writeback.marks _ inside).waiting (Nat.le_refl _)
        rw [completed _ (List.getElem_mem inside) current.allowed] at waits
        cases waits
  rw [stores.sending.accepted, stores.filter_canWB, rest, stores.sending.idle idle,
    List.append_nil, List.append_nil, ← List.map_take, ← List.flatMap_def]

/-- Stores older than an offered one are committed. -/
theorem canWB_of_lt
    (stores : Stores params lsq queue written sent started)
    (offered : .offered pkt accepted ∈ lsq.trace) (inside : i < queue.stores.length)
    (older : queue.stores[i].seqNum < pkt.inst) :
    queue.stores[i].canWB = true := by
  obtain ⟨entry, member, inst, allowed⟩ := stores.sending.offered pkt accepted offered
  obtain ⟨j, inside', rfl⟩ := List.getElem_of_mem member
  by_contra forbidden
  rw [Bool.not_eq_true] at forbidden
  have after := stores.writeback.lt_of_allowed inside' inside allowed forbidden
  have younger := stores.rings.store_lt inside after
  omega

end Stores

/-- In every run stores reach memory in program order, whole and once. -/
theorem reached_inProgramOrder
    (params : Params) (lsq : LSQUnit) (reached : Reached params lsq) :
    InProgramOrder params lsq := by
  obtain ⟨queue, written, whole⟩ := reached.whole
  obtain ⟨sent, started, stores, -⟩ := whole.agrees
  have committed := stores.sending.committed
  rw [claims_eq] at committed
  have packets : (committedStores lsq.trace).flatMap claimedPackets =
      (queue.stores.filter SQEntry.canWB).flatMap SQEntry.packets := by
    rw [committed, flatMap_claims]
  constructor
  case increasing =>
    have ordered := List.pairwise_map.mp stores.rings.storeOrder
    rw [committed, List.map_map, List.pairwise_map]
    exact ordered.filter _
  case whole =>
    intro claim member
    rw [committed] at member
    obtain ⟨entry, -, rfl⟩ := List.mem_map.mp member
    exact SQEntry.isWhole_parts
  case accepted =>
    rw [packets]
    exact stores.accepted_inOrder
  case once => exact stores.nodup_packets.sublist stores.accepted_inOrder.sublist
  case complete =>
    intro done
    rw [packets]
    exact stores.accepted_all done
  case oneByOne =>
    intro tso before pkt accepted after split first store known older
    have offered : .offered pkt accepted ∈ lsq.trace := by simp [split]
    have entry : ∃ entry ∈ queue.stores, entry.canWB = true ∧ entry.seqNum = store := by
      rcases known with ⟨parts, noted⟩ | present
      · have claimed : (store, parts) ∈ committedStores lsq.trace :=
          List.mem_filterMap.mpr ⟨_, noted, rfl⟩
        rw [committed] at claimed
        obtain ⟨entry, listed, same⟩ := List.mem_map.mp claimed
        obtain ⟨member, allowed⟩ := List.mem_filter.mp listed
        exact ⟨entry, member, allowed, (Prod.ext_iff.mp same).1⟩
      · obtain ⟨i, inside, -, named⟩ := whole.exists_store present
        rw [← named] at older
        exact ⟨_, List.getElem_mem inside, stores.canWB_of_lt offered inside older, named⟩
    obtain ⟨entry, member, allowed, rfl⟩ := entry
    exact stores.sending.inOrder tso before pkt accepted after split first entry member allowed
      older

/-- The first half of a split store is refused, then the second half. The next store waits
until it is completed. -/
def splitStore : List Event :=
  [.insertStore 1, .insertStore 2,
    .executeStore 1 (.access { effAddr := 60, size := 8, isSplit := true }),
    .executeStore 2 (.access { effAddr := 64, size := 8 }), .commitStores 2, .writebackStores [false],
    .recvRetry [true, false], .recvRetry [true], .writebackStores [true],
    .response ⟨1, .high⟩, .response ⟨1, .low⟩, .writebackStores [true],
    .response ⟨2, .whole⟩]

theorem reached_inProgramOrder_splitStore :
    ∃ lsq, Reached twoEach lsq ∧
      (acceptedPackets lsq.trace = [⟨1, .low⟩, ⟨1, .high⟩, ⟨2, .whole⟩] ∧ lsq.storesToWB = 0) ∧
      InProgramOrder twoEach lsq :=
  Reachable.exists_and_of_replay splitStore (by decide +kernel) fun lsq reached _ =>
    reached_inProgramOrder twoEach lsq reached

end LsqUnit
end Dolma

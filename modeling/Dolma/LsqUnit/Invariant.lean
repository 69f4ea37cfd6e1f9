import Dolma.LsqUnit.Loads
import Dolma.LsqUnit.Replies

/-!
# The queues in every state of a run

In every state that the unit can get into, its rings, its marks and its packets agree
with the loads and stores in program order. Each event of the surroundings changes the
queues in one way.
-/

namespace Dolma
namespace LsqUnit

open Library LSQUnit

variable {params : Params} {lsq : LSQUnit} {queue : Queue} {written : Nat} {request : StoreAccess}

/-- The marks of stores do not depend on loads. -/
theorem Writeback.withLoads
    (loads : List Nat) (loadHead : Nat) (writeback : Writeback params lsq queue written) :
    Writeback params lsq { queue with loads := loads, loadHead := loadHead } written :=
  ⟨writeback.idx, writeback.head_le, writeback.written_le, writeback.allowed,
    writeback.marks, writeback.counter⟩

/-- The packets of stores do not depend on loads. -/
theorem Sending.withLoads
    (loads : List Nat) (loadHead : Nat) (sending : Sending params lsq queue written sent started) :
    Sending params lsq { queue with loads := loads, loadHead := loadHead } written sent
      started :=
  { sending with }

/-- A squash takes back the younger loads and then the younger stores. -/
structure TakenBack
    (params : Params) (squashedNum : Nat) (lsq : LSQUnit) (queue : Queue) (mid next : LSQUnit)
    (kept kept' : Nat) : Prop where
  loads : LoadsTaken params squashedNum
    { lsq with
      instsToReplay := lsq.instsToReplay.filter fun seq => decide (seq ≤ squashedNum) }
    queue mid kept
  stores : StoresTaken params squashedNum
    { mid with
      memDepViolator := mid.memDepViolator.filter fun seq => decide (seq ≤ squashedNum) }
    { queue with loads := queue.loads.take kept } next kept'

/-- An access that may be made has at least one byte. -/
theorem size_ne_zero_of_enabled
    (may : enabled params lsq (.executeStore seq (.access request)) = true) :
    request.effSize ≠ 0 := by
  rw [enabled, Bool.and_eq_true] at may
  exact bne_iff_ne.mp may.2

/-- The unit agrees with the loads and stores in program order, of which the first ones
are written back. -/
structure Whole (params : Params) (lsq : LSQUnit) (queue : Queue) (written : Nat) : Prop where
  agrees : ∃ sent started, Stores params lsq queue written sent started ∧
    Hold lsq queue written sent started
  disjoint : ∀ seq ∈ queue.loads, ∀ entry ∈ queue.stores, seq ≠ entry.seqNum

namespace Whole

variable {params : Params} {lsq next : LSQUnit} {queue queue' : Queue}
  {written written' seq : Nat}

theorem rings (whole : Whole params lsq queue written) : Rings params lsq queue := by
  obtain ⟨sent, started, stores, -⟩ := whole.agrees
  exact stores.rings

/-- The stores before the write-back index are sent. -/
theorem writeback (whole : Whole params lsq queue written) :
    Writeback params lsq queue written := by
  obtain ⟨sent, started, stores, -⟩ := whole.agrees
  exact stores.writeback

theorem init : Whole params {} {} 0 where
  agrees := by
    refine ⟨[], false, ⟨?_, ?_, ?_⟩, .idle ⟨rfl, rfl, rfl, rfl⟩⟩
    · constructor
      case loadRing => exact Ring.Holds.nil (Nat.succ_pos _) _
      case unoccupied => exact fun _ _ => rfl
      case storeRing => exact Ring.Holds.nil (Nat.succ_pos _) _
      case loadOrder => exact List.Pairwise.nil
      case loadBound => exact fun _ member => by cases member
      case named => exact fun _ member => by cases member
      case storeOrder => exact List.Pairwise.nil
      case storeBound => exact fun _ member => by cases member
      case lqIdx => exact fun _ inside => absurd inside (Nat.not_lt_zero _)
      case sqIdx => exact fun _ inside => absurd inside (Nat.not_lt_zero _)
    · constructor
      case idx => exact (Nat.zero_mod _).symm
      case head_le => exact Nat.le_refl 0
      case written_le => exact Nat.le_refl 0
      case allowed => exact List.Pairwise.nil
      case marks => exact fun _ inside => absurd inside (Nat.not_lt_zero _)
      case counter => rfl
    · constructor
      case course => exact fun _ inside => absurd inside (Nat.not_lt_zero _)
      case current => exact fun busy => by cases busy
      case idle => exact fun _ => rfl
      case small => exact fun _ => Nat.le_succ 1
      case known => exact fun _ member => by cases member
      case toTraced =>
        refine ⟨rfl, rfl, fun _ _ member => (by cases member), fun _ before _ _ _ split => ?_⟩
        cases before <;> cases split
  disjoint _ member := by cases member

/-- The stores do not depend on the loads. -/
theorem withLoads
    (whole : Whole params lsq queue written) (loads : List Nat) (loadHead : Nat)
    (rings : Rings params next { queue with loads := loads, loadHead := loadHead })
    (frame : next = { lsq with
      insts := next.insts
      instsToReplay := next.instsToReplay
      owed := next.owed
      lqIdx := next.lqIdx
      sqIdx := next.sqIdx
      loadQueue := next.loadQueue
      loads := next.loads
      loadHead := next.loadHead
      loadTail := next.loadTail
      lastSeq := next.lastSeq
      stalled := next.stalled
      stallingStoreIsn := next.stallingStoreIsn
      stallingLoadIdx := next.stallingLoadIdx
      memDepViolator := next.memDepViolator
      possibleLoadViolation := next.possibleLoadViolation
      doneSeqNum := next.doneSeqNum })
    (squashed : ∀ entry ∈ queue.stores, (next.insts entry.seqNum).isSquashed =
      (lsq.insts entry.seqNum).isSquashed)
    (disjoint : ∀ seq ∈ loads, ∀ entry ∈ queue.stores, seq ≠ entry.seqNum) :
    Whole params next { queue with loads := loads, loadHead := loadHead } written := by
  obtain ⟨⟨sent, started, stores, hold⟩, -⟩ := whole
  refine ⟨⟨sent, started, ⟨rings, ?_, ?_⟩, ?_⟩, disjoint⟩
  · refine (stores.writeback.withLoads loads loadHead).congr ?_ ?_ <;> rw [frame]
  · refine (stores.sending.withLoads loads loadHead).congr (fun _ => ⟨?_, ?_⟩) ?_ ?_ ?_
      squashed <;> rw [frame]
  · refine hold.congr ⟨?_, ?_, ?_, ?_⟩ (fun _ => ⟨?_, ?_⟩) fun _ inside => ⟨inside, rfl⟩ <;>
      rw [frame]

/-- The queues do not depend on marks, replays and the record. -/
theorem quiet
    (whole : Whole params lsq queue written)
    (frame : next = { lsq with
      insts := next.insts
      instsToReplay := next.instsToReplay
      owed := next.owed
      stalled := next.stalled
      stallingStoreIsn := next.stallingStoreIsn
      stallingLoadIdx := next.stallingLoadIdx
      memDepViolator := next.memDepViolator
      possibleLoadViolation := next.possibleLoadViolation
      doneSeqNum := next.doneSeqNum })
    (squashed : ∀ entry ∈ queue.stores, (next.insts entry.seqNum).isSquashed =
      (lsq.insts entry.seqNum).isSquashed) :
    Whole params next queue written := by
  refine whole.withLoads queue.loads queue.loadHead ?_ ?_ squashed whole.disjoint
  · refine whole.rings.congr ?_ ?_ ?_ ?_ ?_ ?_ ?_ ?_ ?_ ?_ ?_ <;> rw [frame]
  · rw [frame]

theorem insertLoad
    (whole : Whole params lsq queue written) (fresh : lsq.lastSeq < seq)
    (inserted : insertLoad params lsq seq = some next) :
    Whole params next { queue with loads := queue.loads ++ [seq] } written := by
  have rings := whole.rings.insertLoad fresh inserted
  rw [LsqUnit.insertLoad, Option.ite_none_left_eq_some] at inserted
  obtain ⟨-, last⟩ := inserted
  cases last
  refine whole.withLoads _ _ rings rfl (fun entry listed => ?_) fun other member entry listed => ?_
  · have distinct : entry.seqNum ≠ seq := by
      have bound := whole.rings.storeBound entry listed
      omega
    dsimp only
    rw [Function.update_of_ne distinct]
  · rcases List.mem_append.mp member with old | new
    · exact whole.disjoint other old entry listed
    · have bound := whole.rings.storeBound entry listed
      rw [List.mem_singleton.mp new]
      omega

variable {squashedNum kept youngestInst offset : Nat}

section

variable (whole : Whole params lsq queue written)
include whole

theorem commitLoads (bound : Nat) :
    ∃ next head, LsqUnit.commitLoads params youngestInst bound lsq = some next ∧
      LoadsLeft params youngestInst lsq queue next head ∧
      Whole params next { queue with loadHead := head } written := by
  obtain ⟨next, head, ended, left⟩ := whole.rings.commitLoads youngestInst bound
  have frame := left.frame
  refine ⟨next, head, ended, left, whole.withLoads _ _ left.rings ?_ (fun _ _ => ?_)
    whole.disjoint⟩
  · rw [frame]
  · rw [frame]

theorem insertStore
    (fresh : lsq.lastSeq < seq) (inserted : insertStore params lsq seq false = some next) :
    Whole params next { queue with stores := queue.stores ++ [{ inst := some seq }] }
      written := by
  have rings := whole.rings.insertStore fresh inserted
  obtain ⟨⟨sent, started, stores, hold⟩, disjoint⟩ := whole
  have none := stores.sending.unanswered_fresh stores.rings fresh
  rw [LsqUnit.insertStore, Option.ite_none_left_eq_some] at inserted
  obtain ⟨-, last⟩ := inserted
  cases last
  refine ⟨⟨sent, started, ⟨rings, ?_, ?_⟩, ?_⟩, ?_⟩
  · exact (stores.writeback.push seq).congr rfl rfl
  · refine Sending.push (stores.sending.congr (fun _ => ⟨rfl, rfl⟩) rfl rfl rfl ?_)
      stores.writeback.written_le none ?_
    · intro entry listed
      have bound := stores.rings.storeBound entry listed
      have distinct : entry.seqNum ≠ seq := by omega
      dsimp only
      rw [Function.update_of_ne distinct]
    · dsimp only
      rw [Function.update_self]
      rfl
  · refine hold.congr ⟨rfl, rfl, rfl, rfl⟩ (fun _ => ⟨rfl, rfl⟩) fun _ inside =>
      ⟨by rw [List.length_append]; omega, ?_⟩
    dsimp only
    rw [List.getElem_append_left inside]
  · intro other member entry listed
    rcases List.mem_append.mp listed with old | new
    · exact disjoint other member entry old
    · have bound := stores.rings.loadBound other member
      rw [List.mem_singleton.mp new]
      exact Nat.ne_of_lt (Nat.lt_of_le_of_lt bound fresh)

/-- A store that is not committed gets its data. -/
theorem accessStore
    (effect : StoreEffect lsq seq idx request next) (fromHead : queue.storeHead ≤ i)
    (inside : i < queue.stores.length) (named : queue.stores[i].seqNum = seq)
    (forbidden : queue.stores[i].canWB = false) :
    Whole params next
      { queue with stores := queue.stores.set i (queue.stores[i].setData request) } written := by
  obtain ⟨⟨sent, started, stores, hold⟩, disjoint⟩ := whole
  have place := stores.rings.sqIdx i inside fromHead
  rw [named, effect.sqIdx] at place
  obtain rfl : idx = i % params.sqEntries := Option.some.inj place
  have slot : lsq.storeQueue (i % params.sqEntries) = queue.stores[i] :=
    stores.rings.storeRing.slot i inside fromHead
  have frame := effect.frame
  rw [slot] at frame
  have squashed : ∀ other, (next.insts other).isSquashed = (lsq.insts other).isSquashed := by
    intro other
    by_cases same : other = seq
    · rw [same]
      exact effect.isSquashed
    · rw [effect.others other same]
  refine ⟨⟨sent, started, ⟨?_, ?_, ?_⟩, ?_⟩, ?_⟩
  · have rings : Rings params
        (lsq.setEntry (i % params.sqEntries) (queue.stores[i].setData request))
        { queue with stores := queue.stores.set i (queue.stores[i].setData request) } :=
      stores.rings.setEntry fromHead inside rfl
    refine rings.congr ?_ ?_ ?_ ?_ ?_ ?_ ?_ ?_ ?_ ?_ ?_ <;> rw [frame] <;> rfl
  · have writeback : Writeback params lsq
        { queue with stores := queue.stores.set i (queue.stores[i].setData request) } written :=
      stores.writeback.set inside rfl rfl rfl
    refine writeback.congr ?_ ?_ <;> rw [frame]
  · have sending : Sending params lsq
        { queue with stores := queue.stores.set i (queue.stores[i].setData request) } written
        sent started :=
      stores.sending.set stores.writeback inside forbidden rfl rfl rfl rfl
    refine sending.congr (fun _ => ⟨?_, ?_⟩) ?_ ?_ ?_ (fun _ _ => squashed _) <;> rw [frame]
  · refine hold.congr ⟨?_, ?_, ?_, ?_⟩ (fun _ => ⟨?_, ?_⟩) fun busy inside' =>
      ⟨by rwa [List.length_set], ?_⟩
    on_goal 7 =>
      -- a store that is started is committed
      obtain ⟨_, current⟩ := stores.sending.current busy
      have distinct : i ≠ written := by
        rintro rfl
        rw [current.allowed] at forbidden
        cases forbidden
      dsimp only
      rw [List.getElem_set_ne distinct]
    all_goals rw [frame]
  · intro other member entry listed
    rcases List.mem_or_eq_of_mem_set listed with old | rfl
    · exact disjoint other member entry old
    · have apart := disjoint other member queue.stores[i] (List.getElem_mem inside)
      exact apart

theorem commitStores :
    ∃ next,
      LsqUnit.commitStores params youngestInst params.sqEntries lsq.storeHead lsq = some next ∧
        StoresMarked params youngestInst lsq queue queue.storeHead next ∧
        Whole params next
          { queue with stores := queue.stores.map (SQEntry.mark youngestInst) } written := by
  obtain ⟨⟨sent, started, stores, hold⟩, disjoint⟩ := whole
  have ring := stores.rings.storeRing
  have room := ring.room
  obtain ⟨next, ended, marked⟩ := stores.rings.commitStores youngestInst params.sqEntries
    (Nat.le_refl _) ring.first_le (by omega)
  rw [← ring.head_eq] at ended
  have frame := marked.frame
  have rings := marked.rings
  rw [stores.writeback.map_mark] at rings
  refine ⟨next, ended, marked, ⟨sent, started, ⟨rings, ?_, ?_⟩, ?_⟩, ?_⟩
  · exact stores.writeback.mark stores.rings marked
  · exact stores.sending.mark stores.writeback stores.rings marked
  · refine hold.congr ⟨?_, ?_, ?_, ?_⟩ (fun _ => ⟨?_, ?_⟩) fun _ inside =>
      ⟨by rwa [List.length_map], ?_⟩
    on_goal 7 =>
      dsimp only
      rw [List.getElem_map, SQEntry.packets_mark]
    all_goals rw [frame]
  · intro other member entry listed
    obtain ⟨old, present, rfl⟩ := List.mem_map.mp listed
    rw [SQEntry.seqNum_mark]
    exact disjoint other member old present

theorem squashLoads (taken : LoadsTaken params squashedNum lsq queue next kept) :
    Whole params next { queue with loads := queue.loads.take kept } written := by
  have frame := taken.frame
  refine whole.withLoads _ _ taken.rings ?_ (fun entry listed => ?_)
    fun other member => whole.disjoint other (List.mem_of_mem_take member)
  · rw [frame]
  · rw [taken.others entry.seqNum fun i inside _ =>
      whole.disjoint _ (List.getElem_mem inside) entry listed]

theorem squashStores (taken : StoresTaken params squashedNum lsq queue next kept) :
    written ≤ kept ∧ Whole params next { queue with stores := queue.stores.take kept } written := by
  obtain ⟨⟨sent, started, stores, hold⟩, disjoint⟩ := whole
  have frame := taken.frame
  obtain ⟨far, writeback⟩ := stores.writeback.take taken
  have sending := stores.sending.take taken.upTo far fun i inside after =>
    (taken.younger i inside after).2
  refine ⟨far, ⟨sent, started, ⟨taken.rings, writeback, ?_⟩, ?_⟩, ?_⟩
  · refine sending.congr (fun _ => ⟨?_, ?_⟩) ?_ ?_ ?_ fun entry listed => ?_
    on_goal 6 =>
      -- the stores that are squashed are others
      obtain ⟨i, short, rfl⟩ := List.getElem_of_mem listed
      rw [List.length_take] at short
      rw [List.getElem_take, taken.others]
      intro j inside after
      exact stores.rings.seqNum_ne inside (by omega) (by omega)
    all_goals rw [frame]
  · refine hold.congr ⟨?_, ?_, ?_, ?_⟩ (fun _ => ⟨?_, ?_⟩) fun busy inside => ?_
    on_goal 7 =>
      obtain ⟨_, current⟩ := stores.sending.current busy
      have stays : written < kept := by
        by_contra gone
        have allowed := current.allowed
        rw [(taken.younger written inside (by omega)).2] at allowed
        cases allowed
      refine ⟨by rw [List.length_take]; omega, ?_⟩
      dsimp only
      rw [List.getElem_take]
    all_goals rw [frame]
  · exact fun other member entry listed =>
      disjoint other member entry (List.mem_of_mem_take listed)

theorem of_settles (settles : Settles params lsq queue written next) :
    ∃ queue' written', Whole params next queue' written' ∧
      Passed lsq queue written next queue' written' := by
  obtain ⟨queue', written', sent, started, stores, hold, passed⟩ := settles
  refine ⟨queue', written', ⟨⟨sent, started, stores, hold⟩, ?_⟩, passed⟩
  intro seq member entry listed
  rw [passed.loads] at member
  have mapped : entry.seqNum ∈ queue.stores.map SQEntry.seqNum := by
    rw [← passed.seqNums]
    exact List.mem_map_of_mem listed
  obtain ⟨old, present, same⟩ := List.mem_map.mp mapped
  rw [← same]
  exact whole.disjoint seq member old present

theorem loadAt_eq (inside : queue.loadHead + offset < queue.loads.length) :
    lsq.loadAt params offset = some queue.loads[queue.loadHead + offset] := by
  rw [LSQUnit.loadAt, whole.rings.loadRing.head_eq, Nat.mod_add_mod]
  exact whole.rings.loadQueue_eq inside (Nat.le_add_right _ _)

theorem storeAt_eq (inside : queue.storeHead + offset < queue.stores.length) :
    lsq.storeAt params offset = queue.stores[queue.storeHead + offset] := by
  rw [LSQUnit.storeAt, whole.rings.storeRing.head_eq, Nat.mod_add_mod]
  exact whole.rings.storeRing.slot _ inside (Nat.le_add_right _ _)

theorem exists_load (present : lsq.hasLoad params seq = true) :
    ∃ i, ∃ inside : i < queue.loads.length, queue.loadHead ≤ i ∧ queue.loads[i] = seq := by
  rw [LSQUnit.hasLoad, List.any_eq_true] at present
  obtain ⟨offset, listed, found⟩ := present
  rw [List.mem_range, whole.rings.loads_eq] at listed
  rw [decide_eq_true_eq] at found
  have inside : queue.loadHead + offset < queue.loads.length := by omega
  rw [whole.loadAt_eq inside] at found
  exact ⟨_, inside, Nat.le_add_right _ _, Option.some.inj found⟩

theorem exists_store (present : lsq.hasStore params seq = true) :
    ∃ i, ∃ inside : i < queue.stores.length, queue.storeHead ≤ i ∧
      queue.stores[i].seqNum = seq := by
  rw [LSQUnit.hasStore, List.any_eq_true] at present
  obtain ⟨offset, listed, found⟩ := present
  rw [List.mem_range, whole.rings.storeRing.count_eq] at listed
  rw [decide_eq_true_eq] at found
  have inside : queue.storeHead + offset < queue.stores.length := by omega
  rw [whole.storeAt_eq inside, whole.rings.inst_eq inside] at found
  exact ⟨_, inside, Nat.le_add_right _ _, Option.some.inj found⟩

theorem modify (squashed : (change (lsq.insts seq)).isSquashed = (lsq.insts seq).isSquashed) :
    Whole params (lsq.modify seq change) queue written := by
  refine whole.quiet rfl fun entry _ => ?_
  by_cases same : entry.seqNum = seq
  · rw [same, modify_insts_self, squashed]
  · rw [lsq.modify_insts_of_ne same]

theorem setStatus (other : flag ≠ .squashed) (seq : Nat) (value : Bool) :
    Whole params (lsq.modify seq fun inst => inst.setStatus flag value) queue written :=
  whole.modify (DynInst.isSquashed_setStatus _ other value)

theorem executeLoad (effect : LoadEffect lsq seq next) : Whole params next queue written := by
  refine whole.quiet ?_ fun entry _ => ?_
  · have frame := effect.frame
    rw [frame]
  · by_cases same : entry.seqNum = seq
    · rw [same, effect.isSquashed]
    · rw [effect.others _ same]

theorem checkSnoop (effect : SnoopEffect lsq next) : Whole params next queue written := by
  refine whole.quiet ?_ fun entry _ => (effect.stand _).isSquashed
  have frame := effect.frame
  rw [frame]

theorem storeMoves (moves : StoreMoves lsq seq next) : Whole params next queue written := by
  refine whole.quiet ?_ fun entry _ => ?_
  · have frame := moves.frame
    rw [frame]
  · by_cases same : entry.seqNum = seq
    · rw [same, moves.isSquashed]
    · rw [moves.others _ same]

/-- A store that may be executed is not committed. -/
theorem exists_uncommitted (may : enabled params lsq (.executeStore seq attempt) = true) :
    ∃ i, ∃ inside : i < queue.stores.length, queue.storeHead ≤ i ∧
      queue.stores[i].seqNum = seq ∧ queue.stores[i].canWB = false := by
  rw [enabled, Bool.and_eq_true, Bool.and_eq_true] at may
  obtain ⟨⟨present, waiting⟩, -⟩ := may
  obtain ⟨i, inside, fromHead, named⟩ := whole.exists_store present
  have place := whole.rings.sqIdx i inside fromHead
  have slot : lsq.storeQueue (i % params.sqEntries) = queue.stores[i] :=
    whole.rings.storeRing.slot i inside fromHead
  rw [← named, place, Option.all_some, slot] at waiting
  exact ⟨i, inside, fromHead, named, by simpa using waiting⟩

/-- What a squash does: loads and stores are taken back from the tails. -/
theorem squash (ended : squash params lsq squashedNum = some next) :
    ∃ mid kept kept', TakenBack params squashedNum lsq queue mid next kept kept' ∧
      written ≤ kept' ∧
      Whole params next
        { queue with
          loads := queue.loads.take kept
          stores := queue.stores.take kept' } written := by
  have loadRoom := whole.rings.loadRing.room
  have storeRoom := whole.rings.storeRing.room
  rw [List.length_map] at loadRoom
  have filtered : Whole params
      { lsq with
        instsToReplay := lsq.instsToReplay.filter fun seq => decide (seq ≤ squashedNum) }
      queue written := whole.quiet rfl fun _ _ => rfl
  obtain ⟨mid, kept, loadsEnded, loadsTaken⟩ :=
    filtered.rings.squashLoads squashedNum params.lqEntries (by omega)
  rw [LsqUnit.squash, Option.bind_eq_bind, Option.bind_eq_some_iff] at ended
  obtain ⟨mid', loadsEnded', ended⟩ := ended
  obtain rfl : mid' = mid := by
    rw [loadsEnded] at loadsEnded'
    exact (Option.some.inj loadsEnded').symm
  have middle : Whole params
      { mid' with
        memDepViolator := mid'.memDepViolator.filter fun seq => decide (seq ≤ squashedNum) }
      { queue with loads := queue.loads.take kept } written :=
    (filtered.squashLoads loadsTaken).quiet rfl fun _ _ => rfl
  obtain ⟨kept', storesTaken⟩ :=
    middle.rings.squashStores squashedNum params.sqEntries (by dsimp only; omega) ended
  obtain ⟨far, last⟩ := middle.squashStores storesTaken
  exact ⟨mid', kept, kept', ⟨loadsTaken, storesTaken⟩, far, last⟩

theorem reported (youngestInst : Nat) :
    Whole params { lsq with doneSeqNum := max lsq.doneSeqNum youngestInst } queue written :=
  whole.quiet rfl fun _ _ => rfl

end

/-- What a step does to the unit and to the loads and stores in program order. -/
inductive Moves (params : Params) (lsq : LSQUnit) (queue : Queue) (written : Nat) :
    Event → LSQUnit → Queue → Nat → Prop where
  | insertLoad {seq : Nat} {next : LSQUnit} :
      lsq.lastSeq < seq →
      LsqUnit.insertLoad params lsq seq = some next →
      Moves params lsq queue written (.insertLoad seq) next
        { queue with loads := queue.loads ++ [seq] } written
  | insertStore {seq : Nat} {next : LSQUnit} :
      lsq.lastSeq < seq →
      LsqUnit.insertStore params lsq seq false = some next →
      Moves params lsq queue written (.insertStore seq) next
        { queue with stores := queue.stores ++ [{ inst := some seq }] } written
  | executeLoad {i : Nat} {attempt : LoadAttempt} {next : LSQUnit}
      (inside : i < queue.loads.length) :
      queue.loadHead ≤ i →
      (lsq.insts queue.loads[i]).isExecuted = false →
      lsq.owed queue.loads[i] = false →
      queue.loads[i] ∉ lsq.instsToReplay →
      LoadEffect lsq queue.loads[i] next →
      LoadOutcome params lsq queue.loads[i] next →
      Moves params lsq queue written (.executeLoad queue.loads[i] attempt) next queue written
  | accessStore {i idx : Nat} {request : StoreAccess} {next : LSQUnit}
      (inside : i < queue.stores.length) :
      request.effSize ≠ 0 →
      StoreEffect lsq queue.stores[i].seqNum idx request next →
      Moves params lsq queue written
        (.executeStore queue.stores[i].seqNum (.access request)) next
        { queue with stores := queue.stores.set i (queue.stores[i].setData request) } written
  | storeMoves {i : Nat} {attempt : StoreAttempt} {next : LSQUnit}
      (inside : i < queue.stores.length) :
      StoreMoves lsq queue.stores[i].seqNum next →
      Moves params lsq queue written
        (.executeStore queue.stores[i].seqNum attempt) next queue written
  | ignore {seq : Nat} :
      lsq.owed seq = true →
      Moves params lsq queue written (.writeback seq)
        { lsq with owed := Function.update lsq.owed seq false } queue written
  | writeback {seq : Nat} :
      lsq.owed seq = true →
      Moves params lsq queue written (.writeback seq)
        ({ lsq with owed := Function.update lsq.owed seq false }.modify seq fun load =>
          load.setStatus .executed true) queue written
  | status {seq : Nat} {flag : Status} {value : Bool} :
      isCoreFlag flag = true →
      flag ≠ .squashed →
      Moves params lsq queue written (.status seq flag value)
        (lsq.modify seq fun inst => inst.setStatus flag value) queue written
  | getMemDepViolator :
      Moves params lsq queue written .getMemDepViolator
        { lsq with memDepViolator := none } queue written
  | checkSnoop {hits : List Nat} {next : LSQUnit} :
      SnoopEffect lsq next →
      Moves params lsq queue written (.checkSnoop hits) next queue written
  | commitLoads {youngestInst head : Nat} {next : LSQUnit} :
      LoadsLeft params youngestInst
        { lsq with doneSeqNum := max lsq.doneSeqNum youngestInst } queue next head →
      Moves params lsq queue written (.commitLoads youngestInst) next
        { queue with loadHead := head } written
  | commitStores {youngestInst : Nat} {next : LSQUnit} :
      StoresMarked params youngestInst
        { lsq with doneSeqNum := max lsq.doneSeqNum youngestInst } queue queue.storeHead
        next →
      Moves params lsq queue written (.commitStores youngestInst) next
        { queue with stores := queue.stores.map (SQEntry.mark youngestInst) } written
  | replayStrictlyOrdered {seq : Nat} :
      lsq.loadAt params 0 = some seq →
      Moves params lsq queue written (.replayStrictlyOrdered seq)
        ({ lsq with instsToReplay := [] }.modify seq fun load =>
          load.setStatus .atCommit true) queue written
  | squash {squashedNum kept kept' : Nat} {mid next : LSQUnit} :
      LoadsTaken params squashedNum
        { lsq with
          instsToReplay := lsq.instsToReplay.filter fun seq => decide (seq ≤ squashedNum) }
        queue mid kept →
      StoresTaken params squashedNum
        { mid with
          memDepViolator := mid.memDepViolator.filter fun seq => decide (seq ≤ squashedNum) }
        { queue with loads := queue.loads.take kept } next kept' →
      Moves params lsq queue written (.squash squashedNum) next
        { queue with
          loads := queue.loads.take kept
          stores := queue.stores.take kept' } written
  | settles {event : Event} {next : LSQUnit} {queue' : Queue} {written' : Nat} :
      Passed lsq queue written next queue' written' →
      Moves params lsq queue written event next queue' written'

/-- A step keeps the agreement of the unit with the loads and stores in program order. -/
theorem step_cases
    (whole : Whole params lsq queue written) (stepped : step params lsq event = some next) :
    ∃ queue' written', Whole params next queue' written' ∧
      Moves params lsq queue written event next queue' written' := by
  rw [LsqUnit.step, Option.ite_none_right_eq_some] at stepped
  obtain ⟨may, applied⟩ := stepped
  cases event with
  | insertLoad seq =>
      rw [enabled, Bool.and_eq_true, decide_eq_true_eq] at may
      exact ⟨_, _, whole.insertLoad may.1 applied, .insertLoad may.1 applied⟩
  | insertStore seq =>
      rw [enabled, Bool.and_eq_true, decide_eq_true_eq] at may
      exact ⟨_, _, whole.insertStore may.1 applied, .insertStore may.1 applied⟩
  | executeLoad seq attempt =>
      simp only [enabled, Bool.and_eq_true, Bool.not_eq_true', List.contains_eq_mem,
        decide_eq_false_iff_not] at may
      obtain ⟨⟨⟨present, unexecuted⟩, noData⟩, absent⟩ := may
      obtain ⟨i, inside, fromHead, rfl⟩ := whole.exists_load present
      obtain ⟨effect, outcome⟩ := executeLoad_effect applied
      exact ⟨_, _, whole.executeLoad effect,
        .executeLoad inside fromHead unexecuted noData absent effect outcome⟩
  | executeStore seq attempt =>
      obtain ⟨i, inside, fromHead, rfl, forbidden⟩ := whole.exists_uncommitted may
      rcases executeStore_cases applied with ⟨request, rfl, accessed⟩ | moves
      · obtain ⟨idx, effect⟩ := accessStore_effect accessed
        exact ⟨_, _, whole.accessStore effect fromHead inside rfl forbidden,
          .accessStore inside (size_ne_zero_of_enabled may) effect⟩
      · exact ⟨_, _, whole.storeMoves moves, .storeMoves inside moves⟩
  | writeback seq =>
      have taken : Whole params { lsq with owed := Function.update lsq.owed seq false } queue
          written := whole.quiet rfl fun _ _ => rfl
      rw [apply] at applied
      dsimp only at applied
      split at applied
      case isTrue =>
        cases applied
        exact ⟨_, _, taken, .ignore may⟩
      case isFalse =>
        cases applied
        exact ⟨_, _, taken.setStatus (by decide) seq true, .writeback may⟩
  | status seq flag value =>
      cases applied
      have other : flag ≠ .squashed := by
        rintro rfl
        cases may
      exact ⟨_, _, whole.setStatus other seq value, .status may other⟩
  | getMemDepViolator =>
      cases applied
      exact ⟨_, _, whole.quiet rfl fun _ _ => rfl, .getMemDepViolator⟩
  | checkSnoop hits =>
      have effect := checkSnoop_effect applied
      exact ⟨_, _, whole.checkSnoop effect, .checkSnoop effect⟩
  | commitLoads youngestInst =>
      obtain ⟨_, _, ended, left, last⟩ :=
        (whole.reported youngestInst).commitLoads params.lqEntries
      cases ended.symm.trans applied
      exact ⟨_, _, last, .commitLoads left⟩
  | commitStores youngestInst =>
      obtain ⟨_, ended, marked, last⟩ := (whole.reported youngestInst).commitStores
      cases ended.symm.trans applied
      exact ⟨_, _, last, .commitStores marked⟩
  | replayStrictlyOrdered seq =>
      cases applied
      have replayed : Whole params { lsq with instsToReplay := [] } queue written :=
        whole.quiet rfl fun _ _ => rfl
      simp only [enabled, Bool.and_eq_true, decide_eq_true_eq] at may
      exact ⟨_, _, replayed.setStatus (by decide) seq true, .replayStrictlyOrdered may.1.1.1⟩
  | squash squashedNum =>
      obtain ⟨_, _, _, taken, -, last⟩ := whole.squash applied
      exact ⟨_, _, last, .squash taken.loads taken.stores⟩
  | writebackStores answers =>
      obtain ⟨_, _, stores, hold⟩ := whole.agrees
      obtain ⟨_, _, last, passed⟩ := whole.of_settles (stores.writebackStores hold applied)
      exact ⟨_, _, last, .settles passed⟩
  | recvRetry answers =>
      obtain ⟨_, _, stores, hold⟩ := whole.agrees
      obtain ⟨_, _, last, passed⟩ := whole.of_settles (stores.recvRetry hold applied)
      exact ⟨_, _, last, .settles passed⟩
  | response pkt =>
      obtain ⟨_, _, stores, hold⟩ := whole.agrees
      rw [enabled, List.contains_iff_mem] at may
      obtain ⟨_, _, last, passed⟩ :=
        whole.of_settles (stores.completeDataAccess hold may applied)
      exact ⟨_, _, last, .settles passed⟩

end Whole

/-- In every state of a run the unit agrees with loads and stores in program order. -/
theorem Reached.whole (reached : Reached params lsq) :
    ∃ queue written, Whole params lsq queue written := by
  induction reached with
  | init => exact ⟨_, _, Whole.init⟩
  | step event _ _ stepped ih =>
      obtain ⟨queue, written, whole⟩ := ih
      obtain ⟨queue', written', whole', -⟩ := whole.step_cases stepped
      exact ⟨queue', written', whole'⟩

end LsqUnit
end Dolma

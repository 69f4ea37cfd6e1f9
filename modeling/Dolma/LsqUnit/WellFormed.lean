import Dolma.LsqUnit.Invariant
import Mathlib.Data.Nat.Find

/-!
# The rings stay well formed

What the agreement with the loads and stores in program order says about the indices,
the counters and the slots of the unit itself.
-/

namespace Dolma
namespace LsqUnit

open Library LSQUnit

/-- The load and store rings are well formed. -/
structure WellFormed (params : Params) (lsq : LSQUnit) : Prop where
  loads : lsq.loads = ((lsq.loadTail : Int) - lsq.loadHead) % params.lqEntries
  stores : lsq.stores = ((lsq.storeTail : Int) - lsq.storeHead) % params.sqEntries
  occupied : ∀ idx, (lsq.loadQueue idx).isSome = true ↔
    ∃ offset : Nat, (offset : Int) < lsq.loads ∧ idx = (lsq.loadHead + offset) % params.lqEntries
  named : ∀ offset : Nat, (offset : Int) < lsq.stores →
    (lsq.storeAt params offset).inst.isSome = true
  loadOrder : ∀ older younger : Nat, older < younger → (younger : Int) < lsq.loads →
    ∃ first second, lsq.loadAt params older = some first ∧
      lsq.loadAt params younger = some second ∧ first < second
  storeOrder : ∀ older younger : Nat, older < younger → (younger : Int) < lsq.stores →
    ∃ first second, (lsq.storeAt params older).inst = some first ∧
      (lsq.storeAt params younger).inst = some second ∧ first < second
  storeWBIdx : ∃ offset : Nat, (offset : Int) ≤ lsq.stores ∧
    lsq.storeWBIdx = (lsq.storeHead + offset) % params.sqEntries
  canWB : ∃ count : Nat, ∀ offset : Nat, (offset : Int) < lsq.stores →
    ((lsq.storeAt params offset).canWB = true ↔ offset < count)
  storesToWB : lsq.storesToWB = ((List.range lsq.stores.toNat).countP fun offset =>
      (lsq.storeAt params offset).canWB && !(lsq.storeAt params offset).completed : Nat)

namespace Whole

variable {params : Params} {lsq : LSQUnit} {queue : Queue} {written : Nat}

theorem stores_eq (whole : Whole params lsq queue written) :
    lsq.stores = (queue.stores.length : Int) - queue.storeHead :=
  whole.rings.storeRing.count_eq

/-- The slots from head to tail, and no others, hold loads. -/
theorem occupied (whole : Whole params lsq queue written) (idx : Nat) :
    (lsq.loadQueue idx).isSome = true ↔
      ∃ offset : Nat, (offset : Int) < lsq.loads ∧
        idx = (lsq.loadHead + offset) % params.lqEntries := by
  have head := whole.rings.loadRing.head_eq
  have count := whole.rings.loads_eq
  constructor
  · intro occupied
    by_contra outside
    have empty := whole.rings.unoccupied idx fun i after before same => by
      refine outside ⟨i - queue.loadHead, by omega, ?_⟩
      rw [head, Nat.mod_add_mod, Nat.add_sub_cancel' after]
      exact same.symm
    rw [empty] at occupied
    cases occupied
  · rintro ⟨offset, inside, rfl⟩
    have further : queue.loadHead + offset < queue.loads.length := by omega
    have found := whole.loadAt_eq further
    rw [LSQUnit.loadAt] at found
    rw [found]
    rfl

/-- The stores that may write back come first. -/
theorem exists_count (whole : Whole params lsq queue written) :
    ∃ count : Nat, ∀ offset : Nat, (offset : Int) < lsq.stores →
      ((lsq.storeAt params offset).canWB = true ↔ offset < count) := by
  have size := whole.stores_eq
  have least := whole.rings.storeRing.first_le
  by_cases some : ∃ offset : Nat, (offset : Int) < lsq.stores ∧
      (lsq.storeAt params offset).canWB = false
  · -- the first store that may not write back ends them
    refine ⟨Nat.find some, fun offset inside => ⟨fun allowed => ?_, fun before => ?_⟩⟩
    · obtain ⟨inside', forbidden⟩ := Nat.find_spec some
      have bound : queue.storeHead + offset < queue.stores.length := by omega
      have bound' : queue.storeHead + Nat.find some < queue.stores.length := by omega
      rw [whole.storeAt_eq bound] at allowed
      rw [whole.storeAt_eq bound'] at forbidden
      have before := whole.writeback.lt_of_allowed bound bound' allowed forbidden
      omega
    · have least := Nat.find_min some before
      rw [not_and, Bool.not_eq_false] at least
      exact least inside
  · refine ⟨lsq.stores.toNat, fun offset inside => ⟨fun _ => by omega, fun _ => ?_⟩⟩
    by_contra forbidden
    exact some ⟨offset, inside, by simpa using forbidden⟩

theorem map_storeAt (whole : Whole params lsq queue written) :
    (List.range lsq.stores.toNat).map (lsq.storeAt params) = queue.stores.drop queue.storeHead := by
  have count := whole.stores_eq
  have least := whole.rings.storeRing.first_le
  refine List.ext_getElem (by simp; omega) fun offset inside inside' => ?_
  rw [List.length_drop] at inside'
  rw [List.getElem_map, List.getElem_range, List.getElem_drop]
  exact whole.storeAt_eq (by omega)

/-- The counter counts the stores in the queue. -/
theorem storesToWB_eq (whole : Whole params lsq queue written) :
    lsq.storesToWB = ((List.range lsq.stores.toNat).countP fun offset =>
      (lsq.storeAt params offset).canWB && !(lsq.storeAt params offset).completed : Nat) := by
  have window : ((List.range lsq.stores.toNat).countP fun offset =>
      (lsq.storeAt params offset).canWB && !(lsq.storeAt params offset).completed) =
        (queue.stores.drop queue.storeHead).countP SQEntry.isPending := by
    rw [← whole.map_storeAt, List.countP_map]
    rfl
  -- the stores that have left are completed
  have left : (queue.stores.take queue.storeHead).countP SQEntry.isPending = 0 := by
    rw [List.countP_eq_zero]
    intro entry member
    obtain ⟨i, short, rfl⟩ := List.getElem_of_mem member
    rw [List.length_take] at short
    rw [List.getElem_take, SQEntry.isPending, (whole.writeback.marks i (by omega)).left (by omega)]
    simp
  have all : (queue.stores.map SQEntry.isPending).count true =
      (queue.stores.drop queue.storeHead).countP SQEntry.isPending := by
    have split : queue.stores.countP SQEntry.isPending =
        (queue.stores.take queue.storeHead).countP SQEntry.isPending +
          (queue.stores.drop queue.storeHead).countP SQEntry.isPending := by
      rw [← List.countP_append, List.take_append_drop]
    rw [List.count, List.countP_map]
    have same : ((· == true) ∘ SQEntry.isPending) = SQEntry.isPending := by
      funext entry
      simp
    rw [same, split, left, Nat.zero_add]
  rw [whole.writeback.counter, window, all]

end Whole

/-- In every state of a run the load and store rings are well formed. -/
theorem reached_wellFormed
    (params : Params) (lsq : LSQUnit) (reached : Reached params lsq) :
    WellFormed params lsq := by
  obtain ⟨queue, written, whole⟩ := reached.whole
  have loads := whole.rings.loads_eq
  have stores := whole.stores_eq
  have loadHead := whole.rings.loadHead_le
  have storeHead := whole.rings.storeRing.first_le
  constructor
  case loads => exact whole.rings.loadRing.count_eq_emod
  case stores => exact whole.rings.storeRing.count_eq_emod
  case occupied => exact whole.occupied
  case named =>
    intro offset inside
    have bound : queue.storeHead + offset < queue.stores.length := by omega
    rw [whole.storeAt_eq bound, whole.rings.inst_eq bound]
    rfl
  case loadOrder =>
    intro older younger before inside
    have bound : queue.loadHead + younger < queue.loads.length := by omega
    have bound' : queue.loadHead + older < queue.loads.length := by omega
    exact ⟨_, _, whole.loadAt_eq bound', whole.loadAt_eq bound,
      whole.rings.load_lt bound (by omega)⟩
  case storeOrder =>
    intro older younger before inside
    have bound : queue.storeHead + younger < queue.stores.length := by omega
    have bound' : queue.storeHead + older < queue.stores.length := by omega
    rw [whole.storeAt_eq bound, whole.storeAt_eq bound']
    exact ⟨_, _, whole.rings.inst_eq bound', whole.rings.inst_eq bound,
      whole.rings.store_lt bound (by omega)⟩
  case storeWBIdx =>
    have head := whole.rings.storeRing.head_eq
    have after := whole.writeback.head_le
    have upTo := whole.writeback.written_le
    refine ⟨written - queue.storeHead, by omega, ?_⟩
    rw [head, Nat.mod_add_mod, Nat.add_sub_cancel' after]
    exact whole.writeback.idx
  case canWB => exact whole.exists_count
  case storesToWB => exact whole.storesToWB_eq

/-- Two stores are committed and sent, the first one leaves, and a third one wraps around.
A load is squashed and another one takes its slot. -/
def wrapAround : List Event :=
  [.insertStore 1, .insertStore 2, .executeStore 1 (.access { effAddr := 64, size := 8 }),
    .executeStore 2 (.access { effAddr := 72, size := 8 }), .commitStores 2, .writebackStores [true],
    .response ⟨1, .whole⟩, .insertStore 3, .insertLoad 4, .writebackStores [true], .squash 3,
    .insertLoad 5]

theorem reached_wellFormed_wrapAround :
    ∃ lsq, Reached twoEach lsq ∧
      (lsq.storeHead = 1 ∧ lsq.storeTail = 0 ∧ lsq.storeWBIdx = 2 ∧ lsq.storesToWB = 1) ∧
      WellFormed twoEach lsq :=
  Reachable.exists_and_of_replay wrapAround (by decide +kernel) fun lsq reached _ =>
    reached_wellFormed twoEach lsq reached

end LsqUnit
end Dolma

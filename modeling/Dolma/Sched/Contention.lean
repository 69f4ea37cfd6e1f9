import Dolma.Sched.Defs

/-!
# Contention for functional units

When every unit of its class is busy, an instruction may throw a younger
restricted instruction of its thread out of a unit. Without such contention the
scheduler takes units that are free, and leaves everything else as it is.
-/

namespace Dolma
namespace Sched

open Library

/-- The body of the loop that looks for a free unit. -/
def getUnitBody (pool : FUPool) (startIdx : Nat) :
    Nat × CircularQueue Nat × Bool → CircularQueue.Search Nat ⊕ (Nat × CircularQueue Nat × Bool) :=
  CircularQueue.searchBody (fun idx => pool.unitBusy idx == 0) (fun _ => true) startIdx

/-- The body of the loop that looks for an occupant to throw out. -/
def findOccupiedBody (pool : FUPool) (evictable : Nat → Bool) (startIdx : Nat) :
    Nat × CircularQueue Nat × Bool → CircularQueue.Search Nat ⊕ (Nat × CircularQueue Nat × Bool) :=
  CircularQueue.searchBody (fun idx => evictable (pool.unitBusy idx))
    (fun idx => pool.unitBusy idx != 0) startIdx

namespace State

variable (params : Params) (state : State)

/-- The units of the class of an instruction. -/
def unitsFor (seq : Nat) : List Nat :=
  state.fuPool.units (state.heap seq).opClass

/-- Contention is resolved for an instruction when all units of its class are
busy. -/
def isContended (seq : Nat) : Bool :=
  params.config.isDolma && !params.config.isSTT &&
    (state.unitsFor seq).all fun idx => state.fuPool.unitBusy idx != 0

/-- A younger restricted instruction is in the way of an instruction. -/
def unsafeContention (seq : Nat) : Bool :=
  state.isContended params seq && (state.unitsFor seq).any fun idx =>
      state.isUnsafeContender seq (state.fuPool.unitBusy idx)

/-- A younger restricted instruction that is not yet stalled is in the way of an
instruction. -/
def evictsRunning (seq : Nat) : Bool :=
  state.isContended params seq && (state.unitsFor seq).any fun idx =>
      state.isUnsafeContender seq (state.fuPool.unitBusy idx) &&
        !(state.heap (state.fuPool.unitBusy idx)).isDolmaStalled

variable {params state} {seq : Nat}

/-- Without contention nothing that runs is thrown out. -/
theorem evictsRunning_of_not_unsafeContention (calm : state.unsafeContention params seq = false) :
    state.evictsRunning params seq = false := by
  unfold unsafeContention at calm
  unfold evictsRunning
  rcases Bool.and_eq_false_iff.mp calm with free | none
  · rw [free, Bool.false_and]
  · rw [List.any_eq_false] at none
    have calmer : ((state.unitsFor seq).any fun idx =>
        state.isUnsafeContender seq (state.fuPool.unitBusy idx) &&
          !(state.heap (state.fuPool.unitBusy idx)).isDolmaStalled) = false := by
      rw [List.any_eq_false]
      intro idx mem
      simp [none idx mem]
    rw [calmer, Bool.and_false]

/-- If the search goes on to occupants, all units are busy. -/
theorem isContended_of_noFreeFU
    (dolma : (params.config.isDolma && !params.config.isSTT) = true)
    (full : (state.fuPool.getUnit (state.heap seq).opClass seq).1 = .noFreeFU) :
    state.isContended params seq = true := by
  unfold isContended
  rw [dolma, Bool.true_and, List.all_eq_true]
  intro idx mem
  rcases state.fuPool.getUnit_cases (state.heap seq).opClass seq with
    ⟨capable, _⟩ | ⟨_, busy, _⟩ | ⟨unit, turned, found, _⟩
  · rw [capable] at full
    cases full
  · exact bne_iff_ne.mpr (busy idx mem)
  · rw [found] at full
    cases full

/-- What the search for a unit finds. -/
inductive FoundUnit (params : Params) (state : State) (seq : Nat) :
    UnitChoice → State → Prop where
  | noCapableFU : FoundUnit params state seq .noCapableFU state
  | noFreeFU {pool : FUPool} :
      FUPool.Turned state.fuPool pool →
      FoundUnit params state seq .noFreeFU (state.setPool pool)
  | unit {pool : FUPool} {idx : Nat} :
      state.fuPool.unitBusy idx = 0 →
      FUPool.Turned state.fuPool pool →
      FoundUnit params state seq (.unit idx) (state.setPool (pool.occupy idx seq))
  /-- The instruction takes the unit of a younger restricted instruction. -/
  | evicted {pool : FUPool} {idx : Nat} :
      state.isContended params seq = true →
      idx ∈ state.unitsFor seq →
      state.isUnsafeContender seq (state.fuPool.unitBusy idx) = true →
      FUPool.Turned state.fuPool pool →
      FoundUnit params state seq (.unit idx)
        ((if (state.heap (state.fuPool.unitBusy idx)).isDolmaStalled then state
          else state.stall (state.fuPool.unitBusy idx)).setPool (pool.occupy idx seq))

/-- The search among occupants, with the pool apart from the rest of the state. -/
theorem setPool_evict (pool : FUPool) :
    (state.setPool pool).evict seq =
      match pool.findOccupied (state.heap seq).opClass (state.isUnsafeContender seq) with
      | (none, searched) => (.noFreeFU, state.setPool searched)
      | (some idx, searched) =>
          (.unit idx,
            (if (state.heap (pool.unitBusy idx)).isDolmaStalled then state
              else state.stall (pool.unitBusy idx)).setPool (searched.occupy idx seq)) := by
  have contender : (state.setPool pool).isUnsafeContender seq = state.isUnsafeContender seq := rfl
  have heap : (state.setPool pool).heap = state.heap := rfl
  have fuPool : (state.setPool pool).fuPool = pool := rfl
  unfold evict
  rw [contender, heap, fuPool]
  generalize pool.findOccupied (state.heap seq).opClass (state.isUnsafeContender seq) = result
  obtain ⟨found, searched⟩ := result
  cases found
  case none => rfl
  case some idx =>
    dsimp only
    cases (state.heap (pool.unitBusy idx)).isDolmaStalled <;> rfl

variable {pool : FUPool}

/-- An occupant that is found is younger and restricted. -/
theorem evict_foundUnit
    (contended : state.isContended params seq = true) (turned : FUPool.Turned state.fuPool pool)
    (same : ∀ opClass, pool.units opClass = state.fuPool.units opClass) :
    FoundUnit params state seq ((state.setPool pool).evict seq).1
      ((state.setPool pool).evict seq).2 := by
  have busy : ∀ idx ∈ pool.units (state.heap seq).opClass, pool.unitBusy idx ≠ 0 := by
    intro idx mem
    rw [same] at mem
    rw [turned.unitBusy]
    unfold isContended at contended
    rw [Bool.and_eq_true, List.all_eq_true] at contended
    exact bne_iff_ne.mp (contended.2 idx mem)
  have searched := FUPool.findOccupied_turned (state.isUnsafeContender seq) busy
  have found : ∀ idx, (pool.findOccupied (state.heap seq).opClass
      (state.isUnsafeContender seq)).1 = some idx → idx ∈ state.unitsFor seq ∧
        state.isUnsafeContender seq (state.fuPool.unitBusy idx) = true := by
    intro idx occupied
    obtain ⟨mem, evictable⟩ := FUPool.findOccupied_found occupied
    rw [same] at mem
    rw [turned.unitBusy] at evictable
    exact ⟨mem, evictable⟩
  rw [setPool_evict, turned.unitBusy]
  generalize pool.findOccupied (state.heap seq).opClass (state.isUnsafeContender seq) =
    result at searched found
  obtain ⟨occupied, after⟩ := result
  have again : FUPool.Turned state.fuPool after := turned.trans searched
  cases occupied
  case none => exact .noFreeFU again
  case some idx => exact .evicted contended (found idx rfl).1 (found idx rfl).2 again

theorem findUnit_foundUnit (params : Params) (state : State) (seq : Nat) :
    FoundUnit params state seq (state.findUnit params seq).1
      (state.findUnit params seq).2 := by
  unfold findUnit
  dsimp only
  split
  case isTrue => exact .noCapableFU
  case isFalse =>
    rcases state.fuPool.getUnit_cases (state.heap seq).opClass seq with
      ⟨capable, kept⟩ | ⟨full, busy, turned⟩ | ⟨idx, pool, found, free, turned, taken⟩
    · rw [capable, kept, if_neg (by simp)]
      exact .noCapableFU
    · split
      case isFalse =>
        rw [full]
        exact .noFreeFU turned
      case isTrue dolma =>
        rw [full, beq_self_eq_true, Bool.and_true] at dolma
        exact evict_foundUnit (isContended_of_noFreeFU dolma full) turned
          (FUPool.getUnit_noFreeFU_units full)
    · rw [found, taken, if_neg (by simp)]
      exact .unit free turned

/-- No younger restricted instruction is in the way when the search among occupants finds
nothing. -/
theorem not_isUnsafeContender_of_evict
    (turned : FUPool.Turned state.fuPool pool)
    (same : ∀ opClass, pool.units opClass = state.fuPool.units opClass)
    (none : ((state.setPool pool).evict seq).1 = .noFreeFU) :
    ∀ idx ∈ state.unitsFor seq,
      state.isUnsafeContender seq (state.fuPool.unitBusy idx) = false := by
  rw [setPool_evict] at none
  intro idx member
  unfold unitsFor at member
  rw [← same] at member
  rw [← turned.unitBusy]
  refine FUPool.findOccupied_none ?_ idx member
  generalize pool.findOccupied (state.heap seq).opClass (state.isUnsafeContender seq) =
    result at none ⊢
  obtain ⟨found, searched⟩ := result
  cases found with
  | none => rfl
  | some unit => cases none

/-- In the modes other than STT, an instruction is refused for lack of a unit only if every unit
of its class is busy and no younger restricted instruction of its thread in the reorder buffer
holds one. Both searches return. -/
theorem contention_resolved
    (params : Params) (state : State) (seq : Nat) (dolma : params.config.isDolma = true)
    (notSTT : params.config.isSTT = false) (refused : (state.findUnit params seq).1 = .noFreeFU) :
    (∀ idx ∈ state.unitsFor seq, state.fuPool.unitBusy idx ≠ 0 ∧
        state.isUnsafeContender seq (state.fuPool.unitBusy idx) = false) ∧
      ∀ queue : CircularQueue Nat,
        Returns (getUnitBody state.fuPool queue.take.1) (queue.take.1, queue.take.2, true)
            (queue.search (fun idx => state.fuPool.unitBusy idx == 0) (fun _ => true)) ∧
          Returns (findOccupiedBody state.fuPool (state.isUnsafeContender seq) queue.take.1)
            (queue.take.1, queue.take.2, true)
            (queue.search (fun idx => state.isUnsafeContender seq (state.fuPool.unitBusy idx))
              (fun idx => state.fuPool.unitBusy idx != 0)) := by
  refine ⟨?_, fun queue => ⟨queue.search_returns _ _, queue.search_returns _ _⟩⟩
  unfold findUnit at refused
  dsimp only at refused
  split at refused
  case isTrue => cases refused
  case isFalse =>
    rcases state.fuPool.getUnit_cases (state.heap seq).opClass seq with
      ⟨capable, -⟩ | ⟨full, busy, turned⟩ | ⟨unit, pool, found, -, -, -⟩
    · rw [capable, if_neg (by simp)] at refused
      cases refused
    · rw [dolma, notSTT, full, if_pos (by rfl)] at refused
      have none := not_isUnsafeContender_of_evict turned
        (FUPool.getUnit_noFreeFU_units full) refused
      exact fun idx member => ⟨busy idx member, none idx member⟩
    · rw [found, if_neg (by simp)] at refused
      cases refused

/-- A mode other than STT, and units that are busy for four cycles. -/
def slowUnits : Params where
  config := { mode := 1 }
  numThreads := 1
  numEntries := 64
  small := by decide
  opLatency := fun _ => 4
  isPipelined := fun _ => false

/-- Two units of one class. -/
def twoUnits (opClass : Nat) : Option (CircularQueue Nat) :=
  if opClass = 1 then some { items := [0, 1], distinct := by decide, idx := ⟨1, by decide⟩ }
  else none

/-- Both units are held by instructions older than the one to issue. -/
def bothBusy : State :=
  { initial slowUnits twoUnits with
    heap := fun _ => { opClass := 1, inROB := true, restricted := true }
    fuPool := { (initial slowUnits twoUnits).fuPool with unitBusy := fun idx => idx + 3 } }

/-- An instruction younger than the occupants is refused. -/
theorem contention_resolved_bothBusy :
    (bothBusy.findUnit slowUnits 9).1 = .noFreeFU ∧ bothBusy.unitsFor 9 = [0, 1] ∧
      ∀ idx ∈ bothBusy.unitsFor 9, bothBusy.fuPool.unitBusy idx ≠ 0 ∧
        bothBusy.isUnsafeContender 9 (bothBusy.fuPool.unitBusy idx) = false := by
  have refused : (bothBusy.findUnit slowUnits 9).1 = .noFreeFU := by decide
  exact ⟨refused, rfl, (contention_resolved slowUnits bothBusy 9 rfl rfl refused).1⟩

/-- A unit that is taken was free. -/
inductive Claimed (pool : FUPool) (seq : Nat) : Option Nat → FUPool → Prop where
  | none : Claimed pool seq none pool
  | unit {turned : FUPool} {idx : Nat} :
      pool.unitBusy idx = 0 →
      FUPool.Turned pool turned →
      Claimed pool seq (some idx) (turned.occupy idx seq)

/-- What the scheduler does with a ready instruction when it throws no running
instruction out. Without contention every unit that it takes is free. -/
inductive Scheduled (params : Params) (state : State) (seq : Nat) : State → Prop where
  | stalled :
      (params.config.isSTT && (state.heap seq).isDolmaRestricted &&
        (state.heap seq).isLoad) = true →
      Scheduled params state seq ((state.popReady seq).stall seq)
  | squashed :
      (state.heap seq).squashed = true →
      Scheduled params state seq (state.popReady seq)
  | full {pool : FUPool} :
      FUPool.Turned state.fuPool pool →
      Scheduled params state seq (state.setPool pool)
  | issued {pool : FUPool} {unit : Option Nat} :
      (state.heap seq).squashed = false →
      (state.unsafeContention params seq = false → Claimed state.fuPool seq unit pool) →
      Scheduled params state seq ((state.setPool pool).issue params seq unit)

/-- The scheduler stalls, drops, keeps or issues an instruction. -/
theorem schedule_scheduled (calm : state.evictsRunning params seq = false) :
    Scheduled params state seq (state.schedule params seq) := by
  unfold schedule
  dsimp only
  split
  case isTrue stalls => exact .stalled stalls
  case isFalse =>
    split
    case isTrue squashed => exact .squashed squashed
    case isFalse live =>
      rw [Bool.not_eq_true] at live
      generalize reached : (state.findUnit params seq).2 = searched
      generalize chosen : (state.findUnit params seq).1 = choice
      have found := findUnit_foundUnit params state seq
      rw [reached, chosen] at found
      cases found with
      | noCapableFU => exact .issued live fun _ => .none
      | noFreeFU turned => exact .full turned
      | unit free turned => exact .issued live fun _ => .unit free turned
      | @evicted pool idx contended mem contender _ =>
          have stalled :
              (state.heap (state.fuPool.unitBusy idx)).isDolmaStalled = true := by
            by_contra running
            rw [Bool.not_eq_true] at running
            unfold evictsRunning at calm
            rw [contended, Bool.true_and, List.any_eq_false] at calm
            exact calm idx mem (by rw [contender, running]; rfl)
          rw [stalled]
          refine .issued live fun calmer => ?_
          unfold unsafeContention at calmer
          rw [contended, Bool.true_and, List.any_eq_false] at calmer
          exact absurd contender (calmer idx mem)

end State
end Sched
end Dolma

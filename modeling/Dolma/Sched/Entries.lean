import Mathlib.Algebra.Order.BigOperators.Group.Finset
import Dolma.Sched.Places

/-!
# Entries of the instruction queue

An entry is given back in three places: when an instruction that does not access
memory issues, when a memory access completes, and when the queue squashes the
instruction. The flags of an instruction decide which of them applies, so the
counters are exact as long as no instruction goes through issue twice.
-/

namespace Dolma
namespace Sched

open Library

namespace State

/-- How many instructions of a thread hold an entry. -/
def holding (state : State) (tid : Nat) : Nat :=
  (state.instList tid).countP fun seq => (state.heap seq).inIQ

/-- How many instructions hold an entry. -/
def held (params : Params) (state : State) : Nat :=
  ∑ tid ∈ Finset.range params.numThreads, state.holding tid

end State

/-- The counters agree with the instructions that hold an entry, and every
instruction that gave its entry back did so once. -/
structure EntriesCounted (params : Params) (state : State) : Prop where
  distinct : ∀ tid, (state.instList tid).Nodup
  listed : ∀ tid, ∀ seq ∈ state.instList tid,
    (state.heap seq).threadNumber = tid ∧ (state.heap seq).inserted = true
  threads : ∀ tid, state.instList tid ≠ [] → tid < params.numThreads
  holds : ∀ seq, (state.heap seq).inIQ = true → seq ∈ state.instList (state.heap seq).threadNumber
  free : state.freeEntries.toNat + state.held params = params.numEntries
  count : ∀ tid, (state.count tid).toNat = state.holding tid
  once : state.returned.Nodup
  returned : ∀ seq, seq ∈ state.returned ↔
    (state.heap seq).inserted = true ∧ (state.heap seq).inIQ = false

section Counters

variable {number : BitVec 32}

theorem toNat_sub_one (positive : 0 < number.toNat) : (number - 1).toNat = number.toNat - 1 := by
  bv_omega

theorem toNat_add_one (small : number.toNat + 1 < 2 ^ 32) :
    (number + 1).toNat = number.toNat + 1 := by
  bv_omega

/-- Counting without one of the elements that count. -/
theorem countP_without
    {list : List Nat} {test : Nat → Bool} {element : Nat} (distinct : list.Nodup)
    (mem : element ∈ list) (passes : test element = true) :
    (list.countP fun other => if other = element then false else test other) + 1 =
      list.countP test := by
  induction list with
  | nil => cases mem
  | cons first rest ih =>
      obtain ⟨new, distinct⟩ := List.nodup_cons.mp distinct
      rw [List.countP_cons, List.countP_cons]
      rcases List.mem_cons.mp mem with rfl | later
      · have same : (rest.countP fun other => if other = element then false else test other) =
            rest.countP test := by
          refine List.countP_congr fun other old => ?_
          have apart : other ≠ element := fun equal => new (equal ▸ old)
          rw [if_neg apart]
        rw [same, if_neg (by simp), if_pos passes, Nat.add_zero]
      · have apart : first ≠ element := fun same => new (same ▸ later)
        have counted := ih distinct later
        simp only [if_neg apart]
        omega

end Counters

/-- No thread holds more than all threads together. -/
theorem holding_le_held {params : Params} {state : State} (inside : tid < params.numThreads) :
    state.holding tid ≤ state.held params :=
  Finset.single_le_sum (f := state.holding) (fun _ _ => Nat.zero_le _)
    (Finset.mem_range.mpr inside)

/-- If the count of one thread changes, the total changes by as much. -/
theorem held_add_holding
    {params : Params} {state next : State} (inside : tid < params.numThreads)
    (others : ∀ other, other ≠ tid → next.holding other = state.holding other) :
    next.held params + state.holding tid = state.held params + next.holding tid := by
  have mem : tid ∈ Finset.range params.numThreads := Finset.mem_range.mpr inside
  unfold State.held
  rw [← Finset.add_sum_erase _ _ mem, ← Finset.add_sum_erase _ _ mem]
  have rest : ∑ other ∈ (Finset.range params.numThreads).erase tid, next.holding other =
      ∑ other ∈ (Finset.range params.numThreads).erase tid, state.holding other :=
    Finset.sum_congr rfl fun other mem => others other (Finset.ne_of_mem_erase mem)
  omega

namespace EntriesCounted

variable {params : Params} {state : State} {seq : Nat}

theorem giveBack (counted : EntriesCounted params state) (holder : (state.heap seq).inIQ = true) :
    EntriesCounted params (state.giveBack seq) := by
  have listed := counted.holds seq holder
  have distinct := counted.distinct (state.heap seq).threadNumber
  have fewer : (state.giveBack seq).holding (state.heap seq).threadNumber + 1 =
      state.holding (state.heap seq).threadNumber := by
    unfold State.holding
    rw [← countP_without distinct listed holder]
    refine congrArg (· + 1) (List.countP_congr fun other _ => ?_)
    simp only [State.giveBack, State.modify]
    split <;> rfl
  have others : ∀ tid, tid ≠ (state.heap seq).threadNumber →
      (state.giveBack seq).holding tid = state.holding tid := by
    intro tid apart
    refine List.countP_congr fun other mem => ?_
    have distinct : other ≠ seq := by
      rintro rfl
      exact apart (counted.listed tid other mem).1.symm
    simp only [State.giveBack, State.modify, if_neg distinct]
  have total := held_add_holding (counted.threads _ (List.ne_nil_of_mem listed)) others
  have same : ∀ other, ((state.giveBack seq).heap other).threadNumber =
      (state.heap other).threadNumber ∧
        ((state.giveBack seq).heap other).inserted = (state.heap other).inserted := by
    intro other
    simp only [State.giveBack, State.modify]
    split <;> exact ⟨rfl, rfl⟩
  have inIQ : ∀ other, ((state.giveBack seq).heap other).inIQ =
      if other = seq then false else (state.heap other).inIQ := by
    intro other
    simp only [State.giveBack, State.modify]
    split <;> rfl
  constructor
  case distinct => exact counted.distinct
  case listed =>
    intro tid other mem
    rw [(same other).1, (same other).2]
    exact counted.listed tid other mem
  case threads => exact counted.threads
  case holds =>
    intro other holds
    rw [inIQ] at holds
    rw [(same other).1]
    split at holds
    · cases holds
    · exact counted.holds other holds
  case free =>
    have free := counted.free
    have small := params.small
    have added : (state.freeEntries + 1).toNat = state.freeEntries.toNat + 1 :=
      toNat_add_one (by omega)
    change (state.freeEntries + 1).toNat + _ = _
    omega
  case count =>
    intro tid
    have exactly := counted.count tid
    by_cases own : tid = (state.heap seq).threadNumber
    · subst own
      have taken : (state.count (state.heap seq).threadNumber - 1).toNat =
          (state.count (state.heap seq).threadNumber).toNat - 1 :=
        toNat_sub_one (by omega)
      simp only [State.giveBack, if_true]
      change _ = (state.giveBack seq).holding _
      omega
    · simp only [State.giveBack, if_neg own]
      change _ = (state.giveBack seq).holding tid
      rw [others tid own]
      exact exactly
  case once =>
    refine List.nodup_cons.mpr ⟨fun again => ?_, counted.once⟩
    have gone := ((counted.returned seq).mp again).2
    rw [holder] at gone
    cases gone
  case returned =>
    intro other
    rw [(same other).2, inIQ]
    change other ∈ seq :: state.returned ↔ _
    rw [List.mem_cons, counted.returned]
    by_cases own : other = seq
    · subst own
      simp [(counted.listed _ other listed).2]
    · simp [own]

section Leave

variable
    {next : State}
    (counted : EntriesCounted params state)
    (freeEntries : next.freeEntries = state.freeEntries)
    (count : next.count = state.count)
    (returned : next.returned = state.returned)
    (heap : ∀ seq, (next.heap seq).inIQ = (state.heap seq).inIQ ∧
      (next.heap seq).threadNumber = (state.heap seq).threadNumber ∧
        (next.heap seq).inserted = (state.heap seq).inserted)
include counted freeEntries count returned heap

/-- Instructions that hold no entry may leave their lists. -/
theorem leave
    (gone : Nat → List Nat)
    (lists : ∀ tid, (state.instList tid).Perm (next.instList tid ++ gone tid))
    (idle : ∀ tid, ∀ seq ∈ gone tid, (state.heap seq).inIQ = false) :
    EntriesCounted params next := by
  have left : ∀ tid, ∀ seq ∈ next.instList tid, seq ∈ state.instList tid := by
    intro tid seq mem
    exact (lists tid).mem_iff.mpr (List.mem_append_left _ mem)
  have holding : next.holding = state.holding := by
    funext tid
    have none : (gone tid).countP (fun seq => (state.heap seq).inIQ) = 0 := by
      refine List.countP_eq_zero.mpr fun seq mem => ?_
      simp [idle tid seq mem]
    unfold State.holding
    rw [(lists tid).countP_eq, List.countP_append, none, Nat.add_zero]
    exact List.countP_congr fun seq _ => by rw [(heap seq).1]
  constructor
  case distinct =>
    intro tid
    exact ((lists tid).nodup_iff.mp (counted.distinct tid)).of_append_left
  case listed =>
    intro tid seq mem
    rw [(heap seq).2.1, (heap seq).2.2]
    exact counted.listed tid seq (left tid seq mem)
  case threads =>
    intro tid some
    refine counted.threads tid fun none => some ?_
    exact List.eq_nil_iff_forall_not_mem.mpr fun seq mem =>
      absurd (left tid seq mem) (none ▸ List.not_mem_nil)
  case holds =>
    intro seq holder
    rw [(heap seq).1] at holder
    rw [(heap seq).2.1]
    have mem := (lists _).mem_iff.mp (counted.holds seq holder)
    rcases List.mem_append.mp mem with stays | goes
    · exact stays
    · rw [idle _ seq goes] at holder
      cases holder
  case free =>
    unfold State.held
    rw [freeEntries, holding]
    exact counted.free
  case count =>
    rw [count, holding]
    exact counted.count
  case once =>
    rw [returned]
    exact counted.once
  case returned =>
    intro seq
    rw [returned, (heap seq).1, (heap seq).2.2]
    exact counted.returned seq

/-- Two states with the same lists and holders are counted alike. -/
theorem congr (instList : next.instList = state.instList) : EntriesCounted params next := by
  refine counted.leave freeEntries count returned heap (fun _ => []) (fun tid => ?_)
    fun tid seq gone => ?_
  · rw [instList, List.append_nil]
  · cases gone

end Leave

end EntriesCounted

/-- A new instruction joins the list of a thread and holds an entry. -/
structure Joins (state next : State) (seq tid : Nat) : Prop where
  heap : ∀ other, other ≠ seq → next.heap other = state.heap other
  self : (next.heap seq).threadNumber = tid ∧ (next.heap seq).inserted = true ∧
    (next.heap seq).inIQ = true
  instList : ∀ other, next.instList other =
    if other = tid then state.instList other ++ [seq] else state.instList other
  freeEntries : next.freeEntries = state.freeEntries - 1
  count : ∀ other, next.count other =
    if other = tid then state.count other + 1 else state.count other
  returned : next.returned = state.returned

theorem State.insert_joins
    (state : State) (seq tid opClass : Nat) (isMemRef isLoad restricted : Bool) :
    Joins state (state.insert seq tid opClass isMemRef isLoad restricted) seq tid :=
  ⟨fun _ apart => if_neg apart, by simp [State.insert], fun _ => rfl, rfl, fun _ => rfl, rfl⟩

namespace Joins

variable {params : Params} {state next : State} {seq tid : Nat} (joins : Joins state next seq tid)
include joins

section Unlisted

variable (unlisted : ∀ other, seq ∉ state.instList other)
include unlisted

theorem countP_inIQ (other : Nat) :
    (state.instList other).countP (fun seq => (next.heap seq).inIQ) = state.holding other := by
  refine List.countP_congr fun member mem => ?_
  rw [joins.heap member fun same => unlisted other (same ▸ mem)]

theorem holding_self : next.holding tid = state.holding tid + 1 := by
  unfold State.holding
  rw [joins.instList, if_pos rfl, List.countP_append, joins.countP_inIQ unlisted]
  simp [joins.self.2.2, State.holding]

theorem holding_of_ne {other : Nat} (apart : other ≠ tid) :
    next.holding other = state.holding other := by
  rw [← joins.countP_inIQ unlisted]
  unfold State.holding
  rw [joins.instList, if_neg apart]

/-- One more entry is held. -/
theorem held (inside : tid < params.numThreads) : next.held params = state.held params + 1 := by
  have moved := held_add_holding inside fun _ apart => joins.holding_of_ne unlisted apart
  have more := joins.holding_self unlisted
  omega

theorem distinct (distinct : ∀ tid, (state.instList tid).Nodup) (other : Nat) :
    (next.instList other).Nodup := by
  rw [joins.instList]
  split
  · exact List.nodup_append_comm.mpr (List.nodup_cons.mpr ⟨unlisted other, distinct other⟩)
  · exact distinct other

theorem listed
    (listed : ∀ tid, ∀ seq ∈ state.instList tid,
      (state.heap seq).threadNumber = tid ∧ (state.heap seq).inserted = true)
    {other member : Nat} (mem : member ∈ next.instList other) :
    (next.heap member).threadNumber = other ∧ (next.heap member).inserted = true := by
  rw [joins.instList] at mem
  by_cases new : member = seq
  · subst new
    have same : other = tid := by
      by_contra apart
      rw [if_neg apart] at mem
      exact unlisted other mem
    exact ⟨joins.self.1.trans same.symm, joins.self.2.1⟩
  · rw [joins.heap member new]
    refine listed other member ?_
    split at mem
    · simpa [new] using mem
    · exact mem

end Unlisted

theorem holds
    (holds : ∀ seq, (state.heap seq).inIQ = true →
      seq ∈ state.instList (state.heap seq).threadNumber)
    {member : Nat} (holder : (next.heap member).inIQ = true) :
    member ∈ next.instList (next.heap member).threadNumber := by
  by_cases new : member = seq
  · subst new
    rw [joins.self.1, joins.instList, if_pos rfl]
    simp
  · rw [joins.heap member new] at holder ⊢
    have mem := holds member holder
    rw [joins.instList]
    split
    · exact List.mem_append_left _ mem
    · exact mem

end Joins

namespace EntriesCounted

variable {params : Params} {state next : State} {seq tid : Nat}

/-- An instruction that was never in the queue takes an entry. -/
theorem joins
    (counted : EntriesCounted params state) (joins : Joins state next seq tid)
    (fresh : (state.heap seq).inserted = false) (room : state.freeEntries ≠ 0)
    (inside : tid < params.numThreads) :
    EntriesCounted params next := by
  have unlisted : ∀ other, seq ∉ state.instList other := by
    intro other mem
    rw [(counted.listed other seq mem).2] at fresh
    cases fresh
  have total := joins.held unlisted inside
  have bound : state.holding tid ≤ state.held params := holding_le_held inside
  have positive : 0 < state.freeEntries.toNat := by
    rw [Nat.pos_iff_ne_zero]
    intro zero
    exact room (BitVec.eq_of_toNat_eq zero)
  have free := counted.free
  have small := params.small
  constructor
  case distinct => exact joins.distinct unlisted counted.distinct
  case listed => exact fun _ _ mem => joins.listed unlisted counted.listed mem
  case threads =>
    intro other some
    by_cases same : other = tid
    · exact same ▸ inside
    · rw [joins.instList, if_neg same] at some
      exact counted.threads other some
  case holds => exact fun _ holder => joins.holds counted.holds holder
  case free =>
    have taken : (state.freeEntries - 1).toNat = state.freeEntries.toNat - 1 :=
      toNat_sub_one positive
    rw [joins.freeEntries]
    omega
  case count =>
    intro other
    have exactly := counted.count other
    by_cases same : other = tid
    · subst same
      have more := joins.holding_self unlisted
      have added : (state.count other + 1).toNat = (state.count other).toNat + 1 :=
        toNat_add_one (by omega)
      rw [joins.count, if_pos rfl]
      omega
    · rw [joins.count, if_neg same, joins.holding_of_ne unlisted same]
      exact exactly
  case once =>
    rw [joins.returned]
    exact counted.once
  case returned =>
    intro member
    rw [joins.returned, counted.returned]
    by_cases new : member = seq
    · subst new
      simp [fresh, joins.self.2.2]
    · rw [joins.heap member new]

theorem insert
    (counted : EntriesCounted params state) (opClass : Nat) (isMemRef isLoad restricted : Bool)
    (fresh : (state.heap seq).inserted = false) (room : state.freeEntries ≠ 0)
    (inside : tid < params.numThreads) :
    EntriesCounted params (state.insert seq tid opClass isMemRef isLoad restricted) :=
  counted.joins (state.insert_joins ..) fresh room inside

end EntriesCounted

end Sched
end Dolma

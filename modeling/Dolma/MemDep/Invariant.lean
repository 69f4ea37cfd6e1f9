import Dolma.MemDep.Defs

/-!
# The invariant of the memory dependence unit

Two relations say once what a call of the unit can do: progress resolves some
accesses and lets instructions leave, an insertion adds one instruction at the
end. The invariant, in which an access waits for the barriers it was inserted
behind, is derived from these relations alone.
-/

namespace Dolma
namespace MemDep

theorem isMemRef_of_isAccess (access : isAccess inst = true) : inst.isMemRef = true := by
  revert access
  unfold isAccess StaticInst.isMemRef
  cases inst.isLoad <;> cases inst.isStore <;> simp

/-- The last instruction of a kind in flight. -/
structure IsLast (state : State) (kind : StaticInst → Bool) (seq : Nat) : Prop where
  inFlight : seq ∈ state.instList
  ofKind : kind (state.heap seq).staticInst = true
  last : ∀ other ∈ state.instList, kind (state.heap other).staticInst = true → other ≤ seq

/-- An access that still waits for a barrier. -/
structure IsWaiting (state : State) (barrier access : Nat) : Prop where
  notReady : access ∉ state.readyList
  unresolved : (state.entries access).memDepReady = false
  waitsOn : ∀ producer ∈ state.instList,
    access ∈ (state.entries producer).dependInsts →
      isBarrier (state.heap producer).staticInst = true ∧ barrier ≤ producer

/-- The invariant of the unit. -/
structure Invariant (state : State) : Prop where
  sorted : state.instList.Pairwise (· < ·)
  inserted : ∀ seq ∈ state.instList, 0 < seq ∧ seq ≤ state.lastInserted
  readyInserted : ∀ seq ∈ state.readyList, seq ≤ state.lastInserted
  dependInserted : ∀ producer, ∀ seq ∈ (state.entries producer).dependInsts,
    seq ≤ state.lastInserted
  replayed : ∀ seq ∈ state.instsToReplay, seq ∈ state.readyList
  behind : ∀ access, ∀ barrier ∈ state.insertedBehind access,
    barrier < access ∧ access ≤ state.lastInserted
  load : state.loadBarrier = true → IsLast state ordersLoads state.loadBarrierSN
  store : state.storeBarrier = true → IsLast state isBarrier state.storeBarrierSN
  waiting : ∀ access, ∀ barrier ∈ state.insertedBehind access,
    barrier ∈ state.instList → IsWaiting state barrier access

/-- A step that inserts nothing and resolves only some accesses. -/
structure Progress (woken : List Nat) (before after : State) : Prop where
  static : ∀ seq, (after.heap seq).staticInst = (before.heap seq).staticInst
  list : after.instList.Sublist before.instList
  lastInserted : after.lastInserted = before.lastInserted
  behind : after.insertedBehind = before.insertedBehind
  load : after.loadBarrier = true → before.loadBarrier = true ∧
    after.loadBarrierSN = before.loadBarrierSN ∧
      (before.loadBarrierSN ∈ before.instList → before.loadBarrierSN ∈ after.instList)
  store : after.storeBarrier = true → before.storeBarrier = true ∧
    after.storeBarrierSN = before.storeBarrierSN ∧
      (before.storeBarrierSN ∈ before.instList → before.storeBarrierSN ∈ after.instList)
  replayed : ∀ seq ∈ after.instsToReplay, seq ∈ before.instsToReplay ∨ seq ∈ after.readyList
  ready : ∀ seq ∈ after.readyList, seq ∈ before.readyList ∨ seq ∈ woken
  keptReady : ∀ seq ∈ before.readyList, seq ∈ after.readyList
  memDep : ∀ seq, seq ∉ woken → (after.entries seq).memDepReady = true →
    (before.entries seq).memDepReady = true
  depend : ∀ producer, ∀ seq ∈ (after.entries producer).dependInsts,
    seq ∈ (before.entries producer).dependInsts

theorem Progress.refl (state : State) : Progress [] state state := by
  constructor
  case list => exact List.Sublist.refl _
  all_goals simp +contextual

variable {seq : Nat} {before after state : State} {kind : StaticInst → Bool} {woken : List Nat}

theorem Progress.trans (left : Progress woken first second) (right : Progress more second third) :
    Progress (woken ++ more) first third := by
  constructor
  case static => exact fun seq => (right.static seq).trans (left.static seq)
  case list => exact right.list.trans left.list
  case lastInserted => exact right.lastInserted.trans left.lastInserted
  case behind => exact right.behind.trans left.behind
  case load =>
    intro flag
    obtain ⟨flag, same, kept⟩ := right.load flag
    obtain ⟨flag', same', kept'⟩ := left.load flag
    exact ⟨flag', same.trans same', fun member => same' ▸ kept (same' ▸ kept' member)⟩
  case store =>
    intro flag
    obtain ⟨flag, same, kept⟩ := right.store flag
    obtain ⟨flag', same', kept'⟩ := left.store flag
    exact ⟨flag', same.trans same', fun member => same' ▸ kept (same' ▸ kept' member)⟩
  case replayed =>
    intro seq member
    rcases right.replayed seq member with replayed | ready
    · exact (left.replayed seq replayed).imp_right (right.keptReady seq)
    · exact .inr ready
  case ready =>
    intro seq member
    rcases right.ready seq member with ready | new
    · exact (left.ready seq ready).imp_right (List.mem_append_left more)
    · exact .inr (List.mem_append_right woken new)
  case keptReady =>
    intro seq ready
    exact right.keptReady seq (left.keptReady seq ready)
  case memDep =>
    intro seq absent resolved
    rw [List.mem_append, not_or] at absent
    exact left.memDep seq absent.1 (right.memDep seq absent.2 resolved)
  case depend =>
    intro producer seq member
    exact left.depend producer seq (right.depend producer seq member)

/-- The last of a kind stays the last in flight. -/
theorem IsLast.progress
    (isLast : IsLast before kind seq) (progress : Progress woken before after)
    (kept : seq ∈ after.instList) :
    IsLast after kind seq := by
  refine ⟨kept, ?_, ?_⟩
  · rw [progress.static]
    exact isLast.ofKind
  · intro other member ofKind
    rw [progress.static] at ofKind
    exact isLast.last other (progress.list.subset member) ofKind

/-- Progress keeps the invariant if the barriers are gone. -/
theorem Invariant.progress
    (invariant : Invariant before) (progress : Progress woken before after)
    (known : ∀ seq ∈ woken, seq ≤ before.lastInserted)
    (released : ∀ access ∈ woken, ∀ barrier ∈ before.insertedBehind access,
      barrier ∉ after.instList) :
    Invariant after := by
  constructor
  case sorted => exact invariant.sorted.sublist progress.list
  case inserted =>
    intro seq member
    rw [progress.lastInserted]
    exact invariant.inserted seq (progress.list.subset member)
  case readyInserted =>
    intro seq member
    rw [progress.lastInserted]
    rcases progress.ready seq member with old | new
    · exact invariant.readyInserted seq old
    · exact known seq new
  case dependInserted =>
    intro producer seq member
    rw [progress.lastInserted]
    exact invariant.dependInserted producer seq (progress.depend producer seq member)
  case replayed =>
    intro seq member
    rcases progress.replayed seq member with old | ready
    · exact progress.keptReady seq (invariant.replayed seq old)
    · exact ready
  case behind =>
    rw [progress.behind, progress.lastInserted]
    exact invariant.behind
  case load =>
    intro flag
    obtain ⟨flag, same, kept⟩ := progress.load flag
    have isLast := invariant.load flag
    rw [same]
    exact isLast.progress progress (kept isLast.inFlight)
  case store =>
    intro flag
    obtain ⟨flag, same, kept⟩ := progress.store flag
    have isLast := invariant.store flag
    rw [same]
    exact isLast.progress progress (kept isLast.inFlight)
  case waiting =>
    intro access barrier behind inFlight
    rw [progress.behind] at behind
    have asleep : access ∉ woken := fun awake =>
      released access awake barrier behind inFlight
    obtain ⟨notReady, unresolved, waitsOn⟩ :=
      invariant.waiting access barrier behind (progress.list.subset inFlight)
    refine ⟨?_, ?_, ?_⟩
    · intro ready
      exact (progress.ready access ready).elim notReady asleep
    · rw [← Bool.not_eq_true] at unresolved ⊢
      exact fun resolved => unresolved (progress.memDep access asleep resolved)
    · intro producer member depends
      rw [progress.static]
      exact waitsOn producer (progress.list.subset member)
        (progress.depend producer access depends)

/-- Only the moved instruction is resolved. -/
theorem Progress.moveToReady (state : State) (seq : Nat) :
    Progress [seq] state (moveToReady state seq) := by
  constructor
  case list => exact List.Sublist.refl _
  all_goals simp +contextual [MemDep.moveToReady, or_comm]

theorem Progress.wakeOne (state : State) (woken : Nat) :
    Progress [woken] state (wakeOne state woken) := by
  unfold MemDep.wakeOne
  split
  · exact Progress.moveToReady state woken
  · constructor
    case list => exact List.Sublist.refl _
    case memDep =>
      intro seq other resolved
      rw [List.mem_singleton] at other
      simpa [setEntry, other] using resolved
    case depend =>
      intro producer seq member
      by_cases same : producer = woken <;> simpa [setEntry, same] using member
    all_goals simp +contextual [setEntry]

/-- A fold of steps that each resolve one instruction resolves those of the
list. -/
theorem Progress.foldl
    {step : State → Nat → State} (each : ∀ state seq, Progress [seq] state (step state seq))
    (seqs : List Nat) (state : State) :
    Progress seqs state (seqs.foldl step state) := by
  induction seqs generalizing state with
  | nil => exact Progress.refl state
  | cons seq rest ih =>
      exact (each state seq).trans (ih (step state seq))

theorem Progress.wakeDependents (state : State) (seq : Nat) :
    Progress (state.entries seq).dependInsts state (wakeDependents state seq) := by
  unfold MemDep.wakeDependents
  split
  · have cleared : ∀ other : State, Progress [] other
        (setEntry other seq fun entry => { entry with dependInsts := [] }) := by
      intro other
      constructor
      case list => exact List.Sublist.refl _
      case memDep =>
        intro access _ resolved
        by_cases same : access = seq <;> simpa [setEntry, same] using resolved
      case depend =>
        intro producer access member
        by_cases same : producer = seq
        · simp [setEntry, same] at member
        · simpa [setEntry, same] using member
      all_goals simp +contextual [setEntry]
    simpa using (Progress.foldl Progress.wakeOne
      (state.entries seq).dependInsts state).trans (cleared _)
  · have idle := Progress.refl state
    exact { idle with
      ready := fun other member => .inl member
      memDep := fun other _ resolved => resolved }

/-- Completion resolves nothing no flag names. -/
theorem Progress.complete
    (load : state.loadBarrier = true → state.loadBarrierSN ≠ seq)
    (store : state.storeBarrier = true → state.storeBarrierSN ≠ seq) :
    Progress [] state (complete state seq) := by
  have kept : ∀ other, other ≠ seq → other ∈ state.instList →
      other ∈ state.instList.erase seq := fun other apart member =>
    (List.mem_erase_of_ne apart).mpr member
  constructor
  case list => exact List.erase_sublist
  case load => exact fun flag => ⟨flag, rfl, kept _ (load flag)⟩
  case store => exact fun flag => ⟨flag, rfl, kept _ (store flag)⟩
  all_goals simp +contextual [MemDep.complete]

/-- Completing a barrier resolves what waits for it. -/
theorem Progress.completeBarrier
    (load : state.loadBarrier = true → state.loadBarrierSN = seq →
      (state.heap seq).staticInst.isMemBarrier = true) :
    Progress (state.entries seq).dependInsts state
      (completeBarrier state seq) := by
  have woken := Progress.wakeDependents state seq
  have kept : ∀ other, other ≠ seq → other ∈ state.instList →
      other ∈ (MemDep.wakeDependents state seq).instList →
        other ∈ (MemDep.wakeDependents state seq).instList.erase seq :=
    fun other apart _ member => (List.mem_erase_of_ne apart).mpr member
  refine { woken with
    list := List.erase_sublist.trans woken.list, load := ?_, store := ?_ }
  · intro flag
    simp only [MemDep.completeBarrier, MemDep.complete, Bool.and_eq_true,
      Bool.not_eq_true', Bool.and_eq_false_iff, beq_eq_false_iff_ne] at flag
    obtain ⟨before, same, member⟩ := woken.load flag.1
    refine ⟨before, same, fun inFlight => kept _ ?_ inFlight (member inFlight)⟩
    rw [same] at flag
    intro equal
    exact flag.2.elim (by simp [load before equal]) (fun apart => apart equal)
  · intro flag
    simp only [MemDep.completeBarrier, MemDep.complete, Bool.and_eq_true,
      Bool.not_eq_true', beq_eq_false_iff_ne] at flag
    obtain ⟨before, same, member⟩ := woken.store flag.1
    rw [same] at flag
    exact ⟨before, same, fun inFlight => kept _ flag.2 inFlight (member inFlight)⟩

theorem Progress.squash (state : State) (keep : Nat) : Progress [] state (squash state keep) := by
  have kept : ∀ seq,
      (state.instList.reverse.takeWhile (decide <| keep < ·)).contains seq = false →
        seq ∈ state.instList →
          seq ∈ (state.instList.reverse.dropWhile (decide <| keep < ·)).reverse := by
    intro seq notRemoved member
    rw [← List.mem_reverse,
      ← List.takeWhile_append_dropWhile (p := (decide <| keep < ·))
        (l := state.instList.reverse), List.mem_append] at member
    rw [List.contains_eq_mem, decide_eq_false_iff_not] at notRemoved
    exact List.mem_reverse.mpr (member.resolve_left notRemoved)
  constructor
  case list =>
    have dropped := List.dropWhile_sublist (decide <| keep < ·)
      (l := state.instList.reverse)
    simpa [MemDep.squash] using dropped.reverse
  case load =>
    intro flag
    simp only [MemDep.squash, Bool.and_eq_true, Bool.not_eq_true'] at flag
    exact ⟨flag.1, rfl, kept _ flag.2⟩
  case store =>
    intro flag
    simp only [MemDep.squash, Bool.and_eq_true, Bool.not_eq_true'] at flag
    exact ⟨flag.1, rfl, kept _ flag.2⟩
  case memDep =>
    intro seq _ resolved
    simp only [MemDep.squash] at resolved
    split at resolved <;> exact resolved
  case depend =>
    intro producer seq member
    simp only [MemDep.squash] at member
    split at member <;> exact member
  all_goals simp +contextual [MemDep.squash]

/-- A step that inserts one instruction. -/
structure Insertion (seq : Nat) (before after : State) : Prop where
  heap : after.heap = before.heap
  list : after.instList = before.instList ++ [seq]
  lastInserted : after.lastInserted = seq
  behind : after.insertedBehind seq = barriersInFlight before seq
  behindOthers : ∀ other, other ≠ seq → after.insertedBehind other = before.insertedBehind other
  replayed : after.instsToReplay = before.instsToReplay
  ready : ∀ other ∈ after.readyList, other ∈ before.readyList ∨ other = seq
  keptReady : ∀ other ∈ before.readyList, other ∈ after.readyList
  memDep : ∀ other, other ≠ seq → (after.entries other).memDepReady = true →
    (before.entries other).memDepReady = true
  depend : ∀ producer, ∀ other ∈ (after.entries producer).dependInsts,
    other = seq ∨ producer ≠ seq ∧ other ∈ (before.entries producer).dependInsts

/-- The last of a kind stays so when another kind is inserted. -/
theorem IsLast.insertion
    {last : Nat} (isLast : IsLast before kind last) (insertion : Insertion seq before after)
    (otherKind : kind (before.heap seq).staticInst = false) :
    IsLast after kind last := by
  refine ⟨?_, ?_, ?_⟩
  · rw [insertion.list]
    exact List.mem_append_left _ isLast.inFlight
  · rw [insertion.heap]
    exact isLast.ofKind
  · intro other member ofKind
    rw [insertion.heap] at ofKind
    rw [insertion.list, List.mem_append, List.mem_singleton] at member
    rcases member with old | new
    · exact isLast.last other old ofKind
    · rw [new, otherKind] at ofKind
      exact absurd ofKind (by simp)

/-- An instruction just inserted is the last of its kind. -/
theorem Insertion.isLast
    (insertion : Insertion seq before after) (invariant : Invariant before)
    (young : before.lastInserted < seq) (ofKind : kind (before.heap seq).staticInst = true) :
    IsLast after kind seq := by
  refine ⟨?_, ?_, ?_⟩
  · rw [insertion.list]
    exact List.mem_append_right _ (List.mem_singleton_self seq)
  · rw [insertion.heap]
    exact ofKind
  · intro other member _
    rw [insertion.list, List.mem_append, List.mem_singleton] at member
    rcases member with old | new
    · have bound := (invariant.inserted other old).2
      omega
    · exact Nat.le_of_eq new

/-- An access that waits keeps waiting at an insertion. -/
theorem IsWaiting.insertion
    (waiting : IsWaiting before barrier access) (insertion : Insertion seq before after)
    (other : access ≠ seq) :
    IsWaiting after barrier access := by
  refine ⟨?_, ?_, ?_⟩
  · intro ready
    exact (insertion.ready access ready).elim waiting.notReady other
  · have unresolved := waiting.unresolved
    rw [← Bool.not_eq_true] at unresolved ⊢
    exact fun resolved => unresolved (insertion.memDep access other resolved)
  · intro producer member depends
    obtain ⟨apart, old⟩ :=
      (insertion.depend producer access depends).resolve_left other
    rw [insertion.list, List.mem_append, List.mem_singleton] at member
    rw [insertion.heap]
    exact waiting.waitsOn producer (member.resolve_right apart) old

/-- An insertion keeps the invariant if the flags are right and the instruction
waits for the barriers in flight. -/
theorem Invariant.insertion
    (invariant : Invariant before) (insertion : Insertion seq before after)
    (young : before.lastInserted < seq)
    (load : after.loadBarrier = true → IsLast after ordersLoads after.loadBarrierSN)
    (store : after.storeBarrier = true → IsLast after isBarrier after.storeBarrierSN)
    (waiting : ∀ barrier ∈ barriersInFlight before seq, IsWaiting after barrier seq) :
    Invariant after := by
  have younger : ∀ {other : Nat}, other ≤ before.lastInserted → other < seq :=
    fun bound => Nat.lt_of_le_of_lt bound young
  constructor
  case sorted =>
    rw [insertion.list, List.pairwise_append]
    refine ⟨invariant.sorted, List.pairwise_singleton _ _, ?_⟩
    intro other member new isNew
    rw [List.mem_singleton.mp isNew]
    exact younger (invariant.inserted other member).2
  case inserted =>
    intro other member
    rw [insertion.list, List.mem_append, List.mem_singleton] at member
    rw [insertion.lastInserted]
    rcases member with old | new
    · have bounds := invariant.inserted other old
      exact ⟨bounds.1, Nat.le_of_lt (younger bounds.2)⟩
    · omega
  case readyInserted =>
    intro other member
    rw [insertion.lastInserted]
    rcases insertion.ready other member with old | new
    · exact Nat.le_of_lt (younger (invariant.readyInserted other old))
    · exact Nat.le_of_eq new
  case dependInserted =>
    intro producer other member
    rw [insertion.lastInserted]
    rcases insertion.depend producer other member with new | ⟨_, old⟩
    · exact Nat.le_of_eq new
    · exact Nat.le_of_lt (younger (invariant.dependInserted producer other old))
  case replayed =>
    rw [insertion.replayed]
    exact fun other member =>
      insertion.keptReady other (invariant.replayed other member)
  case behind =>
    intro access barrier member
    rw [insertion.lastInserted]
    by_cases new : access = seq
    · subst new
      rw [insertion.behind] at member
      have inFlight := (List.mem_filter.mp member).1
      exact ⟨younger (invariant.inserted barrier inFlight).2, Nat.le_refl _⟩
    · rw [insertion.behindOthers access new] at member
      have bounds := invariant.behind access barrier member
      exact ⟨bounds.1, Nat.le_of_lt (younger bounds.2)⟩
  case load => exact load
  case store => exact store
  case waiting =>
    intro access barrier member inFlight
    by_cases new : access = seq
    · subst new
      rw [insertion.behind] at member
      exact waiting barrier member
    · rw [insertion.behindOthers access new] at member
      have bounds := invariant.behind access barrier member
      rw [insertion.list, List.mem_append, List.mem_singleton] at inFlight
      have old : barrier ∈ before.instList := inFlight.resolve_right <| by
        have bound := younger bounds.2
        omega
      exact (invariant.waiting access barrier member old).insertion insertion new

end MemDep
end Dolma

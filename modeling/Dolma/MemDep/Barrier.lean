import Dolma.Library.TransitionSystem
import Dolma.MemDep.Invariant

/-!
# Barriers order later accesses

An access inserted behind a barrier waits on the last barrier of its kind. The
unit remembers that barrier only by a flag and a sequence number, and finds it
through the lookup it shares with predicted stores, which drops a restricted
producer. Where the flag is set and the barrier unrestricted at each insertion,
no access becomes ready before the barriers it was inserted behind are gone.
-/

namespace Dolma
namespace MemDep

open Library

theorem Insertion.addEntry (state : State) (seq : Nat) :
    Insertion seq state (addEntry state seq) := by
  constructor
  case behindOthers =>
    intro other apart
    simp [MemDep.addEntry, apart]
  case memDep =>
    intro other apart resolved
    simpa [MemDep.addEntry, setEntry, apart] using resolved
  case depend =>
    intro producer other member
    by_cases same : producer = seq
    · simp [MemDep.addEntry, setEntry, same] at member
    · simp only [MemDep.addEntry, setEntry, same, if_false] at member
      exact .inr ⟨same, member⟩
  all_goals simp +contextual [MemDep.addEntry, setEntry]

theorem Insertion.insert (state : State) (seq predicted : Nat) (readyToIssue : Bool) :
    Insertion seq state (insert state seq predicted readyToIssue) := by
  have added := Insertion.addEntry state seq
  unfold MemDep.insert
  dsimp only
  split
  · have resolved : Insertion seq state
        (setEntry (MemDep.addEntry state seq) seq fun entry =>
          { entry with memDepReady := true, regsReady := readyToIssue }) := by
      refine { added with memDep := ?_, depend := ?_ }
      · intro other apart resolved
        exact added.memDep other apart
          (by simpa [setEntry, apart] using resolved)
      · intro producer other member
        refine added.depend producer other ?_
        by_cases same : producer = seq <;> simpa [setEntry, same] using member
    split
    · exact { resolved with
        ready := fun other member =>
          (List.mem_cons.mp member).elim .inr (resolved.ready other)
        keptReady := fun other member => List.mem_cons_of_mem _ member }
    · exact resolved
  next producer _ =>
    refine { added with memDep := ?_, depend := ?_ }
    · intro other apart resolved
      refine added.memDep other apart ?_
      by_cases same : other = producer <;> simp_all [setEntry]
    · intro other dependent member
      by_cases new : dependent = seq
      · exact .inl new
      · refine added.depend other dependent ?_
        by_cases same : other = producer <;> by_cases self : other = seq <;>
          simp_all [setEntry]

/-- Inserting an access changes no barrier flag. -/
theorem insert_barriers (state : State) (seq predicted : Nat) (readyToIssue : Bool) :
    ((insert state seq predicted readyToIssue).loadBarrier = state.loadBarrier ∧
      (insert state seq predicted readyToIssue).loadBarrierSN = state.loadBarrierSN) ∧
    (insert state seq predicted readyToIssue).storeBarrier = state.storeBarrier ∧
      (insert state seq predicted readyToIssue).storeBarrierSN = state.storeBarrierSN := by
  unfold insert
  dsimp only
  split
  · split <;> exact ⟨⟨rfl, rfl⟩, rfl, rfl⟩
  · exact ⟨⟨rfl, rfl⟩, rfl, rfl⟩

variable {state : State} {predicted barrier seq : Nat} {readyToIssue : Bool}

/-- The flags name the last barriers. -/
theorem Insertion.flags
    (insertion : Insertion seq before after) (invariant : Invariant before)
    (access : isAccess (before.heap seq).staticInst = true)
    (load : after.loadBarrier = before.loadBarrier ∧ after.loadBarrierSN = before.loadBarrierSN)
    (store : after.storeBarrier = before.storeBarrier ∧
      after.storeBarrierSN = before.storeBarrierSN) :
    (after.loadBarrier = true → IsLast after ordersLoads after.loadBarrierSN) ∧
      (after.storeBarrier = true → IsLast after isBarrier after.storeBarrierSN) := by
  have memRef := isMemRef_of_isAccess access
  rw [load.1, load.2, store.1, store.2]
  refine ⟨fun flag => ?_, fun flag => ?_⟩
  · exact (invariant.load flag).insertion insertion (by simp [ordersLoads, memRef])
  · exact (invariant.store flag).insertion insertion (by simp [isBarrier, memRef])

/-- A step keeps barriers in order if an access that is inserted behind barriers
finds the flag of its kind set and the barrier it names unrestricted. -/
def keepsOrder (state : State) : Event → Bool
  | .insert seq _ _ =>
      let inst := (state.heap seq).staticInst
      (barriersInFlight state seq).isEmpty ||
        ((!inst.isLoad || state.loadBarrier &&
            !(state.heap state.loadBarrierSN).isDolmaRestricted) &&
          (!inst.isStore || state.storeBarrier &&
            !(state.heap state.storeBarrierSN).isDolmaRestricted))
  | _ => true

/-- Behind barriers the lookup finds the last one of its kind. -/
theorem storeEntry_of_behind
    (invariant : Invariant state) (access : isAccess (state.heap seq).staticInst = true)
    (ordered : keepsOrder state (.insert seq predicted readyToIssue) = true)
    (behind : barrier ∈ barriersInFlight state seq) :
    ∃ last ∈ state.instList, storeEntry state seq predicted = some last ∧
      isBarrier (state.heap last).staticInst = true ∧ barrier ≤ last := by
  have nonempty : (barriersInFlight state seq).isEmpty = false := by
    cases list : barriersInFlight state seq with
    | nil => simp [list] at behind
    | cons => rfl
  obtain ⟨inFlight, orders⟩ := List.mem_filter.mp behind
  have found : ∀ last ∈ state.instList,
      (state.heap last).isDolmaRestricted = false →
        producingStore state seq predicted = last → storeEntry state seq predicted = some last := by
    intro last member free producer
    have positive := (invariant.inserted last member).1
    simp [storeEntry, producer, member, free]
    omega
  simp only [keepsOrder, nonempty, Bool.false_or, Bool.and_eq_true,
    Bool.or_eq_true, Bool.not_eq_true'] at ordered
  cases isLoad : (state.heap seq).staticInst.isLoad with
  | true =>
      have isStore : (state.heap seq).staticInst.isStore = false := by
        simpa [isAccess, isLoad] using access
      obtain ⟨flag, free⟩ := ordered.1.resolve_left (by simp [isLoad])
      have isLast := invariant.load flag
      have ofKind := isLast.ofKind
      simp only [ordersLoads, Bool.and_eq_true] at ofKind
      refine ⟨state.loadBarrierSN, isLast.inFlight,
        found _ isLast.inFlight free ?_, ?_, isLast.last barrier inFlight ?_⟩
      · simp [producingStore, isLoad, flag]
      · simp [isBarrier, ofKind]
      · simpa [MemDep.orders, isLoad, isStore] using orders
  | false =>
      have isStore : (state.heap seq).staticInst.isStore = true := by
        simpa [isAccess, isLoad] using access
      obtain ⟨flag, free⟩ := ordered.2.resolve_left (by simp [isStore])
      have isLast := invariant.store flag
      refine ⟨state.storeBarrierSN, isLast.inFlight,
        found _ isLast.inFlight free ?_, isLast.ofKind, isLast.last barrier inFlight ?_⟩
      · simp [producingStore, isLoad, isStore, flag]
      · simpa [MemDep.orders, isLoad, isStore] using orders

/-- An access inserted behind barriers waits for them. -/
theorem IsWaiting.insert
    (invariant : Invariant state) (young : state.lastInserted < seq)
    (access : isAccess (state.heap seq).staticInst = true)
    (ordered : keepsOrder state (.insert seq predicted readyToIssue) = true)
    (behind : barrier ∈ barriersInFlight state seq) :
    IsWaiting (insert state seq predicted readyToIssue) barrier seq := by
  obtain ⟨last, inFlight, found, isBarrier, bound⟩ :=
    storeEntry_of_behind invariant access ordered behind
  have older := (invariant.inserted last inFlight).2
  have apart : seq ≠ last := by omega
  refine ⟨?_, ?_, ?_⟩
  · intro ready
    have bound := invariant.readyInserted seq
      (by simpa [MemDep.insert, found, setEntry, addEntry] using ready)
    omega
  · simp [MemDep.insert, found, setEntry, addEntry, apart]
  · intro producer _ depends
    have same : producer = last := by
      by_contra other
      by_cases self : producer = seq
      · simp [MemDep.insert, found, setEntry, addEntry, self, apart] at depends
      · have bound := invariant.dependInserted producer seq
          (by simpa [MemDep.insert, found, setEntry, addEntry, self, other]
            using depends)
        omega
    subst same
    rw [(Insertion.insert state seq predicted readyToIssue).heap]
    exact ⟨isBarrier, bound⟩

theorem Insertion.insertBarrier (state : State) (seq : Nat) :
    Insertion seq state (insertBarrier state seq) := by
  have added := Insertion.addEntry state seq
  unfold MemDep.insertBarrier
  dsimp only
  split <;> exact { added with }

theorem barriersInFlight_of_isBarrier (barrier : isBarrier (state.heap seq).staticInst = true) :
    barriersInFlight state seq = [] := by
  simp only [isBarrier, StaticInst.isMemRef, Bool.and_eq_true,
    Bool.not_eq_true', Bool.or_eq_false_iff] at barrier
  simp [barriersInFlight, orders, barrier.1]

section

variable (invariant : Invariant state)
include invariant

theorem Invariant.insertBarrier
    (young : state.lastInserted < seq) (barrier : isBarrier (state.heap seq).staticInst = true) :
    Invariant (insertBarrier state seq) := by
  have insertion := Insertion.insertBarrier state seq
  have store := insertion.isLast invariant young barrier
  have notMemRef : (state.heap seq).staticInst.isMemRef = false := by
    simp only [isBarrier, Bool.and_eq_true, Bool.not_eq_true'] at barrier
    exact barrier.1
  refine invariant.insertion insertion young ?_ ?_
    (by simp [barriersInFlight_of_isBarrier barrier])
  · intro flag
    cases memory : (state.heap seq).staticInst.isMemBarrier with
    | true =>
        have isLast : IsLast _ ordersLoads seq :=
          insertion.isLast invariant young
            (by simp [ordersLoads, memory, notMemRef])
        simpa [MemDep.insertBarrier, memory] using isLast
    | false =>
        have old : state.loadBarrier = true := by
          simpa [MemDep.insertBarrier, memory, addEntry, setEntry] using flag
        have isLast := (invariant.load old).insertion insertion
          (by simp [ordersLoads, memory])
        simpa [MemDep.insertBarrier, memory, addEntry, setEntry] using isLast
  · intro _
    cases memory : (state.heap seq).staticInst.isMemBarrier <;>
      simpa [MemDep.insertBarrier, memory] using store

theorem IsWaiting.addEntry (young : state.lastInserted < seq) (barrier : Nat) :
    IsWaiting (addEntry state seq) barrier seq := by
  refine ⟨?_, by simp [MemDep.addEntry, setEntry], ?_⟩
  · intro ready
    have bound := invariant.readyInserted seq ready
    omega
  · intro producer _ depends
    by_cases self : producer = seq
    · simp [MemDep.addEntry, setEntry, self] at depends
    · have bound := invariant.dependInserted producer seq
        (by simpa [MemDep.addEntry, setEntry, self] using depends)
      omega

/-- Waking what waits for an access keeps the invariant: nothing behind a barrier
waits for an access. -/
theorem Invariant.wakeDependents
    (inFlight : seq ∈ state.instList) (access : isAccess (state.heap seq).staticInst = true) :
    Invariant (wakeDependents state seq) := by
  have progress := Progress.wakeDependents state seq
  refine invariant.progress progress (invariant.dependInserted seq) ?_
  intro dependent depends barrier behind stillInFlight
  have waiting := invariant.waiting dependent barrier behind
    (progress.list.subset stillInFlight)
  have isBarrier := (waiting.waitsOn seq inFlight depends).1
  simp [MemDep.isBarrier, isMemRef_of_isAccess access] at isBarrier

/-- Completing the oldest barrier keeps the invariant: what waits for it was
inserted behind nothing older. -/
theorem Invariant.completeBarrier (oldest : state.instList.head? = some seq) :
    Invariant (completeBarrier state seq) := by
  obtain ⟨rest, list⟩ := List.head?_eq_some_iff.mp oldest
  have progress : Progress (state.entries seq).dependInsts state
      (MemDep.completeBarrier state seq) := by
    refine Progress.completeBarrier fun flag same => ?_
    have ofKind := (invariant.load flag).ofKind
    simp only [same, ordersLoads, Bool.and_eq_true] at ofKind
    exact ofKind.2
  refine invariant.progress progress (invariant.dependInserted seq) ?_
  intro dependent depends barrier behind stillInFlight
  have waiting := invariant.waiting dependent barrier behind
    (progress.list.subset stillInFlight)
  have bound := (waiting.waitsOn seq (by simp [list]) depends).2
  have gone : barrier ∈ rest := by
    have erased : barrier ∈ (MemDep.wakeDependents state seq).instList.erase seq :=
      stillInFlight
    have sublist := (Progress.wakeDependents state seq).list.erase seq
    simpa [list] using sublist.subset erased
  have sorted := invariant.sorted
  rw [list, List.pairwise_cons] at sorted
  have younger := sorted.1 barrier gone
  omega

/-- Completing an access keeps the invariant. -/
theorem Invariant.complete (access : isAccess (state.heap seq).staticInst = true) :
    Invariant (complete state seq) := by
  have memRef := isMemRef_of_isAccess access
  refine invariant.progress (Progress.complete ?_ ?_) (by simp) (by simp)
  · intro flag same
    have ofKind := (invariant.load flag).ofKind
    simp [same, ordersLoads, memRef] at ofKind
  · intro flag same
    have ofKind := (invariant.store flag).ofKind
    simp [same, MemDep.isBarrier, memRef] at ofKind

/-- Moving an instruction to the ready list keeps the invariant if its barriers
are gone. -/
theorem Invariant.moveToReady
    (known : seq ≤ state.lastInserted)
    (released : ∀ barrier ∈ state.insertedBehind seq, barrier ∉ state.instList) :
    Invariant (moveToReady state seq) := by
  refine invariant.progress (Progress.moveToReady state seq) ?_ ?_
  · simpa using known
  · simpa [MemDep.moveToReady] using released

/-- Ready registers keep the invariant. -/
theorem Invariant.regsReady (inFlight : seq ∈ state.instList) :
    Invariant (regsReady state seq) := by
  have marked : Invariant
      (setEntry state seq fun entry => { entry with regsReady := true }) := by
    have progress : Progress [] state
        (setEntry state seq fun entry => { entry with regsReady := true }) := by
      constructor
      case list => exact List.Sublist.refl _
      case memDep =>
        intro other _ resolved
        by_cases same : other = seq <;> simpa [setEntry, same] using resolved
      case depend =>
        intro producer other member
        by_cases same : producer = seq <;> simpa [setEntry, same] using member
      all_goals simp +contextual [setEntry]
    exact invariant.progress progress (by simp) (by simp)
  unfold MemDep.regsReady
  dsimp only
  split
  next resolved =>
    refine marked.moveToReady (invariant.inserted seq inFlight).2 ?_
    intro barrier behind stillInFlight
    have waiting := invariant.waiting seq barrier behind stillInFlight
    rw [waiting.unresolved] at resolved
    exact absurd resolved (by simp)
  next => exact marked

/-- Replaying accesses keeps the invariant. -/
theorem Invariant.replay : Invariant (replay state) := by
  have emptied : Progress [] state { state with instsToReplay := [] } := by
    constructor
    case list => exact List.Sublist.refl _
    all_goals simp +contextual
  have progress := emptied.trans
    (Progress.foldl Progress.moveToReady state.instsToReplay
      { state with instsToReplay := [] })
  refine invariant.progress progress ?_ ?_
  · intro seq member
    exact invariant.readyInserted seq (invariant.replayed seq member)
  · intro access member barrier behind inFlight
    have waiting := invariant.waiting access barrier behind
      (progress.list.subset inFlight)
    exact waiting.notReady (invariant.replayed access member)

end

theorem Invariant.initial (heap : Heap) : Invariant (initial heap) := by
  constructor <;> simp [MemDep.initial]

/-- A step that keeps barriers in order keeps the invariant. -/
theorem Invariant.step
    (invariant : Invariant state) (event : Event) (ordered : keepsOrder state event = true)
    (enabled : step state event = some next) :
    Invariant next := by
  cases event <;> simp only [MemDep.step, Option.ite_none_right_eq_some,
    Option.some.injEq, Bool.and_eq_true, decide_eq_true_eq, beq_iff_eq,
    List.contains_eq_mem] at enabled
  case insert seq predicted readyToIssue =>
    obtain ⟨⟨young, access⟩, rfl⟩ := enabled
    have insertion := Insertion.insert state seq predicted readyToIssue
    obtain ⟨sameLoad, sameStore⟩ := insert_barriers state seq predicted readyToIssue
    obtain ⟨load, store⟩ :=
      insertion.flags invariant access sameLoad sameStore
    exact invariant.insertion insertion young load store
      fun barrier behind => IsWaiting.insert invariant young access ordered behind
  case insertNonSpec seq =>
    obtain ⟨⟨young, access⟩, rfl⟩ := enabled
    have insertion := Insertion.addEntry state seq
    obtain ⟨load, store⟩ :=
      insertion.flags invariant access ⟨rfl, rfl⟩ ⟨rfl, rfl⟩
    exact invariant.insertion insertion young load store
      fun barrier _ => IsWaiting.addEntry invariant young barrier
  case insertBarrier seq =>
    obtain ⟨⟨young, barrier⟩, rfl⟩ := enabled
    exact invariant.insertBarrier young barrier
  case regsReady seq =>
    obtain ⟨inFlight, rfl⟩ := enabled
    exact invariant.regsReady inFlight
  case nonSpecInstReady seq =>
    obtain ⟨oldest, rfl⟩ := enabled
    obtain ⟨rest, list⟩ := List.head?_eq_some_iff.mp oldest
    refine invariant.moveToReady (invariant.inserted seq (by simp [list])).2 ?_
    -- Everything else in flight is younger, but its barriers are older.
    intro barrier behind inFlight
    have older := (invariant.behind seq barrier behind).1
    have sorted := invariant.sorted
    rw [list, List.pairwise_cons] at sorted
    rw [list, List.mem_cons] at inFlight
    rcases inFlight with same | younger
    · omega
    · have := sorted.1 barrier younger
      omega
  case reschedule seq =>
    obtain ⟨⟨inFlight, ready⟩, rfl⟩ := enabled
    have progress : Progress [] state
        { state with instsToReplay := state.instsToReplay ++ [seq] } := by
      constructor
      case list => exact List.Sublist.refl _
      case replayed =>
        intro other member
        rcases List.mem_append.mp member with old | new
        · exact .inl old
        · exact .inr (List.mem_singleton.mp new ▸ ready)
      all_goals simp +contextual
    exact invariant.progress progress (by simp) (by simp)
  case replay =>
    subst enabled
    exact invariant.replay
  case wakeDependents seq =>
    obtain ⟨⟨⟨inFlight, _⟩, access⟩, rfl⟩ := enabled
    exact invariant.wakeDependents inFlight access
  case completed seq =>
    obtain ⟨⟨_, access⟩, rfl⟩ := enabled
    exact invariant.complete access
  case completeBarrier seq =>
    obtain ⟨⟨oldest, _⟩, rfl⟩ := enabled
    exact invariant.completeBarrier oldest
  case squash keep =>
    subst enabled
    exact invariant.progress (Progress.squash state keep) (by simp) (by simp)
  case elsewhere seq inst =>
    obtain ⟨static, rfl⟩ := enabled
    have progress : Progress [] state
        { state with heap := state.heap.modify seq fun _ => inst } := by
      constructor
      case static =>
        intro other
        by_cases same : other = seq
        · subst same
          simpa using static
        · simp [same]
      case list => exact List.Sublist.refl _
      all_goals simp +contextual
    exact invariant.progress progress (by simp) (by simp)

/-- In every run that keeps barriers in order, no access is moved to the ready
list while a barrier it was inserted behind is in flight. -/
theorem not_ready_behind_barrier
    {heap : Heap} {state : State}
    (reachable : Reachable step (fun state event => keepsOrder state event = true)
      (initial heap) state)
    {access barrier : Nat} (behind : barrier ∈ state.insertedBehind access)
    (inFlight : barrier ∈ state.instList) :
    access ∉ state.readyList := by
  have invariant : Invariant state :=
    reachable.invariant (Invariant.initial heap)
      fun _ event _ invariant ordered enabled =>
        invariant.step event ordered enabled
  exact (invariant.waiting access barrier behind inFlight).notReady

/-- A control-restricted memory barrier, two unrestricted ones, and two loads. -/
private def fencedLoads : Heap
  | 1 => DynInst.setStatus
      { staticInst := { isMemBarrier := true } } .controlRestricted true
  | 2 => { staticInst := { isMemBarrier := true } }
  | 3 => { staticInst := { isMemBarrier := true } }
  | _ => { staticInst := { isLoad := true } }

/-- The run theorem on a load that waits behind the barrier in flight. -/
theorem not_ready_behind_barrier_fence :
    ∃ state, Reachable step (fun state event => keepsOrder state event = true)
        (initial fencedLoads) state ∧
      2 ∈ state.insertedBehind 4 ∧ 2 ∈ state.instList ∧ 4 ∉ state.readyList := by
  refine Reachable.exists_imp_of_replay [.insertBarrier 2, .insert 4 0 true]
    (fun state => 2 ∈ state.insertedBehind 4 ∧ 2 ∈ state.instList) (by decide) ?_
  rintro state reachable ⟨behind, waits⟩
  exact ⟨behind, waits, not_ready_behind_barrier reachable behind waits⟩

/-- A load passes a restricted memory barrier, and it passes an unrestricted one
once a younger barrier was squashed. -/
theorem ready_behind_barrier :
    (∃ state, Reachable step (fun _ _ => True) (initial fencedLoads) state ∧
      1 ∈ state.insertedBehind 4 ∧ 1 ∈ state.instList ∧ 4 ∈ state.readyList) ∧
    ∃ state, Reachable step (fun _ _ => True) (initial fencedLoads) state ∧
      2 ∈ state.insertedBehind 4 ∧ 2 ∈ state.instList ∧ 4 ∈ state.readyList :=
  ⟨Reachable.exists_imp_of_replay [.insertBarrier 1, .insert 4 0 true] _ (by decide)
      fun _ _ tested => tested,
    Reachable.exists_imp_of_replay
      [.insertBarrier 2, .insertBarrier 3, .squash 2, .insert 4 0 true] _ (by decide)
      fun _ _ tested => tested⟩

end MemDep
end Dolma

import Dolma.Library.ListFold
import Mathlib.Data.List.MinMax
import Mathlib.Data.List.Sort

/-!
# Which thread fetches

With several threads fetch asks a policy for the thread to fetch for. The two policies
that count instructions sort the counts of the active threads, and remember for each
count the last thread that has it. Of several threads with one count the others are
forgotten, so a thread that cannot fetch may hide one that can.
-/

namespace Dolma
namespace Smt
namespace Fetch

/-- The fetch status of a thread. -/
inductive ThreadStatus where
  | running
  | idle
  | squashing
  | blocked
  | fetching
  | trapPending
  | quiescePending
  | itlbWait
  | icacheWaitResponse
  | icacheWaitRetry
  | icacheAccessComplete
  | noGoodAddr
deriving DecidableEq, Repr

/-- What the policies read. -/
structure Threads where
  activeThreads : List Nat
  fetchStatus : Nat → ThreadStatus
  iewIqCount : Nat → Nat
  iewLdstqCount : Nat → Nat

/-- The local variables of a policy that counts. -/
structure Counted where
  pq : List Nat := []
  threadMap : Nat → Nat := fun _ => 0

/-- Enter the count of a thread. -/
def Counted.push (count : Nat → Nat) (counted : Counted) (tid : Nat) : Counted where
  pq := counted.pq.orderedInsert (· ≤ ·) (count tid)
  threadMap := Function.update counted.threadMap (count tid) tid

namespace Threads

variable (threads : Threads)

/-- Instructions of the thread may be fetched. -/
def mayFetch (tid : Nat) : Bool :=
  threads.fetchStatus tid == .running ||
    threads.fetchStatus tid == .icacheAccessComplete || threads.fetchStatus tid == .idle

/-- Take counts from the queue until the thread of one may fetch. -/
def takeLowest (threadMap : Nat → Nat) : List Nat → Option Nat
  | [] => none
  | top :: rest =>
      if threads.mayFetch (threadMap top) then some (threadMap top)
      else takeLowest threadMap rest

/-- A policy that prefers the thread with the lowest count. -/
def lowestCount (count : Nat → Nat) : Option Nat :=
  let counted := threads.activeThreads.foldl (Counted.push count) {}
  threads.takeLowest counted.threadMap counted.pq

/-- The policy that counts the instruction queue. -/
def iqCount : Option Nat := threads.lowestCount threads.iewIqCount

/-- The policy that counts loads and stores. -/
def lsqCount : Option Nat := threads.lowestCount threads.iewLdstqCount

/-- The last active thread with a count. -/
def lastWith (count : Nat → Nat) (value : Nat) : Option Nat :=
  (threads.activeThreads.filter fun tid => count tid == value).getLast?

/-- The choice is an active thread that may fetch and has the lowest count of these, and
there is no choice only if no active thread may fetch. -/
def SelectsLowest (count : Nat → Nat) : Option Nat → Prop
  | some tid =>
      tid ∈ threads.activeThreads ∧ threads.mayFetch tid = true ∧
        ∀ other ∈ threads.activeThreads, threads.mayFetch other = true → count tid ≤ count other
  | none => ∀ other ∈ threads.activeThreads, threads.mayFetch other = false

/-- The thread may fetch and has the lowest count of the active threads that may. -/
def IsLowest (count : Nat → Nat) (tid : Nat) : Prop :=
  threads.SelectsLowest count (some tid)

/-- Of the threads that share the lowest count of a thread that may fetch, the last of the
active list may fetch. -/
def LastMayFetch (count : Nat → Nat) : Prop :=
  ∀ tid, threads.IsLowest count tid →
    ∃ last, threads.lastWith count (count tid) = some last ∧ threads.mayFetch last = true

variable {threads} {count : Nat → Nat}
variable {tid : Nat} {counted : Counted}

theorem lastWith_eq_some (isLast : threads.lastWith count value = some tid) :
    tid ∈ threads.activeThreads ∧ count tid = value := by
  simpa using List.mem_filter.mp (List.mem_of_getLast? isLast)

/-- The queue has the counts of the active threads in order, and the map has the last
thread of each count. -/
structure Enters (count : Nat → Nat) (list : List Nat) (counted : Counted) : Prop where
  sorted : counted.pq.Pairwise (· ≤ ·)
  perm : counted.pq.Perm (list.map count)
  last : ∀ value,
    counted.threadMap value = ((list.filter fun tid => count tid == value).getLast?).getD 0

theorem Enters.push (enters : Enters count processed counted) (tid : Nat) :
    Enters count (processed ++ [tid]) (counted.push count tid) where
  sorted := enters.sorted.orderedInsert _ _
  perm := by
    have inserted : (counted.push count tid).pq.Perm (count tid :: counted.pq) :=
      List.perm_orderedInsert _ _ _
    rw [List.map_append]
    exact (inserted.trans (enters.perm.cons _)).trans
      (List.perm_append_singleton (count tid) _).symm
  last value := by
    rw [List.filter_append]
    by_cases same : value = count tid
    · simp [Counted.push, same]
    · have other : (count tid == value) = false := by simpa using Ne.symm same
      simp [Counted.push, Function.update_of_ne same, other, enters.last]

theorem enters_activeThreads (threads : Threads) (count : Nat → Nat) :
    Enters count threads.activeThreads
      (threads.activeThreads.foldl (Counted.push count) {}) := by
  refine Library.foldl_processed (motive := Enters count) threads.activeThreads ?_ ?_
  · exact ⟨List.Pairwise.nil, List.Perm.nil, fun _ => rfl⟩
  · intro processed tid rest counted _ enters
    exact enters.push tid

/-- The thread of a count in the queue is the last active one with it. -/
theorem Enters.lastWith
    (enters : Enters count threads.activeThreads counted) (value : Nat)
    (member : value ∈ counted.pq) :
    threads.lastWith count value = some (counted.threadMap value) := by
  obtain ⟨tid, active, rfl⟩ := List.mem_map.mp (enters.perm.mem_iff.mp member)
  have nonempty : (threads.activeThreads.filter fun other => count other == count tid) ≠ [] :=
    List.ne_nil_of_mem (List.mem_filter.mpr ⟨active, by simp⟩)
  rw [enters.last, Threads.lastWith, List.getLast?_eq_getLast_of_ne_nil nonempty]
  rfl

/-- The loop takes the first count whose thread may fetch. -/
theorem takeLowest_eq (threadMap : Nat → Nat) (pq : List Nat) :
    threads.takeLowest threadMap pq =
      (pq.find? fun value => threads.mayFetch (threadMap value)).map threadMap := by
  induction pq with
  | nil => rfl
  | cons top rest ih =>
      rw [takeLowest, List.find?_cons]
      split
      · next may => rw [may, Option.map_some]
      · next mayNot =>
          rw [Bool.eq_false_iff.mpr mayNot]
          exact ih

theorem takeLowest_eq_some (taken : threads.takeLowest threadMap pq = some tid) :
    threads.mayFetch tid = true ∧
      ∃ lower value higher, pq = lower ++ value :: higher ∧ threadMap value = tid ∧
        ∀ other ∈ lower, threads.mayFetch (threadMap other) = false := by
  rw [takeLowest_eq] at taken
  obtain ⟨value, found, rfl⟩ := Option.map_eq_some_iff.mp taken
  obtain ⟨may, lower, higher, isQueue, passed⟩ := List.find?_eq_some_iff_append.mp found
  refine ⟨may, lower, value, higher, isQueue, rfl, ?_⟩
  intro other member
  simpa using passed other member

/-- If an active thread may fetch, one has the lowest count. -/
theorem exists_isLowest
    (count : Nat → Nat) (active : tid ∈ threads.activeThreads) (may : threads.mayFetch tid = true) :
    ∃ lowest, threads.IsLowest count lowest := by
  have member : tid ∈ threads.activeThreads.filter threads.mayFetch :=
    List.mem_filter.mpr ⟨active, may⟩
  cases found : (threads.activeThreads.filter threads.mayFetch).argmin count with
  | none =>
      rw [List.argmin_eq_none.mp found] at member
      cases member
  | some lowest =>
      have chosen := List.mem_filter.mp (List.argmin_mem found)
      refine ⟨lowest, chosen.1, chosen.2, ?_⟩
      intro other otherActive otherMay
      exact List.le_of_mem_argmin (List.mem_filter.mpr ⟨otherActive, otherMay⟩) found

/-- A policy that counts selects the lowest count of a thread that may fetch if and only if the
last active thread with that count may fetch. -/
theorem lowestCount_selects_iff (count : Nat → Nat) :
    threads.SelectsLowest count (threads.lowestCount count) ↔ threads.LastMayFetch count := by
  unfold lowestCount
  dsimp only
  have enters := enters_activeThreads threads count
  generalize threads.activeThreads.foldl (Counted.push count) {} = counted at enters
  have inQueue : ∀ tid ∈ threads.activeThreads, count tid ∈ counted.pq := by
    intro tid active
    exact enters.perm.mem_iff.mpr (List.mem_map_of_mem active)
  constructor
  · intro selects tid lowest
    obtain ⟨active, may, least⟩ := lowest
    cases taken : threads.takeLowest counted.threadMap counted.pq with
    | none =>
        rw [taken] at selects
        rw [selects tid active] at may
        cases may
    | some chosen =>
        rw [taken] at selects
        obtain ⟨chosenActive, chosenMay, chosenLeast⟩ := selects
        obtain ⟨-, lower, value, higher, isQueue, isThread, -⟩ := takeLowest_eq_some taken
        have isLast := enters.lastWith value (by simp [isQueue])
        rw [isThread] at isLast
        have same : count tid = value := by
          rw [← (lastWith_eq_some isLast).2]
          exact Nat.le_antisymm (least chosen chosenActive chosenMay)
            (chosenLeast tid active may)
        exact ⟨chosen, same ▸ isLast, chosenMay⟩
  · intro lastMayFetch
    -- the lowest count of a thread that may fetch is not passed over
    have stops : ∀ tid, threads.IsLowest count tid →
        threads.mayFetch (counted.threadMap (count tid)) = true := by
      intro tid lowest
      obtain ⟨last, isLast, may⟩ := lastMayFetch tid lowest
      have inMap := enters.lastWith _ (inQueue tid lowest.1)
      rw [isLast, Option.some.injEq] at inMap
      rw [← inMap]
      exact may
    cases taken : threads.takeLowest counted.threadMap counted.pq with
    | none =>
        intro other active
        rw [Bool.eq_false_iff]
        intro may
        obtain ⟨lowest, isLowest⟩ := exists_isLowest count active may
        rw [takeLowest_eq, Option.map_eq_none_iff, List.find?_eq_none] at taken
        exact taken _ (inQueue lowest isLowest.1) (stops lowest isLowest)
    | some chosen =>
        obtain ⟨may, lower, value, higher, isQueue, isThread, passed⟩ :=
          takeLowest_eq_some taken
        have isLast := enters.lastWith value (by simp [isQueue])
        rw [isThread] at isLast
        obtain ⟨active, isCount⟩ := lastWith_eq_some isLast
        obtain ⟨lowest, isLowest⟩ := exists_isLowest count active may
        refine ⟨active, may, fun other otherActive otherMay => ?_⟩
        refine Nat.le_trans ?_ (isLowest.2.2 other otherActive otherMay)
        by_contra above
        have earlier : count lowest ∈ lower := by
          have member := inQueue lowest isLowest.1
          have sorted := enters.sorted
          rw [isQueue] at member sorted
          rcases List.mem_append.mp member with before | notBefore
          · exact before
          · exfalso
            have follows := (List.pairwise_append.mp sorted).2.1
            rcases List.mem_cons.mp notBefore with here | later
            · omega
            · have := (List.pairwise_cons.mp follows).1 _ later
              omega
        have skipped := passed _ earlier
        rw [stops lowest isLowest] at skipped
        cases skipped

/-- Each of the two policies that count selects the lowest count of a thread that may fetch if
and only if the last active thread with that count may fetch. -/
theorem countPolicies_select_iff (threads : Threads) :
    (threads.SelectsLowest threads.iewIqCount threads.iqCount ↔
        threads.LastMayFetch threads.iewIqCount) ∧
      (threads.SelectsLowest threads.iewLdstqCount threads.lsqCount ↔
        threads.LastMayFetch threads.iewLdstqCount) :=
  ⟨lowestCount_selects_iff threads.iewIqCount, lowestCount_selects_iff threads.iewLdstqCount⟩

/-- Two threads with empty queues, of which the second waits for the instruction cache. -/
def secondWaits : Threads where
  activeThreads := [0, 1]
  fetchStatus tid := if tid = 0 then .running else .icacheWaitResponse
  iewIqCount _ := 0
  iewLdstqCount _ := 0

/-- The first thread may fetch, and both policies find no thread. -/
theorem secondWaits_hides_first :
    secondWaits.mayFetch 0 = true ∧
      ¬secondWaits.SelectsLowest secondWaits.iewIqCount secondWaits.iqCount ∧
      ¬secondWaits.SelectsLowest secondWaits.iewLdstqCount secondWaits.lsqCount := by
  have iq : secondWaits.iqCount = none := by decide
  have lsq : secondWaits.lsqCount = none := by decide
  have may : secondWaits.mayFetch 0 = true := by decide
  rw [iq, lsq]
  refine ⟨may, fun selects => ?_, fun selects => ?_⟩
  · exact absurd (selects 0 (by decide)) (by decide)
  · exact absurd (selects 0 (by decide)) (by decide)

end Threads

end Fetch
end Smt
end Dolma

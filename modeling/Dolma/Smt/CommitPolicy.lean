import Dolma.Core.Heap
import Mathlib.Data.List.Chain

/-!
# Which thread commits

With several threads commit asks a policy for the thread to commit from. The round-robin
policy takes the first thread of a priority list whose head is ready, and moves it to the
end. The oldest-ready policy walks over the active threads and remembers a choice; it
compares the sequence number of each further head with the remembered *thread*, and not
with the head of that thread.
-/

namespace Dolma
namespace Smt

/-- The commit status of a thread. -/
inductive ThreadStatus where
  | running
  | idle
  | robSquashing
  | trapPending
  | fetchTrapPending
  | squashAfterPending
deriving DecidableEq, Repr

/-- The commit policies. -/
inductive CommitPolicy where
  | aggressive
  | roundRobin
  | oldestReady
deriving DecidableEq, Repr

/-- What the policies read. -/
structure Threads where
  numThreads : Nat
  activeThreads : List Nat
  commitStatus : Nat → ThreadStatus
  instList : Nat → List Nat
  heap : Heap
  priorityList : List Nat

namespace Threads

variable (threads : Threads)

/-- Instructions of the thread may be committed. -/
def mayCommit (tid : Nat) : Bool :=
  threads.commitStatus tid == .running || threads.commitStatus tid == .idle ||
    threads.commitStatus tid == .fetchTrapPending

/-- The reorder buffer of the thread is empty. -/
def isEmpty (tid : Nat) : Bool :=
  (threads.instList tid).isEmpty

/-- The head of the reorder buffer; an empty one gives a dummy. -/
def readHeadInst (tid : Nat) : Nat :=
  (threads.instList tid).headD 0

/-- The head of the reorder buffer can be committed. -/
def isHeadReady (tid : Nat) : Bool :=
  !threads.isEmpty tid && (threads.heap (threads.readHeadInst tid)).readyToCommit

/-- The thread can commit. -/
def canCommit (tid : Nat) : Bool :=
  threads.mayCommit tid && threads.isHeadReady tid

/-- The first thread of the priority list that can commit, and the new list. -/
def roundRobin : Option (Nat × List Nat) :=
  (threads.priorityList.find? threads.canCommit).map fun tid =>
    (tid, threads.priorityList.erase tid ++ [tid])

/-- The local variables of the oldest-ready policy. -/
structure Scan where
  oldest : Nat := 0
  first : Bool := true

/-- The oldest-ready policy at one active thread. -/
def lookAt (scan : Scan) (tid : Nat) : Scan :=
  if !threads.isEmpty tid && threads.mayCommit tid && threads.isHeadReady tid then
    if scan.first then { oldest := tid, first := false }
    else if threads.readHeadInst tid < scan.oldest then { scan with oldest := tid }
    else scan
  else scan

/-- The oldest-ready policy. -/
def oldestReady : Option Nat :=
  let scan := threads.activeThreads.foldl threads.lookAt {}
  if scan.first then none else some scan.oldest

/-- The thread to commit from, and the new priority list. -/
def getCommittingThread (policy : CommitPolicy) : Option Nat × List Nat :=
  if 1 < threads.numThreads then
    match policy with
    | .aggressive => (threads.oldestReady, threads.priorityList)
    | .oldestReady => (threads.oldestReady, threads.priorityList)
    | .roundRobin =>
        match threads.roundRobin with
        | none => (none, threads.priorityList)
        | some (tid, list) => (some tid, list)
  else
    (threads.activeThreads.head?.filter threads.mayCommit, threads.priorityList)

/-! ## The round-robin policy -/

/-- The threads that are selected cycle after cycle. A cycle comes with its own status and
buffers, and passes the priority list on. -/
def turns : List Threads → List Nat → List Nat
  | [], _ => []
  | cycle :: later, list =>
      match { cycle with priorityList := list }.roundRobin with
      | none => turns later list
      | some (tid, list) => tid :: turns later list

section RoundRobin

variable {threads} {tid chosen : Nat} {list : List Nat}

/-- A thread that can commit is selected, and none before it can. -/
theorem roundRobin_eq_some (selected : threads.roundRobin = some (chosen, list)) :
    threads.canCommit chosen = true ∧
      ∃ before after, threads.priorityList = before ++ chosen :: after ∧
        list = before ++ after ++ [chosen] ∧ ∀ tid ∈ before, threads.canCommit tid = false := by
  unfold roundRobin at selected
  obtain ⟨tid, found, equal⟩ := Option.map_eq_some_iff.mp selected
  cases equal
  obtain ⟨can, before, after, split, none⟩ := List.find?_eq_some_iff_append.mp found
  refine ⟨can, before, after, split, ?_, ?_⟩
  · have fresh : chosen ∉ before := by
      intro member
      have not := none chosen member
      rw [can] at not
      cases not
    rw [split, List.erase_append_right _ fresh, List.erase_cons_head]
  · intro tid member
    simpa using none tid member

theorem perm_of_roundRobin (selected : threads.roundRobin = some (chosen, list)) :
    list.Perm threads.priorityList := by
  obtain ⟨-, before, after, split, rfl, -⟩ := roundRobin_eq_some selected
  rw [split, List.append_assoc]
  exact (List.perm_append_singleton chosen after).append_left before

/-- Some thread is selected if one of the list can commit. -/
theorem isSome_roundRobin
    (member : tid ∈ threads.priorityList) (can : threads.canCommit tid = true) :
    threads.roundRobin.isSome = true := by
  unfold roundRobin
  rw [Option.isSome_map, List.find?_isSome]
  exact ⟨tid, member, can⟩

/-- A thread that can commit is selected, or it moves up. -/
theorem idxOf_of_roundRobin
    (member : tid ∈ threads.priorityList) (can : threads.canCommit tid = true)
    (selected : threads.roundRobin = some (chosen, list)) :
    chosen = tid ∨ list.idxOf tid + 1 = threads.priorityList.idxOf tid := by
  obtain ⟨-, before, after, split, rfl, none⟩ := roundRobin_eq_some selected
  by_cases same : chosen = tid
  · exact .inl same
  right
  have notBefore : tid ∉ before := by
    intro isBefore
    rw [none tid isBefore] at can
    cases can
  have isAfter : tid ∈ after := by
    rw [split] at member
    rcases List.mem_append.mp member with isBefore | rest
    · exact absurd isBefore notBefore
    · exact (List.mem_cons.mp rest).resolve_left (Ne.symm same)
  rw [split, List.idxOf_append_of_notMem notBefore, List.idxOf_cons_ne _ same,
    List.append_assoc, List.idxOf_append_of_notMem notBefore, List.idxOf_append_of_mem isAfter]
  omega

/-- A thread that can commit in every cycle is selected within a round. -/
theorem mem_turns
    {cycles : List Threads} {list : List Nat} (member : tid ∈ list)
    (can : ∀ cycle ∈ cycles, cycle.canCommit tid = true) (enough : list.idxOf tid < cycles.length) :
    tid ∈ turns cycles list := by
  induction cycles generalizing list with
  | nil => cases enough
  | cons cycle later ih =>
      have canNow : canCommit { cycle with priorityList := list } tid = true :=
        can cycle List.mem_cons_self
      have canLater := fun other isLater => can other (List.mem_cons_of_mem cycle isLater)
      have isSome : ({ cycle with priorityList := list } : Threads).roundRobin.isSome = true :=
        isSome_roundRobin member canNow
      obtain ⟨⟨chosen, next⟩, selected⟩ := Option.isSome_iff_exists.mp isSome
      unfold turns
      rw [selected]
      rcases idxOf_of_roundRobin member canNow selected with rfl | nearer
      · exact List.mem_cons_self
      · apply List.mem_cons_of_mem
        apply ih ((perm_of_roundRobin selected).mem_iff.mpr member) canLater
        rw [List.length_cons] at enough
        dsimp only at nearer
        omega

end RoundRobin

/-! ## The oldest-ready policy -/

/-- The active threads that can commit. -/
def ready : List Nat :=
  threads.activeThreads.filter threads.canCommit

/-- The thread has the oldest head of those that can commit. -/
def IsOldest (tid : Nat) : Prop :=
  tid ∈ threads.ready ∧
    ∀ other ∈ threads.ready, threads.readHeadInst tid ≤ threads.readHeadInst other

section OldestReady

variable {threads} {list : List Nat} {remembered : Nat} {blocks : List (Nat × List Nat)}

theorem lookAt_eq (scan : Scan) (tid : Nat) :
    threads.lookAt scan tid =
      if threads.canCommit tid then
        if scan.first then { oldest := tid, first := false }
        else if threads.readHeadInst tid < scan.oldest then { scan with oldest := tid }
        else scan
      else scan := by
  unfold lookAt canCommit isHeadReady
  cases threads.isEmpty tid <;> cases threads.mayCommit tid <;> rfl

/-- Two running threads with one ready instruction each. -/
def twoHeads (first second : Nat) : Threads where
  numThreads := 2
  activeThreads := [0, 1]
  commitStatus := fun _ => .running
  instList := fun tid => if tid = 0 then [first] else [second]
  heap := fun _ => { status := fun flag => flag == .canCommit }
  priorityList := [0, 1]

end OldestReady

/-- Two threads that can commit all the time take turns. -/
theorem mem_turns_twoHeads : 1 ∈ turns [twoHeads 10 20, twoHeads 10 20] [0, 1] :=
  mem_turns (by decide) (by decide) (by decide)

/-! ## The selected thread -/

section Selected

variable {threads} {policy : CommitPolicy} {tid : Nat}

theorem mem_of_oldestReady (selected : threads.oldestReady = some tid) :
    tid ∈ threads.activeThreads ∧ threads.canCommit tid = true := by
  have remembered : ∀ (list : List Nat) (scan : Scan),
      (list.foldl threads.lookAt scan).first = false →
        (list.foldl threads.lookAt scan).oldest ∈ list ∧
            threads.canCommit (list.foldl threads.lookAt scan).oldest = true ∨
          scan.first = false ∧ (list.foldl threads.lookAt scan).oldest = scan.oldest := by
    intro list
    induction list with
    | nil => exact fun scan seen => .inr ⟨seen, rfl⟩
    | cons tid rest ih =>
        intro scan seen
        rw [List.foldl_cons] at seen ⊢
        rcases ih _ seen with ⟨member, can⟩ | ⟨first, same⟩
        · exact .inl ⟨List.mem_cons_of_mem _ member, can⟩
        · rw [same]
          rw [lookAt_eq] at first ⊢
          grind
  unfold oldestReady at selected
  dsimp only at selected
  split at selected
  · cases selected
  · next seen =>
      cases selected
      rcases remembered _ _ (by simpa using seen) with found | ⟨first, _⟩
      · exact found
      · cases first

/-- Commit selects a thread that it may commit from. -/
theorem getCommittingThread_eq_some (selected : (threads.getCommittingThread policy).1 = some tid) :
    threads.mayCommit tid = true ∧ (tid ∈ threads.activeThreads ∨ tid ∈ threads.priorityList) := by
  have oldest : threads.oldestReady = some tid →
      threads.mayCommit tid = true ∧
        (tid ∈ threads.activeThreads ∨ tid ∈ threads.priorityList) := by
    intro selected
    obtain ⟨member, can⟩ := mem_of_oldestReady selected
    exact ⟨(Bool.and_eq_true_iff.mp can).1, .inl member⟩
  unfold getCommittingThread at selected
  split at selected
  · cases policy with
    | aggressive => exact oldest selected
    | oldestReady => exact oldest selected
    | roundRobin =>
        dsimp only at selected
        split at selected
        · cases selected
        · next chosen list found =>
            cases selected
            obtain ⟨can, before, after, split, -⟩ := roundRobin_eq_some found
            exact ⟨(Bool.and_eq_true_iff.mp can).1, .inr (by rw [split]; simp)⟩
  · obtain ⟨found, may⟩ := Option.filter_eq_some_iff.mp selected
    exact ⟨may, .inl (List.mem_of_head? found)⟩

theorem perm_getCommittingThread :
    (threads.getCommittingThread policy).2.Perm threads.priorityList := by
  unfold getCommittingThread
  split
  · cases policy with
    | aggressive => rfl
    | oldestReady => rfl
    | roundRobin =>
        dsimp only
        split
        · rfl
        · next found => exact perm_of_roundRobin found
  · rfl

end Selected

end Threads
end Smt
end Dolma

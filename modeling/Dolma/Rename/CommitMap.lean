import Dolma.Rename.Partition

/-!
# The commit map is the rename map without the renames in flight

Commit keeps a rename map of its own. It is written when an instruction commits, whereas
rename undoes the renames of squashed instructions and drops those of committed ones when
the signals of commit arrive, which may be much later. Undoing the entries of the
instructions that have not committed leads from the rename map to the commit map.
-/

namespace Dolma
namespace Rename

open Library

/-- A renamed instruction that has neither committed nor been squashed by rename. -/
structure InFlight where
  seqNum : Nat
  dests : List (RegId × PhysRegId)

/-- The rename and the commit stage. -/
structure Stages where
  rename : State
  commitRenameMap : Nat → RegId → PhysRegId
  inFlight : Nat → List InFlight := fun _ => []
  squashes : Nat → List Nat := fun _ => []
  committed : Nat → List Nat := fun _ => []

namespace Stages

/-- What happens in the two stages. -/
inductive Event where
  | rename (thread seq : Nat) (regs : List RegId)
  | dispatch (thread : Nat)
  | commitHead (thread : Nat)
  | signalSquash (thread keep : Nat)
  | squash (thread : Nat)
  | removeFromHistory (thread doneSeqNum : Nat)

/-- The stages after construction: both maps are written together. -/
def initial (sizes : Sizes) : Option Stages :=
  (Rename.initial sizes).map fun state =>
    { rename := state, commitRenameMap := state.renameMap }

/-- Commit an instruction, if it is not squashed. -/
def commitHead (stages : Stages) (thread : Nat) (head : InFlight) : Option Stages :=
  if ∀ keep ∈ stages.squashes thread, head.seqNum ≤ keep then
    some { stages with
      commitRenameMap := Function.update stages.commitRenameMap thread
        (mapDests (stages.commitRenameMap thread) head.dests)
      inFlight := Function.update stages.inFlight thread (stages.inFlight thread).dropLast
      committed := Function.update stages.committed thread
        (head.seqNum :: stages.committed thread) }
  else none

/-- The step function. Instructions commit in order, a squash spares what has committed,
and rename reads the signals of commit after any delay. -/
def step (sizes : Sizes) (stages : Stages) : Event → Option Stages
  | .rename thread seq regs => do
      let renamed ← renameDestRegs stages.rename (thread, seq) regs
      let next ← operate sizes stages.rename (.rename thread seq regs)
      some { stages with
        rename := next
        inFlight := Function.update stages.inFlight thread
          ({ seqNum := seq, dests := regs.zip renamed.2 } :: stages.inFlight thread) }
  | .dispatch thread => do
      let next ← operate sizes stages.rename (.dispatch thread)
      some { stages with rename := next }
  | .commitHead thread => do
      let head ← (stages.inFlight thread).getLast?
      stages.commitHead thread head
  | .signalSquash thread keep =>
      if ∀ seq ∈ stages.committed thread, seq ≤ keep then
        some { stages with
          squashes := Function.update stages.squashes thread
            (stages.squashes thread ++ [keep]) }
      else none
  | .squash thread =>
      match stages.squashes thread with
      | [] => none
      | keep :: rest => do
          let next ← operate sizes stages.rename (.squash thread keep)
          some { stages with
            rename := next
            inFlight := Function.update stages.inFlight thread
              ((stages.inFlight thread).filter fun inst => decide (inst.seqNum ≤ keep))
            squashes := Function.update stages.squashes thread rest }
  | .removeFromHistory thread doneSeqNum =>
      if doneSeqNum ∈ stages.committed thread then do
        let next ← operate sizes stages.rename (.commit thread doneSeqNum)
        some { stages with rename := next }
      else none

/-- The history entries of a thread whose instructions have not committed. -/
def uncommitted (stages : Stages) (thread : Nat) : List RenameHistory :=
  (stages.rename.historyBuffer thread).filter fun entry =>
    decide (entry.instSeqNum ∉ stages.committed thread)

/-- The undo log of a thread with the destinations of its instructions. -/
abbrev DestChain (base : RegId → PhysRegId) :
    (RegId → PhysRegId) → List RenameHistory → List InFlight → Prop :=
  Chain RenameHistory.restore RenameHistory.instSeqNum InFlight.seqNum
    (fun inst found map => map = mapDests found inst.dests) base

/-- The entries that are younger than a number. -/
abbrev younger (history : List RenameHistory) (bound : Nat) : List RenameHistory :=
  history.filter fun entry => decide (bound < entry.instSeqNum)

/-- Younger than two numbers is younger than the larger. -/
theorem younger_younger (history : List RenameHistory) (smaller : low ≤ high) :
    younger (younger history low) high = younger history high := by
  rw [younger, younger, List.filter_filter]
  refine List.filter_congr fun entry _ => ?_
  rw [← Bool.decide_and, decide_eq_decide]
  omega

/-- The two maps of a thread belong together. -/
structure Matches
    (state : State) (map : RegId → PhysRegId) (insts : List InFlight)
    (squashes committed : List Nat) (thread : Nat) : Prop where
  chain : DestChain map (state.renameMap thread)
    (younger (state.historyBuffer thread) (committed.headD 0)) insts
  ordered : insts.Pairwise fun first second => second.seqNum < first.seqNum
  renamed : ∀ inst ∈ insts, inst.seqNum ≤ state.lastRenamed thread
  inFlight : ∀ inst ∈ insts, committed.headD 0 < inst.seqNum
  last : committed.headD 0 ≤ state.lastRenamed thread
  youngest : ∀ seq ∈ committed, seq ≤ committed.headD 0
  sorted : (state.historyBuffer thread).Pairwise fun first second =>
    second.instSeqNum ≤ first.instSeqNum
  older : ∀ entry ∈ state.historyBuffer thread,
    entry.instSeqNum ≤ committed.headD 0 → entry.instSeqNum ∈ committed
  spared : ∀ keep ∈ squashes, committed.headD 0 ≤ keep

namespace Matches

variable {state next : State} {map : RegId → PhysRegId} {insts : List InFlight}
  {squashes committed : List Nat} {thread : Nat}
variable {entry : RenameHistory} {keep : Nat}

section

variable (holds : Matches state map insts squashes committed thread)
include holds

/-- A younger entry is of an instruction in flight. -/
theorem exists_inFlight
    (member : entry ∈ state.historyBuffer thread) (young : committed.headD 0 < entry.instSeqNum) :
    ∃ inst ∈ insts, entry.instSeqNum = inst.seqNum :=
  holds.chain.exists_owner (List.mem_filter.mpr ⟨member, decide_eq_true young⟩)

theorem entry_renamed (member : entry ∈ state.historyBuffer thread) :
    entry.instSeqNum ≤ state.lastRenamed thread := by
  by_cases young : committed.headD 0 < entry.instSeqNum
  · obtain ⟨inst, listed, same⟩ := holds.exists_inFlight member young
    exact same ▸ holds.renamed inst listed
  · exact Nat.le_trans (Nat.le_of_not_lt young) holds.last

/-- The two maps do not depend on other parts of the state. -/
theorem congr
    (same : SameThread thread state next)
    (lastRenamed : next.lastRenamed thread = state.lastRenamed thread) :
    Matches next map insts squashes committed thread := by
  obtain ⟨chain, ordered, renamed, inFlight, last, youngest, sorted, older, spared⟩ := holds
  rw [← same.renameMap, ← same.historyBuffer] at chain
  rw [← same.historyBuffer] at sorted older
  rw [← lastRenamed] at renamed last
  exact ⟨chain, ordered, renamed, inFlight, last, youngest, sorted, older, spared⟩

theorem rename
    (pushes : Pushes (thread, seq) dests state next) (increasing : state.lastRenamed thread < seq)
    (lastRenamed : next.lastRenamed thread = seq) :
    Matches next map ({ seqNum := seq, dests := dests } :: insts) squashes committed thread := by
  obtain ⟨own, pushed, owned, undone⟩ := pushes.entries
  have uncommitted : committed.headD 0 < seq := Nat.lt_of_le_of_lt holds.last increasing
  constructor
  case chain =>
    have kept : own.filter (fun entry => decide (committed.headD 0 < entry.instSeqNum)) = own := by
      rw [List.filter_eq_self]
      intro entry member
      rw [owned entry member]
      exact decide_eq_true uncommitted
    rw [pushed, younger, List.filter_append, kept]
    exact holds.chain.push owned undone pushes.mapped
  case ordered =>
    refine List.pairwise_cons.mpr ⟨fun older member => ?_, holds.ordered⟩
    exact Nat.lt_of_le_of_lt (holds.renamed older member) increasing
  case renamed =>
    intro inst member
    rw [lastRenamed]
    rcases List.mem_cons.mp member with rfl | older
    · exact Nat.le_refl _
    · exact Nat.le_of_lt (Nat.lt_of_le_of_lt (holds.renamed inst older) increasing)
  case inFlight =>
    intro inst member
    rcases List.mem_cons.mp member with rfl | older
    · exact uncommitted
    · exact holds.inFlight inst older
  case last =>
    rw [lastRenamed]
    exact Nat.le_of_lt uncommitted
  case youngest => exact holds.youngest
  case sorted =>
    rw [pushed]
    refine List.pairwise_append.mpr ⟨?_, holds.sorted, fun mine first other second => ?_⟩
    · refine List.pairwise_of_forall_mem_list fun first mine second mine' => ?_
      exact Nat.le_of_eq ((owned second mine').trans (owned first mine).symm)
    · rw [owned mine first]
      exact Nat.le_of_lt (Nat.lt_of_le_of_lt (holds.entry_renamed second) increasing)
  case older =>
    intro entry member below
    rw [pushed] at member
    rcases List.mem_append.mp member with mine | other
    · rw [owned entry mine] at below
      exact absurd uncommitted (Nat.not_lt.mpr below)
    · exact holds.older entry other below
  case spared => exact holds.spared

end

theorem commitHead
    (holds : Matches state map (young ++ [head]) squashes committed thread)
    (notSquashed : ∀ keep ∈ squashes, head.seqNum ≤ keep) :
    Matches state (mapDests map head.dests) young squashes (head.seqNum :: committed)
      thread := by
  obtain ⟨mine, -, above⟩ := List.pairwise_append.mp holds.ordered
  have above : ∀ inst ∈ young, head.seqNum < inst.seqNum :=
    fun inst member => above inst member head List.mem_cons_self
  have listed : ∀ inst ∈ young, inst ∈ young ++ [head] :=
    fun inst member => List.mem_append_left _ member
  have next : committed.headD 0 < head.seqNum :=
    holds.inFlight head (List.mem_append_right _ List.mem_cons_self)
  constructor
  case chain =>
    obtain ⟨mid, later, oldest⟩ := holds.chain.split holds.ordered head.seqNum
    have keepYoung : young.filter (fun inst => decide (head.seqNum < inst.seqNum)) = young :=
      List.filter_eq_self.mpr fun inst member => decide_eq_true (above inst member)
    have dropYoung : young.filter (fun inst => decide (inst.seqNum ≤ head.seqNum)) = [] :=
      List.filter_eq_nil_iff.mpr fun inst member => by simpa using above inst member
    -- Only the head is not younger than itself, so its destinations lead to the new map.
    rw [List.filter_append, dropYoung, List.nil_append,
      List.filter_cons_of_pos (by simp), List.filter_nil] at oldest
    obtain ⟨_, _, found, _, _, _, left, _, rfl⟩ := oldest
    rw [List.filter_append, keepYoung, List.filter_cons_of_neg (by simp), List.filter_nil,
      List.append_nil] at later
    rw [List.headD_cons, ← younger_younger _ (Nat.le_of_lt next), ← left]
    exact later
  case ordered => exact mine
  case renamed => exact fun inst member => holds.renamed inst (listed inst member)
  case inFlight => exact above
  case last => exact holds.renamed head (List.mem_append_right _ List.mem_cons_self)
  case youngest =>
    intro seq member
    rcases List.mem_cons.mp member with rfl | before
    · exact Nat.le_refl _
    · exact Nat.le_trans (holds.youngest seq before) (Nat.le_of_lt next)
  case sorted => exact holds.sorted
  case older =>
    intro entry member below
    by_cases younger : committed.headD 0 < entry.instSeqNum
    · obtain ⟨inst, inFlight, same⟩ := holds.exists_inFlight member younger
      rcases List.mem_append.mp inFlight with later | isHead
      · have far := above inst later
        rw [List.headD_cons] at below
        omega
      · rw [same, List.mem_singleton.mp isHead]
        exact List.mem_cons_self
    · exact List.mem_cons_of_mem _ (holds.older entry member (Nat.le_of_not_lt younger))
  case spared => exact notSquashed

theorem signalSquash
    (holds : Matches state map insts squashes committed thread)
    (spares : ∀ seq ∈ committed, seq ≤ keep) :
    Matches state map insts (squashes ++ [keep]) committed thread := by
  obtain ⟨chain, ordered, renamed, inFlight, last, youngest, sorted, older, spared⟩ := holds
  refine ⟨chain, ordered, renamed, inFlight, last, youngest, sorted, older, fun other member => ?_⟩
  rcases List.mem_append.mp member with before | new
  · exact spared other before
  · rw [List.mem_singleton.mp new]
    cases committed with
    | nil => exact Nat.zero_le _
    | cons seq _ => exact spares seq List.mem_cons_self

/-- Entries of the history are dropped, and instructions with them. -/
theorem shrink
    (holds : Matches state map insts squashes committed thread)
    (history : next.historyBuffer thread = (state.historyBuffer thread).filter test)
    (lastRenamed : next.lastRenamed = state.lastRenamed)
    (chain : DestChain map (next.renameMap thread)
      (younger (next.historyBuffer thread) (committed.headD 0)) kept)
    (fewer : kept.Sublist insts) (subset : rest ⊆ squashes) :
    Matches next map kept rest committed thread where
  chain := chain
  ordered := holds.ordered.sublist fewer
  renamed inst member := by
    rw [lastRenamed]
    exact holds.renamed inst (fewer.mem member)
  inFlight inst member := holds.inFlight inst (fewer.mem member)
  last := by
    rw [lastRenamed]
    exact holds.last
  youngest := holds.youngest
  sorted := by
    rw [history]
    exact holds.sorted.filter _
  older entry member := by
    rw [history] at member
    exact holds.older entry (List.mem_of_mem_filter member)
  spared keep member := holds.spared keep (subset member)

/-- Rename squashes the instructions that are too young. -/
theorem squash
    (holds : Matches state map insts (keep :: rest) committed thread)
    (history : next.historyBuffer thread =
      (state.historyBuffer thread).dropWhile fun entry => decide (keep < entry.instSeqNum))
    (undone : next.renameMap thread = rollback RenameHistory.restore
      ((state.historyBuffer thread).takeWhile fun entry => decide (keep < entry.instSeqNum))
      (state.renameMap thread))
    (lastRenamed : next.lastRenamed = state.lastRenamed) :
    Matches next map (insts.filter fun inst => decide (inst.seqNum ≤ keep)) rest committed
      thread := by
  have spares : committed.headD 0 ≤ keep := holds.spared keep List.mem_cons_self
  rw [dropWhile_eq_filter_of_sorted _ holds.sorted] at history
  refine holds.shrink history lastRenamed ?_ List.filter_sublist (List.subset_cons_self _ _)
  obtain ⟨mid, later, older⟩ := holds.chain.split holds.ordered keep
  -- The undone entries are exactly those of the squashed instructions in flight.
  have undoes : rollback RenameHistory.restore
      (younger (state.historyBuffer thread) keep) (state.renameMap thread) = mid := by
    rw [← younger_younger _ spares]
    exact later.rollback_eq
  rw [takeWhile_eq_filter_of_sorted _ holds.sorted, undoes] at undone
  rw [undone, history, younger, List.filter_comm]
  exact older

/-- Rename drops the entries of committed instructions. -/
theorem removeFromHistory
    (holds : Matches state map insts squashes committed thread)
    (isCommitted : doneSeqNum ∈ committed)
    (history : next.historyBuffer thread =
      ((state.historyBuffer thread).reverse.dropWhile fun entry =>
        decide (entry.instSeqNum ≤ doneSeqNum)).reverse)
    (kept : next.renameMap = state.renameMap) (lastRenamed : next.lastRenamed = state.lastRenamed) :
    Matches next map insts squashes committed thread := by
  rw [reverse_dropWhile_eq_filter_of_sorted _ holds.sorted] at history
  refine holds.shrink history lastRenamed ?_ (List.Sublist.refl _) (List.Subset.refl _)
  rw [kept, history, younger_younger _ (holds.youngest doneSeqNum isCommitted)]
  exact holds.chain

/-- The entries of uncommitted instructions are the younger ones. -/
theorem uncommitted_eq (holds : Matches state map insts squashes committed thread) :
    (state.historyBuffer thread).filter (fun entry => decide (entry.instSeqNum ∉ committed)) =
      younger (state.historyBuffer thread) (committed.headD 0) := by
  refine List.filter_congr fun entry member => ?_
  rw [decide_eq_decide]
  constructor
  · intro uncommitted
    by_contra old
    exact uncommitted (holds.older entry member (Nat.le_of_not_lt old))
  · intro young isCommitted
    exact absurd young (Nat.not_lt.mpr (holds.youngest _ isCommitted))

end Matches

/-- The two maps of every thread belong together. -/
def AllMatch (stages : Stages) : Prop :=
  ∀ thread, Matches stages.rename (stages.commitRenameMap thread) (stages.inFlight thread)
    (stages.squashes thread) (stages.committed thread) thread

namespace AllMatch

variable {sizes : Sizes} {stages next : Stages}

theorem of_initial (constructed : initial sizes = some stages) : AllMatch stages := by
  obtain ⟨state, built, rfl⟩ := Option.map_eq_some_iff.mp constructed
  intro thread
  have empty : state.historyBuffer thread = [] := by
    rw [historyBuffer_of_initial built]
  constructor
  case chain =>
    rw [empty]
    exact ⟨rfl, rfl⟩
  case ordered => exact .nil
  case sorted =>
    rw [empty]
    exact .nil
  case last => exact Nat.zero_le _
  case older =>
    rw [empty]
    exact fun entry member => absurd member List.not_mem_nil
  all_goals exact fun _ member => absurd member List.not_mem_nil

theorem of_thread
    (holds : AllMatch stages) (thread : Nat)
    (mine : Matches next.rename (next.commitRenameMap thread) (next.inFlight thread)
      (next.squashes thread) (next.committed thread) thread)
    (others : ∀ other, other ≠ thread → SameThread other stages.rename next.rename ∧
      next.rename.lastRenamed other = stages.rename.lastRenamed other ∧
      next.commitRenameMap other = stages.commitRenameMap other ∧
      next.inFlight other = stages.inFlight other ∧
      next.squashes other = stages.squashes other ∧
      next.committed other = stages.committed other) :
    AllMatch next := by
  intro other
  by_cases same : other = thread
  · exact same ▸ mine
  · obtain ⟨sameThread, lastRenamed, map, insts, squashes, committed⟩ := others other same
    rw [map, insts, squashes, committed]
    exact (holds other).congr sameThread lastRenamed

theorem step
    (holds : AllMatch stages) (event : Event) (enabled : step sizes stages event = some next) :
    AllMatch next := by
  cases event with
  | rename thread seq regs =>
      obtain ⟨renamed, result, enabled⟩ := Option.bind_eq_some_iff.mp enabled
      obtain ⟨after, operated, enabled⟩ := Option.bind_eq_some_iff.mp enabled
      cases enabled
      obtain ⟨-, increasing, -, lastRenamed, _, _, result', -, -, -, pushes⟩ :=
        operate_rename operated
      obtain rfl := Option.some.inj (result.symm.trans result')
      refine holds.of_thread thread ?_ fun other apart => ?_
      · dsimp only
        rw [Function.update_self]
        exact (holds thread).rename pushes increasing
          ((congrFun lastRenamed thread).trans (Function.update_self ..))
      · exact ⟨pushes.others other apart,
          (congrFun lastRenamed other).trans (Function.update_of_ne apart _ _), rfl,
          Function.update_of_ne apart _ _, rfl, rfl⟩
  | dispatch thread =>
      obtain ⟨after, operated, enabled⟩ := Option.bind_eq_some_iff.mp enabled
      cases enabled
      obtain ⟨map, -, history, lastRenamed⟩ := operate_dispatch operated
      exact fun other => (holds other).congr ⟨congrFun map other, congrFun history other⟩
        (congrFun lastRenamed other)
  | commitHead thread =>
      obtain ⟨head, oldest, enabled⟩ := Option.bind_eq_some_iff.mp enabled
      rw [commitHead, Option.ite_none_right_eq_some] at enabled
      obtain ⟨notSquashed, enabled⟩ := enabled
      cases enabled
      refine holds.of_thread thread ?_ fun other apart => ?_
      · dsimp only
        rw [Function.update_self, Function.update_self, Function.update_self]
        have mine := holds thread
        rw [← List.dropLast_append_getLast? head oldest] at mine
        exact mine.commitHead notSquashed
      · exact ⟨.refl other _, rfl, Function.update_of_ne apart _ _,
          Function.update_of_ne apart _ _, rfl, Function.update_of_ne apart _ _⟩
  | signalSquash thread keep =>
      rw [Stages.step, Option.ite_none_right_eq_some] at enabled
      obtain ⟨spares, enabled⟩ := enabled
      cases enabled
      refine holds.of_thread thread ?_ fun other apart => ?_
      · dsimp only
        rw [Function.update_self]
        exact (holds thread).signalSquash spares
      · exact ⟨.refl other _, rfl, rfl, rfl, Function.update_of_ne apart _ _, rfl⟩
  | squash thread =>
      rw [Stages.step] at enabled
      cases signals : stages.squashes thread with
      | nil =>
          rw [signals] at enabled
          cases enabled
      | cons keep rest =>
          rw [signals] at enabled
          obtain ⟨after, operated, enabled⟩ := Option.bind_eq_some_iff.mp enabled
          cases enabled
          obtain ⟨history, undone, lastRenamed, others⟩ := operate_squash operated
          refine holds.of_thread thread ?_ fun other apart => ?_
          · dsimp only
            rw [Function.update_self, Function.update_self]
            have mine := holds thread
            rw [signals] at mine
            exact mine.squash history undone lastRenamed
          · exact ⟨others other apart, congrFun lastRenamed other, rfl,
              Function.update_of_ne apart _ _, Function.update_of_ne apart _ _, rfl⟩
  | removeFromHistory thread doneSeqNum =>
      rw [Stages.step, Option.ite_none_right_eq_some] at enabled
      obtain ⟨isCommitted, enabled⟩ := enabled
      obtain ⟨after, operated, enabled⟩ := Option.bind_eq_some_iff.mp enabled
      cases enabled
      obtain ⟨history, kept, lastRenamed, others⟩ := operate_commit operated
      refine holds.of_thread thread ?_ fun other apart => ?_
      · exact (holds thread).removeFromHistory isCommitted history kept lastRenamed
      · exact ⟨⟨congrFun kept other, others other apart⟩, congrFun lastRenamed other, rfl,
          rfl, rfl, rfl⟩

end AllMatch

/-- In every reachable state the commit map of a thread is its rename map with the entries of all
uncommitted instructions undone, the youngest first; with no instruction in flight the two agree.
-/
theorem commitRenameMap_eq_rollback
    {sizes : Sizes} {start stages : Stages} (constructed : initial sizes = some start)
    (reachable : Reachable (step sizes) (fun _ _ => True) start stages) (thread : Nat) :
    (∀ reg, stages.commitRenameMap thread reg = rollback RenameHistory.restore
      (stages.uncommitted thread) (stages.rename.renameMap thread) reg) ∧
    (stages.inFlight thread = [] →
      ∀ reg, stages.commitRenameMap thread reg = stages.rename.renameMap thread reg) := by
  have holds : AllMatch stages :=
    reachable.invariant (.of_initial constructed) fun _ event _ holds _ enabled =>
      holds.step event enabled
  have mine := holds thread
  refine ⟨fun reg => ?_, fun none reg => ?_⟩
  · rw [uncommitted, mine.uncommitted_eq, mine.chain.rollback_eq]
  · have chain := mine.chain
    rw [none] at chain
    rw [chain.2]

/-- One thread with the x86 integer registers up to the zero register. -/
private def oneThread : Sizes where
  numPhysicalIntRegs := 22
  numPhysicalFloatRegs := 0
  numPhysicalVecRegs := 0
  numPhysicalCCRegs := 0
  numIntRegs := 17
  numFloatRegs := 0
  numVecRegs := 0
  numCCRegs := 0
  activeThreads := 1

/-- An instruction that writes a register twice commits, and the one after it is still to
be squashed when rename reads of the commit. -/
private def lateSquash : List Event :=
  [.rename 0 1 [{ regClass := .int, regIdx := 3 }, { regClass := .int, regIdx := 3 }],
    .rename 0 2 [{ regClass := .int, regIdx := 3 }],
    .commitHead 0, .signalSquash 0 1, .rename 0 3 [zeroId], .removeFromHistory 0 1]

/-- The theorem on a run in which two squashed instructions are in flight, and on its
continuation in which none is. -/
theorem commitRenameMap_eq_rollback_lateSquash :
    ∃ (start before after : Stages), initial oneThread = some start ∧
      (before.uncommitted 0).length = 2 ∧
      (∀ reg, before.commitRenameMap 0 reg = rollback RenameHistory.restore
        (before.uncommitted 0) (before.rename.renameMap 0) reg) ∧
      ∀ reg, after.commitRenameMap 0 reg = after.rename.renameMap 0 reg := by
  have replayed : (initial oneThread).any (fun start =>
      (replay (step oneThread) (fun _ _ => True) start lateSquash).any
          (fun stages => (stages.uncommitted 0).length == 2) &&
        (replay (step oneThread) (fun _ _ => True) start (lateSquash ++ [.squash 0])).any
          (fun stages => (stages.inFlight 0).isEmpty)) = true := by decide +kernel
  obtain ⟨start, constructed, replayed⟩ := (Option.any_eq_true _ _).mp replayed
  rw [Bool.and_eq_true] at replayed
  obtain ⟨before, reachable, two⟩ := Reachable.exists_of_replay _ _ replayed.1
  obtain ⟨after, reachable', none⟩ := Reachable.exists_of_replay _ _ replayed.2
  exact ⟨start, before, after, constructed, beq_iff_eq.mp two,
    (commitRenameMap_eq_rollback constructed reachable 0).1,
    (commitRenameMap_eq_rollback constructed reachable' 0).2 (List.isEmpty_iff.mp none)⟩

end Stages
end Rename
end Dolma

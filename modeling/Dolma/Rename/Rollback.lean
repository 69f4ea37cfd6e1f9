import Dolma.Library.UndoLog
import Dolma.Rename.Producers

/-!
# The history buffer is an undo log

The history buffer of a thread is an undo log of its rename map. The entries of an
instruction are pushed when its destinations are renamed, undone when it is squashed, and
dropped from the end of the buffer once it is committed.
-/

namespace Dolma
namespace Rename

open Library

/-- Undo a mapping. -/
def RenameHistory.restore (entry : RenameHistory) (map : RegId → PhysRegId) : RegId → PhysRegId :=
  if entry.isChange then Function.update map entry.archReg entry.prevPhysReg else map

/-- Map a destination to its register. Misc registers keep their mapping. -/
def mapDest (map : RegId → PhysRegId) (dest : RegId × PhysRegId) : RegId → PhysRegId :=
  if dest.1.regClass = .misc then map else Function.update map dest.1 dest.2

/-- Map the destinations of an instruction. -/
def mapDests (map : RegId → PhysRegId) (dests : List (RegId × PhysRegId)) : RegId → PhysRegId :=
  dests.foldl mapDest map

/-- A thread has the same map and the same history buffer. -/
structure SameThread (thread : Nat) (before after : State) : Prop where
  renameMap : after.renameMap thread = before.renameMap thread
  historyBuffer : after.historyBuffer thread = before.historyBuffer thread

namespace SameThread

variable {thread : Nat} {first second third : State}

theorem refl (thread : Nat) (state : State) : SameThread thread state state := ⟨rfl, rfl⟩

theorem trans (left : SameThread thread first second) (right : SameThread thread second third) :
    SameThread thread first third :=
  ⟨right.renameMap.trans left.renameMap, right.historyBuffer.trans left.historyBuffer⟩

end SameThread

/-- What renaming destinations does to the map and the history buffer of the thread. -/
structure Pushes
    (inst : Inst) (dests : List (RegId × PhysRegId)) (before after : State) : Prop where
  entries : ∃ own, after.historyBuffer inst.1 = own ++ before.historyBuffer inst.1 ∧
    (∀ entry ∈ own, entry.instSeqNum = inst.2) ∧
    rollback RenameHistory.restore own (after.renameMap inst.1) = before.renameMap inst.1
  mapped : after.renameMap inst.1 = mapDests (before.renameMap inst.1) dests
  others : ∀ thread, thread ≠ inst.1 → SameThread thread before after

variable {regs : List RegId} {state : State}

namespace Pushes

variable {inst : Inst} {state mid next : State} {dests later : List (RegId × PhysRegId)}

theorem refl (inst : Inst) (state : State) : Pushes inst [] state state where
  entries := ⟨[], rfl, fun _ member => absurd member List.not_mem_nil, rfl⟩
  mapped := rfl
  others thread _ := .refl thread state

/-- Some destinations are renamed after others. -/
theorem trans (first : Pushes inst dests state mid) (second : Pushes inst later mid next) :
    Pushes inst (dests ++ later) state next := by
  obtain ⟨own, pushed, owned, undone⟩ := first.entries
  obtain ⟨own', pushed', owned', undone'⟩ := second.entries
  constructor
  case entries =>
    refine ⟨own' ++ own, ?_, fun entry member => ?_, ?_⟩
    · rw [pushed', pushed, List.append_assoc]
    · rcases List.mem_append.mp member with new | old
      · exact owned' entry new
      · exact owned entry old
    · rw [rollback_append, undone', undone]
  case mapped => rw [second.mapped, first.mapped, mapDests, mapDests, mapDests, List.foldl_append]
  case others =>
    exact fun thread other => (first.others thread other).trans (second.others thread other)

variable {renamed : List PhysRegId}

theorem of_renameDestReg
    (result : renameDestReg inst (state, renamed) reg = some (next, renamedNext)) :
    ∃ phys, renamedNext = renamed ++ [phys] ∧ Pushes inst [(reg, phys)] state next := by
  rcases renameDestReg_eq_some result with
    ⟨phys, special, fixed, rfl, rfl⟩ | ⟨phys, taken, notMisc, notZero, took, rfl, rfl⟩
  · refine ⟨phys, rfl, ⟨[_], by simp [pushHistory, recordProducer]; rfl, by simp, ?_⟩, ?_, ?_⟩
    · simp [rollback, RenameHistory.restore, RenameHistory.isChange, pushHistory, recordProducer]
    · rcases special with misc | rfl
      · simp [mapDests, mapDest, misc, pushHistory, recordProducer]
      · have same : phys = state.renameMap inst.1 zeroId := by
          rw [fixed, lookup, if_neg (by decide)]
        simp [mapDests, mapDest, same, pushHistory, recordProducer]
    · intro thread other
      exact ⟨rfl, by simp [pushHistory, recordProducer, other]⟩
  · obtain ⟨rest, free, rfl⟩ := takeReg_eq_some took
    refine ⟨phys, rfl, ⟨[_], by simp [pushHistory, recordProducer, setEntry]; rfl, by simp, ?_⟩,
      ?_, ?_⟩
    · simp [rollback, RenameHistory.restore, RenameHistory.isChange, pushHistory, recordProducer,
        setEntry]
    · simp [mapDests, mapDest, notMisc, pushHistory, recordProducer, setEntry]
    · intro thread other
      refine ⟨?_, ?_⟩ <;> simp [pushHistory, recordProducer, setEntry, other]

theorem of_renameDestRegs (result : renameDestRegs state inst regs = some (next, renamed)) :
    regs.length = renamed.length ∧ Pushes inst (regs.zip renamed) state next := by
  have start : ([] : List RegId).length = ([] : List PhysRegId).length ∧
      Pushes inst (([] : List RegId).zip ([] : List PhysRegId)) state state :=
    ⟨rfl, .refl inst state⟩
  refine foldlM_processed (motive := fun processed (reached : State × List PhysRegId) =>
    processed.length = reached.2.length ∧
      Pushes inst (processed.zip reached.2) state reached.1) regs start ?_ result
  intro processed reg rest reached after _ pushes renames
  obtain ⟨phys, extended, one⟩ := of_renameDestReg (show renameDestReg inst
    (reached.1, reached.2) reg = some (after.1, after.2) from renames)
  rw [extended, List.zip_append pushes.1]
  exact ⟨by simp [pushes.1], pushes.2.trans one⟩

end Pushes

/-- Other threads keep their history buffers. -/
theorem setHistory_other
    (state : State) (apart : other ≠ thread) (history : List RenameHistory) :
    (setHistory state thread history).historyBuffer other = state.historyBuffer other :=
  Function.update_of_ne apart _ _

theorem renameMap_undo (state : State) (thread : Nat) (entry : RenameHistory) :
    (undo state thread entry).renameMap =
      Function.update state.renameMap thread (entry.restore (state.renameMap thread)) := by
  unfold undo RenameHistory.restore
  split
  · rfl
  · rw [Function.update_eq_self]

/-- What a squash does to the map and the buffer. -/
theorem undoYounger_rollback
    (keep thread : Nat) (history : List RenameHistory)
    (buffer : state.historyBuffer thread = history) :
    (undoYounger keep thread history state).historyBuffer thread =
        history.dropWhile (fun entry => decide (keep < entry.instSeqNum)) ∧
      (undoYounger keep thread history state).renameMap thread =
        rollback RenameHistory.restore
          (history.takeWhile fun entry => decide (keep < entry.instSeqNum))
          (state.renameMap thread) ∧
      ∀ other, other ≠ thread → SameThread other state (undoYounger keep thread history state) := by
  induction history generalizing state with
  | nil => exact ⟨buffer, rfl, fun other _ => .refl other state⟩
  | cons entry rest ih =>
      unfold undoYounger
      by_cases young : keep < entry.instSeqNum
      · rw [if_pos young, List.dropWhile_cons_of_pos (by simpa),
          List.takeWhile_cons_of_pos (by simpa)]
        have popped : (setHistory (undo state thread entry) thread rest).historyBuffer thread =
            rest := Function.update_self ..
        obtain ⟨dropped, undone, others⟩ := ih popped
        refine ⟨dropped, ?_, fun other apart => ?_⟩
        · rw [undone, setHistory, renameMap_undo, Function.update_self]
          rfl
        · have same : SameThread other state
              (setHistory (undo state thread entry) thread rest) := by
            refine ⟨?_, ?_⟩
            · rw [setHistory, renameMap_undo, Function.update_of_ne apart]
            · rw [setHistory_other _ apart]
              unfold undo
              split
              · rfl
              · rfl
          exact same.trans (others other apart)
      · rw [if_neg young, List.dropWhile_cons_of_neg (by simpa using young),
          List.takeWhile_cons_of_neg (by simpa using young)]
        exact ⟨buffer, rfl, fun other _ => .refl other state⟩

/-- What a commit does to the map and the buffer. -/
theorem releaseOlder_drops
    (committed thread : Nat) (reversed : List RenameHistory)
    (buffer : state.historyBuffer thread = reversed.reverse) :
    (releaseOlder committed thread reversed state).historyBuffer thread =
        (reversed.dropWhile fun entry => decide (entry.instSeqNum ≤ committed)).reverse ∧
      (releaseOlder committed thread reversed state).renameMap = state.renameMap ∧
      ∀ other, other ≠ thread →
        (releaseOlder committed thread reversed state).historyBuffer other =
          state.historyBuffer other := by
  induction reversed generalizing state with
  | nil => exact ⟨buffer, rfl, fun _ _ => rfl⟩
  | cons entry rest ih =>
      unfold releaseOlder
      by_cases old : entry.instSeqNum ≤ committed
      · rw [if_pos old, List.dropWhile_cons_of_pos (by simpa)]
        have popped :
            (setHistory (release state entry) thread rest.reverse).historyBuffer thread =
              rest.reverse := Function.update_self ..
        have kept : (release state entry).renameMap = state.renameMap ∧
            (release state entry).historyBuffer = state.historyBuffer := by
          unfold release
          split
          · exact ⟨rfl, rfl⟩
          · exact ⟨rfl, rfl⟩
        obtain ⟨dropped, maps, others⟩ := ih popped
        refine ⟨dropped, maps.trans kept.1, fun other apart => ?_⟩
        rw [others other apart, setHistory_other _ apart, kept.2]
      · rw [if_neg old, List.dropWhile_cons_of_neg (by simpa using old)]
        exact ⟨buffer, rfl, fun _ _ => rfl⟩

theorem lastRenamed_undoYounger (keep thread : Nat) (history : List RenameHistory) (state : State) :
    (undoYounger keep thread history state).lastRenamed = state.lastRenamed := by
  induction history generalizing state with
  | nil => rfl
  | cons entry rest ih =>
      unfold undoYounger
      split
      · rw [ih, setHistory, undo]
        split
        · rfl
        · rfl
      · rfl

theorem lastRenamed_releaseOlder
    (committed thread : Nat) (reversed : List RenameHistory) (state : State) :
    (releaseOlder committed thread reversed state).lastRenamed = state.lastRenamed := by
  induction reversed generalizing state with
  | nil => rfl
  | cons entry rest ih =>
      unfold releaseOlder
      split
      · rw [ih, setHistory, release]
        split
        · rfl
        · rfl
      · rfl

/-! ## Operations in any order -/

/-- A step of renaming in which a commit may come at any time. For the maps and the free
lists it does not matter whether an instruction was dispatched. -/
def operate (sizes : Sizes) (state : State) : Event → Option State
  | .commit thread committed => some (removeFromHistory state committed thread)
  | event => step sizes state event

section Operate

variable {sizes : Sizes} {state next : State} {thread : Nat}

/-- What a rename does to the maps and the history buffers. -/
theorem operate_rename (enabled : operate sizes state (.rename thread seq regs) = some next) :
    thread < sizes.activeThreads ∧ state.lastRenamed thread < seq ∧
      (∀ reg ∈ regs, reg ∈ archRegs sizes ∨ reg.regClass = .misc) ∧
      next.lastRenamed = Function.update state.lastRenamed thread seq ∧
      ∃ reached renamed, renameDestRegs state (thread, seq) regs = some (reached, renamed) ∧
        next.renameMap = reached.renameMap ∧ next.freeList = reached.freeList ∧
        next.historyBuffer = reached.historyBuffer ∧
        Pushes (thread, seq) (regs.zip renamed) state next := by
  simp only [operate, step, Option.ite_none_right_eq_some] at enabled
  obtain ⟨⟨active, increasing, valid⟩, renames⟩ := enabled
  obtain ⟨⟨reached, renamed⟩, result, rfl⟩ := Option.map_eq_some_iff.mp renames
  refine ⟨active, increasing, valid, rfl, reached, renamed, result, rfl, rfl, rfl, ?_⟩
  obtain ⟨entries, mapped, others⟩ := (Pushes.of_renameDestRegs result).2
  exact ⟨entries, mapped, fun other apart =>
    ⟨(others other apart).renameMap, (others other apart).historyBuffer⟩⟩

theorem operate_dispatch (enabled : operate sizes state (.dispatch thread) = some next) :
    next.renameMap = state.renameMap ∧ next.freeList = state.freeList ∧
      next.historyBuffer = state.historyBuffer ∧ next.lastRenamed = state.lastRenamed := by
  cases queue : state.dispatchQueue thread with
  | nil =>
      simp only [operate, step, queue] at enabled
      cases enabled
  | cons waiting rest =>
      simp only [operate, step, queue, Option.some.injEq] at enabled
      obtain ⟨table, folded, -⟩ := foldl_addToProducer (thread, waiting.1) waiting.2 state
      rw [folded] at enabled
      subst enabled
      exact ⟨rfl, rfl, rfl, rfl⟩

/-- What a squash does to the maps and the history buffers. -/
theorem operate_squash (enabled : operate sizes state (.squash thread keep) = some next) :
    next.historyBuffer thread =
        (state.historyBuffer thread).dropWhile (fun entry => decide (keep < entry.instSeqNum)) ∧
      next.renameMap thread = rollback RenameHistory.restore
        ((state.historyBuffer thread).takeWhile fun entry => decide (keep < entry.instSeqNum))
        (state.renameMap thread) ∧
      next.lastRenamed = state.lastRenamed ∧
      ∀ other, other ≠ thread → SameThread other state next := by
  cases enabled
  obtain ⟨dropped, undone, others⟩ := undoYounger_rollback keep thread
    (state.historyBuffer thread) rfl
  exact ⟨dropped, undone, lastRenamed_undoYounger .., fun other apart =>
    ⟨(others other apart).renameMap, (others other apart).historyBuffer⟩⟩

/-- What a commit does to the maps and the history buffers. -/
theorem operate_commit (enabled : operate sizes state (.commit thread committed) = some next) :
    next.historyBuffer thread = ((state.historyBuffer thread).reverse.dropWhile fun entry =>
          decide (entry.instSeqNum ≤ committed)).reverse ∧
      next.renameMap = state.renameMap ∧ next.lastRenamed = state.lastRenamed ∧
      ∀ other, other ≠ thread → next.historyBuffer other = state.historyBuffer other := by
  cases enabled
  obtain ⟨dropped, maps, others⟩ := releaseOlder_drops committed thread
    (state.historyBuffer thread).reverse (List.reverse_reverse _).symm
  exact ⟨dropped, maps, lastRenamed_releaseOlder .., others⟩

end Operate

end Rename
end Dolma

import Dolma.Sched.Flags
import Mathlib.Data.List.TakeWhile

/-!
# Counters and flags together

The counters of the queue and the flags of the instructions are exact together.
Issue, write-back, stalls and squashes keep them so.
-/

namespace Dolma
namespace Sched

open Library

/-- The counters are exact and the flags of the instructions agree with them. -/
structure Occupied (params : Params) (state : State) : Prop where
  counted : EntriesCounted params state
  flags : ∀ seq, FlagsHold state seq
  unsquashed : ∀ tid, ∀ seq ∈ state.instList tid, (state.heap seq).squashedInIQ = false

/-- Two states have the same counters and lists of instructions. -/
structure SameCounters (before after : State) : Prop where
  instList : after.instList = before.instList
  freeEntries : after.freeEntries = before.freeEntries
  count : after.count = before.count
  returned : after.returned = before.returned

namespace Occupied

variable {params : Params} {state next : State} {seq : Nat}

/-- A change that keeps the entries keeps the counters exact. -/
theorem counted_of_sameEntry
    (occupied : Occupied params state) (counters : SameCounters state next)
    (heap : ∀ seq, SameEntry (state.heap seq) (next.heap seq)) :
    EntriesCounted params next :=
  occupied.counted.congr counters.freeEntries counters.count counters.returned
    (fun seq => ⟨(heap seq).inIQ, (heap seq).threadNumber, (heap seq).inserted⟩)
    counters.instList

/-- Moves between places keep everything right. -/
theorem move
    (occupied : Occupied params state) (counters : SameCounters state next)
    (heap : ∀ seq, SameEntry (state.heap seq) (next.heap seq))
    (fewer : ∀ seq, next.placeCount seq ≤ state.placeCount seq)
    (idles : ∀ seq, next.IsIdle seq → state.IsIdle seq ∨ (state.heap seq).isMemRef = true)
    (holdsBack : ∀ seq, next.IsHeldBack seq →
      state.IsHeldBack seq ∨ (state.heap seq).isMemRef = true)
    (runs : ∀ seq, next.IsRunning seq → state.IsRunning seq) :
    Occupied params next where
  counted := occupied.counted_of_sameEntry counters heap
  flags seq := (occupied.flags seq).move (heap seq) (fewer seq) (idles seq) (holdsBack seq)
    (runs seq)
  unsquashed tid seq mem := by
    rw [counters.instList] at mem
    rw [(heap seq).squashedInIQ]
    exact occupied.unsquashed tid seq mem

/-- A memory access is held back to issue again. -/
theorem holdBack
    (occupied : Occupied params state) (access : (state.heap seq).isMemRef = true)
    (live : (state.heap seq).squashed = false) (somewhere : 0 < state.placeCount seq)
    (counters : SameCounters state next)
    (own : SameEntry { state.heap seq with issued := false } (next.heap seq))
    (heap : ∀ other, other ≠ seq → next.heap other = state.heap other)
    (fewer : ∀ seq, next.placeCount seq ≤ state.placeCount seq) (back : next.IsHeldBack seq)
    (idles : ∀ other, other ≠ seq → next.IsIdle other → state.IsIdle other)
    (holdsBack : ∀ other, other ≠ seq → next.IsHeldBack other → state.IsHeldBack other)
    (runs : ∀ other, other ≠ seq → next.IsRunning other → state.IsRunning other) :
    Occupied params next where
  counted := by
    refine occupied.counted.congr counters.freeEntries counters.count counters.returned
      (fun other => ?_) counters.instList
    by_cases same : other = seq
    · subst same
      exact ⟨own.inIQ, own.threadNumber, own.inserted⟩
    · rw [heap other same]
      exact ⟨rfl, rfl, rfl⟩
  flags other := by
    by_cases same : other = seq
    · subst same
      have single := le_trans (fewer other) (occupied.flags other).single
      refine (occupied.flags other).unissue access live somewhere single ?_ own
      exact fun run => (State.apart_of_single single).2.2 ⟨back, run⟩
    · refine (occupied.flags other).move ?_ (fewer other)
        (fun idle => .inl (idles other same idle))
        (fun held => .inl (holdsBack other same held)) (runs other same)
      rw [heap other same]
      exact .refl _
  unsquashed tid other mem := by
    rw [counters.instList] at mem
    by_cases same : other = seq
    · subst same
      rw [own.squashedInIQ]
      exact occupied.unsquashed tid other mem
    · rw [heap other same]
      exact occupied.unsquashed tid other mem

theorem stall
    (occupied : Occupied params before) (access : (before.heap seq).isMemRef = true)
    (live : (before.heap seq).squashed = false) (somewhere : 0 < before.placeCount seq)
    (counters : SameCounters before state) (heap : state.heap = before.heap)
    (fewer : ∀ other, (state.stall seq).placeCount other ≤ before.placeCount other)
    (idles : ∀ other, state.IsIdle other → before.IsIdle other)
    (holdsBack : ∀ other, state.IsHeldBack other → before.IsHeldBack other)
    (runs : ∀ other, state.IsRunning other → before.IsRunning other) :
    Occupied params (state.stall seq) := by
  refine occupied.holdBack access live somewhere ?_ ?_ ?_ fewer ?_ ?_ ?_ ?_
  · exact ⟨counters.instList, counters.freeEntries, counters.count, counters.returned⟩
  · have own : (state.stall seq).heap seq =
        { before.heap seq with stalled := true, issued := false } := by
      simp [State.stall, State.dolmaStallInst, State.modify, heap]
    rw [own]
    constructor <;> first | rfl | exact id
  · intro other apart
    simp [State.stall, State.dolmaStallInst, State.modify, apart, heap]
  · exact .inl (List.mem_append_right _ List.mem_cons_self)
  · exact fun other _ => idles other
  · intro other apart back
    refine holdsBack other ?_
    unfold State.IsHeldBack at back ⊢
    simpa [State.stall, State.dolmaStallInst, State.modify, apart] using back
  · exact fun other _ => runs other

end Occupied

section Effects

variable {params : Params} {state : State} {seq : Nat}

/-- An instruction that starts runs, and nothing else moves. -/
theorem start_places
    (params : Params) (state : State) (seq : Nat) (unit : Option Nat) (other : Nat) :
    ((state.start params seq unit).IsRunning other ↔ state.IsRunning other ∨ other = seq) ∧
      ((state.start params seq unit).IsIdle other ↔ state.IsIdle other) ∧
        ((state.start params seq unit).IsHeldBack other ↔ state.IsHeldBack other) := by
  unfold State.start
  dsimp only
  split
  · refine ⟨?_, Iff.rfl, Iff.rfl⟩
    simp only [State.IsRunning, List.mem_append, List.mem_singleton]
    tauto
  · split
    · refine ⟨?_, Iff.rfl, Iff.rfl⟩
      simp only [State.IsRunning, List.mem_append, List.mem_singleton]
      tauto
    · refine ⟨?_, Iff.rfl, Iff.rfl⟩
      simp only [State.IsRunning, List.map_append, List.map_cons, List.map_nil,
        List.mem_append, List.mem_singleton]
      tauto

/-- An instruction that starts keeps its entry. -/
theorem start_counters (params : Params) (state : State) (seq : Nat) (unit : Option Nat) :
    SameCounters state (state.start params seq unit) ∧
      (state.start params seq unit).heap = state.heap := by
  unfold State.start
  dsimp only
  split
  · exact ⟨⟨rfl, rfl, rfl, rfl⟩, rfl⟩
  · split <;> exact ⟨⟨rfl, rfl, rfl, rfl⟩, rfl⟩

theorem issue_heap (unit : Option Nat) (other : Nat) :
    (state.issue params seq unit).heap other =
      if other = seq then
        { state.heap seq with
          issued := true, inIQ := (state.heap seq).isMemRef && (state.heap seq).inIQ }
      else state.heap other := by
  have heap := (start_counters params state seq unit).2
  unfold State.issue
  dsimp only
  by_cases same : other = seq
  · subst same
    cases access : (state.heap other).isMemRef <;>
      simp [State.giveBack, State.modify, State.popReady, heap, access]
  · cases access : (state.heap seq).isMemRef <;>
      simp [State.giveBack, State.modify, State.popReady, heap, same]

/-- Issue makes an instruction run, and leaves the places of the others. -/
theorem issue_places
    (params : Params) (state : State) (seq : Nat) (unit : Option Nat) (other : Nat) :
    ((state.issue params seq unit).IsRunning other ↔
        state.IsRunning other ∨ other = seq) ∧
      ((state.issue params seq unit).IsIdle other → state.IsIdle other) ∧
        ((state.issue params seq unit).IsHeldBack other → state.IsHeldBack other) := by
  obtain ⟨runs, idles, holds⟩ := start_places params state seq unit other
  have popped : ((state.start params seq unit).popReady seq).IsIdle other →
      (state.start params seq unit).IsIdle other := by
    rintro (waits | ready)
    · exact .inl waits
    · exact .inr (List.mem_of_mem_erase ready)
  unfold State.issue
  dsimp only
  split
  · exact ⟨runs, fun idle => idles.mp (popped idle), holds.mp⟩
  · exact ⟨runs, fun idle => idles.mp (popped idle), holds.mp⟩

end Effects

namespace Occupied

variable {params : Params} {state next : State} {seq : Nat}

/-- An instruction that is not squashed issues. -/
theorem issue
    (occupied : Occupied params state) (unit : Option Nat) (ready : seq ∈ state.readyInsts)
    (unsquashed : (state.heap seq).squashedInIQ = false) :
    Occupied params (state.issue params seq unit) := by
  have idle : state.IsIdle seq := .inr ready
  have somewhere := State.placeCount_pos (.inl idle)
  have flags := occupied.flags seq
  have known := flags.inserted_of_somewhere somewhere
  obtain ⟨counters, heap⟩ := start_counters params state seq unit
  have started : EntriesCounted params
      (((state.start params seq unit).popReady seq).modify seq fun inst =>
        { inst with issued := true }) := by
    refine occupied.counted.congr counters.freeEntries counters.count counters.returned
      (fun other => ?_) counters.instList
    simp only [State.modify, State.popReady, heap]
    split <;> exact ⟨rfl, rfl, rfl⟩
  constructor
  case counted =>
    unfold State.issue
    dsimp only
    split
    case isTrue => exact started
    case isFalse other =>
      rw [Bool.not_eq_true] at other
      refine started.giveBack ?_
      have unissued : (state.heap seq).issued = false := by
        rcases flags.idle other idle with unissued | squashed
        · exact unissued
        · rw [unsquashed] at squashed
          cases squashed
      simp [State.modify, State.popReady, heap, flags.other known other, unissued]
  case flags =>
    intro other
    obtain ⟨runs, idles, holds⟩ := issue_places params state seq unit other
    have places : (state.issue params seq unit).placeCount other = state.placeCount other :=
      placeCount_issue unit ready
    unfold FlagsHold
    by_cases same : other = seq
    · subst same
      have single : (state.issue params other unit).placeCount other ≤ 1 := by
        rw [places]
        exact flags.single
      have apart := State.apart_of_single single
      refine flags.issue somewhere unsquashed single ⟨?_, ?_⟩ ?_
      · exact fun idle => apart.2.1 ⟨idle, runs.mpr (.inr rfl)⟩
      · exact fun held => apart.2.2 ⟨held, runs.mpr (.inr rfl)⟩
      · rw [issue_heap, if_pos rfl]
        exact .refl _
    · rw [issue_heap, if_neg same]
      refine (occupied.flags other).move (.refl _) places.le (fun idle => .inl (idles idle))
        (fun held => .inl (holds held)) fun run => ?_
      exact (runs.mp run).resolve_right same
  case unsquashed =>
    intro tid other mem
    have lists : (state.issue params seq unit).instList = state.instList := by
      unfold State.issue
      dsimp only
      split <;> exact counters.instList
    rw [lists] at mem
    rw [issue_heap]
    split
    case isTrue same =>
      subst same
      exact occupied.unsquashed tid other mem
    case isFalse => exact occupied.unsquashed tid other mem

theorem writeback (occupied : Occupied params state) (mem : seq ∈ state.writebacks) :
    Occupied params (state.writeback seq) := by
  have runs : state.IsRunning seq := .inr (.inr mem)
  have somewhere := State.placeCount_pos (.inr (.inr runs))
  have flags := occupied.flags seq
  have known := flags.inserted_of_somewhere somewhere
  have written := placeCount_writeback mem
  have fewer : ∀ other, (state.writeback seq).placeCount other ≤ state.placeCount other :=
    fun other => by have := written other; omega
  have popped : ∀ other,
      { state with writebacks := state.writebacks.erase seq }.IsRunning other →
        state.IsRunning other := by
    rintro other (executes | completes | writes)
    · exact .inl executes
    · exact .inr (.inl completes)
    · exact .inr (.inr (List.mem_of_mem_erase writes))
  generalize reached : state.writeback seq = next at fewer written
  unfold State.writeback at reached
  dsimp only at reached
  split at reached
  case isTrue =>
    subst reached
    exact occupied.move ⟨rfl, rfl, rfl, rfl⟩ (fun _ => .refl _) fewer (fun _ => .inl)
      (fun _ => .inl) popped
  case isFalse live =>
    rw [Bool.not_eq_true] at live
    have undone := flags.memOpDone_eq_false somewhere
    have heap : ∀ other, next.heap other =
        if other = seq then
          { state.heap seq with
            completed := true, inIQ := false, memOpDone := (state.heap seq).isMemRef }
        else state.heap other := by
      intro other
      rw [← reached]
      by_cases same : other = seq
      · subst same
        cases access : (state.heap other).isMemRef
        case true => simp [State.giveBack, State.modify, access]
        case false =>
          have idle : (state.heap other).inIQ = false := by
            rw [flags.other known access, flags.running runs]
            rfl
          simp [State.modify, access, idle, undone]
      · cases access : (state.heap seq).isMemRef <;>
          simp [State.giveBack, State.modify, same]
    constructor
    case counted =>
      rw [← reached]
      have woken : EntriesCounted params
          { { state with writebacks := state.writebacks.erase seq }.modify seq
              (fun inst => { inst with completed := true }) with
            failed := state.failed || (state.heap seq).isDolmaStalled } := by
        refine occupied.counted.congr rfl rfl rfl (fun other => ?_) rfl
        simp only [State.modify]
        split <;> exact ⟨rfl, rfl, rfl⟩
      split
      case isFalse => exact woken
      case isTrue access =>
        have holder := flags.access_holds access live somewhere
        refine EntriesCounted.congr (woken.giveBack ?_) rfl rfl rfl (fun other => ?_) rfl
        · simp [State.modify, holder]
        simp only [State.modify]
        split <;> exact ⟨rfl, rfl, rfl⟩
    case flags =>
      intro other
      have groups : (next.IsIdle other → state.IsIdle other) ∧
          (next.IsHeldBack other → state.IsHeldBack other) ∧
            (next.IsRunning other → state.IsRunning other) := by
        rw [← reached]
        split <;> exact ⟨id, id, popped other⟩
      unfold FlagsHold
      rw [heap]
      by_cases same : other = seq
      · subst same
        have single := flags.single
        have gone := written other
        rw [if_pos rfl] at gone
        have nowhere : next.placeCount other = 0 := by omega
        have apart := State.apart_of_single single
        rw [if_pos rfl]
        refine flags.writeback runs somewhere nowhere ⟨?_, ?_⟩ (.refl _)
        · exact fun idle => apart.2.1 ⟨groups.1 idle, runs⟩
        · exact fun held => apart.2.2 ⟨groups.2.1 held, runs⟩
      · rw [if_neg same]
        exact (occupied.flags other).move (.refl _) (fewer other)
          (fun idle => .inl (groups.1 idle)) (fun held => .inl (groups.2.1 held))
          groups.2.2
    case unsquashed =>
      intro tid other listed
      have lists : next.instList = state.instList := by
        rw [← reached]
        split <;> rfl
      rw [lists] at listed
      rw [heap]
      split
      case isTrue same =>
        subst same
        exact occupied.unsquashed tid other listed
      case isFalse => exact occupied.unsquashed tid other listed

end Occupied

section Walk

variable {params : Params} {state : State}

/-- An instruction that the queue squashes. -/
def squashedVersion (inst : Inst) : Inst :=
  if inst.inIQ = true then
    { inst with squashedInIQ := true, squashed := true, issued := true, inIQ := false }
  else inst

/-- The queue squashes an instruction of a thread in order. -/
structure Squashable (tid : Nat) (inst : Inst) : Prop where
  thread : inst.threadNumber = tid
  unsquashed : inst.squashedInIQ = false
  test : (!inst.issued || (inst.isMemRef && !inst.memOpDone)) = inst.inIQ

/-- What a walk of the queue does. -/
structure Walked (params : Params) (doomed : List Nat) (before after : State) : Prop where
  heap : ∀ seq, after.heap seq =
    if seq ∈ doomed then squashedVersion (before.heap seq) else before.heap seq
  instList : after.instList = before.instList
  counted : EntriesCounted params after
  places : ∀ seq, after.placeCount seq = before.placeCount seq ∧
    (after.IsIdle seq ↔ before.IsIdle seq) ∧
      (after.IsHeldBack seq ↔ before.IsHeldBack seq) ∧ (after.IsRunning seq ↔ before.IsRunning seq)

theorem squashInst_walked
    (counted : EntriesCounted params state) (squashable : Squashable tid (state.heap seq)) :
    Walked params [seq] state (state.squashInst seq) := by
  unfold State.squashInst
  dsimp only
  rw [squashable.test]
  cases holder : (state.heap seq).inIQ
  case false =>
    refine ⟨fun other => ?_, rfl, counted, fun _ => ⟨rfl, Iff.rfl, Iff.rfl, Iff.rfl⟩⟩
    by_cases same : other = seq
    · subst same
      simp [squashedVersion, holder]
    · simp [same]
  case true =>
    have marked : EntriesCounted params (state.modify seq fun inst =>
        { inst with squashedInIQ := true, squashed := true, issued := true }) := by
      refine counted.congr rfl rfl rfl (fun other => ?_) rfl
      simp only [State.modify]
      split <;> exact ⟨rfl, rfl, rfl⟩
    refine ⟨fun other => ?_, rfl, marked.giveBack (by simp [State.modify, holder]),
      fun _ => ⟨rfl, Iff.rfl, Iff.rfl, Iff.rfl⟩⟩
    by_cases same : other = seq
    · subst same
      simp [State.giveBack, State.modify, squashedVersion, holder]
    · simp [State.giveBack, State.modify, same]

/-- A walk squashes the instructions that are too young, and leaves the others in
the list. -/
theorem squashWalk_walked
    (tid limit : Nat) (list : List Nat) (distinct : list.Nodup)
    (counted : EntriesCounted params state)
    (squashable : ∀ seq ∈ list, Squashable tid (state.heap seq)) :
    Walked params (list.takeWhile fun seq => !decide (seq ≤ limit)) state
        (State.squashWalk tid limit state list).1 ∧
      (State.squashWalk tid limit state list).2 =
        list.dropWhile fun seq => !decide (seq ≤ limit) := by
  induction list generalizing state with
  | nil =>
      exact ⟨⟨fun _ => rfl, rfl, counted, fun _ => ⟨rfl, Iff.rfl, Iff.rfl, Iff.rfl⟩⟩, rfl⟩
  | cons seq older ih =>
      obtain ⟨new, distinct⟩ := List.nodup_cons.mp distinct
      have own := squashable seq List.mem_cons_self
      unfold State.squashWalk
      by_cases old : seq ≤ limit
      · rw [if_pos old, List.takeWhile_cons_of_neg (by simpa using old),
          List.dropWhile_cons_of_neg (by simpa using old)]
        exact ⟨⟨fun _ => rfl, rfl, counted, fun _ => ⟨rfl, Iff.rfl, Iff.rfl, Iff.rfl⟩⟩, rfl⟩
      · have first := squashInst_walked counted own
        have later : ∀ other ∈ older, Squashable tid ((state.squashInst seq).heap other) := by
          intro other mem
          have apart : other ∉ [seq] := by
            rw [List.mem_singleton]
            rintro rfl
            exact new mem
          rw [first.heap, if_neg apart]
          exact squashable other (List.mem_cons_of_mem _ mem)
        obtain ⟨rest, left⟩ := ih distinct first.counted later
        have skips : ¬ ((state.heap seq).threadNumber ≠ tid ∨
            (state.heap seq).squashedInIQ = true) := by
          simp [own.thread, own.unsquashed]
        rw [if_neg old, if_neg skips, List.takeWhile_cons_of_pos (by simpa using old),
          List.dropWhile_cons_of_pos (by simpa using old)]
        refine ⟨⟨fun other => ?_, rest.instList.trans first.instList, rest.counted,
          fun other => ?_⟩, left⟩
        · rw [rest.heap, first.heap]
          by_cases same : other = seq
          · subst same
            have unique : other ∉ older.takeWhile fun seq => !decide (seq ≤ limit) :=
              fun mem => new ((List.takeWhile_sublist _).subset mem)
            simp [unique]
          · simp [same]
        · obtain ⟨places, idles, holds, runs⟩ := first.places other
          obtain ⟨places', idles', holds', runs'⟩ := rest.places other
          exact ⟨places'.trans places, idles'.trans idles, holds'.trans holds, runs'.trans runs⟩

/-- What a squash of a thread does: after a walk over the young instructions, those that access
memory are marked, and the old ones stay in the list. -/
structure Squashes
    (params : Params) (state after next : State) (tid : Nat) (young old : List Nat) : Prop where
  walked : Walked params young state after
  split : young ++ old = (state.instList tid).reverse
  instList : ∀ other, next.instList other =
    if other = tid then old.reverse else state.instList other
  counters : next.freeEntries = after.freeEntries ∧ next.count = after.count ∧
    next.returned = after.returned
  heap : ∀ seq, SameEntry (after.heap seq) (next.heap seq)
  places : ∀ seq, next.placeCount seq ≤ state.placeCount seq
  groups : ∀ seq, (next.IsIdle seq → after.IsIdle seq) ∧
    (next.IsHeldBack seq → after.IsHeldBack seq) ∧ (next.IsRunning seq → after.IsRunning seq)

theorem sameEntry_squash (state : State) (tid limit seq : Nat) :
    SameEntry ((state.doSquash tid limit).heap seq) ((state.squash tid limit).heap seq) := by
  unfold State.squash
  generalize state.doSquash tid limit = squashed
  dsimp only
  split
  · exact { SameEntry.refl _ with squashed := fun _ => rfl }
  · exact .refl _

theorem Occupied.exists_squashes (occupied : Occupied params state) (tid limit : Nat) :
    ∃ after young old, Squashes params state after (state.squash tid limit) tid young old := by
  have squashable : ∀ seq ∈ (state.instList tid).reverse, Squashable tid (state.heap seq) := by
    intro seq mem
    have listed := List.mem_reverse.mp mem
    obtain ⟨thread, known⟩ := occupied.counted.listed tid seq listed
    have unsquashed := occupied.unsquashed tid seq listed
    exact ⟨thread, unsquashed, (occupied.flags seq).squash_test known unsquashed⟩
  obtain ⟨walked, left⟩ := squashWalk_walked tid limit (state.instList tid).reverse
    (List.nodup_reverse.mpr (occupied.counted.distinct tid)) occupied.counted squashable
  refine ⟨_, _, _, walked, List.takeWhile_append_dropWhile, fun other => ?_, ⟨rfl, rfl, rfl⟩,
    fun seq => ?_, placeCount_squash state tid limit,
    fun seq => ⟨fun idle => idle.imp List.mem_of_mem_filter id, id, id⟩⟩
  · simp only [State.squash, State.doSquash, left, walked.instList]
  · exact sameEntry_squash state tid limit seq

end Walk

namespace Squashes

variable {params : Params} {state after next : State} {tid : Nat} {young old : List Nat}
  (squashes : Squashes params state after next tid young old) (occupied : Occupied params state)
include squashes

theorem mem_instList (young : seq ∈ young) : seq ∈ state.instList tid := by
  rw [← List.mem_reverse, ← squashes.split]
  exact List.mem_append_left _ young

theorem counted : EntriesCounted params next := by
  obtain ⟨freeEntries, count, returned⟩ := squashes.counters
  refine squashes.walked.counted.leave freeEntries count returned
    (fun seq =>
      ⟨(squashes.heap seq).inIQ, (squashes.heap seq).threadNumber, (squashes.heap seq).inserted⟩)
    (fun other => if other = tid then young else []) (fun other => ?_) fun other seq mem => ?_
  · rw [squashes.walked.instList, squashes.instList]
    split
    case isTrue same =>
      subst same
      have perm : (old.reverse ++ young).Perm (young ++ old) :=
        List.perm_append_comm.trans ((List.reverse_perm old).append_left young)
      rw [squashes.split] at perm
      exact (List.reverse_perm _).symm.trans perm.symm
    case isFalse => rw [List.append_nil]
  · split at mem
    case isTrue =>
      rw [squashes.walked.heap, if_pos mem]
      unfold squashedVersion
      split
      case isTrue => rfl
      case isFalse idle => exact Bool.eq_false_iff.mpr idle
    case isFalse => cases mem

include occupied

theorem flags (seq : Nat) : FlagsHold next seq := by
  obtain ⟨-, idleIff, heldIff, runIff⟩ := squashes.walked.places seq
  obtain ⟨idles, holds, runs⟩ := squashes.groups seq
  have own := squashes.heap seq
  rw [squashes.walked.heap] at own
  by_cases mem : seq ∈ young
  · have known := (occupied.counted.listed tid seq (squashes.mem_instList mem)).2
    rw [if_pos mem] at own
    exact (occupied.flags seq).squash known (squashes.places seq)
      (fun idle => idleIff.mp (idles idle)) (fun held => heldIff.mp (holds held))
      (fun run => runIff.mp (runs run)) own
  · rw [if_neg mem] at own
    exact (occupied.flags seq).move own (squashes.places seq)
      (fun idle => .inl (idleIff.mp (idles idle))) (fun held => .inl (heldIff.mp (holds held)))
      fun run => runIff.mp (runs run)

/-- The instructions that stay in a list are not walked over. -/
theorem spared (mem : seq ∈ next.instList other) : seq ∉ young ∧ seq ∈ state.instList other := by
  rw [squashes.instList] at mem
  split at mem
  case isTrue same =>
    subst same
    have stays := List.mem_reverse.mp mem
    have unique := List.nodup_reverse.mpr (occupied.counted.distinct other)
    rw [← squashes.split] at unique
    refine ⟨fun doomed => (List.nodup_append.mp unique).2.2 seq doomed seq stays rfl, ?_⟩
    rw [← List.mem_reverse, ← squashes.split]
    exact List.mem_append_right _ stays
  case isFalse apart =>
    refine ⟨fun doomed => apart ?_, mem⟩
    rw [← (occupied.counted.listed other seq mem).1]
    exact (occupied.counted.listed tid seq (squashes.mem_instList doomed)).1

theorem unsquashed (mem : seq ∈ next.instList other) : (next.heap seq).squashedInIQ = false := by
  obtain ⟨notDoomed, listed⟩ := squashes.spared occupied mem
  rw [(squashes.heap seq).squashedInIQ, squashes.walked.heap, if_neg notDoomed]
  exact occupied.unsquashed other seq listed

end Squashes

/-- A squash gives back the entries of the instructions that it takes out of the
queue. -/
theorem Occupied.squash {params : Params} (occupied : Occupied params state) (tid limit : Nat) :
    Occupied params (state.squash tid limit) := by
  obtain ⟨after, young, old, squashes⟩ := occupied.exists_squashes tid limit
  exact ⟨squashes.counted, squashes.flags occupied,
    fun _ _ mem => squashes.unsquashed occupied mem⟩

end Sched
end Dolma

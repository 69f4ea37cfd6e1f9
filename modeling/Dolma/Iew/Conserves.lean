import Dolma.Iew.Priority
import Dolma.Library.Distinct
import Dolma.Library.TransitionSystem
import Mathlib.Data.List.ProdSigma

/-!
# The write-back queue conserves instructions

A queue whose cycles are filled from their first slot on stays so when finished
instructions are queued. However often the instruction in hand is exchanged with one that
is queued already, the queue holds one instruction more at the end, which is the new one.
-/

namespace Dolma
namespace Writeback

open Library

variable {params : Params}

/-- The slots of the first cycles. -/
def places (params : Params) (depth : Nat) : List (Nat × Nat) :=
  List.range depth ×ˢ List.range params.wbWidth

/-- The instructions in the slots of the first cycles. -/
def held (params : Params) (depth : Nat) (insts : Nat → Nat → Option Inst) : List Inst :=
  (places params depth).flatMap fun place => (insts place.1 place.2).toList

/-- The instructions in the queue. -/
def contents (params : Params) (queue : Queue) : List Inst :=
  held params queue.depth queue.insts

/-- Every cycle is filled without gaps and at most at the write-back width, and its size is
the number of its filled slots. -/
structure Filled (params : Params) (queue : Queue) : Prop where
  width : ∀ cycle, queue.size cycle ≤ params.wbWidth
  slots : ∀ cycle slot, (queue.insts cycle slot).isSome = true ↔ slot < queue.size cycle

theorem places_nodup (params : Params) (depth : Nat) : (places params depth).Nodup :=
  List.nodup_range.product List.nodup_range

theorem mem_places {depth cycle slot : Nat} :
    (cycle, slot) ∈ places params depth ↔ cycle < depth ∧ slot < params.wbWidth :=
  List.pair_mem_product.trans (and_congr List.mem_range List.mem_range)

variable {depth : Nat}

theorem held_deeper (queue : Queue) (deeper : queue.depth ≤ depth) :
    held params depth queue.insts = contents params queue := by
  obtain ⟨more, rfl⟩ := Nat.exists_eq_add_of_le deeper
  induction more with
  | zero => rfl
  | succ more ih =>
      have empty : ∀ slot ∈ List.range params.wbWidth,
          (queue.insts (queue.depth + more) slot).toList = [] := by
        intro slot _
        rw [queue.beyond _ (Nat.le_add_right _ _)]
        rfl
      rw [← ih (Nat.le_add_right _ _), held, held, places, places, ← Nat.add_assoc, List.range_succ]
      simp only [SProd.sprod, List.product, List.flatMap_append, List.flatMap_cons,
        List.flatMap_nil, List.append_nil, List.flatMap_map]
      rw [List.flatMap_eq_nil_iff.mpr empty, List.append_nil]

theorem held_setSlot
    (insts : Nat → Nat → Option Inst) (inst : Inst) (there : (cycle, slot) ∈ places params depth) :
    ((insts cycle slot).toList ++ held params depth (setSlot insts cycle slot inst)).Perm
      (inst :: held params depth insts) := by
  refine List.perm_iff_count.mpr fun other => ?_
  have written := count_flatMap_add (places_nodup params depth) there
    (fun place => (insts place.1 place.2).toList)
    (fun place => (setSlot insts cycle slot inst place.1 place.2).toList)
    (fun place apart => by
      rw [setSlot, if_neg fun same => apart (Prod.ext same.1 same.2)]) other
  have new : setSlot insts cycle slot inst cycle slot = some inst := if_pos ⟨rfl, rfl⟩
  dsimp only at written
  rw [new] at written
  rw [List.count_append, ← List.singleton_append, List.count_append]
  rw [Option.toList_some] at written
  unfold held
  omega

/-- What the search keeps of the queue that it started from. -/
structure Carries (params : Params) (start search : Search) : Prop where
  depth : search.queue.depth = start.queue.depth
  size : search.queue.size = start.queue.size
  taken : ∀ cycle slot, (search.queue.insts cycle slot).isSome =
    (start.queue.insts cycle slot).isSome
  exchanged : (search.instToInsert :: contents params search.queue).Perm
    (start.instToInsert :: contents params start.queue)
  reached : search.wbNumInst ≤ start.queue.size search.wbCycle
  inside : search.wbNumInst < params.wbWidth

namespace Carries

variable {start search : Search}

section

variable (carries : Carries params start search)
include carries

theorem filled (filled : Filled params start.queue) : Filled params search.queue := by
  refine ⟨fun cycle => ?_, fun cycle slot => ?_⟩
  · rw [carries.size]
    exact filled.width cycle
  · rw [carries.taken, carries.size]
    exact filled.slots cycle slot

/-- Taking the slot of a contender is an exchange. -/
theorem resolve (filled : Filled params start.queue) : Carries params start search.resolve := by
  unfold Search.resolve
  split
  case h_2 => exact carries
  case h_1 idx _ _ =>
    cases there : search.queue.insts (search.wbCycle - 1) idx with
    | none => exact carries
    | some contender =>
        have isTaken : (search.queue.insts (search.wbCycle - 1) idx).isSome = true := by
          rw [there]
          rfl
        have early : search.wbCycle - 1 < search.queue.depth := by
          by_contra late
          rw [search.queue.beyond _ (Nat.le_of_not_lt late)] at there
          cases there
        have listed : (search.wbCycle - 1, idx) ∈ places params search.queue.depth := by
          have now := carries.filled filled
          exact mem_places.mpr ⟨early, Nat.lt_of_lt_of_le ((now.slots _ _).mp isTaken)
            (now.width _)⟩
        have sameDepth : max search.queue.depth (search.wbCycle - 1 + 1) =
            search.queue.depth := Nat.max_eq_left early
        refine ⟨sameDepth.trans carries.depth, carries.size, fun cycle slot => ?_, ?_,
          carries.reached, carries.inside⟩
        · rw [← carries.taken]
          by_cases same : cycle = search.wbCycle - 1 ∧ slot = idx
          · obtain ⟨rfl, rfl⟩ := same
            rw [isTaken]
            exact congrArg Option.isSome (if_pos ⟨rfl, rfl⟩)
          · exact congrArg Option.isSome (if_neg same)
        · have replaced := held_setSlot search.queue.insts search.instToInsert listed
          rw [there] at replaced
          refine List.Perm.trans ?_ (replaced.trans carries.exchanged)
          unfold contents Queue.put
          dsimp only
          rw [sameDepth]
          exact .refl _

theorem pass (filled : Filled params start.queue) (found : search.occupant = some occupant) :
    Carries params start (search.pass params occupant) := by
  have here : search.wbNumInst < start.queue.size search.wbCycle := by
    rw [← filled.slots, ← carries.taken]
    exact Option.isSome_iff_exists.mpr ⟨occupant, found⟩
  obtain ⟨sameCycle, sameSlot⟩ := search.resolve_position
  obtain ⟨depth, size, taken, exchanged, -, -⟩ := carries.resolve filled
  have inside := carries.inside
  unfold Search.pass Search.advance
  dsimp only
  split
  · exact ⟨depth, size, taken, exchanged, Nat.zero_le _, params.positive⟩
  · refine ⟨depth, size, taken, exchanged, ?_, ?_⟩
    · dsimp only
      rw [sameCycle, sameSlot]
      exact here
    · dsimp only
      omega

theorem run (filled : Filled params start.queue) (bound : Nat) :
    Carries params start (search.run params bound) := by
  induction bound generalizing search with
  | zero => exact carries
  | succ bound ih =>
      unfold Search.run
      split
      case h_1 => exact carries
      case h_2 occupant found => exact ih (carries.pass filled found)

/-- The search ends at a free slot if it may pass all slots of the queue. -/
theorem run_free
    (filled : Filled params start.queue) (bound : Nat)
    (enough : start.queue.depth * params.wbWidth ≤
      bound + (search.wbCycle * params.wbWidth + search.wbNumInst)) :
    (search.run params bound).occupant = none := by
  induction bound generalizing search with
  | zero =>
      refine search.queue.beyond _ ?_ _
      rw [carries.depth]
      -- The slots of the cycles before the last one do not reach the end of the queue.
      by_contra early
      have rows : (search.wbCycle + 1) * params.wbWidth ≤
          start.queue.depth * params.wbWidth :=
        Nat.mul_le_mul_right _ (Nat.lt_of_not_le early)
      have inside := carries.inside
      rw [Nat.add_mul, Nat.one_mul] at rows
      omega
  | succ bound ih =>
      unfold Search.run
      split
      case h_1 found => exact found
      case h_2 occupant found =>
        refine ih (carries.pass filled found) ?_
        obtain ⟨sameCycle, sameSlot⟩ := search.resolve_position
        unfold Search.pass Search.advance
        dsimp only
        split
        case isTrue last =>
          dsimp only at last ⊢
          rw [sameCycle, Nat.add_mul, Nat.one_mul]
          rw [sameSlot] at last
          omega
        case isFalse =>
          dsimp only
          rw [sameCycle, sameSlot]
          omega

end

end Carries

/-- Queueing an instruction adds it and keeps the cycles filled. -/
theorem Filled.instToCommit
    {state : State params} (filled : Filled params state.queue)
    (reached : state.wbNumInst ≤ state.queue.size state.wbCycle) (inst : Inst) :
    (contents params (instToCommit state inst).queue).Perm
        (inst :: contents params state.queue) ∧
      Filled params (instToCommit state inst).queue ∧
      (instToCommit state inst).wbNumInst ≤
        (instToCommit state inst).queue.size (instToCommit state inst).wbCycle := by
  let start : Search :=
    { queue := state.queue, wbCycle := state.wbCycle, wbNumInst := state.wbNumInst
      instToInsert := inst }
  have begins : Carries params start start :=
    ⟨rfl, rfl, fun _ _ => rfl, .refl _, reached, state.inside⟩
  have carries := begins.run filled ((state.queue.depth + 1) * params.wbWidth)
  have free := begins.run_free filled ((state.queue.depth + 1) * params.wbWidth)
    (Nat.le_trans (Nat.mul_le_mul_right _ (Nat.le_succ _)) (Nat.le_add_right _ _))
  have now := carries.filled filled
  unfold Writeback.instToCommit
  dsimp only
  change Filled params start.queue at filled
  generalize start.run params ((state.queue.depth + 1) * params.wbWidth) = found at *
  -- The slot before which all are taken and that is free is the first free one.
  have slot : found.wbNumInst = found.queue.size found.wbCycle := by
    have notBelow : ¬ found.wbNumInst < found.queue.size found.wbCycle := by
      rw [← now.slots]
      exact Option.not_isSome_iff_eq_none.mpr free
    have below := carries.reached
    rw [← carries.size] at below
    omega
  refine ⟨?_, ⟨fun cycle => ?_, fun cycle other => ?_⟩, ?_⟩
  · have listed : (found.wbCycle, found.wbNumInst) ∈
        places params (max found.queue.depth (found.wbCycle + 1)) :=
      mem_places.mpr ⟨by omega, carries.inside⟩
    have written := held_setSlot found.queue.insts found.instToInsert listed
    rw [show found.queue.insts found.wbCycle found.wbNumInst = none from free,
      held_deeper found.queue (Nat.le_max_left _ _)] at written
    exact written.trans carries.exchanged
  · have inside := carries.inside
    have width := now.width cycle
    simp only [Queue.add]
    split
    case isTrue same =>
      rw [same]
      omega
    case isFalse => exact width
  · have slots := now.slots cycle other
    simp only [Queue.add, Queue.put, setSlot]
    by_cases same : cycle = found.wbCycle
    · rw [if_pos same]
      by_cases written : other = found.wbNumInst
      · rw [if_pos ⟨same, written⟩, written, slot, same]
        simp
      · rw [if_neg fun both => written both.2, slots]
        rw [same]
        omega
    · rw [if_neg same, if_neg fun both => same both.1]
      exact slots
  · simp only [Queue.add, if_true]
    omega

/-! ## One cycle of the stage -/

/-- What moves the position of the search in one cycle of the stage. -/
inductive Event where
  | instToCommit (inst : Inst)
  | startExecute
  | endExecute

/-- The step function. -/
def step {params : Params} (state : State params) : Event → Option (State params)
  | .instToCommit inst => some (instToCommit state inst)
  | .startExecute => some { state with wbCycle := 0, wbNumInst := 0, inside := params.positive }
  | .endExecute => some { state with wbNumInst := 0, inside := params.positive }

/-- The instructions queued so far. -/
def noteQueued {params : Params} (_ : State params) (event : Event) (queued : List Inst) :
    List Inst :=
  match event with
  | .instToCommit inst => inst :: queued
  | _ => queued

/-- The state at the beginning of a cycle of the stage. -/
def State.start (params : Params) (queue : Queue) : State params where
  queue := queue
  wbCycle := 0
  wbNumInst := 0
  inside := params.positive

/-- The cycles are filled in every state. -/
theorem filled_reached
    (filled : Filled params queue)
    (reachable : Reachable (withHistory step noteQueued) (fun _ _ => True)
      (State.start params queue, []) reached) :
    (contents params reached.1.queue).Perm (reached.2 ++ contents params queue) ∧
      Filled params reached.1.queue ∧
      reached.1.wbNumInst ≤ reached.1.queue.size reached.1.wbCycle := by
  induction reachable with
  | init => exact ⟨.refl _, filled, Nat.zero_le _⟩
  | step event _ _ enabled ih =>
      obtain ⟨enabled, noted⟩ := withHistory_eq_some.mp enabled
      obtain ⟨conserved, filled, slot⟩ := ih
      rw [← noted]
      cases event with
      | instToCommit inst =>
          rw [← Option.some.inj enabled]
          obtain ⟨added, filled, slot⟩ := filled.instToCommit slot inst
          exact ⟨added.trans (conserved.cons inst), filled, slot⟩
      | startExecute =>
          rw [← Option.some.inj enabled]
          exact ⟨conserved, filled, Nat.zero_le _⟩
      | endExecute =>
          rw [← Option.some.inj enabled]
          exact ⟨conserved, filled, Nat.zero_le _⟩

/-- In a cycle that starts with a filled queue, the queue holds what it held before and what was
queued since, and stays filled; the next insertion adds exactly its instruction. -/
theorem instToCommit_conserves
    {queue : Queue} (filled : Filled params queue) {state : State params} {queued : List Inst}
    (reachable : Reachable (withHistory step noteQueued) (fun _ _ => True)
      (State.start params queue, []) (state, queued)) :
    (contents params state.queue).Perm (queued ++ contents params queue) ∧
      Filled params state.queue ∧
      ∀ inst, (contents params (instToCommit state inst).queue).Perm
          (inst :: contents params state.queue) ∧
        Filled params (instToCommit state inst).queue := by
  obtain ⟨conserved, stays, slot⟩ := filled_reached filled reachable
  refine ⟨conserved, stays, fun inst => ?_⟩
  obtain ⟨added, filled, -⟩ := stays.instToCommit slot inst
  exact ⟨added, filled⟩

/-- A queue given by its cycles is filled if none is too large. -/
theorem Filled.ofRows (narrow : ∀ row ∈ rows, row.length ≤ params.wbWidth) :
    Filled params (.ofRows rows) := by
  refine ⟨fun cycle => ?_, fun cycle slot => ?_⟩
  · simp only [Queue.ofRows]
    cases there : rows[cycle]? with
    | none => exact Nat.zero_le _
    | some row => exact narrow row (List.mem_of_getElem? there)
  · simp only [Queue.ofRows]
    cases there : rows[cycle]? with
    | none => simp
    | some row => simp

/-- The theorem on a queue in which the new instruction takes the slot of a restricted one,
which goes on to the next cycle. -/
theorem instToCommit_conserves_exchange :
    ∃ (queue : Queue) (state : State pairs) (queued : List Inst),
      Filled pairs queue ∧ (contents pairs state.queue).Perm (queued ++ contents pairs queue) ∧
      Filled pairs state.queue ∧ queued = [{ seqNum := 1 }] ∧
      state.queue.insts 0 0 = some { seqNum := 1 } ∧
      state.queue.insts 1 1 = some { seqNum := 9, isDolmaRestricted := true } := by
  have filled : Filled pairs (.ofRows
      [[{ seqNum := 9, isDolmaRestricted := true }, { seqNum := 2 }], [{ seqNum := 3 }]]) :=
    .ofRows (by decide)
  have reachable : Reachable (withHistory step noteQueued) (fun _ _ => True)
      (State.start pairs (.ofRows [[{ seqNum := 9, isDolmaRestricted := true }, { seqNum := 2 }],
        [{ seqNum := 3 }]]), [])
      (instToCommit (State.start pairs (.ofRows
        [[{ seqNum := 9, isDolmaRestricted := true }, { seqNum := 2 }], [{ seqNum := 3 }]]))
        { seqNum := 1 }, [{ seqNum := 1 }]) :=
    .step (.instToCommit { seqNum := 1 }) .init trivial rfl
  obtain ⟨conserved, stays, -⟩ := instToCommit_conserves filled reachable
  exact ⟨_, _, _, filled, conserved, stays, rfl, by decide, by decide⟩

end Writeback
end Dolma

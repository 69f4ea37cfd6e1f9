import Dolma.Core.StaticInst

/-!
# The write-back queue

Finished instructions are queued for the first write-back cycle with a free slot.
The search keeps its position between calls. When it leaves a full cycle, the new
instruction may take the slot of a younger restricted instruction there, which then
goes on in its place.
-/

namespace Dolma
namespace Writeback

/-- What the queue reads of an instruction. -/
structure Inst where
  seqNum : Nat
  threadNumber : Nat := 0
  isDolmaRestricted : Bool := false
deriving DecidableEq, Repr

/-- The parameters of the stage. -/
structure Params where
  config : Config
  wbWidth : Nat
  positive : 0 < wbWidth

/-- The queue from the current cycle on. -/
structure Queue where
  insts : Nat → Nat → Option Inst
  size : Nat → Nat
  depth : Nat
  beyond : ∀ cycle, depth ≤ cycle → ∀ slot, insts cycle slot = none

/-- Write one slot. -/
def setSlot (insts : Nat → Nat → Option Inst) (cycle slot : Nat) (inst : Inst) :
    Nat → Nat → Option Inst :=
  fun c s => if c = cycle ∧ s = slot then some inst else insts c s

/-- Write one slot of the queue. -/
def Queue.put (queue : Queue) (cycle slot : Nat) (inst : Inst) : Queue where
  insts := setSlot queue.insts cycle slot inst
  size := queue.size
  depth := max queue.depth (cycle + 1)
  beyond := by
    intro later above other
    have apart : ¬ (later = cycle ∧ other = slot) := by omega
    unfold setSlot
    rw [if_neg apart]
    exact queue.beyond later (by omega) other

/-- Write one slot of the queue that was free. -/
def Queue.add (queue : Queue) (cycle slot : Nat) (inst : Inst) : Queue :=
  { queue.put cycle slot inst with
    size := fun other => if other = cycle then queue.size other + 1 else queue.size other }

/-- A younger restricted instruction of the same thread. -/
def Inst.isUnsafeContender (contender inst : Inst) : Bool :=
  contender.threadNumber == inst.threadNumber && contender.isDolmaRestricted &&
    decide (inst.seqNum < contender.seqNum)

/-- The variables of the search for a slot. -/
structure Search where
  queue : Queue
  wbCycle : Nat
  wbNumInst : Nat
  instToInsert : Inst
  /-- The instruction takes the slot of a contender in the cycle before. -/
  unsafeContention : Bool := false
  unsafeContenderIdx : Option Nat := none

namespace Search

variable (params : Params) (search : Search)

/-- The instruction in the slot that the search has reached. -/
def occupant : Option Inst :=
  search.queue.insts search.wbCycle search.wbNumInst

/-- Take the slot of the contender in the cycle before. -/
def resolve : Search :=
  match search.unsafeContention, search.unsafeContenderIdx with
  | true, some idx =>
      match search.queue.insts (search.wbCycle - 1) idx with
      | some contender =>
          { search with
            queue := search.queue.put (search.wbCycle - 1) idx search.instToInsert
            instToInsert := contender
            unsafeContention := false }
      | none => search
  | _, _ => search

/-- Remember the slot that the search has reached if its instruction is a
contender. -/
def contenderIdx (occupant : Inst) : Option Nat :=
  if !params.config.isSTT && occupant.isUnsafeContender search.instToInsert then
    some search.wbNumInst
  else search.unsafeContenderIdx

/-- Leave the slot that the search has reached. -/
def advance : Search :=
  if search.wbNumInst + 1 = params.wbWidth then
    { search with
      wbCycle := search.wbCycle + 1
      wbNumInst := 0
      unsafeContention := search.unsafeContention || search.unsafeContenderIdx.isSome }
  else { search with wbNumInst := search.wbNumInst + 1 }

/-- Pass a slot that is taken. -/
def pass (occupant : Inst) : Search :=
  let resolved := search.resolve
  { resolved with
    unsafeContenderIdx := resolved.contenderIdx params occupant }.advance params

/-- Search for a free slot, which is there within a bound. -/
def run : Nat → Search → Search
  | 0, search => search
  | bound + 1, search =>
      match search.occupant with
      | none => search
      | some occupant => run bound (search.pass params occupant)

end Search

/-- The queue with the position of the search. -/
structure State (params : Params) where
  queue : Queue
  wbCycle : Nat
  wbNumInst : Nat
  inside : wbNumInst < params.wbWidth

theorem Search.resolve_position (search : Search) :
    search.resolve.wbCycle = search.wbCycle ∧ search.resolve.wbNumInst = search.wbNumInst := by
  unfold Search.resolve
  split
  · split <;> exact ⟨rfl, rfl⟩
  · exact ⟨rfl, rfl⟩

theorem Search.run_inside
    (params : Params) (bound : Nat) (search : Search) (inside : search.wbNumInst < params.wbWidth) :
    (run params bound search).wbNumInst < params.wbWidth := by
  induction bound generalizing search with
  | zero => exact inside
  | succ bound ih =>
      unfold run
      split
      · exact inside
      · refine ih _ ?_
        have position := search.resolve_position
        unfold Search.pass Search.advance
        dsimp only
        split
        · exact params.positive
        · dsimp only
          omega

/-- Queue a finished instruction. -/
def instToCommit {params : Params} (state : State params) (inst : Inst) : State params :=
  let start : Search :=
    { queue := state.queue, wbCycle := state.wbCycle, wbNumInst := state.wbNumInst
      instToInsert := inst }
  let found := start.run params ((state.queue.depth + 1) * params.wbWidth)
  { queue := found.queue.add found.wbCycle found.wbNumInst found.instToInsert
    wbCycle := found.wbCycle
    wbNumInst := found.wbNumInst
    inside := start.run_inside params _ state.inside }

end Writeback
end Dolma

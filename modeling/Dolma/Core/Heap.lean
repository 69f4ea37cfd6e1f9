import Dolma.Core.DynInst
import Mathlib.Logic.Function.Basic

/-!
# The heap of dynamic instructions

Sequence numbers stand for the instruction pointers of the source, so the
dynamic instructions form a map from sequence numbers. All stages change an
instruction through `Heap.modify`.
-/

namespace Dolma

/-- The dynamic instructions by sequence number. -/
abbrev Heap := Nat → DynInst

namespace Heap

/-- Change one instruction in place. -/
def modify (heap : Heap) (seq : Nat) (change : DynInst → DynInst) : Heap :=
  fun other => if other = seq then change (heap other) else heap other

@[simp] theorem modify_self (heap : Heap) (seq : Nat) (change : DynInst → DynInst) :
    heap.modify seq change seq = change (heap seq) := by
  simp [modify]

@[simp] theorem modify_of_ne (heap : Heap) (distinct : other ≠ seq) (change : DynInst → DynInst) :
    heap.modify seq change other = heap other := by
  simp [modify, distinct]

/-- Change every instruction that satisfies a test. -/
def modifyWhere (heap : Heap) (test : Nat → Bool) (change : DynInst → DynInst) : Heap :=
  fun seq => if test seq then change (heap seq) else heap seq

end Heap

end Dolma

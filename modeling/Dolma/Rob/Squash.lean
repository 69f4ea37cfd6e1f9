import Dolma.Rob.SafePass

/-!
# Squash walks and retirement

A squash cycle marks instructions as squashed and touches nothing else.
Retirement removes the head, after a safe-status update if the head was a data
inducer.
-/

namespace Dolma
namespace Rob

@[simp] theorem isSquashed_squashMark (inst : DynInst) : (squashMark inst).isSquashed = true := by
  simp [squashMark, DynInst.setSquashed, DynInst.isSquashed]

@[simp] theorem isLive_squashMark (inst : DynInst) (flag : Status) :
    (squashMark inst).isLive flag = false := by
  simp [DynInst.isLive]

theorem squashMark_agrees (inst : DynInst) :
    DynInst.Agrees [.squashed, .canCommit] inst (squashMark inst) := by
  have squashed :
      DynInst.Agrees [.squashed, .canCommit] inst
        (inst.setStatus .squashed true) :=
    DynInst.agrees_setStatus (by simp) _ _
  have dropped :
      DynInst.Agrees [.squashed, .canCommit] inst inst.setSquashed :=
    { squashed with }
  exact dropped.trans (DynInst.agrees_setStatus (by simp) _ _)

theorem squashMark_squashMark (inst : DynInst) :
    squashMark (squashMark inst) = squashMark inst := by
  have status : (squashMark (squashMark inst)).status = (squashMark inst).status := by
    funext flag
    simp only [squashMark, DynInst.setSquashed, DynInst.setStatus_status]
    split <;> simp_all
  simp only [squashMark, DynInst.setSquashed, DynInst.setStatus] at status ⊢
  rw [status]

/-- A squash cycle marks instructions of its list that are younger than the kept
one, and no others. -/
theorem squashLoop_heap
    (walk : SquashWalk) (heap : Heap) (width : Nat) (list : List Nat) (seq : Nat) :
    (squashLoop walk heap width list).2 seq = heap seq ∨
      seq ∈ list ∧ walk.squashedSeqNum < seq ∧
        (squashLoop walk heap width list).2 seq = squashMark (heap seq) := by
  induction list generalizing heap width with
  | nil => simp [squashLoop]
  | cons head older ih =>
      unfold squashLoop
      split
      · exact Or.inl rfl
      · rename_i younger
        cases width with
        | zero => exact Or.inl rfl
        | succ width =>
            have rest := ih (heap.modify head squashMark) width
            by_cases same : seq = head
            · subst same
              right
              refine ⟨by simp, by omega, ?_⟩
              rcases rest with unchanged | ⟨_, _, marked⟩
              · simpa using unchanged
              · simpa [squashMark_squashMark] using marked
            · rcases rest with unchanged | ⟨member, bound, marked⟩
              · left
                simpa [same] using unchanged
              · right
                refine ⟨List.mem_cons_of_mem _ member, bound, ?_⟩
                simpa [same] using marked

/-- A squash cycle leaves an instruction alone or marks it. -/
theorem doSquash_heap (config : Config) (walk : SquashWalk) (heap : Heap) (seq : Nat) :
    (doSquash config walk heap).2 seq = heap seq ∨
      seq ∈ walk.squashIt ∧ walk.squashedSeqNum < seq ∧
        (doSquash config walk heap).2 seq = squashMark (heap seq) :=
  squashLoop_heap walk heap config.squashWidth walk.squashIt seq

/-- The start of a squash leaves an instruction alone, or marks it if it is
younger than the kept one. -/
theorem squash_heap
    (config : Config) (instList : List Nat) (keep : Nat) (walk : SquashWalk) (heap : Heap)
    (seq : Nat) :
    (squash config instList keep walk heap).2 seq = heap seq ∨
      seq ∈ instList ∧ keep < seq ∧
        (squash config instList keep walk heap).2 seq = squashMark (heap seq) := by
  unfold squash
  split
  · exact Or.inl rfl
  · have loop := doSquash_heap config
      { squashedSeqNum := keep, squashIt := instList.reverse, doneSquashing := false } heap seq
    simpa using loop

/-- A squash cycle keeps the bound, and an instruction younger than the kept one is marked or
still to be walked over. -/
theorem squashLoop_marks
    (walk : SquashWalk) (heap : Heap) (width : Nat) (list : List Nat)
    (descending : list.Pairwise (· > ·)) :
    (squashLoop walk heap width list).1.squashedSeqNum = walk.squashedSeqNum ∧
      (squashLoop walk heap width list).1.squashIt.Sublist list ∧
      ∀ seq ∈ list, walk.squashedSeqNum < seq →
        (squashLoop walk heap width list).2 seq = squashMark (heap seq) ∨
          ((squashLoop walk heap width list).1.doneSquashing =
              walk.doneSquashing ∧
            seq ∈ (squashLoop walk heap width list).1.squashIt) := by
  induction list generalizing heap width with
  | nil => simp [squashLoop]
  | cons head older ih =>
      obtain ⟨oldest, descending⟩ := List.pairwise_cons.mp descending
      unfold squashLoop
      split
      · refine ⟨rfl, List.nil_sublist _, ?_⟩
        intro seq member younger
        rcases List.mem_cons.mp member with rfl | member
        · omega
        · have := oldest seq member
          omega
      · cases width with
        | zero =>
            exact ⟨rfl, List.Sublist.refl _, fun seq member _ => Or.inr ⟨rfl, member⟩⟩
        | succ width =>
            obtain ⟨bound, sublist, walked⟩ :=
              ih (heap.modify head squashMark) width descending
            refine ⟨bound, sublist.trans (List.sublist_cons_self _ _), ?_⟩
            intro seq member younger
            rcases List.mem_cons.mp member with rfl | member
            · left
              rcases squashLoop_heap walk (heap.modify seq squashMark) width older seq with
                unchanged | ⟨-, -, marked⟩
              · simpa using unchanged
              · simpa [squashMark_squashMark] using marked
            · have apart : seq ≠ head := Nat.ne_of_lt (oldest seq member)
              simpa [apart] using walked seq member younger

/-- A squash cycle is done, or as many instructions fewer are left as it may mark. -/
theorem squashLoop_length (walk : SquashWalk) (heap : Heap) (width : Nat) (list : List Nat) :
    (squashLoop walk heap width list).1.doneSquashing = true ∨
      (squashLoop walk heap width list).1.squashIt.length + width = list.length := by
  induction list generalizing heap width with
  | nil => simp [squashLoop]
  | cons head older ih =>
      unfold squashLoop
      split
      · exact .inl rfl
      · cases width with
        | zero => exact .inr rfl
        | succ width =>
            refine (ih (heap.modify head squashMark) width).imp id ?_
            intro length
            rw [List.length_cons, ← length]
            rfl

/-- Retirement takes the head off the buffer. -/
theorem retireHead_eq_some (retired : retireHead config instList heap = some (rest, after)) :
    ∃ head resolved, instList = head :: rest ∧
      (heap head).readyToCommit = true ∧
      ((heap head).isDataInducer = true →
        config.isDolmaConservative = true ∧
          resolved = updateSafeStatus config instList
            (heap.modify head (·.setStatus .dataInducer false))) ∧
      ((heap head).isDataInducer = false → resolved = heap) ∧
      (resolved head).clearInROBAsserts = true ∧
      after = resolved.modify head fun inst =>
        (inst.setStatus .robEntry false).setStatus .committed true := by
  cases instList with
  | nil => simp [retireHead] at retired
  | cons head tail =>
      cases inducer : (heap head).isDataInducer with
      | false =>
          simp only [retireHead, inducer, Bool.not_false, Bool.true_or,
            Bool.and_true, if_neg Bool.false_ne_true] at retired
          split at retired
          · rename_i conditions
            rw [Bool.and_eq_true] at conditions
            simp only [Option.some.injEq, Prod.mk.injEq] at retired
            refine ⟨head, heap, by rw [retired.1], conditions.1, ?_,
              fun _ => rfl, conditions.2, retired.2.symm⟩
            intro contradiction
            rw [inducer] at contradiction
            cases contradiction
          · cases retired
      | true =>
          simp only [retireHead, inducer, Bool.not_true, Bool.false_or, if_true] at retired
          split at retired
          · rename_i conditions
            rw [Bool.and_eq_true, Bool.and_eq_true] at conditions
            simp only [Option.some.injEq, Prod.mk.injEq] at retired
            refine ⟨head, _, by rw [retired.1], conditions.1.1,
              fun _ => ⟨conditions.1.2, rfl⟩, ?_, conditions.2,
              retired.2.symm⟩
            intro contradiction
            rw [inducer] at contradiction
            cases contradiction
          · cases retired

end Rob
end Dolma

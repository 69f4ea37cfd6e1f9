import Dolma.Commit.Defs

/-!
# Held-back redirects against immediate ones

A redirect that the execute stage signals and one that commit recomputes later
from the instruction carry the same fields for a memory-order violator, as far as
the direction left in the signal and the reorder buffer allow. For a mispredicted
branch they never do: the signal restarts past the branch, the held-back redirect
at the branch itself.
-/

namespace Dolma
namespace Commit

open Iew

/-- What makes an instruction redirect the pipeline. -/
inductive Cause where
  | branch
  | memOrder (conflicting : Nat)
deriving DecidableEq

/-- The detection of a cause in the execute stage. -/
def detect
    (config : Config) (heap : Heap) (toCommit : IewMsg) (seq : Nat) : Cause → Heap × IewMsg
  | .branch => squashDueToBranch heap toCommit seq
  | .memOrder conflicting =>
      squashDueToMemOrder config heap toCommit conflicting seq

/-- The detection is not dropped for an older squash of the same cycle. -/
def registers (toCommit : IewMsg) (seq : Nat) : Cause → Bool
  | .branch => !toCommit.squash || decide (seq < toCommit.squashedSeqNum)
  | .memOrder _ => !toCommit.squash || decide (seq ≤ toCommit.squashedSeqNum)

/-- The instruction holds back a redirect for the cause. -/
def heldBack (inst : DynInst) : Cause → Bool
  | .branch => inst.isPendingBranch
  | .memOrder _ => inst.isPendingMemOrder

/-- What a held-back redirect is recomputed from stays as it was at detection. -/
structure KeepsRedirect (detected later : DynInst) : Prop where
  staticInst : later.staticInst = detected.staticInst
  pc : later.pc = detected.pc
  branchTaken : later.branchTaken = detected.branchTaken

/-- Moving past an instruction changes the program counter. -/
theorem advancePC_ne (inst : StaticInst) (state : PCState) : inst.advancePC state ≠ state := by
  have nextPC : state.npc + 8 ≠ state.npc := by
    bv_omega
  have nextMicroPC : state.nupc + 1 ≠ state.nupc := by
    bv_omega
  unfold StaticInst.advancePC
  split
  · split
    · exact fun same => nextPC (congrArg PCState.npc same)
    · exact fun same => nextMicroPC (congrArg PCState.nupc same)
  · exact fun same => nextPC (congrArg PCState.npc same)

variable {toCommit : IewMsg} {seq : Nat}

theorem signalRedirect_branch
    (registered : registers toCommit seq .branch = true) (instList : List Nat) (heap : Heap) :
    signalRedirect instList heap (squashDueToBranch heap toCommit seq).2 =
      { doneSeqNum := seq
        pc := (heap seq).staticInst.advancePC (heap seq).pc
        mispredictInst := some seq
        branchTaken := (heap seq).pc.branching || (heap seq).staticInst.isUncondCtrl
        squashInst := Rob.findInst instList seq } := by
  have registered : (!toCommit.squash ||
      decide (seq < toCommit.squashedSeqNum)) = true := registered
  simp [squashDueToBranch, registered, signalRedirect, sentTaken]

theorem signalRedirect_memOrder
    (config : Config) (registered : registers toCommit seq (.memOrder conflicting) = true)
    (instList : List Nat) (heap : Heap) :
    signalRedirect instList heap
        (squashDueToMemOrder config heap toCommit conflicting seq).2 =
      { doneSeqNum := seq - 1
        pc := (heap seq).pc
        mispredictInst := none
        branchTaken := toCommit.branchTaken
        squashInst := Rob.findInst instList (seq - 1) } := by
  have registered : (!toCommit.squash ||
      decide (seq ≤ toCommit.squashedSeqNum)) = true := registered
  simp [squashDueToMemOrder, registered, signalRedirect, sentTaken]

/-- Flagging a violation keeps program counters and directions. -/
theorem flagViolation_keeps (config : Config) (heap : Heap) (conflicting violator seq : Nat) :
    KeepsRedirect (heap seq) (flagViolation config heap conflicting violator seq) := by
  have pending : ∀ inst : DynInst, KeepsRedirect inst inst.setPendingMemOrder :=
    fun _ => ⟨rfl, rfl, rfl⟩
  have pendingBy : ∀ (inst store : DynInst) (storeSeq : Nat),
      KeepsRedirect inst (inst.setPendingMemOrderBy storeSeq store) := by
    intro inst store storeSeq
    unfold DynInst.setPendingMemOrderBy
    split <;> exact ⟨rfl, rfl, rfl⟩
  unfold flagViolation
  split
  · by_cases isStore : seq = conflicting
    · subst isStore
      by_cases isLoad : seq = violator
      · subst isLoad
        simpa using (⟨rfl, rfl, rfl⟩ : KeepsRedirect (heap seq)
          { (heap seq).setPendingMemOrder with violator := some seq })
      · simpa [isLoad] using (⟨rfl, rfl, rfl⟩ : KeepsRedirect (heap seq)
          { heap seq with violator := some violator })
    · by_cases isLoad : seq = violator
      · subst isLoad
        simpa [isStore] using pending (heap seq)
      · simpa [isStore, isLoad] using (⟨rfl, rfl, rfl⟩ : KeepsRedirect (heap seq) (heap seq))
  · split
    · by_cases isLoad : seq = violator
      · subst isLoad
        simpa using pendingBy (heap seq) (heap conflicting) conflicting
      · simpa [isLoad] using (⟨rfl, rfl, rfl⟩ : KeepsRedirect (heap seq) (heap seq))
    · exact ⟨rfl, rfl, rfl⟩

theorem findInst_eq (instList : List Nat) (seq : Nat) :
    Rob.findInst instList seq = if seq ∈ instList then some seq else none := by
  unfold Rob.findInst
  induction instList with
  | nil => rfl
  | cons head rest ih =>
      by_cases same : head = seq
      · simp [same]
      · simp [same, Ne.symm same, ih]

/-- Two searches agree if both or none can succeed. -/
theorem findInst_eq_iff (left right : List Nat) (seq : Nat) :
    Rob.findInst left seq = Rob.findInst right seq ↔ (seq ∈ left ↔ seq ∈ right) := by
  rw [findInst_eq, findInst_eq]
  by_cases inLeft : seq ∈ left <;> by_cases inRight : seq ∈ right <;>
    simp [inLeft, inRight]

/-- A held-back redirect carries what the signal would have carried for the unrestricted
instruction, if and only if the instruction is no branch and holds back no branch redirect, an
overridden squash has left the recorded direction in the signal, and the predecessor has not left
the reorder buffer. -/
theorem pendingRedirect_eq_signalRedirect_iff
    (config : Config) (cause : Cause) {toCommit : IewMsg} {seq : Nat}
    (registered : registers toCommit seq cause = true) {heap unrestricted later : Heap}
    (samePC : (unrestricted seq).pc = (heap seq).pc)
    (keeps : KeepsRedirect ((detect config heap toCommit seq cause).1 seq)
      (later seq))
    (held : heldBack (later seq) cause = true) (robAtSignal robLater : List Nat) :
    pendingRedirect robLater later seq =
        signalRedirect robAtSignal unrestricted
          (detect config unrestricted toCommit seq cause).2 ↔
      cause ≠ .branch ∧ (later seq).isPendingBranch = false ∧
        (heap seq).branchTaken = toCommit.branchTaken ∧
          (seq - 1 ∈ robLater ↔ seq - 1 ∈ robAtSignal) := by
  cases cause with
  | branch =>
      -- The recomputed redirect restarts at the branch, the signal past it.
      have samePC : (later seq).pc = (unrestricted seq).pc := by
        rw [keeps.pc, samePC]
        simp only [detect, squashDueToBranch]
        split <;> simp [DynInst.setPendingBranch, apply_ite (fun h : Heap => (h seq).pc)]
      refine iff_of_false ?_ (by simp)
      intro same
      rw [detect, signalRedirect_branch registered] at same
      have restart := congrArg Redirect.pc same
      refine advancePC_ne (unrestricted seq).staticInst (unrestricted seq).pc ?_
      exact restart.symm.trans samePC
  | memOrder conflicting =>
      have detected : KeepsRedirect (heap seq)
          ((squashDueToMemOrder config heap toCommit conflicting seq).1 seq) := by
        unfold squashDueToMemOrder
        split
        · exact flagViolation_keeps config heap conflicting seq seq
        · exact ⟨rfl, rfl, rfl⟩
      have pc : (later seq).pc = (unrestricted seq).pc := by
        rw [keeps.pc, samePC]
        exact detected.pc
      have taken : (later seq).branchTaken = (heap seq).branchTaken := by
        rw [keeps.branchTaken]
        exact detected.branchTaken
      have pending : (later seq).isPendingMemOrder = true := held
      rw [detect, signalRedirect_memOrder config registered]
      simp only [pendingRedirect, pending, if_true, Redirect.mk.injEq, pc, true_and,
        findInst_eq_iff]
      cases branch : (later seq).isPendingBranch with
      | false => simp [sentTaken, taken]
      | true => simp

/-- A control-restricted mispredicted branch at address sixteen, jumping to
forty-eight, and a control-restricted load behind it. -/
private def restrictedHeap : Heap
  | 2 => DynInst.setStatus
      (DynInst.setStatus
        { staticInst := { isControl := true, isCondCtrl := true }
          pc := ⟨16, 48, 0, 1, 8⟩, predPC := ⟨24, 32, 0, 1, 0⟩ }
        .controlInducer true) .controlRestricted true
  | 3 => DynInst.setStatus
      { staticInst := { isLoad := true }, pc := ⟨24, 32, 0, 1, 8⟩ }
      .controlRestricted true
  | _ => {}

/-- The same instructions without a restriction. -/
private def unrestrictedHeap : Heap := fun seq =>
  (restrictedHeap seq).setStatus .controlRestricted false

/-- The equivalence on the load, whose redirect is recomputed as signalled. -/
theorem pendingRedirect_eq_signalRedirect_load :
    pendingRedirect [2, 3]
        (detect { mode := 1 } restrictedHeap {} 3 (.memOrder 1)).1 3 =
      signalRedirect [1, 2, 3] unrestrictedHeap
        (detect { mode := 1 } unrestrictedHeap {} 3 (.memOrder 1)).2 :=
  (pendingRedirect_eq_signalRedirect_iff { mode := 1 } (.memOrder 1)
    (by decide) (by decide) ⟨rfl, rfl, rfl⟩ (by decide) [1, 2, 3] [2, 3]).mpr
      (by decide)

/-- The held-back redirect of a mispredicted branch restarts at the branch itself; that of a load
loses the direction that an overridden squash left in the signal. -/
theorem pendingRedirect_ne_signalRedirect :
    ((restrictedHeap 2).mispredicted = true ∧
      heldBack ((detect { mode := 1 } restrictedHeap {} 2 .branch).1 2) .branch = true ∧
      (pendingRedirect [2, 3]
        (detect { mode := 1 } restrictedHeap {} 2 .branch).1 2).pc = ⟨16, 48, 0, 1, 8⟩ ∧
      (signalRedirect [2, 3] unrestrictedHeap
        (detect { mode := 1 } unrestrictedHeap {} 2 .branch).2).pc = ⟨48, 56, 0, 1, 0⟩) ∧
    heldBack ((detect { mode := 1 } restrictedHeap
        { squash := true, squashedSeqNum := 4, branchTaken := true } 3
        (.memOrder 1)).1 3) (.memOrder 1) = true ∧
      (pendingRedirect [2, 3] (detect { mode := 1 } restrictedHeap
        { squash := true, squashedSeqNum := 4, branchTaken := true } 3
        (.memOrder 1)).1 3).branchTaken = false ∧
      (signalRedirect [2, 3] unrestrictedHeap (detect { mode := 1 }
        unrestrictedHeap
        { squash := true, squashedSeqNum := 4, branchTaken := true } 3
        (.memOrder 1)).2).branchTaken = true := by
  decide

end Commit
end Dolma

import Dolma.Library.ListFold
import Dolma.Rob.Defs

/-!
# What the safe-status pass does

The pass changes seven status flags and the record of memory-order collisions.
Its effect on an instruction is described by the instructions before it in the
reorder buffer as they were when the pass began, and by the data inducers that
remain when it is over.
-/

namespace Dolma
namespace Rob

/-- The status flags the safe-status pass may change. -/
def safeFlags : List Status :=
  [.controlRestricted, .dataRestricted, .pendingMetadata, .dolmaStalled,
    .pendingMemOrder, .canCommit, .dataInducer]

section Instruction

variable (config : Config) (scan : SafeScan) (inst : DynInst)

theorem clearRestrictions_agrees :
    DynInst.Agrees [.controlRestricted, .dataRestricted] inst
      (clearRestrictions scan inst) := by
  unfold clearRestrictions
  dsimp only
  exact ((DynInst.Agrees.refl _ _).ite_setStatus (by simp) _).ite_setStatus (by simp) _

/-- Control restriction survives below an open branch. -/
theorem isControlRestricted_clearRestrictions :
    (clearRestrictions scan inst).isControlRestricted =
      (inst.isControlRestricted && scan.foundUnresolvedBranch) := by
  unfold clearRestrictions
  dsimp only
  split
  · split <;> simp_all [DynInst.isControlRestricted]
  · split <;> simp_all [DynInst.isControlRestricted]

/-- Data restriction survives with its inducer. -/
theorem isDataRestricted_clearRestrictions :
    (clearRestrictions scan inst).isDataRestricted =
      (inst.isDataRestricted && scan.ydis.contains inst.ydi) := by
  unfold clearRestrictions
  dsimp only
  split
  · split <;> simp_all [DynInst.isDataRestricted]
  · split <;> simp_all [DynInst.isDataRestricted]

theorem violatorSeqNum_clearRestrictions :
    (clearRestrictions scan inst).violatorSeqNum = inst.violatorSeqNum := by
  unfold clearRestrictions
  dsimp only
  split <;> split <;> rfl

theorem wakeReleased_agrees :
    DynInst.Agrees [.pendingMetadata, .dolmaStalled] inst
      (wakeReleased config inst) := by
  unfold wakeReleased
  dsimp only
  exact ((DynInst.Agrees.refl _ _).ite_setStatus (by simp) _).ite_setStatus (by simp) _

theorem isDolmaStalled_wakeReleased : (wakeReleased config inst).isDolmaStalled = false := by
  unfold wakeReleased
  dsimp only
  split <;> split <;> simp_all [DynInst.isDolmaStalled]

theorem violatorSeqNum_wakeReleased :
    (wakeReleased config inst).violatorSeqNum = inst.violatorSeqNum := by
  unfold wakeReleased
  dsimp only
  split <;> split <;> rfl

/-- Releasing an instruction touches its restriction, metadata and stall flags
only. -/
theorem releaseInst_agrees :
    DynInst.Agrees
      [.controlRestricted, .dataRestricted, .pendingMetadata, .dolmaStalled]
      inst (releaseInst config scan inst) := by
  have cleared :
      DynInst.Agrees
        [.controlRestricted, .dataRestricted, .pendingMetadata, .dolmaStalled]
        inst (clearRestrictions scan inst) :=
    (clearRestrictions_agrees scan inst).mono (by simp)
  unfold releaseInst
  dsimp only
  split
  · split
    · exact cleared
    · exact cleared.trans ((wakeReleased_agrees config _).mono (by simp))
  · exact DynInst.Agrees.refl _ _

theorem isControlRestricted_releaseInst :
    (releaseInst config scan inst).isControlRestricted =
      (inst.isControlRestricted && scan.foundUnresolvedBranch) := by
  have cleared := isControlRestricted_clearRestrictions scan inst
  have woken := (wakeReleased_agrees config (clearRestrictions scan inst)).isLive
    .controlRestricted (by simp) (by simp)
  unfold releaseInst
  dsimp only
  split
  · split
    · exact cleared
    · exact woken.trans cleared
  · rename_i unrestricted
    simp_all [DynInst.isDolmaRestricted_eq]

theorem isDataRestricted_releaseInst :
    (releaseInst config scan inst).isDataRestricted =
      (inst.isDataRestricted && scan.ydis.contains inst.ydi) := by
  have cleared := isDataRestricted_clearRestrictions scan inst
  have woken := (wakeReleased_agrees config (clearRestrictions scan inst)).isLive
    .dataRestricted (by simp) (by simp)
  unfold releaseInst
  dsimp only
  split
  · split
    · exact cleared
    · exact woken.trans cleared
  · rename_i unrestricted
    simp_all [DynInst.isDolmaRestricted_eq]

theorem violatorSeqNum_releaseInst :
    (releaseInst config scan inst).violatorSeqNum = inst.violatorSeqNum := by
  unfold releaseInst
  dsimp only
  split
  · split
    · exact violatorSeqNum_clearRestrictions scan inst
    · rw [violatorSeqNum_wakeReleased, violatorSeqNum_clearRestrictions]
  · rfl

/-- A released instruction that is still restricted keeps its stall flag; one
that is not restricted any more loses it. -/
theorem isDolmaStalled_releaseInst :
    (releaseInst config scan inst).isDolmaStalled =
      (inst.isDolmaStalled &&
        (!inst.isDolmaRestricted || (releaseInst config scan inst).isDolmaRestricted)) := by
  have cleared := (clearRestrictions_agrees scan inst).isLive .dolmaStalled
    (by simp) (by simp)
  have woken := wakeReleased_agrees config (clearRestrictions scan inst)
  have control := woken.isLive .controlRestricted (by simp) (by simp)
  have data := woken.isLive .dataRestricted (by simp) (by simp)
  have restricted :
      (wakeReleased config (clearRestrictions scan inst)).isDolmaRestricted =
        (clearRestrictions scan inst).isDolmaRestricted := by
    simp only [DynInst.isDolmaRestricted_eq, DynInst.isControlRestricted,
      DynInst.isDataRestricted, control, data]
  unfold releaseInst
  dsimp only
  split
  · split
    · simp_all [DynInst.isDolmaStalled]
    · simp_all [isDolmaStalled_wakeReleased]
  · simp_all

end Instruction

section Pass

variable (config : Config) (instList : List Nat) (scan : SafeScan) (seq : Nat)

/-- Setting the pending flag by a store touches the pending and commit flags
only. -/
theorem setPendingMemOrderBy_agrees (inst storeInst : DynInst) (store : Nat) :
    DynInst.Agrees [.pendingMemOrder, .canCommit] inst
      (inst.setPendingMemOrderBy store storeInst) := by
  have flags :
      DynInst.Agrees [.pendingMemOrder, .canCommit] inst
        inst.setPendingMemOrder :=
    (DynInst.agrees_setStatus (by simp) _ _).trans
      (DynInst.agrees_setStatus (by simp) _ _)
  unfold DynInst.setPendingMemOrderBy
  split
  · exact { flags with }
  · exact flags

theorem violatorSeqNum_setPendingMemOrderBy (inst storeInst : DynInst) (store : Nat) :
    (inst.setPendingMemOrderBy store storeInst).violatorSeqNum = inst.violatorSeqNum := by
  unfold DynInst.setPendingMemOrderBy DynInst.setPendingMemOrder
  split <;> rfl

/-- A load is made pending unless it is squashed. -/
theorem isPendingMemOrder_setPendingMemOrderBy (inst storeInst : DynInst) (store : Nat) :
    (inst.setPendingMemOrderBy store storeInst).isPendingMemOrder = !inst.isSquashed := by
  have pending : inst.setPendingMemOrder.isLive .pendingMemOrder = !inst.isSquashed := by
    simp [DynInst.setPendingMemOrder]
  unfold DynInst.setPendingMemOrderBy
  split
  · exact pending
  · exact pending

/-- The heap after the release, before any load has been made pending. -/
private def releasedHeap : Heap :=
  scan.heap.modify seq (releaseInst config scan)

private theorem releasedHeap_agrees (other : Nat) :
    DynInst.Agrees
      [.controlRestricted, .dataRestricted, .pendingMetadata, .dolmaStalled]
      (scan.heap other) (releasedHeap config scan seq other) := by
  unfold releasedHeap
  by_cases same : other = seq
  · subst same
    rw [Heap.modify_self]
    exact releaseInst_agrees config scan _
  · rw [Heap.modify_of_ne _ same]
    exact DynInst.Agrees.refl _ _

private theorem releaseRestricted_heap_cases (other : Nat) :
    releasedViolator config scan (scan.heap seq) ≠ some other ∧
        (releaseRestricted config scan seq).heap other = releasedHeap config scan seq other ∨
      releasedViolator config scan (scan.heap seq) = some other ∧
        (releaseRestricted config scan seq).heap other =
          (releasedHeap config scan seq other).setPendingMemOrderBy seq
            (releasedHeap config scan seq seq) := by
  cases released : releasedViolator config scan (scan.heap seq) with
  | none =>
      left
      simp only [releaseRestricted, released]
      exact ⟨(Option.some_ne_none other).symm, rfl⟩
  | some violator =>
      simp only [releaseRestricted, released]
      by_cases same : other = violator
      · right
        subst same
        exact ⟨rfl, Heap.modify_self _ _ _⟩
      · left
        exact ⟨fun found => same (Option.some.inj found).symm, Heap.modify_of_ne _ same _⟩

private theorem releaseRestricted_agrees (other : Nat) :
    DynInst.Agrees [.pendingMemOrder, .canCommit]
      (releasedHeap config scan seq other)
      ((releaseRestricted config scan seq).heap other) := by
  rcases releaseRestricted_heap_cases config scan seq other with
    ⟨_, same⟩ | ⟨_, pending⟩
  · rw [same]
    exact DynInst.Agrees.refl _ _
  · rw [pending]
    exact setPendingMemOrderBy_agrees _ _ _

private theorem violatorSeqNum_releaseRestricted (other : Nat) :
    ((releaseRestricted config scan seq).heap other).violatorSeqNum =
      (scan.heap other).violatorSeqNum := by
  have released :
      (releasedHeap config scan seq other).violatorSeqNum = (scan.heap other).violatorSeqNum := by
    unfold releasedHeap
    by_cases same : other = seq
    · subst same
      rw [Heap.modify_self]
      exact violatorSeqNum_releaseInst config scan _
    · rw [Heap.modify_of_ne _ same]
  rcases releaseRestricted_heap_cases config scan seq other with
    ⟨_, same⟩ | ⟨_, pending⟩
  · rw [same, released]
  · rw [pending, violatorSeqNum_setPendingMemOrderBy, released]

private theorem resolveInducer_agrees (other : Nat) :
    DynInst.Agrees [.dataInducer] (scan.heap other)
      ((resolveInducer config scan seq).heap other) := by
  unfold resolveInducer
  dsimp only
  split
  · by_cases same : other = seq
    · subst same
      rw [Heap.modify_self]
      exact DynInst.agrees_setStatus (by simp) _ _
    · rw [Heap.modify_of_ne _ same]
      exact DynInst.Agrees.refl _ _
  · exact DynInst.Agrees.refl _ _

private theorem isDataInducer_resolveInducer :
    ((resolveInducer config scan seq).heap seq).isDataInducer =
      ((scan.heap seq).isDataInducer && keepsInducer config scan seq (scan.heap seq)) := by
  unfold resolveInducer
  cases inducing : (scan.heap seq).isDataInducer <;>
    cases keeping : keepsInducer config scan seq (scan.heap seq) <;>
    simp_all [DynInst.isDataInducer]

private theorem ydis_resolveInducer :
    (resolveInducer config scan seq).ydis =
      if ((resolveInducer config scan seq).heap seq).isDataInducer then
        seq :: scan.ydis
      else scan.ydis := by
  rw [isDataInducer_resolveInducer]
  rfl

private theorem recordStore_agrees (other : Nat) :
    DynInst.Agrees [] (scan.heap other)
      ((recordStore config instList scan seq).heap other) := by
  unfold recordStore
  dsimp only
  split
  · by_cases same : other = seq
    · subst same
      rw [Heap.modify_self]
      exact { DynInst.Agrees.refl _ _ with }
    · rw [Heap.modify_of_ne _ same]
      exact DynInst.Agrees.refl _ _
  · exact DynInst.Agrees.refl _ _

/-- The state the last part of the pass starts from. -/
private def beforeStore : SafeScan :=
  recordBranch (resolveInducer config (releaseRestricted config scan seq) seq) seq

private theorem beforeStore_agrees (other : Nat) :
    DynInst.Agrees safeFlags (scan.heap other)
      ((beforeStore config scan seq).heap other) := by
  have released :=
    (releasedHeap_agrees config scan seq other).mono
      (show _ ⊆ safeFlags by simp [safeFlags])
  have pending :=
    (releaseRestricted_agrees config scan seq other).mono
      (show _ ⊆ safeFlags by simp [safeFlags])
  have resolved :=
    (resolveInducer_agrees config (releaseRestricted config scan seq) seq
      other).mono (show _ ⊆ safeFlags by simp [safeFlags])
  exact (released.trans pending).trans resolved

private theorem updateSafeInst_agrees_resolved (other : Nat) :
    DynInst.Agrees []
      ((resolveInducer config (releaseRestricted config scan seq) seq).heap other)
      ((updateSafeInst config instList scan seq).heap other) :=
  recordStore_agrees config instList (beforeStore config scan seq) seq other

/-- The pass at an instruction changes safe-status flags. -/
theorem updateSafeInst_agrees (other : Nat) :
    DynInst.Agrees safeFlags (scan.heap other)
      ((updateSafeInst config instList scan seq).heap other) := by
  have recorded :=
    (updateSafeInst_agrees_resolved config instList scan seq other).mono
      (show _ ⊆ safeFlags by simp)
  exact (beforeStore_agrees config scan seq other).trans recorded

variable {other : Nat}

/-- Other instructions change by the release only. -/
theorem heap_updateSafeInst_eq_released (distinct : other ≠ seq) :
    (updateSafeInst config instList scan seq).heap other =
      (releaseRestricted config scan seq).heap other := by
  unfold updateSafeInst recordStore recordBranch resolveInducer
  dsimp only
  split <;> split <;> simp [distinct]

/-- At other instructions only pending flags change. -/
theorem updateSafeInst_agrees_of_ne (distinct : other ≠ seq) :
    DynInst.Agrees [.pendingMemOrder, .canCommit] (scan.heap other)
        ((updateSafeInst config instList scan seq).heap other) ∧
      ((updateSafeInst config instList scan seq).heap other).violatorSeqNum =
        (scan.heap other).violatorSeqNum := by
  have released := releaseRestricted_agrees config scan seq other
  have collision := violatorSeqNum_releaseRestricted config scan seq other
  have unreleased :
      releasedHeap config scan seq other = scan.heap other :=
    Heap.modify_of_ne _ distinct _
  rw [heap_updateSafeInst_eq_released config instList scan seq distinct]
  exact ⟨unreleased ▸ released, collision⟩

/-- The restriction flags of an instruction after the pass has looked at it are
those of the release. -/
private theorem updateSafeInst_agrees_released :
    DynInst.Agrees [.pendingMemOrder, .canCommit, .dataInducer]
      (releaseInst config scan (scan.heap seq))
      ((updateSafeInst config instList scan seq).heap seq) := by
  have released :
      releasedHeap config scan seq seq = releaseInst config scan (scan.heap seq) :=
    Heap.modify_self _ _ _
  have pending :=
    (releaseRestricted_agrees config scan seq seq).mono
      (show _ ⊆ [.pendingMemOrder, .canCommit, .dataInducer] by simp)
  have resolved :=
    (resolveInducer_agrees config (releaseRestricted config scan seq) seq
      seq).mono
      (show _ ⊆ [.pendingMemOrder, .canCommit, .dataInducer] by simp)
  have recorded :=
    (updateSafeInst_agrees_resolved config instList scan seq seq).mono
      (show _ ⊆ [.pendingMemOrder, .canCommit, .dataInducer] by simp)
  exact released ▸ (pending.trans resolved).trans recorded

/-- Control restriction of an instruction the pass has looked at. -/
theorem isControlRestricted_updateSafeInst :
    ((updateSafeInst config instList scan seq).heap seq).isControlRestricted =
      ((scan.heap seq).isControlRestricted && scan.foundUnresolvedBranch) :=
  ((updateSafeInst_agrees_released config instList scan seq).isLive
    .controlRestricted (by simp) (by simp)).trans
      (isControlRestricted_releaseInst config scan _)

/-- Data restriction of an instruction the pass has looked at. -/
theorem isDataRestricted_updateSafeInst :
    ((updateSafeInst config instList scan seq).heap seq).isDataRestricted =
      ((scan.heap seq).isDataRestricted && scan.ydis.contains (scan.heap seq).ydi) :=
  ((updateSafeInst_agrees_released config instList scan seq).isLive
    .dataRestricted (by simp) (by simp)).trans
      (isDataRestricted_releaseInst config scan _)

/-- The stall flag after the pass. -/
theorem isDolmaStalled_updateSafeInst :
    ((updateSafeInst config instList scan seq).heap seq).isDolmaStalled =
      ((scan.heap seq).isDolmaStalled &&
        (!(scan.heap seq).isDolmaRestricted ||
          ((updateSafeInst config instList scan seq).heap
            seq).isDolmaRestricted)) := by
  have agrees := updateSafeInst_agrees_released config instList scan seq
  have stalled := agrees.isLive .dolmaStalled (by simp) (by simp)
  have control := agrees.isLive .controlRestricted (by simp) (by simp)
  have data := agrees.isLive .dataRestricted (by simp) (by simp)
  have released := isDolmaStalled_releaseInst config scan (scan.heap seq)
  rw [DynInst.isDolmaRestricted_eq
    ((updateSafeInst config instList scan seq).heap seq)]
  rw [DynInst.isDolmaRestricted_eq (releaseInst config scan _)] at released
  unfold DynInst.isDolmaStalled DynInst.isControlRestricted
    DynInst.isDataRestricted at *
  rw [stalled, control, data]
  exact released

private theorem isPendingMemOrder_updateSafeInst_released (other : Nat) :
    ((updateSafeInst config instList scan seq).heap other).isPendingMemOrder =
      ((releaseRestricted config scan seq).heap other).isPendingMemOrder :=
  ((updateSafeInst_agrees_resolved config instList scan seq other).isLive
    .pendingMemOrder (by simp) (by simp)).trans
      ((resolveInducer_agrees config (releaseRestricted config scan seq) seq
        other).isLive .pendingMemOrder (by simp) (by simp))

/-- The pass makes pending exactly the load of a released store. -/
theorem isPendingMemOrder_updateSafeInst (other : Nat) :
    ((updateSafeInst config instList scan seq).heap other).isPendingMemOrder =
      ((scan.heap other).isPendingMemOrder ||
        releasedViolator config scan (scan.heap seq) == some other) := by
  have agrees := releasedHeap_agrees config scan seq other
  rw [isPendingMemOrder_updateSafeInst_released]
  rcases releaseRestricted_heap_cases config scan seq other with
    ⟨spared, same⟩ | ⟨found, pending⟩
  · have released :
        (releasedHeap config scan seq other).isPendingMemOrder =
          (scan.heap other).isPendingMemOrder :=
      agrees.isLive _ (by simp) (by simp)
    rw [same, released, beq_eq_false_iff_ne.mpr spared, Bool.or_false]
  · have unsquashed : (scan.heap other).isSquashed = false := by
      unfold releasedViolator at found
      split at found
      · simpa using (Option.filter_eq_some_iff.mp found).2
      · cases found
    rw [pending, isPendingMemOrder_setPendingMemOrderBy,
      agrees.isSquashed (by simp), unsquashed, found]
    simp

/-- Whether the pass keeps a data inducer, in terms of the state before it looks
at the instruction. -/
theorem isDataInducer_updateSafeInst :
    ((updateSafeInst config instList scan seq).heap seq).isDataInducer =
      ((scan.heap seq).isDataInducer &&
        (config.isDolmaConservative ||
          ((scan.heap seq).isPendingMemOrder ||
            releasedViolator config scan (scan.heap seq) == some seq) ||
          (config.isDolmaMemOnly && scan.foundUnresolvedBranch) ||
          (!config.isSTT &&
            (scan.foundUnresolvedStore || scan.oldestViolator.any (· ≤ seq))))) := by
  have recorded :=
    (updateSafeInst_agrees_resolved config instList scan seq seq).isLive
      .dataInducer (by simp) (by simp)
  have pending := isPendingMemOrder_updateSafeInst config instList scan seq seq
  have inducer :
      ((releaseRestricted config scan seq).heap seq).isDataInducer =
        (scan.heap seq).isDataInducer :=
    ((releaseRestricted_agrees config scan seq seq).isLive
      .dataInducer (by simp) (by simp)).trans
        ((releasedHeap_agrees config scan seq seq).isLive _ (by simp) (by simp))
  refine (recorded.trans (isDataInducer_resolveInducer config _ seq)).trans ?_
  rw [inducer]
  unfold keepsInducer
  rw [← isPendingMemOrder_updateSafeInst_released config instList, pending]
  rfl

/-- The pass remembers exactly the inducers it keeps. -/
theorem ydis_updateSafeInst :
    (updateSafeInst config instList scan seq).ydis =
      if ((updateSafeInst config instList scan seq).heap seq).isDataInducer then
        seq :: scan.ydis
      else scan.ydis := by
  have recorded :=
    (updateSafeInst_agrees_resolved config instList scan seq seq).isLive
      .dataInducer (by simp) (by simp)
  have resolved :=
    ydis_resolveInducer config (releaseRestricted config scan seq) seq
  have final :
      (updateSafeInst config instList scan seq).ydis =
        (resolveInducer config (releaseRestricted config scan seq) seq).ydis := rfl
  rw [final, resolved]
  exact if_congr (by rw [← Bool.eq_iff_iff]; exact recorded.symm) rfl rfl

theorem foundUnresolvedBranch_updateSafeInst :
    (updateSafeInst config instList scan seq).foundUnresolvedBranch =
      (scan.foundUnresolvedBranch || (scan.heap seq).isControlInducer) := by
  have released :=
    (updateSafeInst_agrees config instList scan seq seq).isLive .controlInducer
      (by simp [safeFlags]) (by simp [safeFlags])
  have recorded :=
    (updateSafeInst_agrees_resolved config instList scan seq seq).isLive
      .controlInducer (by simp) (by simp)
  have found :
      (updateSafeInst config instList scan seq).foundUnresolvedBranch =
        (scan.foundUnresolvedBranch ||
          ((resolveInducer config (releaseRestricted config scan seq) seq).heap
            seq).isControlInducer) := rfl
  rw [found]
  congr 1
  exact recorded.symm.trans released

theorem isTrackedStore_of_agrees
    (agrees : DynInst.Agrees flags before after) (squashedKept : Status.squashed ∉ flags) :
    isTrackedStore config after = isTrackedStore config before := by
  unfold isTrackedStore
  rw [agrees.staticInst, agrees.isSquashed squashedKept]

/-- Agreement of the squashed flags and of the collision record decides whether
the recorded load is live. -/
theorem violatorIsLive_of_agrees
    (squashed : ∀ other, (after other).isSquashed = (before other).isSquashed)
    (collision : inst'.violatorSeqNum = inst.violatorSeqNum) :
    violatorIsLive instList after inst' = violatorIsLive instList before inst := by
  unfold violatorIsLive
  rw [collision]
  simp only [squashed]

private theorem violatorSeqNum_beforeStore (other : Nat) :
    ((beforeStore config scan seq).heap other).violatorSeqNum =
      (scan.heap other).violatorSeqNum := by
  rw [← violatorSeqNum_releaseRestricted config scan seq other]
  unfold beforeStore recordBranch resolveInducer
  dsimp only
  split
  · by_cases same : other = seq
    · subst same
      rw [Heap.modify_self]
      rfl
    · rw [Heap.modify_of_ne _ same]
  · rfl

/-- A store of the pass that has collided with a load older than those found so
far. -/
def collidesEarlier (inst : DynInst) : Bool :=
  isTrackedStore config inst && inst.effAddrValid &&
    inst.violatorSeqNum != 0 &&
    scan.oldestViolator.all (inst.violatorSeqNum < ·)

private theorem collidesEarlier_beforeStore :
    collidesEarlier config scan ((beforeStore config scan seq).heap seq) =
      collidesEarlier config scan (scan.heap seq) := by
  have agrees := beforeStore_agrees config scan seq seq
  unfold collidesEarlier
  rw [isTrackedStore_of_agrees config agrees (by simp [safeFlags]),
    agrees.effAddrValid, violatorSeqNum_beforeStore]

private theorem violatorIsLive_beforeStore :
    violatorIsLive instList (beforeStore config scan seq).heap
        ((beforeStore config scan seq).heap seq) =
      violatorIsLive instList scan.heap (scan.heap seq) :=
  violatorIsLive_of_agrees instList
    (fun other =>
      (beforeStore_agrees config scan seq other).isSquashed (by simp [safeFlags]))
    (violatorSeqNum_beforeStore config scan seq seq)

theorem foundUnresolvedStore_updateSafeInst :
    (updateSafeInst config instList scan seq).foundUnresolvedStore =
      (scan.foundUnresolvedStore ||
        (isTrackedStore config (scan.heap seq) && !(scan.heap seq).effAddrValid)) := by
  have agrees := beforeStore_agrees config scan seq seq
  have found :
      (updateSafeInst config instList scan seq).foundUnresolvedStore =
        (scan.foundUnresolvedStore ||
          (isTrackedStore config ((beforeStore config scan seq).heap seq) &&
            !((beforeStore config scan seq).heap seq).effAddrValid)) := rfl
  rw [found, isTrackedStore_of_agrees config agrees (by simp [safeFlags]), agrees.effAddrValid]

theorem oldestViolator_updateSafeInst :
    (updateSafeInst config instList scan seq).oldestViolator =
      if collidesEarlier config scan (scan.heap seq) &&
          violatorIsLive instList scan.heap (scan.heap seq) then
        some (scan.heap seq).violatorSeqNum
      else scan.oldestViolator := by
  have found :
      (updateSafeInst config instList scan seq).oldestViolator =
        if collidesEarlier config scan ((beforeStore config scan seq).heap seq) &&
            violatorIsLive instList (beforeStore config scan seq).heap
              ((beforeStore config scan seq).heap seq) then
          some ((beforeStore config scan seq).heap seq).violatorSeqNum
        else scan.oldestViolator := rfl
  rw [found, collidesEarlier_beforeStore, violatorIsLive_beforeStore, violatorSeqNum_beforeStore]

/-- The collision record after the pass. -/
theorem violatorSeqNum_updateSafeInst :
    ((updateSafeInst config instList scan seq).heap seq).violatorSeqNum =
      if collidesEarlier config scan (scan.heap seq) &&
          !violatorIsLive instList scan.heap (scan.heap seq) then 0
      else (scan.heap seq).violatorSeqNum := by
  have found :
      (updateSafeInst config instList scan seq).heap =
        if collidesEarlier config scan ((beforeStore config scan seq).heap seq) &&
            !violatorIsLive instList (beforeStore config scan seq).heap
              ((beforeStore config scan seq).heap seq) then
          (beforeStore config scan seq).heap.modify seq fun inst =>
            { inst with violatorSeqNum := 0 }
        else (beforeStore config scan seq).heap := rfl
  rw [found, collidesEarlier_beforeStore, violatorIsLive_beforeStore]
  split
  · rw [Heap.modify_self]
  · exact violatorSeqNum_beforeStore config scan seq seq

end Pass

end Rob
end Dolma

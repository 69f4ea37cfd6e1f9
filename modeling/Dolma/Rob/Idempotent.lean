import Dolma.Rob.SafePass

/-!
# The safe-status update is idempotent

A second pass over the reorder buffer meets each instruction as the first one has left it,
with the same local variables. The restrictions that are left rest on a branch or an inducer
that the first pass has kept, an inducer that was kept is kept again, and the record of a
collision that was to be forgotten is forgotten. The instructions behind do not change what
the first pass has left, as a store finds only younger loads.

The same facts say which restrictions, inducers and stalls a pass clears.
-/

namespace Dolma
namespace Rob

variable (config : Config) (instList : List Nat)

/-- Every store knows younger violators only. -/
def ViolatorsYounger (instList : List Nat) (heap : Heap) : Prop :=
  ∀ store ∈ instList, (heap store).staticInst.isStore = true →
    ∀ violator, (heap store).violator = some violator → store < violator

/-- The local variables of a pass over other instructions. -/
def SafeScan.withHeap (scan : SafeScan) (heap : Heap) : SafeScan :=
  { scan with heap := heap }

/-! ### One instruction -/

section Instruction

variable {scan : SafeScan} {inst : DynInst}

/-- Justified restrictions are not cleared. -/
theorem clearRestrictions_eq_self
    (control : inst.isControlRestricted = true → scan.foundUnresolvedBranch = true)
    (data : inst.isDataRestricted = true → scan.ydis.contains inst.ydi = true) :
    clearRestrictions scan inst = inst := by
  have keepsControl : (inst.isControlRestricted && !scan.foundUnresolvedBranch) = false := by
    cases restricted : inst.isControlRestricted with
    | false => rfl
    | true => rw [control restricted]; rfl
  have keepsData : (inst.isDataRestricted && !scan.ydis.contains inst.ydi) = false := by
    cases restricted : inst.isDataRestricted with
    | false => rfl
    | true => rw [data restricted]; rfl
  unfold clearRestrictions
  simp only [keepsControl, Bool.false_eq_true, if_false, keepsData]

/-- Justified restrictions release nothing. -/
theorem releaseInst_eq_self (cleared : clearRestrictions scan inst = inst) :
    releaseInst config scan inst = inst := by
  unfold releaseInst
  dsimp only
  rw [cleared]
  cases inst.isDolmaRestricted <;> rfl

/-- Justified restrictions release no violator. -/
theorem releasedViolator_eq_none (cleared : clearRestrictions scan inst = inst) :
    releasedViolator config scan inst = none := by
  unfold releasedViolator
  rw [cleared]
  cases inst.isDolmaRestricted <;> rfl

theorem violator_of_releasedViolator
    (released : releasedViolator config scan inst = some violator) :
    inst.staticInst.isStore = true ∧ inst.violator = some violator := by
  unfold releasedViolator at released
  split at released
  case isTrue store =>
    simp only [Bool.and_eq_true] at store
    exact ⟨store.1.2, (Option.filter_eq_some_iff.mp released).1⟩
  case isFalse => cases released

end Instruction

variable {heap : Heap}

section Pass

variable {config instList} {scan : SafeScan} {seq : Nat}

theorem modify_eq_self (same : change (heap seq) = heap seq) : heap.modify seq change = heap := by
  funext other
  by_cases here : other = seq
  · rw [here, Heap.modify_self, same]
  · rw [Heap.modify_of_ne _ here]

/-- The pass at one instruction changes another one only if it makes it pending. -/
theorem heap_updateSafeInst_of_ne
    (distinct : other ≠ seq)
    (unreleased : releasedViolator config scan (scan.heap seq) ≠ some other) :
    (updateSafeInst config instList scan seq).heap other = scan.heap other := by
  rw [heap_updateSafeInst_eq_released config instList scan seq distinct]
  unfold releaseRestricted
  cases found : releasedViolator config scan (scan.heap seq) with
  | none => exact Heap.modify_of_ne _ distinct _
  | some violator =>
      have apart : other ≠ violator := fun same => unreleased (same ▸ found)
      dsimp only
      rw [Heap.modify_of_ne _ apart, Heap.modify_of_ne _ distinct]

section

variable (self : heap seq = (updateSafeInst config instList scan seq).heap seq)
include self

/-- A collision left is with a live load. -/
theorem collidesEarlier_again :
    collidesEarlier config scan (heap seq) =
      (collidesEarlier config scan (scan.heap seq) &&
        violatorIsLive instList scan.heap (scan.heap seq)) := by
  have agrees := updateSafeInst_agrees config instList scan seq seq
  have collision := violatorSeqNum_updateSafeInst config instList scan seq
  rw [← self] at agrees collision
  have tracked := isTrackedStore_of_agrees config agrees (by simp [safeFlags])
  cases early : collidesEarlier config scan (scan.heap seq) with
  | false =>
      rw [early, Bool.false_and, if_neg Bool.false_ne_true] at collision
      unfold collidesEarlier at early ⊢
      rw [tracked, agrees.effAddrValid, collision]
      exact early
  | true =>
      cases live : violatorIsLive instList scan.heap (scan.heap seq) with
      | false =>
          rw [early, live] at collision
          unfold collidesEarlier
          rw [collision]
          simp
      | true =>
          rw [early, live, Bool.not_true, Bool.and_false, if_neg Bool.false_ne_true] at collision
          unfold collidesEarlier at early ⊢
          rw [tracked, agrees.effAddrValid, collision]
          exact early

/-- The last parts of the pass find the same again. -/
theorem recordStore_again
    (squashed : ∀ other, (heap other).isSquashed = (scan.heap other).isSquashed)
    (agrees : DynInst.Agrees safeFlags (scan.heap seq) (heap seq)) :
    recordStore config instList
        (recordBranch
          { scan.withHeap heap with ydis := (updateSafeInst config instList scan seq).ydis } seq)
        seq =
      (updateSafeInst config instList scan seq).withHeap heap := by
  have tracked := isTrackedStore_of_agrees config agrees (by simp [safeFlags])
  have induces : (heap seq).isControlInducer = (scan.heap seq).isControlInducer :=
    agrees.isLive .controlInducer (by simp [safeFlags]) (by simp [safeFlags])
  have collides := collidesEarlier_again self
  have collision := violatorSeqNum_updateSafeInst config instList scan seq
  rw [← self] at collision
  unfold SafeScan.withHeap
  rw [foundUnresolvedBranch_updateSafeInst, foundUnresolvedStore_updateSafeInst,
    oldestViolator_updateSafeInst, ← induces, ← tracked, ← agrees.effAddrValid, ← collides]
  change ({
    heap :=
      if collidesEarlier config scan (heap seq) &&
          !violatorIsLive instList heap (heap seq) then
        heap.modify seq fun inst => { inst with violatorSeqNum := 0 }
      else heap
    foundUnresolvedBranch := scan.foundUnresolvedBranch || (heap seq).isControlInducer
    foundUnresolvedStore := scan.foundUnresolvedStore ||
      (isTrackedStore config (heap seq) && !(heap seq).effAddrValid)
    ydis := (updateSafeInst config instList scan seq).ydis
    oldestViolator :=
      if collidesEarlier config scan (heap seq) && violatorIsLive instList heap (heap seq) then
        some (heap seq).violatorSeqNum
      else scan.oldestViolator } : SafeScan) = _
  cases early : collidesEarlier config scan (heap seq) with
  | false => rfl
  | true =>
      rw [early] at collides
      have both := (Bool.and_eq_true_iff.mp collides.symm)
      rw [both.1, both.2, Bool.not_true, Bool.and_false, if_neg Bool.false_ne_true] at collision
      have live : violatorIsLive instList heap (heap seq) = true :=
        (violatorIsLive_of_agrees instList squashed collision).trans both.2
      rw [live, collision]
      rfl

/-- The pass at an instruction that it has left so does nothing but go on with its local
variables. -/
theorem updateSafeInst_again
    (squashed : ∀ other, (heap other).isSquashed = (scan.heap other).isSquashed) :
    updateSafeInst config instList (scan.withHeap heap) seq =
      (updateSafeInst config instList scan seq).withHeap heap := by
  have agrees := updateSafeInst_agrees config instList scan seq seq
  rw [← self] at agrees
  -- what is left restricted is justified
  have cleared : clearRestrictions (scan.withHeap heap) (heap seq) = heap seq := by
    refine clearRestrictions_eq_self (fun restricted => ?_) fun restricted => ?_
    · rw [self, isControlRestricted_updateSafeInst, Bool.and_eq_true] at restricted
      exact restricted.2
    · rw [self, isDataRestricted_updateSafeInst, Bool.and_eq_true] at restricted
      rw [agrees.ydi]
      exact restricted.2
  have released : releaseRestricted config (scan.withHeap heap) seq = scan.withHeap heap := by
    have none : releasedViolator config (scan.withHeap heap) ((scan.withHeap heap).heap seq) =
        none := releasedViolator_eq_none config cleared
    have same : (scan.withHeap heap).heap.modify seq
        (releaseInst config (scan.withHeap heap)) = heap :=
      modify_eq_self (releaseInst_eq_self config cleared)
    unfold releaseRestricted
    rw [none, same]
    rfl
  -- an inducer that is left is kept for the same reason
  have keeps : (heap seq).isDataInducer = true →
      keepsInducer config (scan.withHeap heap) seq (heap seq) = true := by
    intro inducer
    rw [self, isDataInducer_updateSafeInst, Bool.and_eq_true] at inducer
    unfold keepsInducer
    rw [self, isPendingMemOrder_updateSafeInst]
    exact inducer.2
  have resolved : resolveInducer config (scan.withHeap heap) seq =
      { scan.withHeap heap with ydis := (updateSafeInst config instList scan seq).ydis } := by
    rw [ydis_updateSafeInst, ← self]
    unfold resolveInducer
    cases inducer : (heap seq).isDataInducer with
    | true =>
        have kept : keepsInducer config (scan.withHeap heap) seq
            ((scan.withHeap heap).heap seq) = true := keeps inducer
        have induces : ((scan.withHeap heap).heap seq).isDataInducer = true := inducer
        rw [kept, induces]
        rfl
    | false =>
        have induces : ((scan.withHeap heap).heap seq).isDataInducer = false := inducer
        rw [induces]
        rfl
  rw [updateSafeInst, released, resolved]
  exact recordStore_again self squashed agrees

/-! ### The whole pass -/

end

variable {rest : List Nat}

theorem violatorsYounger_updateSafeInst (younger : ViolatorsYounger rest scan.heap) :
    ViolatorsYounger rest (updateSafeInst config instList scan seq).heap := by
  intro store member isStore violator link
  have agrees := updateSafeInst_agrees config instList scan seq store
  rw [agrees.staticInst] at isStore
  rw [agrees.violator] at link
  exact younger store member isStore violator link

/-- The instructions behind do not change what the pass has left. -/
theorem foldl_updateSafeInst_heap
    (behind : ∀ later ∈ rest, seq < later) (younger : ViolatorsYounger rest scan.heap) :
    (rest.foldl (updateSafeInst config instList) scan).heap seq = scan.heap seq := by
  induction rest generalizing scan with
  | nil => rfl
  | cons later rest ih =>
      have after := behind later List.mem_cons_self
      have others : ∀ next ∈ rest, seq < next :=
        fun next member => behind next (List.mem_cons_of_mem _ member)
      have links : ViolatorsYounger rest scan.heap :=
        fun store member => younger store (List.mem_cons_of_mem _ member)
      rw [List.foldl_cons, ih others (violatorsYounger_updateSafeInst links)]
      refine heap_updateSafeInst_of_ne (Nat.ne_of_lt after) fun released => ?_
      obtain ⟨isStore, link⟩ := violator_of_releasedViolator config released
      have before := younger later List.mem_cons_self isStore seq link
      omega

theorem isSquashed_foldl_updateSafeInst (rest : List Nat) (other : Nat) :
    ((rest.foldl (updateSafeInst config instList) scan).heap other).isSquashed =
      (scan.heap other).isSquashed := by
  induction rest generalizing scan with
  | nil => rfl
  | cons seq rest ih =>
      rw [List.foldl_cons, ih]
      exact (updateSafeInst_agrees config instList scan seq other).isSquashed
        (by simp [safeFlags])

/-- A pass over what a pass has left finds the same. -/
theorem foldl_updateSafeInst_again
    (sorted : rest.Pairwise (· < ·)) (younger : ViolatorsYounger rest scan.heap) :
    rest.foldl (updateSafeInst config instList)
        (scan.withHeap (rest.foldl (updateSafeInst config instList) scan).heap) =
      rest.foldl (updateSafeInst config instList) scan := by
  induction rest generalizing scan with
  | nil => rfl
  | cons seq rest ih =>
      obtain ⟨behind, sorted⟩ := List.pairwise_cons.mp sorted
      have links : ViolatorsYounger rest (updateSafeInst config instList scan seq).heap :=
        violatorsYounger_updateSafeInst fun store member =>
          younger store (List.mem_cons_of_mem _ member)
      rw [List.foldl_cons, List.foldl_cons, updateSafeInst_again
        (foldl_updateSafeInst_heap behind links)
        (isSquashed_foldl_updateSafeInst (seq :: rest))]
      exact ih sorted links

end Pass

/-- The safe-status update changes nothing the second time. -/
theorem updateSafeStatus_idempotent
    {heap : Heap} (sorted : instList.Pairwise (· < ·)) (younger : ViolatorsYounger instList heap) :
    updateSafeStatus config instList (updateSafeStatus config instList heap) =
      updateSafeStatus config instList heap := by
  unfold updateSafeStatus
  exact congrArg SafeScan.heap (foldl_updateSafeInst_again sorted younger)

theorem isDataInducer_of_isPendingMemOrder
    (sorted : instList.Pairwise (· < ·)) (younger : ViolatorsYounger instList heap)
    (member : seq ∈ instList) (inducer : (heap seq).isDataInducer = true)
    (pending : (updateSafeStatus config instList heap seq).isPendingMemOrder = true) :
    (updateSafeStatus config instList heap seq).isDataInducer = true := by
  obtain ⟨before, rest, split⟩ := List.append_of_mem member
  have ordered := List.pairwise_append.mp (split ▸ sorted)
  have kept : ∀ (list : List Nat) (scan : SafeScan), (∀ other ∈ list, seq ≠ other) →
      ViolatorsYounger rest scan.heap → (scan.heap seq).isDataInducer = true →
      ViolatorsYounger rest (list.foldl (updateSafeInst config instList) scan).heap ∧
        ((list.foldl (updateSafeInst config instList) scan).heap seq).isDataInducer = true := by
    intro list
    induction list with
    | nil => exact fun scan _ younger inducer => ⟨younger, inducer⟩
    | cons other list ih =>
        intro scan distinct younger inducer
        refine ih _
          (fun next found => distinct next (List.mem_cons_of_mem _ found))
          (violatorsYounger_updateSafeInst younger) ?_
        rw [← inducer]
        exact (updateSafeInst_agrees_of_ne config instList scan other
          (distinct other List.mem_cons_self)).1.isLive _ (by simp) (by simp)
  obtain ⟨links, turn⟩ := kept before { heap := heap }
    (fun other found => Nat.ne_of_gt (ordered.2.2 other found seq List.mem_cons_self))
    (fun store found => younger store (by simp [split, found])) inducer
  -- what the pass leaves at its turn stays
  have final : updateSafeStatus config instList heap seq =
      (updateSafeInst config instList
        (before.foldl (updateSafeInst config instList) { heap := heap }) seq).heap seq := by
    rw [updateSafeStatus]
    nth_rewrite 2 [split]
    rw [List.foldl_append, List.foldl_cons]
    exact foldl_updateSafeInst_heap (List.pairwise_cons.mp ordered.2.1).1
      (violatorsYounger_updateSafeInst links)
  rw [final, isPendingMemOrder_updateSafeInst] at pending
  rw [final, isDataInducer_updateSafeInst, turn, pending]
  simp

/-- What the safe-status update decides about an instruction. -/
structure Decides (before after : Heap) (seq : Nat) : Prop where
  control : (after seq).isControlRestricted = true ↔
    (before seq).isControlRestricted = true ∧
      ∃ older ∈ instList, older < seq ∧ (before older).isControlInducer = true
  data : (after seq).isDataRestricted = true ↔
    (before seq).isDataRestricted = true ∧ (before seq).ydi ∈ instList ∧
      (before seq).ydi < seq ∧ (after (before seq).ydi).isDataInducer = true
  inducer : (after seq).isDataInducer = true ↔
    (before seq).isDataInducer = true ∧
      (config.isDolmaConservative = true ∨ (after seq).isPendingMemOrder = true ∨
        isCovered config instList before seq = true)
  stalled : (after seq).isDolmaStalled = true ↔
    (before seq).isDolmaStalled = true ∧
      ((before seq).isDolmaRestricted = true → (after seq).isDolmaRestricted = true)

/-- The update clears a control restriction exactly if no older control inducer is left, a data
restriction if the youngest inducer is resolved, and resolves a data inducer if it is not pending
and not covered. A stall ends with the restriction. -/
theorem updateSafeStatus_decides
    {heap : Heap} (sorted : instList.Pairwise (· < ·)) (younger : ViolatorsYounger instList heap)
    (seq : Nat) (member : seq ∈ instList) :
    Decides config instList heap (updateSafeStatus config instList heap) seq := by
  obtain ⟨scan, holds, final⟩ := updateSafeStatus_processed config heap sorted
  have pendingKept := isDataInducer_of_isPendingMemOrder config instList sorted younger member
  rw [final] at pendingKept ⊢
  refine ⟨?_, holds.data seq member, ⟨holds.remains seq member, ?_⟩, ?_⟩
  · rw [holds.control seq member]
    simp
  · rintro ⟨inducer, conservative | pending | covered⟩
    · exact holds.kept seq member inducer (.inl conservative)
    · exact pendingKept inducer pending
    · exact holds.kept seq member inducer (.inr (.inr covered))
  · rw [holds.stalled seq member]
    cases (heap seq).isDolmaRestricted <;> simp

/-- Store 1 is released and makes load 2 pending, on which instruction 3 depends. -/
def releasedStore : Heap
  | 1 =>
      { ({ staticInst := { isStore := true } } : DynInst).setStatus .controlRestricted true with
        effAddrValid := true, violatorSeqNum := 2, violator := some 2 }
  | 2 => ({ staticInst := { isLoad := true } } : DynInst).setStatus .dataInducer true
  | 3 => { ({} : DynInst).setStatus .dataRestricted true with ydi := 2 }
  | _ => {}

theorem updateSafeStatus_idempotent_releasedStore :
    (updateSafeStatus { mode := 1 } [1, 2, 3] releasedStore 2).isPendingMemOrder = true ∧
      updateSafeStatus { mode := 1 } [1, 2, 3]
          (updateSafeStatus { mode := 1 } [1, 2, 3] releasedStore) =
        updateSafeStatus { mode := 1 } [1, 2, 3] releasedStore := by
  refine ⟨by decide, updateSafeStatus_idempotent { mode := 1 } [1, 2, 3] (by decide) ?_⟩
  intro store member isStore violator link
  simp only [List.mem_cons, List.not_mem_nil, or_false] at member
  rcases member with rfl | rfl | rfl
  · cases link
    decide
  · cases link
  · cases link

/-- The load that becomes pending stays an inducer, so what depends on it stays
restricted. -/
theorem updateSafeStatus_decides_releasedStore :
    (updateSafeStatus { mode := 1 } [1, 2, 3] releasedStore 2).isDataInducer = true := by
  have younger : ViolatorsYounger [1, 2, 3] releasedStore := by
    intro store member isStore violator link
    simp only [List.mem_cons, List.not_mem_nil, or_false] at member
    rcases member with rfl | rfl | rfl <;> cases link
    decide
  exact (updateSafeStatus_decides { mode := 1 } [1, 2, 3] (by decide) younger 2
    (by decide)).inducer.mpr ⟨by decide, .inr (.inl (by decide))⟩

end Rob
end Dolma

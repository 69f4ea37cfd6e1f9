import Dolma.Rob.SafeStatus

/-!
# The safe-status pass over the whole reorder buffer

The invariant of the pass relates the flags of the processed instructions to
the state in which the pass began. At the end it says what the pass keeps and
what it releases: control restriction below an unresolved branch, data
restriction on a data inducer that stays, and a data inducer that is
conservative, pending or covered by an older instruction.
-/

namespace Dolma
namespace Rob

section Cover

variable (config : Config) (instList : List Nat) (heap : Heap)

/-- A store without an address. -/
def isUnresolvedStore (inst : DynInst) : Bool :=
  isTrackedStore config inst && !inst.effAddrValid

/-- A store that collided with a load that is still in the reorder buffer. -/
def hasLiveViolator (inst : DynInst) : Bool :=
  isTrackedStore config inst && inst.effAddrValid &&
    inst.violatorSeqNum != 0 && violatorIsLive instList heap inst

/-- An older instruction whose presence keeps a data inducer unresolved. -/
def coversInducer (older seq : Nat) : Bool :=
  decide (older < seq) &&
    (isUnresolvedStore config (heap older) ||
      (hasLiveViolator config instList heap (heap older) &&
        decide ((heap older).violatorSeqNum ≤ seq)) ||
      (config.isDolmaMemOnly && (heap older).isControlInducer))

/-- Some older instruction keeps a data inducer unresolved. -/
def isCovered (seq : Nat) : Bool :=
  instList.any fun older => coversInducer config instList heap older seq

end Cover

/-- What holds after the pass has looked at the instructions `processed` of the
reorder buffer. -/
structure Processed
    (config : Config) (instList : List Nat) (heap : Heap) (processed : List Nat)
    (scan : SafeScan) : Prop where
  agrees : ∀ seq, DynInst.Agrees safeFlags (heap seq) (scan.heap seq)
  untouched : ∀ seq, seq ∉ processed →
    DynInst.Agrees [.pendingMemOrder, .canCommit] (heap seq) (scan.heap seq) ∧
      (scan.heap seq).violatorSeqNum = (heap seq).violatorSeqNum
  branch : scan.foundUnresolvedBranch = processed.any fun older => (heap older).isControlInducer
  store : scan.foundUnresolvedStore =
    processed.any fun older => isUnresolvedStore config (heap older)
  ydis : ∀ seq, seq ∈ scan.ydis ↔ seq ∈ processed ∧ (scan.heap seq).isDataInducer = true
  oldest : ∀ violator, scan.oldestViolator = some violator →
    ∃ older ∈ processed,
      hasLiveViolator config instList heap (heap older) = true ∧
        (heap older).violatorSeqNum = violator
  oldestLe : ∀ older ∈ processed,
    hasLiveViolator config instList heap (heap older) = true →
      ∃ violator, scan.oldestViolator = some violator ∧ violator ≤ (heap older).violatorSeqNum
  control : ∀ seq ∈ processed,
    (scan.heap seq).isControlRestricted =
      ((heap seq).isControlRestricted && processed.any fun older =>
          decide (older < seq) && (heap older).isControlInducer)
  data : ∀ seq ∈ processed,
    (scan.heap seq).isDataRestricted = true ↔
      (heap seq).isDataRestricted = true ∧ (heap seq).ydi ∈ processed ∧
        (heap seq).ydi < seq ∧
        (scan.heap (heap seq).ydi).isDataInducer = true
  remains : ∀ seq ∈ processed, (scan.heap seq).isDataInducer = true →
    (heap seq).isDataInducer = true ∧
      (config.isDolmaConservative = true ∨
        (scan.heap seq).isPendingMemOrder = true ∨
        isCovered config instList heap seq = true)
  kept : ∀ seq ∈ processed, (heap seq).isDataInducer = true →
    (config.isDolmaConservative = true ∨
        (heap seq).isPendingMemOrder = true ∨
        isCovered config instList heap seq = true) →
      (scan.heap seq).isDataInducer = true
  pending : ∀ seq, (heap seq).isPendingMemOrder = true → (scan.heap seq).isPendingMemOrder = true
  pendingFrom : ∀ seq, (scan.heap seq).isPendingMemOrder = true →
    (heap seq).isPendingMemOrder = true ∨
      ∃ store ∈ processed, (heap store).violator = some seq ∧
        (heap store).staticInst.isStore = true ∧
        (heap store).isDolmaRestricted = true ∧
        (scan.heap store).isDolmaRestricted = false
  stalled : ∀ seq ∈ processed,
    (scan.heap seq).isDolmaStalled =
      ((heap seq).isDolmaStalled &&
        (!(heap seq).isDolmaRestricted || (scan.heap seq).isDolmaRestricted))
  collision : ∀ seq,
    (scan.heap seq).violatorSeqNum = (heap seq).violatorSeqNum ∨
      (scan.heap seq).violatorSeqNum = 0 ∧ hasLiveViolator config instList heap (heap seq) = false

section Step

variable
    {config : Config}
    {instList processed rest : List Nat}
    {heap : Heap}
    {scan : SafeScan}
    {seq : Nat}

private theorem lt_of_mem_processed
    (sorted : instList.Pairwise (· < ·)) (split : instList = processed ++ seq :: rest)
    (member : older ∈ processed) :
    older < seq := by
  subst split
  exact (List.pairwise_append.mp sorted).2.2 older member seq List.mem_cons_self

private theorem mem_processed_of_lt
    (sorted : instList.Pairwise (· < ·)) (split : instList = processed ++ seq :: rest)
    (member : older ∈ instList) (before : older < seq) :
    older ∈ processed := by
  subst split
  have after := (List.pairwise_cons.mp (List.pairwise_append.mp sorted).2.1).1
  rcases List.mem_append.mp member with first | second
  · exact first
  · rcases List.mem_cons.mp second with same | later
    · omega
    · have := after older later
      omega

section

variable (holds : Processed config instList heap processed scan)
include holds

/-- An inducer is kept at its turn exactly if it is conservative, pending or
covered. -/
private theorem keeps_iff
    (sorted : instList.Pairwise (· < ·)) (split : instList = processed ++ seq :: rest) :
    ((config.isDolmaMemOnly && scan.foundUnresolvedBranch) ||
        (!config.isSTT &&
          (scan.foundUnresolvedStore || scan.oldestViolator.any (· ≤ seq)))) = true ↔
      isCovered config instList heap seq = true := by
  have contained : ∀ older ∈ processed, older ∈ instList := by
    intro older member
    rw [split]
    exact List.mem_append_left _ member
  have before : ∀ older ∈ processed, older < seq := fun _ => lt_of_mem_processed sorted split
  have notSTT : ∀ inst, isTrackedStore config inst = true → config.isSTT = false := by
    intro inst tracked
    simp only [isTrackedStore, Bool.and_eq_true, Bool.not_eq_eq_eq_not, Bool.not_true] at tracked
    exact tracked.1.2
  constructor
  · intro keep
    simp only [isCovered, List.any_eq_true, coversInducer, Bool.and_eq_true,
      Bool.or_eq_true, decide_eq_true_eq]
    simp only [Bool.or_eq_true, Bool.and_eq_true] at keep
    rcases keep with ⟨memOnly, found⟩ | ⟨_, found | found⟩
    · rw [holds.branch, List.any_eq_true] at found
      obtain ⟨older, member, inducer⟩ := found
      exact ⟨older, contained older member, before older member, Or.inr ⟨memOnly, inducer⟩⟩
    · rw [holds.store, List.any_eq_true] at found
      obtain ⟨older, member, unresolved⟩ := found
      exact ⟨older, contained older member, before older member, Or.inl (Or.inl unresolved)⟩
    · cases oldest : scan.oldestViolator with
      | none => simp [oldest] at found
      | some violator =>
          simp only [oldest, Option.any_some, decide_eq_true_eq] at found
          obtain ⟨older, member, collided, same⟩ := holds.oldest violator oldest
          exact ⟨older, contained older member, before older member,
            Or.inl (Or.inr ⟨collided, same ▸ found⟩)⟩
  · intro covered
    simp only [isCovered, List.any_eq_true, coversInducer, Bool.and_eq_true,
      Bool.or_eq_true, decide_eq_true_eq] at covered
    obtain ⟨older, member, earlier, reason⟩ := covered
    have processedMember := mem_processed_of_lt sorted split member earlier
    simp only [Bool.or_eq_true, Bool.and_eq_true, Bool.not_eq_eq_eq_not, Bool.not_true]
    rcases reason with (unresolved | ⟨collided, atMost⟩) | ⟨memOnly, inducer⟩
    · refine Or.inr ⟨?_, Or.inl ?_⟩
      · simp only [isUnresolvedStore, Bool.and_eq_true] at unresolved
        exact notSTT _ unresolved.1
      · rw [holds.store, List.any_eq_true]
        exact ⟨older, processedMember, unresolved⟩
    · refine Or.inr ⟨?_, Or.inr ?_⟩
      · simp only [hasLiveViolator, Bool.and_eq_true] at collided
        exact notSTT _ collided.1.1.1
      · obtain ⟨violator, oldest, bound⟩ :=
          holds.oldestLe older processedMember collided
        simp only [oldest, Option.any_some, decide_eq_true_eq]
        omega
    · refine Or.inl ⟨memOnly, ?_⟩
      rw [holds.branch, List.any_eq_true]
      exact ⟨older, processedMember, inducer⟩

private theorem Processed.isLive_next
    (fresh : seq ∉ processed) (flag : Status)
    (kept : flag ∉ [Status.pendingMemOrder, Status.canCommit]) :
    (scan.heap seq).isLive flag = (heap seq).isLive flag :=
  (holds.untouched seq fresh).1.isLive flag (by simp) kept

private theorem Processed.trackedStore_next (seq : Nat) :
    isTrackedStore config (scan.heap seq) = isTrackedStore config (heap seq) :=
  isTrackedStore_of_agrees config (holds.agrees seq) (by simp [safeFlags])

private theorem Processed.violatorLive_next (fresh : seq ∉ processed) :
    violatorIsLive instList scan.heap (scan.heap seq) = violatorIsLive instList heap (heap seq) :=
  violatorIsLive_of_agrees instList
    (fun other => (holds.agrees other).isSquashed (by simp [safeFlags]))
    (holds.untouched seq fresh).2

end

variable {other : Nat}

private theorem isLive_updateSafeInst_of_mem
    (config : Config) (instList : List Nat) (scan : SafeScan) (fresh : seq ∉ processed)
    (member : other ∈ processed) (flag : Status)
    (kept : flag ∉ [Status.pendingMemOrder, Status.canCommit]) :
    ((updateSafeInst config instList scan seq).heap other).isLive flag =
      (scan.heap other).isLive flag := by
  have distinct : other ≠ seq := fun same => fresh (same ▸ member)
  exact (updateSafeInst_agrees_of_ne config instList scan seq distinct).1.isLive
    flag (by simp) kept

private theorem isDataInducer_updateSafeInst_of_mem
    (config : Config) (instList : List Nat) (scan : SafeScan) (fresh : seq ∉ processed)
    (member : other ∈ processed) :
    ((updateSafeInst config instList scan seq).heap other).isDataInducer =
      (scan.heap other).isDataInducer :=
  isLive_updateSafeInst_of_mem config instList scan fresh member _ (by simp)

private theorem isDolmaRestricted_updateSafeInst_of_mem
    (config : Config) (instList : List Nat) (scan : SafeScan) (fresh : seq ∉ processed)
    (member : other ∈ processed) :
    ((updateSafeInst config instList scan seq).heap other).isDolmaRestricted =
      (scan.heap other).isDolmaRestricted := by
  have control := isLive_updateSafeInst_of_mem config instList scan fresh member
    .controlRestricted (by simp)
  have data := isLive_updateSafeInst_of_mem config instList scan fresh member
    .dataRestricted (by simp)
  simp only [DynInst.isDolmaRestricted_eq, DynInst.isControlRestricted,
    DynInst.isDataRestricted, control, data]

private theorem released_of_releasedViolator
    (instList : List Nat) (found : releasedViolator config scan (scan.heap seq) = some violator) :
    (scan.heap seq).violator = some violator ∧
      (scan.heap seq).staticInst.isStore = true ∧
      (scan.heap seq).isDolmaRestricted = true ∧
      ((updateSafeInst config instList scan seq).heap
        seq).isDolmaRestricted = false := by
  have control := isControlRestricted_updateSafeInst config instList scan seq
  have data := isDataRestricted_updateSafeInst config instList scan seq
  have clearedControl :=
    isControlRestricted_clearRestrictions scan (scan.heap seq)
  have clearedData := isDataRestricted_clearRestrictions scan (scan.heap seq)
  unfold releasedViolator at found
  split at found
  · rename_i conditions
    simp only [Bool.and_eq_true, Bool.not_eq_eq_eq_not, Bool.not_true] at conditions
    obtain ⟨⟨⟨⟨restricted, released⟩, _⟩, isStore⟩, _⟩ := conditions
    refine ⟨(Option.filter_eq_some_iff.mp found).1, isStore, restricted, ?_⟩
    rw [DynInst.isDolmaRestricted_eq] at released ⊢
    rw [control, data, ← clearedControl, ← clearedData]
    exact released
  · cases found

section

variable (holds : Processed config instList heap processed scan)
include holds

/-- The pass at the next instruction extends the invariant: the restrictions
and inducers. -/
private theorem Processed.step_flags
    (sorted : instList.Pairwise (· < ·)) (split : instList = processed ++ seq :: rest) :
    (∀ other ∈ processed ++ [seq],
      ((updateSafeInst config instList scan seq).heap other).isControlRestricted =
        ((heap other).isControlRestricted && (processed ++ [seq]).any fun older =>
            decide (older < other) && (heap older).isControlInducer)) ∧
    (∀ other ∈ processed ++ [seq],
      ((updateSafeInst config instList scan seq).heap other).isDataRestricted = true ↔
        (heap other).isDataRestricted = true ∧
          (heap other).ydi ∈ processed ++ [seq] ∧ (heap other).ydi < other ∧
          ((updateSafeInst config instList scan seq).heap
            (heap other).ydi).isDataInducer = true) := by
  have before : ∀ older ∈ processed, older < seq := fun _ => lt_of_mem_processed sorted split
  have fresh : seq ∉ processed := fun member => Nat.lt_irrefl _ (before seq member)
  -- The data inducer of an instruction is older, so it was processed before the next one.
  have older : ∀ other ≤ seq,
      ((heap other).ydi ∈ processed ++ [seq] ∧ (heap other).ydi < other ∧
          ((updateSafeInst config instList scan seq).heap
            (heap other).ydi).isDataInducer = true) ↔
        (heap other).ydi ∈ processed ∧ (heap other).ydi < other ∧
          (scan.heap (heap other).ydi).isDataInducer = true := by
    intro other bound
    constructor
    · rintro ⟨member, earlier, inducer⟩
      have first : (heap other).ydi ∈ processed := by
        rcases List.mem_append.mp member with first | last
        · exact first
        · rw [List.mem_singleton] at last
          omega
      rw [isDataInducer_updateSafeInst_of_mem config instList scan fresh first] at inducer
      exact ⟨first, earlier, inducer⟩
    · rintro ⟨member, earlier, inducer⟩
      rw [isDataInducer_updateSafeInst_of_mem config instList scan fresh member]
      exact ⟨List.mem_append_left _ member, earlier, inducer⟩
  constructor
  · intro other member
    rcases List.mem_append.mp member with earlier | last
    · have unchanged : ((updateSafeInst config instList scan seq).heap
          other).isControlRestricted = (scan.heap other).isControlRestricted :=
        isLive_updateSafeInst_of_mem config instList scan fresh earlier _ (by simp)
      have notAfter : ¬ seq < other := by
        have := before other earlier
        omega
      rw [unchanged, holds.control other earlier]
      simp [List.any_append, notAfter]
    · rw [List.mem_singleton] at last
      subst last
      have flag : (scan.heap other).isControlRestricted =
          (heap other).isControlRestricted :=
        holds.isLive_next fresh _ (by simp)
      rw [isControlRestricted_updateSafeInst, flag, holds.branch]
      congr 1
      rw [Bool.eq_iff_iff]
      simp only [List.any_eq_true, List.mem_append, List.mem_singleton,
        Bool.and_eq_true, decide_eq_true_eq]
      constructor
      · rintro ⟨older, memberOlder, inducer⟩
        exact ⟨older, Or.inl memberOlder, before older memberOlder, inducer⟩
      · rintro ⟨older, memberOlder | same, earlier, inducer⟩
        · exact ⟨older, memberOlder, inducer⟩
        · omega
  · intro other member
    rcases List.mem_append.mp member with earlier | last
    · have unchanged : ((updateSafeInst config instList scan seq).heap
          other).isDataRestricted = (scan.heap other).isDataRestricted :=
        isLive_updateSafeInst_of_mem config instList scan fresh earlier _ (by simp)
      rw [unchanged, holds.data other earlier, older other (Nat.le_of_lt (before other earlier))]
    · rw [List.mem_singleton] at last
      subst last
      have flag : (scan.heap other).isDataRestricted =
          (heap other).isDataRestricted :=
        holds.isLive_next fresh _ (by simp)
      rw [isDataRestricted_updateSafeInst, flag, (holds.agrees other).ydi,
        older other (Nat.le_refl _)]
      simp only [Bool.and_eq_true, List.contains_iff_mem]
      rw [holds.ydis]
      constructor
      · rintro ⟨restricted, member, inducer⟩
        exact ⟨restricted, member, before _ member, inducer⟩
      · rintro ⟨restricted, member, -, inducer⟩
        exact ⟨restricted, member, inducer⟩

private theorem Processed.step_inducers
    (sorted : instList.Pairwise (· < ·)) (split : instList = processed ++ seq :: rest)
    (fresh : seq ∉ processed) :
    (∀ other ∈ processed ++ [seq],
      ((updateSafeInst config instList scan seq).heap other).isDataInducer = true →
      (heap other).isDataInducer = true ∧
        (config.isDolmaConservative = true ∨
          ((updateSafeInst config instList scan seq).heap
            other).isPendingMemOrder = true ∨
          isCovered config instList heap other = true)) ∧
    (∀ other ∈ processed ++ [seq], (heap other).isDataInducer = true →
      (config.isDolmaConservative = true ∨
        (heap other).isPendingMemOrder = true ∨
        isCovered config instList heap other = true) →
      ((updateSafeInst config instList scan seq).heap
        other).isDataInducer = true) := by
  have keeps := keeps_iff holds sorted split
  have same : ∀ other ∈ processed, _ := fun _ member =>
    isDataInducer_updateSafeInst_of_mem config instList scan fresh member
  have flag : (scan.heap seq).isDataInducer = (heap seq).isDataInducer :=
    holds.isLive_next fresh _ (by simp)
  constructor
  · intro other member inducer
    rcases List.mem_append.mp member with earlier | last
    · rw [same other earlier] at inducer
      obtain ⟨original, reason⟩ := holds.remains other earlier inducer
      refine ⟨original, ?_⟩
      rcases reason with conservative | pending | covered
      · exact Or.inl conservative
      · refine Or.inr (Or.inl ?_)
        rw [isPendingMemOrder_updateSafeInst, pending]
        rfl
      · exact Or.inr (Or.inr covered)
    · rw [List.mem_singleton] at last
      subst last
      rw [isPendingMemOrder_updateSafeInst]
      rw [isDataInducer_updateSafeInst, flag, Bool.or_assoc, Bool.and_eq_true,
        Bool.or_eq_true, Bool.or_eq_true, keeps] at inducer
      exact ⟨inducer.1, by tauto⟩
  · intro other member inducer reason
    rcases List.mem_append.mp member with earlier | last
    · rw [same other earlier]
      exact holds.kept other earlier inducer reason
    · rw [List.mem_singleton] at last
      subst last
      have pending := holds.pending other
      rw [isDataInducer_updateSafeInst, flag, Bool.or_assoc, Bool.and_eq_true,
        Bool.or_eq_true, Bool.or_eq_true, keeps, Bool.or_eq_true]
      exact ⟨inducer, by tauto⟩

private theorem Processed.step_pending (fresh : seq ∉ processed) :
    (∀ other, (heap other).isPendingMemOrder = true →
      ((updateSafeInst config instList scan seq).heap
        other).isPendingMemOrder = true) ∧
    (∀ other, ((updateSafeInst config instList scan seq).heap
        other).isPendingMemOrder = true →
      (heap other).isPendingMemOrder = true ∨
        ∃ store ∈ processed ++ [seq], (heap store).violator = some other ∧
          (heap store).staticInst.isStore = true ∧
          (heap store).isDolmaRestricted = true ∧
          ((updateSafeInst config instList scan seq).heap
            store).isDolmaRestricted = false) := by
  constructor
  · intro other pending
    rw [isPendingMemOrder_updateSafeInst, holds.pending other pending]
    rfl
  · intro other pending
    rw [isPendingMemOrder_updateSafeInst, Bool.or_eq_true] at pending
    rcases pending with earlier | released
    · rcases holds.pendingFrom other earlier with original | found
      · exact Or.inl original
      · obtain ⟨store, member, violator, isStore, restricted, after⟩ := found
        refine Or.inr ⟨store, List.mem_append_left _ member, violator, isStore, restricted, ?_⟩
        rw [isDolmaRestricted_updateSafeInst_of_mem config instList scan fresh
          member]
        exact after
    · have found := released_of_releasedViolator instList (eq_of_beq released)
      obtain ⟨violator, isStore, restricted, after⟩ := found
      have agrees := (holds.untouched seq fresh).1
      refine Or.inr ⟨seq, by simp, ?_, ?_, ?_, after⟩
      · rw [← agrees.violator]
        exact violator
      · rw [← agrees.staticInst]
        exact isStore
      · have control := agrees.isLive .controlRestricted (by simp) (by simp)
        have data := agrees.isLive .dataRestricted (by simp) (by simp)
        rw [DynInst.isDolmaRestricted_eq] at restricted ⊢
        unfold DynInst.isControlRestricted DynInst.isDataRestricted at *
        rw [control, data] at restricted
        exact restricted

private theorem Processed.step_collisions (fresh : seq ∉ processed) :
    (∀ violator,
      (updateSafeInst config instList scan seq).oldestViolator = some violator →
      ∃ older ∈ processed ++ [seq],
        hasLiveViolator config instList heap (heap older) = true ∧
          (heap older).violatorSeqNum = violator) ∧
    (∀ older ∈ processed ++ [seq],
      hasLiveViolator config instList heap (heap older) = true →
      ∃ violator,
        (updateSafeInst config instList scan seq).oldestViolator =
            some violator ∧
          violator ≤ (heap older).violatorSeqNum) ∧
    (∀ other,
      ((updateSafeInst config instList scan seq).heap other).violatorSeqNum =
          (heap other).violatorSeqNum ∨
        ((updateSafeInst config instList scan seq).heap
            other).violatorSeqNum = 0 ∧
          hasLiveViolator config instList heap (heap other) = false) := by
  have tracked := holds.trackedStore_next seq
  have live := holds.violatorLive_next fresh
  have collision := (holds.untouched seq fresh).2
  have address := (holds.agrees seq).effAddrValid
  have collides : collidesEarlier config scan (scan.heap seq) =
      (isTrackedStore config (heap seq) && (heap seq).effAddrValid &&
        (heap seq).violatorSeqNum != 0 &&
        scan.oldestViolator.all ((heap seq).violatorSeqNum < ·)) := by
    unfold collidesEarlier
    rw [tracked, address, collision]
  refine ⟨?_, ?_, ?_⟩
  · intro violator found
    rw [oldestViolator_updateSafeInst, collides, live, collision] at found
    split at found
    · rename_i condition
      simp only [Bool.and_eq_true] at condition
      refine ⟨seq, by simp, ?_, by simpa using found⟩
      simp only [hasLiveViolator, Bool.and_eq_true]
      exact ⟨condition.1.1, condition.2⟩
    · obtain ⟨older, member, facts⟩ := holds.oldest violator found
      exact ⟨older, List.mem_append_left _ member, facts⟩
  · intro older member collided
    rw [oldestViolator_updateSafeInst, collides, live, collision]
    rcases List.mem_append.mp member with earlier | last
    · obtain ⟨violator, found, bound⟩ := holds.oldestLe older earlier collided
      split
      · rename_i condition
        simp only [Bool.and_eq_true, found, Option.all_some, decide_eq_true_eq] at condition
        exact ⟨_, rfl, by omega⟩
      · exact ⟨violator, found, bound⟩
    · rw [List.mem_singleton] at last
      subst last
      split
      · exact ⟨_, rfl, Nat.le_refl _⟩
      · rename_i condition
        simp only [hasLiveViolator, Bool.and_eq_true] at collided
        cases found : scan.oldestViolator with
        | none =>
            simp [found, collided] at condition
        | some violator =>
            refine ⟨violator, rfl, ?_⟩
            by_contra larger
            apply condition
            simp only [Bool.and_eq_true, found, Option.all_some, decide_eq_true_eq]
            exact ⟨⟨collided.1, by omega⟩, collided.2⟩
  · intro other
    by_cases same : other = seq
    · subst same
      rw [violatorSeqNum_updateSafeInst, collides, live, collision]
      split
      · rename_i condition
        simp only [Bool.and_eq_true, Bool.not_eq_eq_eq_not, Bool.not_true] at condition
        refine Or.inr ⟨rfl, ?_⟩
        simp [hasLiveViolator, condition.2]
      · exact Or.inl rfl
    · rw [(updateSafeInst_agrees_of_ne config instList scan seq same).2]
      exact holds.collision other

end

private theorem Processed.start (config : Config) (instList : List Nat) (heap : Heap) :
    Processed config instList heap [] { heap := heap } where
  agrees seq := DynInst.Agrees.refl _ _
  untouched seq _ := ⟨DynInst.Agrees.refl _ _, rfl⟩
  branch := rfl
  store := rfl
  ydis seq := by simp
  oldest violator found := by cases found
  oldestLe older member := by simp at member
  control seq member := by simp at member
  data seq member := by simp at member
  remains seq member := by simp at member
  kept seq member := by simp at member
  pending seq pending := pending
  pendingFrom seq pending := Or.inl pending
  stalled seq member := by simp at member
  collision seq := Or.inl rfl

private theorem Processed.step
    (holds : Processed config instList heap processed scan) (sorted : instList.Pairwise (· < ·))
    (split : instList = processed ++ seq :: rest) :
    Processed config instList heap (processed ++ [seq])
      (updateSafeInst config instList scan seq) := by
  have fresh : seq ∉ processed := fun member =>
    Nat.lt_irrefl _ (lt_of_mem_processed sorted split member)
  have flags := holds.step_flags sorted split
  have inducers := holds.step_inducers sorted split fresh
  have pendings := holds.step_pending fresh
  have collisions := holds.step_collisions fresh
  have keptInducer : ∀ other ∈ processed, _ := fun _ member =>
    isDataInducer_updateSafeInst_of_mem config instList scan fresh member
  constructor
  case agrees =>
    intro other
    exact (holds.agrees other).trans
      (updateSafeInst_agrees config instList scan seq other)
  case untouched =>
    intro other absent
    simp only [List.mem_append, List.mem_singleton, not_or] at absent
    have here := holds.untouched other absent.1
    have next := updateSafeInst_agrees_of_ne config instList scan seq absent.2
    exact ⟨here.1.trans next.1, next.2.trans here.2⟩
  case branch =>
    rw [foundUnresolvedBranch_updateSafeInst, holds.branch, List.any_append]
    have flag : (scan.heap seq).isControlInducer = (heap seq).isControlInducer :=
      holds.isLive_next fresh _ (by simp)
    simp [flag]
  case store =>
    rw [foundUnresolvedStore_updateSafeInst, holds.store, List.any_append,
      holds.trackedStore_next seq, (holds.agrees seq).effAddrValid]
    simp [isUnresolvedStore]
  case ydis =>
    intro other
    rw [ydis_updateSafeInst]
    by_cases same : other = seq
    · subst same
      have absent : other ∉ scan.ydis := fun member =>
        fresh ((holds.ydis other).mp member).1
      split <;> simp_all
    · have earlier := holds.ydis other
      have member : other ∈ (if ((updateSafeInst config instList scan seq).heap
          seq).isDataInducer then seq :: scan.ydis else scan.ydis) ↔ other ∈ scan.ydis := by
        split <;> simp [same]
      rw [member, earlier]
      constructor
      · rintro ⟨first, inducer⟩
        exact ⟨List.mem_append_left _ first, keptInducer other first ▸ inducer⟩
      · rintro ⟨either, inducer⟩
        have first : other ∈ processed := by
          rcases List.mem_append.mp either with first | last
          · exact first
          · exact absurd (List.mem_singleton.mp last) same
        exact ⟨first, keptInducer other first ▸ inducer⟩
  case oldest => exact collisions.1
  case oldestLe => exact collisions.2.1
  case control => exact flags.1
  case data => exact flags.2
  case remains => exact inducers.1
  case kept => exact inducers.2
  case pending => exact pendings.1
  case pendingFrom => exact pendings.2
  case stalled =>
    intro other member
    rcases List.mem_append.mp member with earlier | last
    · have unchanged : ((updateSafeInst config instList scan seq).heap
          other).isDolmaStalled = (scan.heap other).isDolmaStalled :=
        isLive_updateSafeInst_of_mem config instList scan fresh earlier _ (by simp)
      rw [unchanged, isDolmaRestricted_updateSafeInst_of_mem config instList scan
        fresh earlier]
      exact holds.stalled other earlier
    · rw [List.mem_singleton] at last
      subst last
      have stalled : (scan.heap other).isDolmaStalled =
          (heap other).isDolmaStalled := holds.isLive_next fresh _ (by simp)
      have control : (scan.heap other).isControlRestricted =
          (heap other).isControlRestricted := holds.isLive_next fresh _ (by simp)
      have data : (scan.heap other).isDataRestricted =
          (heap other).isDataRestricted := holds.isLive_next fresh _ (by simp)
      rw [isDolmaStalled_updateSafeInst, stalled,
        DynInst.isDolmaRestricted_eq (scan.heap other), control, data,
        ← DynInst.isDolmaRestricted_eq]
  case collision => exact collisions.2.2

end Step

section Whole

variable (config : Config) {instList : List Nat} (heap : Heap)

theorem updateSafeStatus_processed (sorted : instList.Pairwise (· < ·)) :
    ∃ scan : SafeScan, Processed config instList heap instList scan ∧
      updateSafeStatus config instList heap = scan.heap := by
  refine ⟨_, ?_, rfl⟩
  exact Library.foldl_processed
    (motive := fun processed scan =>
      Processed config instList heap processed scan)
    instList (Processed.start config instList heap)
    (fun processed seq rest scan split holds => holds.step sorted split)

theorem updateSafeStatus_agrees (sorted : instList.Pairwise (· < ·)) (seq : Nat) :
    DynInst.Agrees safeFlags (heap seq)
      (updateSafeStatus config instList heap seq) := by
  obtain ⟨scan, holds, final⟩ := updateSafeStatus_processed config heap sorted
  rw [final]
  exact holds.agrees seq

variable {seq : Nat}

/-- Instructions outside the reorder buffer change in their pending flags
only. -/
theorem updateSafeStatus_untouched (sorted : instList.Pairwise (· < ·)) (absent : seq ∉ instList) :
    DynInst.Agrees [.pendingMemOrder, .canCommit] (heap seq)
      (updateSafeStatus config instList heap seq) := by
  obtain ⟨scan, holds, final⟩ := updateSafeStatus_processed config heap sorted
  rw [final]
  exact (holds.untouched seq absent).1

/-- Control restriction means an older control inducer. -/
theorem isControlRestricted_updateSafeStatus
    (sorted : instList.Pairwise (· < ·)) (member : seq ∈ instList) :
    (updateSafeStatus config instList heap seq).isControlRestricted =
      ((heap seq).isControlRestricted && instList.any fun older =>
          decide (older < seq) && (heap older).isControlInducer) := by
  obtain ⟨scan, holds, final⟩ := updateSafeStatus_processed config heap sorted
  rw [final]
  exact holds.control seq member

end Whole

end Rob
end Dolma

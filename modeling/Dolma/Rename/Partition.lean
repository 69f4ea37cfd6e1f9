import Dolma.Rename.Rollback

/-!
# Renaming keeps a partition of the physical registers and rolls back exactly

Every physical register but the zero register is on a free list, mapped by one
architectural register of one thread, or replaced by one entry of a history buffer. The
rename map of a thread is always the one that its youngest surviving instruction left
behind; after a squash this is the youngest one that is not squashed.
-/

namespace Dolma
namespace Rename

open Library

/-- The rename maps that the instructions of a thread left behind. -/
structure Snapshots where
  /-- The instructions in flight, the youngest first, each with the map right after it was
  renamed. -/
  inFlight : List (Nat × (RegId → PhysRegId)) := []
  /-- The map right after the last committed instruction was renamed. -/
  settled : RegId → PhysRegId

namespace Snapshots

/-- The map right after the youngest instruction was renamed. -/
def latest (snapshots : Snapshots) : RegId → PhysRegId :=
  match snapshots.inFlight with
  | [] => snapshots.settled
  | youngest :: _ => youngest.2

/-- An instruction is renamed. -/
def rename (snapshots : Snapshots) (seq : Nat) (map : RegId → PhysRegId) : Snapshots :=
  { snapshots with inFlight := (seq, map) :: snapshots.inFlight }

/-- Only the instructions up to a number survive. -/
def squash (snapshots : Snapshots) (keep : Nat) : Snapshots :=
  { snapshots with inFlight := snapshots.inFlight.filter fun inst => decide (inst.1 ≤ keep) }

/-- The instructions up to a number commit. -/
def commit (snapshots : Snapshots) (committed : Nat) : Snapshots where
  inFlight := snapshots.inFlight.filter fun inst => decide (committed < inst.1)
  settled := (snapshots.squash committed).latest

end Snapshots

/-- Take a snapshot of the map of a thread when an instruction is renamed. -/
def noteMaps
    (sizes : Sizes) (state : State) (event : Event) (maps : Nat → Snapshots) : Nat → Snapshots :=
  match event with
  | .rename thread seq _ =>
      match operate sizes state event with
      | none => maps
      | some next =>
          Function.update maps thread ((maps thread).rename seq (next.renameMap thread))
  | .squash thread keep => Function.update maps thread ((maps thread).squash keep)
  | .commit thread committed => Function.update maps thread ((maps thread).commit committed)
  | .dispatch _ => maps

/-- How often a register is mapped by architectural registers. -/
def mappings (sizes : Sizes) (state : State) (phys : PhysRegId) : Nat :=
  (slots sizes).countP fun slot => state.renameMap slot.1 slot.2 = phys

/-- How many entries of the history buffers have replaced a register. -/
def replacements (sizes : Sizes) (state : State) (phys : PhysRegId) : Nat :=
  ((threads sizes).flatMap state.historyBuffer).countP fun entry => entry.prevPhysReg = phys

/-- The physical registers are partitioned. -/
structure Partitioned (sizes : Sizes) (state : State) : Prop where
  place : ∀ regClass, ∀ phys ∈ regIds sizes regClass, phys ≠ state.renameMap 0 zeroId →
    (state.freeList regClass).count phys + mappings sizes state phys +
      replacements sizes state phys = 1
  free : ∀ regClass, ∀ phys ∈ state.freeList regClass, phys ∈ regIds sizes regClass
  zero : ∀ regClass, state.renameMap 0 zeroId ∉ state.freeList regClass

/-- The undo log of a thread with the snapshots of its maps. -/
abbrev SnapshotChain (base : RegId → PhysRegId) :
    (RegId → PhysRegId) → List RenameHistory → List (Nat × (RegId → PhysRegId)) → Prop :=
  Chain RenameHistory.restore RenameHistory.instSeqNum Prod.fst
    (fun inst _ map => map = inst.2) base

theorem SnapshotChain.latest_eq (chain : SnapshotChain base map history insts) :
    map = (Snapshots.mk insts base).latest := by
  cases insts with
  | nil => exact chain.2
  | cons youngest older =>
      obtain ⟨_, _, _, _, _, _, left, _⟩ := chain
      exact left

/-- The history buffer of a thread undoes what its snapshots tell. -/
structure Rolls (state : State) (maps : Nat → Snapshots) (thread : Nat) : Prop where
  chain : SnapshotChain (maps thread).settled (state.renameMap thread)
    (state.historyBuffer thread) (maps thread).inFlight
  ordered : (maps thread).inFlight.Pairwise fun first second => second.1 < first.1
  renamed : ∀ inst ∈ (maps thread).inFlight, inst.1 ≤ state.lastRenamed thread

namespace Rolls

variable {sizes : Sizes} {state next : State} {maps next' : Nat → Snapshots} {thread : Nat}

theorem congr
    (rolls : Rolls state maps thread) (same : SameThread thread state next)
    (snapshots : next' thread = maps thread)
    (lastRenamed : state.lastRenamed thread ≤ next.lastRenamed thread) :
    Rolls next next' thread := by
  obtain ⟨chain, ordered, renamed⟩ := rolls
  refine ⟨?_, ?_, fun inst member => ?_⟩
  · rw [same.renameMap, same.historyBuffer, snapshots]
    exact chain
  · rw [snapshots]
    exact ordered
  · rw [snapshots] at member
    exact Nat.le_trans (renamed inst member) lastRenamed

theorem sorted (rolls : Rolls state maps thread) :
    (state.historyBuffer thread).Pairwise fun first second =>
      second.instSeqNum ≤ first.instSeqNum :=
  rolls.chain.sorted rolls.ordered

/-- A squash leads back to the youngest surviving instruction. -/
theorem squash
    (rolls : Rolls state maps thread) (keep : Nat)
    (history : next.historyBuffer thread =
      (state.historyBuffer thread).dropWhile fun entry => decide (keep < entry.instSeqNum))
    (map : next.renameMap thread = rollback RenameHistory.restore
      ((state.historyBuffer thread).takeWhile fun entry => decide (keep < entry.instSeqNum))
      (state.renameMap thread))
    (lastRenamed : next.lastRenamed = state.lastRenamed)
    (snapshots : next' thread = (maps thread).squash keep) :
    Rolls next next' thread := by
  obtain ⟨mid, young, old⟩ := rolls.chain.split rolls.ordered keep
  rw [takeWhile_eq_filter_of_sorted _ rolls.sorted, young.rollback_eq] at map
  rw [dropWhile_eq_filter_of_sorted _ rolls.sorted] at history
  refine ⟨?_, ?_, fun inst member => ?_⟩
  · rw [history, map, snapshots]
    exact old
  · rw [snapshots]
    exact rolls.ordered.filter _
  · rw [snapshots] at member
    rw [lastRenamed]
    exact rolls.renamed inst (List.mem_of_mem_filter member)

theorem commit
    (rolls : Rolls state maps thread) (committed : Nat)
    (history : next.historyBuffer thread =
      ((state.historyBuffer thread).reverse.dropWhile fun entry =>
        decide (entry.instSeqNum ≤ committed)).reverse)
    (map : next.renameMap = state.renameMap) (lastRenamed : next.lastRenamed = state.lastRenamed)
    (snapshots : next' thread = (maps thread).commit committed) :
    Rolls next next' thread := by
  obtain ⟨mid, young, old⟩ := rolls.chain.split rolls.ordered committed
  rw [reverse_dropWhile_eq_filter_of_sorted _ rolls.sorted] at history
  have settled : mid = ((maps thread).squash committed).latest := SnapshotChain.latest_eq old
  refine ⟨?_, ?_, fun inst member => ?_⟩
  · rw [history, map, snapshots, Snapshots.commit, ← settled]
    exact young
  · rw [snapshots]
    exact rolls.ordered.filter _
  · rw [snapshots] at member
    rw [lastRenamed]
    exact rolls.renamed inst (List.mem_of_mem_filter member)

theorem rename
    (rolls : Rolls state maps thread) (pushes : Pushes (thread, seq) dests state next)
    (increasing : state.lastRenamed thread < seq) (lastRenamed : next.lastRenamed thread = seq)
    (snapshots : next' thread = (maps thread).rename seq (next.renameMap thread)) :
    Rolls next next' thread := by
  obtain ⟨own, pushed, owned, undone⟩ := pushes.entries
  refine ⟨?_, ?_, fun inst member => ?_⟩
  · rw [snapshots, pushed]
    exact rolls.chain.push owned undone rfl
  · rw [snapshots]
    refine List.pairwise_cons.mpr ⟨fun older member => ?_, rolls.ordered⟩
    exact Nat.lt_of_le_of_lt (rolls.renamed older member) increasing
  · rw [snapshots] at member
    rw [lastRenamed]
    rcases List.mem_cons.mp member with rfl | older
    · exact Nat.le_refl _
    · exact Nat.le_of_lt (Nat.lt_of_le_of_lt (rolls.renamed inst older) increasing)

theorem operate
    (rolls : ∀ thread, Rolls state maps thread) (event : Event)
    (enabled : operate sizes state event = some next) (other : Nat) :
    Rolls next (noteMaps sizes state event maps) other := by
  cases event with
  | rename thread seq regs =>
      obtain ⟨-, increasing, -, lastRenamed, _, _, -, -, -, -, pushes⟩ := operate_rename enabled
      have noted : noteMaps sizes state (.rename thread seq regs) maps =
          Function.update maps thread ((maps thread).rename seq (next.renameMap thread)) := by
        simp only [noteMaps, enabled]
      by_cases same : other = thread
      · subst same
        refine (rolls other).rename pushes increasing ?_ ?_
        · rw [lastRenamed, Function.update_self]
        · rw [noted, Function.update_self]
      · refine (rolls other).congr (pushes.others other same) ?_ ?_
        · rw [noted, Function.update_of_ne same]
        · exact Nat.le_of_eq ((congrFun lastRenamed other).trans
            (Function.update_of_ne same _ _)).symm
  | dispatch thread =>
      obtain ⟨map, -, history, lastRenamed⟩ := operate_dispatch enabled
      exact (rolls other).congr ⟨congrFun map other, congrFun history other⟩ rfl
        (Nat.le_of_eq (congrFun lastRenamed other).symm)
  | squash thread keep =>
      obtain ⟨history, map, lastRenamed, others⟩ := operate_squash enabled
      by_cases same : other = thread
      · subst same
        exact (rolls other).squash keep history map lastRenamed (Function.update_self ..)
      · exact (rolls other).congr (others other same) (Function.update_of_ne same _ _)
          (Nat.le_of_eq (congrFun lastRenamed other).symm)
  | commit thread committed =>
      obtain ⟨history, map, lastRenamed, others⟩ := operate_commit enabled
      by_cases same : other = thread
      · subst same
        exact (rolls other).commit committed history map lastRenamed (Function.update_self ..)
      · exact (rolls other).congr ⟨congrFun map other, others other same⟩
          (Function.update_of_ne same _ _) (Nat.le_of_eq (congrFun lastRenamed other).symm)

end Rolls

/-! ## The partition -/

/-- What the operations keep of the registers. -/
structure Kept (sizes : Sizes) (start state : State) : Prop where
  conserved : Conserved sizes state
  special : ∀ thread, ∀ entry ∈ state.historyBuffer thread, entry.isChange = false →
    entry.prevPhysReg.regClass = .misc ∨ entry.prevPhysReg = state.renameMap 0 zeroId
  zero : state.renameMap 0 zeroId = start.renameMap 0 zeroId

namespace Kept

variable {sizes : Sizes} {start state next : State}

theorem drops (kept : Kept sizes start state) (drops : Drops sizes thread keep state next) :
    Kept sizes start next := by
  refine ⟨drops.conserved, fun other entry member noChange => ?_, drops.zero.trans kept.zero⟩
  rw [drops.zero]
  exact kept.special other entry (drops.histories other entry member) noChange

/-- What is kept depends on the maps, the free lists and the history buffers only. -/
theorem congr
    (kept : Kept sizes start state) (map : next.renameMap = state.renameMap)
    (free : next.freeList = state.freeList) (history : next.historyBuffer = state.historyBuffer) :
    Kept sizes start next := by
  obtain ⟨conserved, special, zero⟩ := kept
  refine ⟨?_, ?_, ?_⟩
  · refine conserved.special 0 map free (fun other _ => by rw [history]) ?_ ?_ ?_
    · intro entry member _
      rwa [history] at member
    · intro regClass
      rw [history]
    · rw [history]
      exact id
  · rw [history, map]
    exact special
  · rw [map]
    exact zero

theorem renameDestReg
    (kept : Kept sizes start state) (active : inst.1 < sizes.activeThreads)
    (valid : reg ∈ archRegs sizes ∨ reg.regClass = .misc)
    (result : renameDestReg inst (state, renamed) reg = some (next, renamedNext)) :
    Kept sizes start next := by
  rcases renameDestReg_eq_some result with
    ⟨phys, fixed, found, -, rfl⟩ | ⟨phys, taken, notMisc, notZero, took, -, rfl⟩
  · refine ⟨kept.conserved.pushSpecial inst phys (by simp [RenameHistory.isChange]), ?_,
      kept.zero⟩
    intro thread entry member noChange
    rcases (mem_pushHistory _ _ _ _).mp member with old | ⟨rfl, rfl⟩
    · exact kept.special thread entry old noChange
    · rcases fixed with misc | rfl
      · left
        rw [found, lookup, if_pos misc]
        rfl
      · right
        rw [found, lookup, if_neg (by decide)]
        exact kept.conserved.shared inst.1 active
  · have arch : reg ∈ archRegs sizes := valid.resolve_right notMisc
    have zero : taken.renameMap 0 zeroId = state.renameMap 0 zeroId :=
      renameMap_take_zero notZero took
    have histories : taken.historyBuffer = state.historyBuffer := by
      obtain ⟨rest, -, rfl⟩ := takeReg_eq_some took
      rfl
    refine ⟨kept.conserved.take inst.2 active arch notZero took rfl rfl ?_, ?_,
      zero.trans kept.zero⟩
    · simp [pushHistory, recordProducer, histories]
    · intro thread entry member noChange
      rcases (mem_pushHistory _ _ _ _).mp member with old | ⟨rfl, rfl⟩
      · have before := kept.special thread entry (histories ▸ old) noChange
        rwa [← zero] at before
      · have apart : phys ≠ state.renameMap inst.1 reg := by
          intro same
          refine kept.conserved.not_free
            (.inl ⟨_, mem_owningSlots active arch notZero, rfl⟩) ?_
          obtain ⟨rest, free, -⟩ := takeReg_eq_some took
          rw [free, ← same]
          exact List.mem_cons_self
        simp [RenameHistory.isChange, apart] at noChange

theorem operate
    (kept : Kept sizes start state) (event : Event)
    (enabled : operate sizes state event = some next) :
    Kept sizes start next := by
  cases event with
  | rename thread seq regs =>
      obtain ⟨active, -, valid, -, reached, renamed, result, map, free, history, -⟩ :=
        operate_rename enabled
      have renames : Kept sizes start reached := by
        refine foldlM_processed (motive := fun _ (reached : State × List PhysRegId) =>
          Kept sizes start reached.1) regs kept ?_ result
        intro _ reg _ reached next split kept result
        exact kept.renameDestReg active (valid reg (by simp [split])) result
      exact renames.congr map free history
  | dispatch thread =>
      obtain ⟨map, free, history, -⟩ := operate_dispatch enabled
      exact kept.congr map free history
  | squash thread keep =>
      cases enabled
      have undone : Kept sizes start (doSquash state keep thread) :=
        kept.drops (Drops.undoYounger (state.historyBuffer thread) kept.conserved rfl)
      exact undone.congr rfl rfl rfl
  | commit thread committed =>
      cases enabled
      exact kept.drops (Drops.releaseOlder (state.historyBuffer thread).reverse kept.conserved
        (List.reverse_reverse _).symm)

theorem of_initial (constructed : initial sizes = some state) : Kept sizes state state := by
  refine ⟨.of_initial constructed, fun thread entry member => ?_, rfl⟩
  rw [historyBuffer_of_initial constructed] at member
  cases member

variable {regClass : RegClass} {phys : PhysRegId}

/-- Other registers are mapped by owning slots. -/
theorem mappings_eq
    (kept : Kept sizes start state) (member : phys ∈ regIds sizes regClass)
    (notZero : phys ≠ state.renameMap 0 zeroId) :
    mappings sizes state phys = ((owningSlots sizes regClass).flatMap
      fun slot => [state.renameMap slot.1 slot.2]).count phys := by
  rw [← List.map_eq_flatMap, List.count, List.countP_map, owningSlots, List.countP_filter, mappings]
  refine List.countP_congr fun slot listed => ?_
  obtain ⟨active, arch⟩ := mem_slots.mp listed
  simp only [Function.comp_apply, Bool.and_eq_true, beq_iff_eq, decide_eq_true_eq,
    Bool.or_eq_true, bne_iff_ne, ne_eq]
  refine ⟨fun mapped => ?_, And.left⟩
  have owns : slot.1 = 0 ∨ slot.2 ≠ zeroId := by
    refine Classical.or_iff_not_imp_right.mpr fun zero => ?_
    rw [not_not] at zero
    refine absurd ?_ notZero
    rw [← mapped, zero, kept.conserved.shared slot.1 active]
  refine ⟨mapped, ?_, owns⟩
  have owning : slot ∈ owningSlots sizes slot.2.regClass := by
    simpa [owningSlots, listed] using owns
  have mine := (mem_regIds.mp (kept.conserved.mapped_mem owning)).1
  rw [mapped, (mem_regIds.mp member).1] at mine
  exact mine.symm

/-- A register other than the zero register is replaced by entries that are a change. -/
theorem replacements_eq
    (kept : Kept sizes start state) (member : phys ∈ regIds sizes regClass)
    (notZero : phys ≠ state.renameMap 0 zeroId) :
    replacements sizes state phys = ((threads sizes).flatMap fun thread =>
      replaced regClass (state.historyBuffer thread)).count phys := by
  simp only [replacements, replaced, ← List.map_flatMap, ← List.filter_flatMap, List.count,
    List.countP_map, List.countP_filter]
  refine List.countP_congr fun entry listed => ?_
  obtain ⟨thread, -, inHistory⟩ := List.mem_flatMap.mp listed
  simp only [Function.comp_apply, Bool.and_eq_true, beq_iff_eq, decide_eq_true_eq]
  refine ⟨fun prev => ?_, And.left⟩
  have isClass := (mem_regIds.mp member).1
  have notMisc : regClass ≠ .misc := by
    rintro rfl
    exact Nat.not_lt_zero _ (mem_regIds.mp member).2.2.1
  have change : entry.isChange = true := by
    by_contra noChange
    rcases kept.special thread entry inHistory (Bool.eq_false_iff.mpr noChange) with
      misc | zero
    · exact notMisc (by rw [← isClass, ← prev, misc])
    · exact notZero (prev.symm.trans zero)
  have mine := (mem_regIds.mp (kept.conserved.prev_mem inHistory change)).1
  rw [prev, isClass] at mine
  exact ⟨prev, change, mine.symm⟩

theorem zero_not_free
    (kept : Kept sizes start state) (constructed : initial sizes = some start)
    (regClass : RegClass) :
    state.renameMap 0 zeroId ∉ state.freeList regClass := by
  intro free
  have isClass := mem_regIds.mp ((kept.conserved.owned regClass).subset
    (mem_owned.mpr (.inl free)))
  by_cases mapped : (0, zeroId) ∈ slots sizes
  · have owning : (0, zeroId) ∈ owningSlots sizes .int :=
      List.mem_filter.mpr ⟨mapped, by decide⟩
    have mine := (mem_regIds.mp (kept.conserved.mapped_mem owning)).1
    obtain rfl : regClass = .int := isClass.1.symm.trans mine
    exact kept.conserved.not_free (.inl ⟨_, owning, rfl⟩) free
  · rw [kept.zero, renameMap_zero_of_initial constructed mapped] at isClass
    obtain rfl : RegClass.misc = regClass := isClass.1
    exact Nat.not_lt_zero _ isClass.2.2.1

theorem partitioned (kept : Kept sizes start state) (constructed : initial sizes = some start) :
    Partitioned sizes state := by
  refine ⟨fun regClass phys member notZero => ?_, fun regClass phys free => ?_,
    kept.zero_not_free constructed⟩
  · have once := List.count_eq_one_of_mem (kept.conserved.nodup regClass)
      ((kept.conserved.owned regClass).mem_iff.mpr member)
    rw [owned, List.count_append, List.count_append] at once
    rw [kept.mappings_eq member notZero, kept.replacements_eq member notZero]
    exact once
  · exact (kept.conserved.owned regClass).subset (mem_owned.mpr (.inl free))

end Kept

theorem kept_rolls
    (constructed : initial sizes = some start) (begins : ∀ thread, Rolls start origin thread)
    (reachable : Reachable (withHistory (operate sizes) (noteMaps sizes)) (fun _ _ => True)
      (start, origin) reached) :
    Kept sizes start reached.1 ∧ ∀ thread, Rolls reached.1 reached.2 thread := by
  induction reachable with
  | init => exact ⟨.of_initial constructed, begins⟩
  | step event _ _ enabled ih =>
      obtain ⟨enabled, noted⟩ := withHistory_eq_some.mp enabled
      rw [← noted]
      exact ⟨ih.1.operate event enabled, Rolls.operate ih.2 event enabled⟩

/-- In every reachable state the physical registers are partitioned, and the map of every thread
is the one right after its youngest surviving instruction was renamed; so a squash leads back to
the map after the youngest instruction it keeps. -/
theorem partitioned_rollsBack
    {sizes : Sizes} {start state : State} {maps : Nat → Snapshots}
    (constructed : initial sizes = some start)
    (reachable : Reachable (withHistory (operate sizes) (noteMaps sizes)) (fun _ _ => True)
      (start, fun thread => { settled := start.renameMap thread }) (state, maps)) :
    Partitioned sizes state ∧ (∀ thread, state.renameMap thread = (maps thread).latest) ∧
      ∀ thread keep, ∃ next, operate sizes state (.squash thread keep) = some next ∧
        Partitioned sizes next ∧
        next.renameMap thread = ((maps thread).squash keep).latest ∧
        ∀ other, other ≠ thread → next.renameMap other = state.renameMap other := by
  have begins : ∀ thread, Rolls start (fun thread => { settled := start.renameMap thread })
      thread := by
    refine fun thread => ⟨⟨?_, rfl⟩, .nil, fun inst member => absurd member List.not_mem_nil⟩
    rw [historyBuffer_of_initial constructed]
  obtain ⟨kept, rolls⟩ := kept_rolls constructed begins reachable
  refine ⟨kept.partitioned constructed, fun thread => (rolls thread).chain.latest_eq,
    fun thread keep => ?_⟩
  obtain ⟨next, enabled⟩ : ∃ next, operate sizes state (.squash thread keep) = some next :=
    ⟨_, rfl⟩
  have after := Rolls.operate rolls (.squash thread keep) enabled thread
  obtain ⟨-, -, -, others⟩ := operate_squash enabled
  refine ⟨next, enabled, (kept.operate _ enabled).partitioned constructed, ?_,
    fun other apart => (others other apart).renameMap⟩
  have latest := after.chain.latest_eq
  rwa [noteMaps, Function.update_self] at latest

/-- Two threads with the x86 integer registers up to the zero register. -/
private def twoThreads : Sizes where
  numPhysicalIntRegs := 36
  numPhysicalFloatRegs := 0
  numPhysicalVecRegs := 0
  numPhysicalCCRegs := 3
  numIntRegs := 17
  numFloatRegs := 0
  numVecRegs := 0
  numCCRegs := 1
  activeThreads := 2

/-- Three instructions of two threads are renamed, the first of them writes a register
twice and commits, and the second is squashed. -/
private def threeRenames : List Event :=
  [.rename 0 1 [{ regClass := .int, regIdx := 3 }, { regClass := .int, regIdx := 3 }],
    .rename 1 2 [zeroId, { regClass := .int, regIdx := 3 }],
    .rename 0 3 [{ regClass := .cc, regIdx := 0 }],
    .squash 0 1, .commit 0 1]

/-- The entries of the other thread are left. -/
private def leavesOthers (reached : State × (Nat → Snapshots)) : Bool :=
  (reached.2 0).inFlight.length == 0 && (reached.2 1).inFlight.length == 1 &&
    (reached.1.historyBuffer 1).length == 2

/-- The theorem on a run of two threads. -/
theorem partitioned_rollsBack_twoThreads :
    ∃ (start state : State) (maps : Nat → Snapshots), initial twoThreads = some start ∧
      Partitioned twoThreads state ∧ state.renameMap 0 = (maps 0).latest ∧
      state.renameMap 1 = (maps 1).latest ∧ (maps 0).inFlight.length = 0 ∧
      (maps 1).inFlight.length = 1 ∧ (state.historyBuffer 1).length = 2 := by
  have replayed : (initial twoThreads).any (fun start =>
      (replay (withHistory (operate twoThreads) (noteMaps twoThreads)) (fun _ _ => True)
        (start, fun thread => { settled := start.renameMap thread })
        threeRenames).any leavesOthers) = true := by decide +kernel
  obtain ⟨start, constructed, replayed⟩ := (Option.any_eq_true _ _).mp replayed
  obtain ⟨⟨state, maps⟩, reachable, tested⟩ := Reachable.exists_of_replay _ _ replayed
  simp only [leavesOthers, Bool.and_eq_true, beq_iff_eq] at tested
  obtain ⟨partitioned, latest, -⟩ := partitioned_rollsBack constructed reachable
  exact ⟨start, state, maps, constructed, partitioned, latest 0, latest 1, tested.1.1,
    tested.1.2, tested.2⟩

end Rename
end Dolma

import Dolma.Library.TransitionSystem
import Dolma.Rename.Conserved

/-!
# The register-to-producer table

A free register is nobody's destination, so a rename overwrites the entry of no
register in use, and an instruction waiting for dispatch is still the last
renamer of its destinations. Two kinds of destination escape this argument: the
misc registers share the flat index of a renamed register, and the zero register
is never taken from a free list.
-/

namespace Dolma
namespace Rename

open Library

variable {sizes : Sizes} {reg : RegId} {state next start taken before after : State} {thread : Nat}
  {inst : Inst} {renamed renamedNext : List PhysRegId} {phys other : PhysRegId}
  {entry : RenameHistory} {keep : RenameHistory → Prop} {misc : Bool} {rest : List RenameHistory}

theorem regClass_ne_misc_of_mem_archRegs (arch : reg ∈ archRegs sizes) :
    reg.regClass ≠ .misc ∧ reg.regClass ≠ .vecElem := by
  simp only [archRegs, List.mem_append] at arch
  rcases arch with ((arch | arch) | arch) | arch <;>
    simp [regClass_of_mem_archRange arch]

/-- The registers in use are mapped or were replaced. -/
theorem mem_liveRegs {phys : PhysRegId} :
    phys ∈ liveRegs sizes state ↔
      (∃ thread < sizes.activeThreads, ∃ reg ∈ archRegs sizes, state.renameMap thread reg = phys) ∨
      ∃ thread < sizes.activeThreads, ∃ entry ∈ state.historyBuffer thread,
        entry.isChange = true ∧ entry.prevPhysReg = phys := by
  simp only [liveRegs, List.mem_append, List.mem_map, List.mem_flatMap,
    List.mem_filter, threads, List.mem_range, and_assoc]
  refine or_congr_left ?_
  constructor
  · rintro ⟨⟨thread, reg⟩, slot, mapped⟩
    obtain ⟨active, arch⟩ := mem_slots.mp slot
    rw [lookup, if_neg (regClass_ne_misc_of_mem_archRegs arch).1] at mapped
    exact ⟨thread, active, reg, arch, mapped⟩
  · rintro ⟨thread, active, reg, arch, mapped⟩
    refine ⟨(thread, reg), mem_slots.mpr ⟨active, arch⟩, ?_⟩
    rw [lookup, if_neg (regClass_ne_misc_of_mem_archRegs arch).1]
    exact mapped

theorem Conserved.zero_mem
    (conserved : Conserved sizes state) (active : thread < sizes.activeThreads)
    (arch : zeroId ∈ archRegs sizes) :
    state.renameMap thread zeroId ∈ regIds sizes .int := by
  rw [conserved.shared thread active]
  have slot : (0, zeroId) ∈ owningSlots sizes .int := by
    simp [owningSlots, mem_slots, arch, Nat.zero_lt_of_lt active]
    rfl
  exact conserved.mapped_mem slot

/-- A register in use is one of a renamed class. -/
theorem Conserved.live_mem
    (conserved : Conserved sizes state) (live : phys ∈ liveRegs sizes state) :
    ∃ regClass, phys ∈ regIds sizes regClass := by
  rcases mem_liveRegs.mp live with
    ⟨thread, active, reg, arch, rfl⟩ | ⟨thread, _, entry, member, change, rfl⟩
  · by_cases zero : reg = zeroId
    · subst zero
      exact ⟨.int, conserved.zero_mem active arch⟩
    · exact ⟨reg.regClass, conserved.mapped_mem (mem_owningSlots active arch zero)⟩
  · exact ⟨_, conserved.prev_mem member change⟩

theorem isFixedMapping_of_mem_regIds (member : phys ∈ regIds sizes regClass) :
    phys.isFixedMapping = false := by
  rw [mem_regIds] at member
  obtain ⟨sameClass, _, bound, _⟩ := member
  cases regClass <;>
    simp_all [PhysRegId.isFixedMapping, RegId.isRenameable, numPhysicalRegs]

/-- A destination that an instruction renamed and that is still its own: a misc
register, the zero register, or the new register of one of its entries in the
history buffer. -/
def IsDest (sizes : Sizes) (state : State) (inst : Inst) (dest : PhysRegId) : Prop :=
  dest.isFixedMapping = true ∨
    (dest = state.renameMap 0 zeroId ∧ dest ∈ regIds sizes .int) ∨
      ∃ entry ∈ state.historyBuffer inst.1, entry.isChange = true ∧
        entry.newPhysReg = dest ∧ entry.instSeqNum = inst.2

/-- The invariant of the table. -/
structure Exact (sizes : Sizes) (state : State) : Prop where
  conserved : Conserved sizes state
  recorded : ∀ thread, ∀ entry ∈ state.historyBuffer thread,
    entry.isChange = true → state.lastRenamer entry.newPhysReg = some (thread, entry.instSeqNum)
  queued : ∀ thread, ∀ waiting ∈ state.dispatchQueue thread,
    ∀ dest ∈ waiting.2, IsDest sizes state (thread, waiting.1) dest
  exact : ∀ phys ∈ liveRegs sizes state,
    state.regToProducerInst phys.flatIdx = state.lastRenamer phys

/-- A step keeps the table exact if no misc destination is renamed while a
register in use has the flat index of the misc registers, and if an instruction
that writes the zero register is dispatched while it is its last renamer. -/
def keepsProducers (sizes : Sizes) (state : State) : Event → Bool
  | .rename _ _ dests =>
      dests.all (·.regClass != .misc) || (liveRegs sizes state).all (·.flatIdx != 0)
  | .dispatch thread =>
      (state.dispatchQueue thread).head?.all fun waiting =>
        waiting.2.all fun dest =>
          dest != state.renameMap 0 zeroId || state.lastRenamer dest == some (thread, waiting.1)
  | _ => true

theorem renameDestReg_eq_some
    (result : renameDestReg inst (state, renamed) reg = some (next, renamedNext)) :
    (∃ phys, (reg.regClass = .misc ∨ reg = zeroId) ∧
      phys = lookup state inst.1 reg ∧ renamedNext = renamed ++ [phys] ∧
      next = pushHistory (recordProducer state inst phys) inst.1
        { instSeqNum := inst.2, archReg := reg
          newPhysReg := phys, prevPhysReg := phys }) ∨
    ∃ phys taken, reg.regClass ≠ .misc ∧ reg ≠ zeroId ∧
      takeReg state inst.1 reg = some (phys, taken) ∧
      renamedNext = renamed ++ [phys] ∧
      next = pushHistory (recordProducer taken inst phys) inst.1
        { instSeqNum := inst.2, archReg := reg
          newPhysReg := phys, prevPhysReg := state.renameMap inst.1 reg } := by
  simp only [renameDestReg, renameReg, Option.map_eq_some_iff] at result
  obtain ⟨⟨⟨phys, prev⟩, taken⟩, found, pair⟩ := result
  obtain ⟨rfl, rfl⟩ := Prod.mk.inj pair
  split at found
  next => simp at found
  next =>
    split at found
    next special =>
      simp only [Option.some.injEq, Prod.mk.injEq] at found
      obtain ⟨⟨rfl, rfl⟩, rfl⟩ := found
      exact .inl ⟨_, special, rfl, rfl, rfl⟩
    next ordinary =>
      rw [not_or] at ordinary
      obtain ⟨⟨first, after⟩, took, pair⟩ := Option.map_eq_some_iff.mp found
      simp only [Prod.mk.injEq] at pair
      obtain ⟨⟨rfl, rfl⟩, rfl⟩ := pair
      refine .inr ⟨_, _, ordinary.1, ordinary.2, took, rfl, ?_⟩
      rw [lookup, if_neg ordinary.1]

/-- The zero register is no entry's new register. -/
theorem Conserved.new_ne_zero
    (conserved : Conserved sizes state) (active : 0 < sizes.activeThreads)
    (arch : zeroId ∈ archRegs sizes) (member : entry ∈ state.historyBuffer thread)
    (change : entry.isChange = true) :
    entry.newPhysReg ≠ state.renameMap 0 zeroId := by
  intro same
  obtain ⟨entryActive, entryArch, notZero⟩ :=
    conserved.slotted thread entry member change
  have zeroSlot : (0, zeroId) ∈ owningSlots sizes .int := by
    simp [owningSlots, mem_slots, active, arch]
    rfl
  have isInt : entry.archReg.regClass = .int := by
    have newMember := (conserved.new_owned member change).1
    rw [same] at newMember
    exact (mem_regIds.mp newMember).1.symm.trans
      (mem_regIds.mp (conserved.mapped_mem zeroSlot)).1
  have nodup := conserved.nodup .int
  rw [Rename.owned, List.append_assoc, List.nodup_append] at nodup
  have places := List.nodup_append.mp nodup.2.1
  -- The new register is a mapping or a replaced register, and both are places
  -- other than the mapping of the zero register.
  rcases (conserved.unwinds thread).new_used member change with
    mapped | ⟨later, laterMember, laterChange, sameReg, replacedEq⟩
  · have slot := mem_owningSlots entryActive entryArch notZero
    rw [isInt] at slot
    have injective := List.inj_on_of_nodup_map
      (f := fun slot : Nat × RegId => state.renameMap slot.1 slot.2)
      (List.map_eq_flatMap ▸ places.1)
    have equal := injective slot zeroSlot (mapped.trans same)
    exact notZero (Prod.mk.inj equal).2
  · refine places.2.2 (state.renameMap 0 zeroId) ?_ _ ?_ rfl
    · exact List.mem_flatMap.mpr ⟨_, zeroSlot, List.mem_singleton_self _⟩
    · refine List.mem_flatMap.mpr ⟨thread, List.mem_range.mpr entryActive, ?_⟩
      exact mem_replaced.mpr ⟨later, laterMember, laterChange,
        (congrArg RegId.regClass sameReg).trans isInt, replacedEq.trans same⟩

/-- The renaming of the destinations of an instruction, midway. -/
structure Midway
    (sizes : Sizes) (start : State) (inst : Inst) (misc : Bool) (state : State)
    (renamed : List PhysRegId) : Prop where
  conserved : Conserved sizes state
  recorded : ∀ thread, ∀ entry ∈ state.historyBuffer thread,
    entry.isChange = true → state.lastRenamer entry.newPhysReg = some (thread, entry.instSeqNum)
  queue : state.dispatchQueue = start.dispatchQueue
  kept : ∀ other dest, IsDest sizes start other dest → IsDest sizes state other dest
  dests : ∀ dest ∈ renamed, IsDest sizes state inst dest
  exact : ∀ phys ∈ liveRegs sizes state,
    state.regToProducerInst phys.flatIdx = state.lastRenamer phys
  misc : misc = true → ∀ phys ∈ liveRegs sizes state, phys.flatIdx = 0 →
    state.lastRenamer phys = some inst
  unchanged : ∀ phys, phys ∉ renamed → state.lastRenamer phys = start.lastRenamer phys
  live : ∀ phys ∈ liveRegs sizes start, phys ∈ liveRegs sizes state

/-- Destinations stay so while the buffers grow. -/
theorem IsDest.grow
    (isDest : IsDest sizes before inst dest)
    (zero : after.renameMap 0 zeroId = before.renameMap 0 zeroId)
    (histories : ∀ thread, ∀ entry ∈ before.historyBuffer thread,
      entry ∈ after.historyBuffer thread) :
    IsDest sizes after inst dest := by
  rcases isDest with fixed | ⟨isZero, member⟩ | ⟨entry, member, facts⟩
  · exact .inl fixed
  · exact .inr (.inl ⟨isZero.trans zero.symm, member⟩)
  · exact .inr (.inr ⟨entry, histories _ entry member, facts⟩)

theorem mem_pushHistory
    (state : State) (thread other : Nat) (entry : RenameHistory) {old : RenameHistory} :
    old ∈ (pushHistory state thread entry).historyBuffer other ↔
      old ∈ state.historyBuffer other ∨ other = thread ∧ old = entry := by
  by_cases same : other = thread
  · subst same
    simp [pushHistory, or_comm]
  · simp [pushHistory, same]

theorem mem_liveRegs_special (noChange : entry.isChange = false) :
    other ∈ liveRegs sizes
        (pushHistory (recordProducer state inst phys) inst.1 entry) ↔
      other ∈ liveRegs sizes state := by
  simp only [mem_liveRegs, mem_pushHistory]
  refine or_congr_right (exists_congr fun thread => and_congr_right fun _ => ?_)
  constructor
  · rintro ⟨old, member | ⟨_, rfl⟩, change, prev⟩
    · exact ⟨old, member, change, prev⟩
    · rw [noChange] at change
      exact absurd change (by simp)
  · rintro ⟨old, member, change, prev⟩
    exact ⟨old, .inl member, change, prev⟩

/-- A special rename conserves the registers. -/
theorem Conserved.pushSpecial
    (conserved : Conserved sizes state) (inst : Inst) (phys : PhysRegId)
    (noChange : entry.isChange = false) :
    Conserved sizes
      (pushHistory (recordProducer state inst phys) inst.1 entry) := by
  refine conserved.special inst.1 rfl rfl ?_ ?_ ?_ ?_
  · intro other apart
    simp [pushHistory, recordProducer, apart]
  · intro other member change
    rcases (mem_pushHistory _ _ _ _).mp member with old | ⟨_, rfl⟩
    · exact old
    · rw [noChange] at change
      exact absurd change (by simp)
  · intro regClass
    simp [pushHistory, recordProducer, replaced_cons, noChange]
  · intro unwinds
    simpa [pushHistory, recordProducer, Unwinds, noChange] using unwinds

/-- Recording a producer keeps an entry exact if the registers have distinct flat indices, or if
the instruction is its last renamer anyway. -/
theorem recordProducer_exact
    (exact : other ≠ phys → state.regToProducerInst other.flatIdx = state.lastRenamer other)
    (shared : other ≠ phys → other.flatIdx = phys.flatIdx → state.lastRenamer other = some inst) :
    (recordProducer state inst phys).regToProducerInst other.flatIdx =
      (recordProducer state inst phys).lastRenamer other := by
  by_cases same : other = phys
  · simp [recordProducer, same]
  · by_cases flat : other.flatIdx = phys.flatIdx
    · simp [recordProducer, same, flat, shared same flat]
    · simpa [recordProducer, same, flat] using exact same

/-- A destination is renamed to a register that is no entry's new one. -/
theorem Midway.push
    (midway : Midway sizes start inst misc state renamed)
    (pushed : next = pushHistory (recordProducer taken inst phys) inst.1 entry)
    (frame : taken = { state with renameMap := taken.renameMap, freeList := taken.freeList })
    (zero : taken.renameMap 0 zeroId = state.renameMap 0 zeroId)
    (conserved : Conserved sizes next)
    (new : entry.isChange = true → entry.newPhysReg = phys ∧ entry.instSeqNum = inst.2)
    (notNew : ∀ thread, ∀ old ∈ state.historyBuffer thread,
      old.isChange = true → old.newPhysReg ≠ phys)
    (fewer : ∀ other ∈ liveRegs sizes next, other ≠ phys → other ∈ liveRegs sizes state)
    (more : ∀ other ∈ liveRegs sizes state, other ∈ liveRegs sizes next)
    (shared : ∀ other ∈ liveRegs sizes state, other ≠ phys →
      other.flatIdx = phys.flatIdx → state.lastRenamer other = some inst)
    (isDest : IsDest sizes next inst phys) :
    Midway sizes start inst misc next (renamed ++ [phys]) := by
  subst pushed
  have lastRenamer : taken.lastRenamer = state.lastRenamer := by rw [frame]
  have producers : taken.regToProducerInst = state.regToProducerInst := by rw [frame]
  have queue : taken.dispatchQueue = state.dispatchQueue := by rw [frame]
  have histories : taken.historyBuffer = state.historyBuffer := by rw [frame]
  have mem : ∀ thread old,
      old ∈ (pushHistory (recordProducer taken inst phys) inst.1 entry).historyBuffer thread ↔
        old ∈ state.historyBuffer thread ∨ thread = inst.1 ∧ old = entry := by
    intro thread old
    rw [mem_pushHistory, ← histories]
    rfl
  have grow := fun thread old member => (mem thread old).mpr (.inl member)
  constructor
  case conserved => exact conserved
  case recorded =>
    intro thread old member change
    rcases (mem thread old).mp member with before | ⟨rfl, rfl⟩
    · simpa [pushHistory, recordProducer, lastRenamer, notNew thread old before change]
        using midway.recorded thread old before change
    · simp [pushHistory, recordProducer, new change]
  case queue => exact queue.trans midway.queue
  case kept => exact fun other dest isDest => (midway.kept other dest isDest).grow zero grow
  case dests =>
    intro dest member
    rcases List.mem_append.mp member with old | last
    · exact (midway.dests dest old).grow zero grow
    · rw [List.mem_singleton.mp last]
      exact isDest
  case exact =>
    intro other live
    refine recordProducer_exact (fun apart => ?_) fun apart => ?_
    · rw [producers, lastRenamer]
      exact midway.exact other (fewer other live apart)
    · rw [lastRenamer]
      exact shared other (fewer other live apart) apart
  case misc =>
    intro isMisc other live flat
    by_cases same : other = phys
    · simp [pushHistory, recordProducer, same]
    · simpa [pushHistory, recordProducer, same, lastRenamer]
        using midway.misc isMisc other (fewer other live same) flat
  case unchanged =>
    intro other absent
    rw [List.mem_append, List.mem_singleton, not_or] at absent
    simpa [pushHistory, recordProducer, absent.2, lastRenamer]
      using midway.unchanged other absent.1
  case live => exact fun other live => more other (midway.live other live)

/-- Renaming a misc or the zero register keeps the renaming right. -/
theorem Midway.special
    (midway : Midway sizes start inst misc state renamed) (noChange : entry.isChange = false)
    (notNew : ∀ thread, ∀ old ∈ state.historyBuffer thread,
      old.isChange = true → old.newPhysReg ≠ phys)
    (shared : ∀ other ∈ liveRegs sizes state, other ≠ phys →
      other.flatIdx = phys.flatIdx → state.lastRenamer other = some inst)
    (isDest : IsDest sizes state inst phys) :
    Midway sizes start inst misc
      (pushHistory (recordProducer state inst phys) inst.1 entry)
      (renamed ++ [phys]) := by
  refine midway.push rfl rfl rfl (midway.conserved.pushSpecial inst phys noChange) ?_ notNew
    ?_ ?_ shared ?_
  · intro change
    rw [noChange] at change
    cases change
  · exact fun other live _ => (mem_liveRegs_special noChange).mp live
  · exact fun other => (mem_liveRegs_special noChange).mpr
  · exact isDest.grow rfl fun _ _ member => (mem_pushHistory _ _ _ _).mpr (.inl member)

/-- Taking a register keeps the others in use. -/
theorem mem_liveRegs_take
    (active : inst.1 < sizes.activeThreads) (arch : reg ∈ archRegs sizes)
    (took : takeReg state inst.1 reg = some (phys, taken)) (change : entry.isChange = true)
    (prev : entry.prevPhysReg = state.renameMap inst.1 reg) :
    other ∈ liveRegs sizes
        (pushHistory (recordProducer taken inst phys) inst.1 entry) ↔
      other = phys ∨ other ∈ liveRegs sizes state := by
  obtain ⟨rest, _, rfl⟩ := takeReg_eq_some took
  have mapped : ∀ thread otherReg,
      (pushHistory (recordProducer (setEntry { state with
        freeList := Function.update state.freeList reg.regClass rest }
          inst.1 reg phys) inst phys) inst.1 entry).renameMap thread otherReg =
        if (thread, otherReg) = (inst.1, reg) then phys
        else state.renameMap thread otherReg := fun thread otherReg =>
    renameMap_setEntry _ _ _ _ _ _
  have member : ∀ thread old,
      old ∈ (pushHistory (recordProducer (setEntry { state with
        freeList := Function.update state.freeList reg.regClass rest }
          inst.1 reg phys) inst phys) inst.1 entry).historyBuffer thread ↔
        old ∈ state.historyBuffer thread ∨ thread = inst.1 ∧ old = entry :=
    fun thread old => mem_pushHistory _ _ _ _
  simp only [mem_liveRegs, mapped, member]
  constructor
  · rintro (⟨thread, threadActive, otherReg, otherArch, rfl⟩ |
      ⟨thread, threadActive, old, isOld | ⟨rfl, rfl⟩, oldChange, rfl⟩)
    · split
      · exact .inl rfl
      · exact .inr (.inl ⟨thread, threadActive, otherReg, otherArch, rfl⟩)
    · exact .inr (.inr ⟨thread, threadActive, old, isOld, oldChange, rfl⟩)
    · exact .inr (.inl ⟨inst.1, active, reg, arch, prev.symm⟩)
  · rintro (rfl | ⟨thread, threadActive, otherReg, otherArch, rfl⟩ |
      ⟨thread, threadActive, old, isOld, oldChange, rfl⟩)
    · exact .inl ⟨inst.1, active, reg, arch, by simp⟩
    · by_cases same : (thread, otherReg) = (inst.1, reg)
      · obtain ⟨rfl, rfl⟩ := Prod.mk.inj same
        exact .inr ⟨inst.1, active, entry, .inr ⟨rfl, rfl⟩, change, prev⟩
      · exact .inl ⟨thread, threadActive, otherReg, otherArch, by simp [same]⟩
    · exact .inr ⟨thread, threadActive, old, .inl isOld, oldChange, rfl⟩

/-- The zero register keeps its mapping. -/
theorem renameMap_take_zero
    (notZero : reg ≠ zeroId) (took : takeReg state thread reg = some (phys, taken)) :
    taken.renameMap 0 zeroId = state.renameMap 0 zeroId := by
  obtain ⟨rest, _, rfl⟩ := takeReg_eq_some took
  rw [renameMap_setEntry, if_neg]
  intro same
  exact notZero (Prod.mk.inj same).2.symm

/-- Renaming a destination to a free register keeps the renaming right. -/
theorem Midway.take
    (midway : Midway sizes start inst misc state renamed) (active : inst.1 < sizes.activeThreads)
    (arch : reg ∈ archRegs sizes) (notZero : reg ≠ zeroId)
    (took : takeReg state inst.1 reg = some (phys, taken)) :
    Midway sizes start inst misc
      (pushHistory (recordProducer taken inst phys) inst.1
        { instSeqNum := inst.2, archReg := reg
          newPhysReg := phys, prevPhysReg := state.renameMap inst.1 reg })
      (renamed ++ [phys]) := by
  set entry : RenameHistory :=
    { instSeqNum := inst.2, archReg := reg
      newPhysReg := phys, prevPhysReg := state.renameMap inst.1 reg } with entryDef
  obtain ⟨rest, free, takenDef⟩ := takeReg_eq_some took
  have isFree : phys ∈ state.freeList reg.regClass := by simp [free]
  have inClass : phys ∈ regIds sizes reg.regClass :=
    (midway.conserved.owned _).subset (mem_owned.mpr (.inl isFree))
  have change : entry.isChange = true := by
    have mapped := midway.conserved.not_free
      (.inl ⟨_, mem_owningSlots active arch notZero, rfl⟩)
    simp only [entryDef, RenameHistory.isChange, bne_iff_ne, ne_eq]
    exact fun same => mapped (same ▸ isFree)
  -- No entry has the free register as its new register.
  have notNew : ∀ thread, ∀ old ∈ state.historyBuffer thread,
      old.isChange = true → old.newPhysReg ≠ phys := by
    intro thread old member oldChange same
    obtain ⟨oldClass, notFree⟩ := midway.conserved.new_owned member oldChange
    rw [same] at oldClass notFree
    have sameClass := (mem_regIds.mp oldClass).1.symm.trans (mem_regIds.mp inClass).1
    exact notFree (sameClass ▸ isFree)
  refine midway.push rfl ?_ (renameMap_take_zero notZero took) ?_ (fun _ => ⟨rfl, rfl⟩) notNew
    (fun _ live => ((mem_liveRegs_take active arch took change rfl).mp live).resolve_left)
    (fun _ live => (mem_liveRegs_take active arch took change rfl).mpr (.inr live)) ?_ ?_
  · rw [takenDef]
    rfl
  · refine midway.conserved.take inst.2 active arch notZero took rfl rfl ?_
    rw [takenDef]
    rfl
  · intro other isLive apart flat
    obtain ⟨otherClass, member⟩ := midway.conserved.live_mem isLive
    exact absurd (eq_of_flatIdx_eq member inClass flat) apart
  · refine .inr (.inr ⟨entry, ?_, change, rfl, rfl⟩)
    exact (mem_pushHistory _ _ _ _).mpr (.inr ⟨rfl, rfl⟩)

/-- Renaming one destination keeps the renaming right. -/
theorem Midway.renameDestReg
    (midway : Midway sizes start inst misc state renamed) (active : inst.1 < sizes.activeThreads)
    (valid : reg ∈ archRegs sizes ∨ reg.regClass = .misc)
    (isMisc : reg.regClass = .misc → misc = true)
    (result : renameDestReg inst (state, renamed) reg = some (next, renamedNext)) :
    Midway sizes start inst misc next renamedNext := by
  rcases renameDestReg_eq_some result with
    ⟨phys, special, isLookup, rfl, rfl⟩ | ⟨phys, taken, notMisc, notZero, took, rfl, rfl⟩
  · by_cases miscReg : reg.regClass = .misc
    · rw [lookup, if_pos miscReg] at isLookup
      have fixed : phys.isFixedMapping = true := by
        rw [isLookup]
        rfl
      refine midway.special (by simp [RenameHistory.isChange]) ?_ ?_ (.inl fixed)
      · intro thread old member change same
        have member := (midway.conserved.new_owned member change).1
        rw [same] at member
        simp [isFixedMapping_of_mem_regIds member] at fixed
      · intro other live _ flat
        refine midway.misc (isMisc miscReg) other live ?_
        rw [flat, isLookup]
        rfl
    · have zero : reg = zeroId := special.resolve_left miscReg
      have arch : zeroId ∈ archRegs sizes := zero ▸ valid.resolve_right miscReg
      rw [lookup, if_neg miscReg, zero, midway.conserved.shared inst.1 active] at isLookup
      have first : 0 < sizes.activeThreads := Nat.zero_lt_of_lt active
      have member : phys ∈ regIds sizes .int := by
        rw [isLookup]
        exact midway.conserved.zero_mem first arch
      refine midway.special (by simp [RenameHistory.isChange]) ?_ ?_
        (.inr (.inl ⟨isLookup, member⟩))
      · intro thread old oldMember change
        rw [isLookup]
        exact midway.conserved.new_ne_zero first arch oldMember change
      · intro other live apart flat
        obtain ⟨otherClass, otherMember⟩ := midway.conserved.live_mem live
        exact absurd (eq_of_flatIdx_eq otherMember member flat) apart
  · exact midway.take active (valid.resolve_right notMisc) notZero took

/-- Renaming the destinations of an instruction. -/
theorem Exact.renameDestRegs
    (exact : Exact sizes state) (active : inst.1 < sizes.activeThreads)
    (valid : ∀ reg ∈ dests, reg ∈ archRegs sizes ∨ reg.regClass = .misc)
    (keeps : keepsProducers sizes state (.rename inst.1 inst.2 dests) = true)
    (result : renameDestRegs state inst dests = some (next, renamed)) :
    Midway sizes state inst (dests.any (·.regClass == .misc)) next renamed := by
  refine foldlM_processed
    (motive := fun _ reached => Midway sizes state inst
      (dests.any (·.regClass == .misc)) reached.1 reached.2) dests ?_ ?_ result
  · constructor
    case conserved => exact exact.conserved
    case recorded => exact exact.recorded
    case queue => rfl
    case kept => exact fun _ _ isDest => isDest
    case dests => simp
    case exact => exact exact.exact
    case misc =>
      intro isMisc phys live flat
      simp only [List.any_eq_true, beq_iff_eq] at isMisc
      obtain ⟨reg, member, miscReg⟩ := isMisc
      simp only [keepsProducers, Bool.or_eq_true, List.all_eq_true, bne_iff_ne] at keeps
      rcases keeps with noMisc | noShare
      · exact absurd miscReg (noMisc reg member)
      · exact absurd flat (noShare phys live)
    case unchanged => exact fun _ _ => rfl
    case live => exact fun _ live => live
  · intro processed reg rest reached next split midway stepped
    have member : reg ∈ dests := by simp [split]
    refine midway.renameDestReg active (valid reg member) ?_ stepped
    intro miscReg
    simp only [List.any_eq_true, beq_iff_eq]
    exact ⟨reg, member, miscReg⟩

/-- Renaming an instruction keeps the table exact. -/
theorem Midway.toExact
    (midway : Midway sizes state inst misc next renamed) (exact : Exact sizes state)
    (lastRenamed : Nat → Nat) :
    Exact sizes
      { next with
        lastRenamed := lastRenamed
        dispatchQueue := Function.update state.dispatchQueue inst.1
          (state.dispatchQueue inst.1 ++ [(inst.2, renamed)]) } := by
  have conserved := midway.conserved
  refine ⟨{ conserved with }, midway.recorded, ?_, midway.exact⟩
  intro thread waiting member dest isIn
  dsimp only at member
  by_cases same : thread = inst.1
  · subst same
    rw [Function.update_self, List.mem_append, List.mem_singleton] at member
    rcases member with old | rfl
    · exact midway.kept _ dest (exact.queued _ waiting old dest isIn)
    · exact midway.dests dest isIn
  · rw [Function.update_of_ne same] at member
    exact midway.kept _ dest (exact.queued thread waiting member dest isIn)

/-- Dispatch writes the entries of tracked destinations. -/
theorem foldl_addToProducer (inst : Inst) (dests : List PhysRegId) (state : State) :
    ∃ table, dests.foldl (addToProducer inst) state =
        { state with regToProducerInst := table } ∧
      ∀ flat, table flat = state.regToProducerInst flat ∨
        table flat = some inst ∧
          ∃ dest ∈ dests, dest.isFixedMapping = false ∧ dest.flatIdx = flat := by
  induction dests generalizing state with
  | nil => exact ⟨_, rfl, fun _ => .inl rfl⟩
  | cons dest rest ih =>
      obtain ⟨table, folded, entries⟩ := ih (addToProducer inst state dest)
      refine ⟨table, ?_, ?_⟩
      · rw [List.foldl_cons, folded]
        unfold addToProducer
        split <;> rfl
      · intro flat
        rcases entries flat with old | ⟨new, other, member, facts⟩
        · by_cases fixed : dest.isFixedMapping = true
          · exact .inl (by simpa [addToProducer, fixed] using old)
          · by_cases same : flat = dest.flatIdx
            · refine .inr ⟨?_, dest, List.mem_cons_self, by simpa using fixed,
                same.symm⟩
              simpa [addToProducer, fixed, same] using old
            · exact .inl (by simpa [addToProducer, fixed, same] using old)
        · exact .inr ⟨new, other, List.mem_cons_of_mem _ member, facts⟩

/-- Dispatching an instruction keeps the table exact: the instruction is still the
last renamer of its destinations. -/
theorem Exact.dispatch
    {seq : Nat} {dests : List PhysRegId} {rest : List (Nat × List PhysRegId)}
    (exact : Exact sizes state) (queue : state.dispatchQueue thread = (seq, dests) :: rest)
    (keeps : keepsProducers sizes state (.dispatch thread) = true) :
    Exact sizes
      { dests.foldl (addToProducer (thread, seq)) state with
        dispatchQueue := Function.update state.dispatchQueue thread rest } := by
  obtain ⟨table, folded, entries⟩ := foldl_addToProducer (thread, seq) dests state
  have conserved := exact.conserved
  rw [folded]
  refine ⟨{ conserved with }, exact.recorded, ?_, ?_⟩
  · intro other waiting member dest isIn
    refine exact.queued other waiting ?_ dest isIn
    dsimp only at member
    by_cases same : other = thread
    · subst same
      rw [Function.update_self] at member
      rw [queue]
      exact List.mem_cons_of_mem _ member
    · rwa [Function.update_of_ne same] at member
  · intro phys live
    rcases entries phys.flatIdx with old | ⟨new, dest, member, tracked, flat⟩
    · exact old.trans (exact.exact phys live)
    · refine new.trans ?_
      obtain ⟨physClass, physMember⟩ := exact.conserved.live_mem live
      have isDest := exact.queued thread (seq, dests) (by simp [queue]) dest member
      rcases isDest with fixed | ⟨zero, isInt⟩ | ⟨entry, inHistory, change, rfl, sameSeq⟩
      · simp [tracked] at fixed
      · have same := eq_of_flatIdx_eq isInt physMember flat
        simp only [keepsProducers, queue, List.head?_cons, Option.all_some,
          List.all_eq_true, Bool.or_eq_true, bne_iff_ne, beq_iff_eq] at keeps
        have last := (keeps dest member).resolve_left (fun other => other zero)
        rw [same] at last
        exact last.symm
      · have newMember := (exact.conserved.new_owned inHistory change).1
        have same := eq_of_flatIdx_eq newMember physMember flat
        have last := exact.recorded thread entry inHistory change
        rw [sameSeq, same] at last
        exact last.symm

/-- A step that only drops entries of one history buffer, never those that are
to be kept. -/
structure Drops
    (sizes : Sizes) (thread : Nat) (keep : RenameHistory → Prop) (before after : State) : Prop where
  conserved : Conserved sizes after
  histories : ∀ other, ∀ entry ∈ after.historyBuffer other, entry ∈ before.historyBuffer other
  kept : ∀ other, ∀ entry ∈ before.historyBuffer other,
    (other = thread → keep entry) → entry ∈ after.historyBuffer other
  live : ∀ phys ∈ liveRegs sizes after, phys ∈ liveRegs sizes before
  zero : after.renameMap 0 zeroId = before.renameMap 0 zeroId
  producers : after.regToProducerInst = before.regToProducerInst
  lastRenamer : after.lastRenamer = before.lastRenamer
  queue : after.dispatchQueue = before.dispatchQueue

theorem Drops.refl (conserved : Conserved sizes state) : Drops sizes thread keep state state :=
  ⟨conserved, fun _ _ member => member, fun _ _ member _ => member,
    fun _ live => live, rfl, rfl, rfl, rfl⟩

theorem Drops.trans
    (left : Drops sizes thread keep first second) (right : Drops sizes thread keep second third) :
    Drops sizes thread keep first third where
  conserved := right.conserved
  histories other entry member :=
    left.histories other entry (right.histories other entry member)
  kept other entry member keeps :=
    right.kept other entry (left.kept other entry member keeps) keeps
  live phys live := left.live phys (right.live phys live)
  zero := right.zero.trans left.zero
  producers := right.producers.trans left.producers
  lastRenamer := right.lastRenamer.trans left.lastRenamer
  queue := right.queue.trans left.queue

/-- Dropping entries keeps the table exact if the instructions waiting for
dispatch keep theirs. -/
theorem Exact.drops
    (exact : Exact sizes before) (drops : Drops sizes thread keep before after)
    (queue : Nat → List (Nat × List PhysRegId))
    (queued : ∀ other, ∀ waiting ∈ queue other,
      waiting ∈ before.dispatchQueue other ∧
        (other = thread → ∀ entry : RenameHistory, entry.instSeqNum = waiting.1 → keep entry)) :
    Exact sizes { after with dispatchQueue := queue } := by
  have conserved := drops.conserved
  refine ⟨{ conserved with }, ?_, ?_, ?_⟩
  · intro other entry member change
    dsimp only at member ⊢
    rw [drops.lastRenamer]
    exact exact.recorded other entry (drops.histories other entry member) change
  · intro other waiting member dest isIn
    obtain ⟨old, keeps⟩ := queued other waiting member
    rcases exact.queued other waiting old dest isIn with
      fixed | ⟨zero, isInt⟩ | ⟨entry, inHistory, change, new, sameSeq⟩
    · exact .inl fixed
    · exact .inr (.inl ⟨zero.trans drops.zero.symm, isInt⟩)
    · exact .inr (.inr ⟨entry,
        drops.kept other entry inHistory (fun same => keeps same entry sameSeq),
        change, new, sameSeq⟩)
  · intro phys live
    dsimp only
    rw [drops.producers, drops.lastRenamer]
    exact exact.exact phys (drops.live phys live)

/-- Taking one entry out of a history buffer drops it, if the mappings were in
use. -/
theorem Drops.of_removed
    (conserved : Conserved sizes (setHistory changed thread rest))
    (history : ∀ old, old ∈ state.historyBuffer thread ↔ old = entry ∨ old ∈ rest)
    (dropped : ¬ keep entry) (histories : changed.historyBuffer = state.historyBuffer)
    (mapped : ∀ other reg, other < sizes.activeThreads → reg ∈ archRegs sizes →
      changed.renameMap other reg ∈ liveRegs sizes state)
    (zero : changed.renameMap 0 zeroId = state.renameMap 0 zeroId)
    (producers : changed.regToProducerInst = state.regToProducerInst)
    (lastRenamer : changed.lastRenamer = state.lastRenamer)
    (queue : changed.dispatchQueue = state.dispatchQueue) :
    Drops sizes thread keep state (setHistory changed thread rest) := by
  have mem : ∀ other old,
      old ∈ (setHistory changed thread rest).historyBuffer other ↔
        if other = thread then old ∈ rest else old ∈ state.historyBuffer other := by
    intro other old
    by_cases same : other = thread
    · subst same
      simp [setHistory]
    · simp [setHistory, same, histories]
  have old : ∀ other old,
      old ∈ (setHistory changed thread rest).historyBuffer other →
        old ∈ state.historyBuffer other := by
    intro other old member
    rw [mem] at member
    split at member
    next same =>
      rw [same, history]
      exact .inr member
    next => exact member
  refine ⟨conserved, old, ?_, ?_, zero, producers, lastRenamer, queue⟩
  · intro other old member keeps
    rw [mem]
    split
    next same =>
      subst same
      rw [history] at member
      exact member.resolve_left fun equal => dropped (equal ▸ keeps rfl)
    next => exact member
  · intro phys live
    rcases mem_liveRegs.mp live with
      ⟨other, active, reg, arch, rfl⟩ | ⟨other, active, entry, member, facts⟩
    · exact mapped other reg active arch
    · exact mem_liveRegs.mpr (.inr ⟨other, active, entry, old other entry member, facts⟩)

theorem Drops.of_undo
    (conserved : Conserved sizes state) (history : state.historyBuffer thread = entry :: rest)
    (dropped : ¬ keep entry) :
    Drops sizes thread keep state
      (setHistory (undo state thread entry) thread rest) := by
  have member : ∀ old, old ∈ state.historyBuffer thread ↔ old = entry ∨ old ∈ rest := by
    simp [history]
  by_cases change : entry.isChange = true
  · obtain ⟨active, arch, notZero⟩ :=
      conserved.slotted thread entry (by simp [history]) change
    have undone : ∀ other reg, (undo state thread entry).renameMap other reg =
        if (other, reg) = (thread, entry.archReg) then entry.prevPhysReg
        else state.renameMap other reg := by
      intro other reg
      simp only [undo, change, if_true, addReg]
      exact renameMap_setEntry _ _ _ _ _ _
    refine Drops.of_removed (conserved.undo history) member dropped ?_ ?_ ?_ ?_ ?_ ?_
    · simp [undo, change, addReg, setEntry]
    · intro other reg otherActive otherArch
      rw [undone, mem_liveRegs]
      split
      next =>
        exact .inr ⟨thread, active, entry, (member entry).mpr (.inl rfl), change, rfl⟩
      next => exact .inl ⟨other, otherActive, reg, otherArch, rfl⟩
    · rw [undone, if_neg fun same => notZero (Prod.mk.inj same).2.symm]
    all_goals simp [undo, change, addReg, setEntry]
  · refine Drops.of_removed (conserved.undo history) member dropped
      ?_ ?mapped ?_ ?_ ?_ ?_
    case mapped =>
      intro other reg otherActive otherArch
      rw [mem_liveRegs]
      exact .inl ⟨other, otherActive, reg, otherArch, by simp [undo, change]⟩
    all_goals simp [undo, change]

/-- Releasing what the oldest entry replaced drops it. -/
theorem Drops.of_release
    (conserved : Conserved sizes state) (history : state.historyBuffer thread = later ++ [entry])
    (dropped : ¬ keep entry) :
    Drops sizes thread keep state
      (setHistory (release state entry) thread later) := by
  have member : ∀ old, old ∈ state.historyBuffer thread ↔ old = entry ∨ old ∈ later := by
    simp [history, or_comm]
  have maps : (release state entry).renameMap = state.renameMap := by
    unfold release
    split <;> rfl
  refine Drops.of_removed (conserved.release history) member dropped ?_ ?mapped
    (by rw [maps]) ?_ ?_ ?_
  case mapped =>
    intro other reg active arch
    rw [maps, mem_liveRegs]
    exact .inl ⟨other, active, reg, arch, rfl⟩
  all_goals
    unfold release
    split <;> rfl

/-- A squash drops entries of squashed instructions. -/
theorem Drops.undoYounger
    {keep : Nat} (history : List RenameHistory) (conserved : Conserved sizes state)
    (buffer : state.historyBuffer thread = history) :
    Drops sizes thread (fun entry => entry.instSeqNum ≤ keep) state
      (undoYounger keep thread history state) := by
  induction history generalizing state with
  | nil => exact Drops.refl conserved
  | cons entry rest ih =>
      unfold Rename.undoYounger
      split
      next young =>
        have drops : Drops sizes thread (fun entry => entry.instSeqNum ≤ keep) state
            (setHistory (undo state thread entry) thread rest) :=
          Drops.of_undo conserved buffer (Nat.not_le.mpr young)
        exact drops.trans (ih drops.conserved (by simp [setHistory]))
      next => exact Drops.refl conserved

/-- Committing drops entries of committed instructions. -/
theorem Drops.releaseOlder
    (reversed : List RenameHistory) (conserved : Conserved sizes state)
    (buffer : state.historyBuffer thread = reversed.reverse) :
    Drops sizes thread (fun entry => committed < entry.instSeqNum) state
      (releaseOlder committed thread reversed state) := by
  induction reversed generalizing state with
  | nil => exact Drops.refl conserved
  | cons entry rest ih =>
      unfold Rename.releaseOlder
      split
      next old =>
        rw [List.reverse_cons] at buffer
        have drops : Drops sizes thread
            (fun entry => committed < entry.instSeqNum) state
            (setHistory (release state entry) thread rest.reverse) :=
          Drops.of_release conserved buffer (Nat.not_lt.mpr old)
        exact drops.trans (ih drops.conserved (by simp [setHistory]))
      next => exact Drops.refl conserved

/-- The first mapping changes the map and the free lists. -/
theorem mapFirst_eq_some (mapped : mapFirst state slot = some next) :
    ∃ maps free, next = { state with renameMap := maps, freeList := free } := by
  unfold mapFirst at mapped
  split at mapped
  next =>
    cases mapped
    exact ⟨_, _, rfl⟩
  next =>
    obtain ⟨⟨phys, taken⟩, took, rfl⟩ := Option.map_eq_some_iff.mp mapped
    obtain ⟨rest, _, rfl⟩ := takeReg_eq_some took
    exact ⟨_, _, rfl⟩

/-- The constructed state has an exact table. -/
theorem Exact.of_initial (constructed : initial sizes = some state) : Exact sizes state := by
  have unwritten : state.historyBuffer = (fun _ => []) ∧
      state.dispatchQueue = (fun _ => []) ∧
      state.regToProducerInst = (fun _ => none) ∧
      state.lastRenamer = fun _ => none := by
    refine foldlM_processed (motive := fun _ (reached : State) =>
      reached.historyBuffer = (fun _ => []) ∧
      reached.dispatchQueue = (fun _ => []) ∧
      reached.regToProducerInst = (fun _ => none) ∧
      reached.lastRenamer = fun _ => none) (slots sizes) ⟨rfl, rfl, rfl, rfl⟩ ?_
      constructed
    intro _ slot _ reached next _ empty mapped
    obtain ⟨maps, free, rfl⟩ := mapFirst_eq_some mapped
    exact empty
  obtain ⟨histories, queue, producers, lastRenamer⟩ := unwritten
  refine ⟨Conserved.of_initial constructed, ?_, ?_, ?_⟩
  · simp [histories]
  · simp [queue]
  · simp [producers, lastRenamer]

theorem Exact.step
    (exact : Exact sizes state) (event : Event) (keeps : keepsProducers sizes state event = true)
    (enabled : step sizes state event = some next) :
    Exact sizes next := by
  cases event with
  | rename thread seq dests =>
      simp only [Rename.step, Option.ite_none_right_eq_some] at enabled
      obtain ⟨⟨active, _, valid⟩, renames⟩ := enabled
      obtain ⟨⟨reached, renamed⟩, result, rfl⟩ := Option.map_eq_some_iff.mp renames
      have midway := @Exact.renameDestRegs sizes state reached (thread, seq) renamed
        dests exact active valid keeps result
      exact midway.toExact exact _
  | dispatch thread =>
      simp only [Rename.step] at enabled
      split at enabled
      next => simp at enabled
      next seq dests rest queue =>
        cases enabled
        exact exact.dispatch queue keeps
  | squash thread keep =>
      cases enabled
      refine exact.drops
        (Drops.undoYounger (state.historyBuffer thread) exact.conserved rfl) _ ?_
      intro other waiting member
      by_cases same : other = thread
      · subst same
        rw [Function.update_self, List.mem_filter, decide_eq_true_eq] at member
        exact ⟨member.1, fun _ entry sameSeq => sameSeq ▸ member.2⟩
      · rw [Function.update_of_ne same] at member
        exact ⟨member, fun equal => absurd equal same⟩
  | commit thread committed =>
      simp only [Rename.step, Option.ite_none_right_eq_some, Option.some.injEq] at enabled
      obtain ⟨dispatched, rfl⟩ := enabled
      have drops : Drops sizes thread
          (fun entry => committed < entry.instSeqNum) state
          (removeFromHistory state committed thread) :=
        Drops.releaseOlder (state.historyBuffer thread).reverse exact.conserved
          (List.reverse_reverse _).symm
      have after := exact.drops drops state.dispatchQueue fun other waiting member =>
        ⟨member, fun same entry sameSeq =>
          sameSeq ▸ dispatched waiting (same ▸ member)⟩
      rwa [← drops.queue] at after

/-- In every run that keeps the table exact, the entry of a register in use is the instruction
that last renamed a destination to it, and a misc destination changes the entry of no register in
use. -/
theorem regToProducerInst_exact
    {sizes : Sizes} {start state : State} (constructed : initial sizes = some start)
    (reachable : Reachable (step sizes)
      (fun state event => keepsProducers sizes state event = true) start state) :
    (∀ phys ∈ liveRegs sizes state, state.regToProducerInst phys.flatIdx = state.lastRenamer phys) ∧
    (∀ thread seq dests next renamed,
      keepsProducers sizes state (.rename thread seq dests) = true →
      step sizes state (.rename thread seq dests) = some next →
      (∃ reg ∈ dests, reg.regClass = .misc) →
      next.dispatchQueue thread = state.dispatchQueue thread ++ [(seq, renamed)] →
      ∀ phys ∈ liveRegs sizes state, phys ∉ renamed →
        next.regToProducerInst phys.flatIdx = state.regToProducerInst phys.flatIdx) ∧
    ∀ thread next,
      keepsProducers sizes state (.dispatch thread) = true →
      step sizes state (.dispatch thread) = some next →
      ∀ phys ∈ liveRegs sizes state,
        next.regToProducerInst phys.flatIdx = state.regToProducerInst phys.flatIdx := by
  have exact : Exact sizes state :=
    reachable.invariant (Exact.of_initial constructed)
      fun _ event _ exact keeps enabled => exact.step event keeps enabled
  refine ⟨exact.exact, ?_, ?_⟩
  · intro thread seq dests next renamed keeps enabled _ queued phys live absent
    simp only [step, Option.ite_none_right_eq_some] at enabled
    obtain ⟨⟨active, _, valid⟩, renames⟩ := enabled
    obtain ⟨⟨reached, regs⟩, result, rfl⟩ := Option.map_eq_some_iff.mp renames
    have midway := @Exact.renameDestRegs sizes state reached (thread, seq) regs
      dests exact active valid keeps result
    have same : regs = renamed := by simpa using queued
    subst same
    exact ((midway.exact phys (midway.live phys live)).trans
      (midway.unchanged phys absent)).trans (exact.exact phys live).symm
  · intro thread next keeps enabled phys live
    have after := exact.step _ keeps enabled
    simp only [step] at enabled
    split at enabled
    next => simp at enabled
    next seq dests rest queue =>
      cases enabled
      obtain ⟨table, folded, _⟩ := foldl_addToProducer (thread, seq) dests state
      rw [folded] at after ⊢
      exact (after.exact phys live).trans (exact.exact phys live).symm

/-- One thread with the x86 integer registers up to the zero register, and a few
registers to rename to. -/
private def small : Sizes where
  numPhysicalIntRegs := 20
  numPhysicalFloatRegs := 2
  numPhysicalVecRegs := 1
  numPhysicalCCRegs := 2
  numIntRegs := 17
  numFloatRegs := 1
  numVecRegs := 1
  numCCRegs := 1
  activeThreads := 1

private theorem exists_small_run
    (allowed : State → Event → Prop) [∀ state event, Decidable (allowed state event)]
    (events : List Event) (property : State → Prop) [DecidablePred property]
    (replayed : (initial small).any (fun start =>
      (replay (step small) allowed start events).any
        fun state => decide (property state)) = true) :
    ∃ start state, initial small = some start ∧
      Reachable (step small) allowed start state ∧ property state := by
  cases constructed : initial small with
  | none => simp [constructed] at replayed
  | some start =>
      rw [constructed, Option.any_some] at replayed
      obtain ⟨state, reachable, tested⟩ :=
        Reachable.exists_of_replay events _ replayed
      exact ⟨start, state, rfl, reachable, of_decide_eq_true tested⟩

/-- An integer register of the small file. -/
private def intReg (index : Nat) : PhysRegId :=
  { regClass := .int, regIdx := index, flatIdx := index }

/-- The theorem on an instruction that renamed a destination to the first free
register. -/
theorem regToProducerInst_exact_small :
    ∃ start state, initial small = some start ∧
      Reachable (step small)
        (fun state event => keepsProducers small state event = true) start state ∧
      state.regToProducerInst 17 = some (0, 1) := by
  obtain ⟨start, state, constructed, reachable, live, last⟩ :=
    exists_small_run (fun state event => keepsProducers small state event = true)
      [.rename 0 1 [{ regClass := .int, regIdx := 3 }], .dispatch 0]
      (fun state => intReg 17 ∈ liveRegs small state ∧ state.lastRenamer (intReg 17) = some (0, 1))
      (by decide +kernel)
  exact ⟨start, state, constructed, reachable,
    ((regToProducerInst_exact constructed reachable).1 _ live).trans last⟩

/-- A misc destination overwrites the entry of the integer register with flat index zero; and an
instruction that writes the zero register is recorded for it at dispatch although a younger one
has renamed it since. -/
theorem regToProducerInst_inexact :
    (∃ start state, initial small = some start ∧
      Reachable (step small) (fun _ _ => True) start state ∧
      intReg 0 ∈ liveRegs small state ∧
      state.regToProducerInst 0 = some (0, 1) ∧
      state.lastRenamer (intReg 0) = none) ∧
    ∃ start state, initial small = some start ∧
      Reachable (step small) (fun _ _ => True) start state ∧
      intReg 16 ∈ liveRegs small state ∧
      state.regToProducerInst 16 = some (0, 1) ∧
      state.lastRenamer (intReg 16) = some (0, 2) := by
  constructor
  · exact exists_small_run (fun _ _ => True)
      [.rename 0 1 [{ regClass := .misc, regIdx := 5 }]] _ (by decide +kernel)
  · exact exists_small_run (fun _ _ => True)
      [.rename 0 1 [zeroId], .rename 0 2 [zeroId], .dispatch 0] _
      (by decide +kernel)

end Rename
end Dolma

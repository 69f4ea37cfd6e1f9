import Dolma.Library.Distinct
import Dolma.Library.ListFold
import Dolma.Rename.Defs

/-!
# Physical registers are conserved

In every state each physical register of a renamed class is exactly one of: free,
the mapping of one architectural register, or the register one entry of a history
buffer replaced. The entries of a history buffer, undone from the latest on,
lead back through the mappings the thread had.
-/

namespace Dolma
namespace Rename

open Library

/-- The registers of one class range are distinct. -/
theorem regRange_nodup (regClass : RegClass) (count flat : Nat) :
    (regRange regClass count flat).Nodup := by
  refine List.Nodup.map ?_ List.nodup_range
  intro first second equal
  exact congrArg (fun phys : PhysRegId => phys.regIdx) equal

variable {sizes : Sizes} {regClass : RegClass} {state after before next : State} {thread : Nat}
  {reg : RegId} {entry : RenameHistory} {renameMap : RegId → PhysRegId} {phys : PhysRegId}
  {history later : List RenameHistory} {slot : Nat × RegId}

theorem mem_regIds {phys : PhysRegId} :
    phys ∈ regIds sizes regClass ↔
      phys.regClass = regClass ∧ phys.elemIdx = 0 ∧
        phys.regIdx < numPhysicalRegs sizes regClass ∧
          phys.flatIdx = firstFlatIdx sizes regClass + phys.regIdx := by
  obtain ⟨⟨cls, index, elem⟩, flat⟩ := phys
  simp only [regIds, regRange, List.mem_map, List.mem_range]
  constructor
  · rintro ⟨index, bound, equal⟩
    cases equal
    exact ⟨rfl, rfl, bound, rfl⟩
  · rintro ⟨rfl, rfl, bound, rfl⟩
    exact ⟨index, bound, rfl⟩

/-- The flat index is injective across the renamed classes. -/
theorem eq_of_flatIdx_eq
    (firstMember : first ∈ regIds sizes firstClass)
    (secondMember : second ∈ regIds sizes secondClass) (same : first.flatIdx = second.flatIdx) :
    first = second := by
  rw [mem_regIds] at firstMember secondMember
  obtain ⟨firstEq, firstElem, firstBound, firstFlat⟩ := firstMember
  obtain ⟨secondEq, secondElem, secondBound, secondFlat⟩ := secondMember
  -- The classes occupy disjoint ranges of the flat space.
  have together : firstClass = secondClass ∧ first.regIdx = second.regIdx := by
    cases firstClass <;> cases secondClass <;>
      simp_all [numPhysicalRegs, firstFlatIdx] <;> omega
  obtain ⟨⟨firstCls, firstIdx, firstLane⟩, firstFlatIdx⟩ := first
  obtain ⟨⟨secondCls, secondIdx, secondLane⟩, secondFlatIdx⟩ := second
  simp_all

/-- The architectural registers that own a mapping: all but the zero registers
of the threads that share the one of thread zero. -/
def owningSlots (sizes : Sizes) (regClass : RegClass) : List (Nat × RegId) :=
  (slots sizes).filter fun slot =>
    slot.2.regClass == regClass && (slot.1 == 0 || slot.2 != zeroId)

/-- The registers that the entries of a history buffer replaced. -/
def replaced (regClass : RegClass) (history : List RenameHistory) : List PhysRegId :=
  (history.filter fun entry =>
    entry.isChange && entry.archReg.regClass == regClass).map (·.prevPhysReg)

/-- The registers of a class, wherever they are. -/
def owned (sizes : Sizes) (state : State) (regClass : RegClass) : List PhysRegId :=
  state.freeList regClass ++
    (owningSlots sizes regClass).flatMap
      (fun slot => [state.renameMap slot.1 slot.2]) ++
    (threads sizes).flatMap fun thread =>
      replaced regClass (state.historyBuffer thread)

/-- Undoing the entries of a history buffer one by one meets the mappings they
made. -/
def Unwinds : (RegId → PhysRegId) → List RenameHistory → Prop
  | _, [] => True
  | renameMap, entry :: rest =>
      if entry.isChange then
        renameMap entry.archReg = entry.newPhysReg ∧
          Unwinds (Function.update renameMap entry.archReg entry.prevPhysReg) rest
      else Unwinds renameMap rest

/-- Conservation of the physical registers. -/
structure Conserved (sizes : Sizes) (state : State) : Prop where
  owned : ∀ regClass, (owned sizes state regClass).Perm (regIds sizes regClass)
  shared : ∀ thread, thread < sizes.activeThreads →
    state.renameMap thread zeroId = state.renameMap 0 zeroId
  unwinds : ∀ thread, Unwinds (state.renameMap thread) (state.historyBuffer thread)
  slotted : ∀ thread, ∀ entry ∈ state.historyBuffer thread,
    entry.isChange = true → thread < sizes.activeThreads ∧
      entry.archReg ∈ archRegs sizes ∧ entry.archReg ≠ zeroId

theorem mem_slots {reg : RegId} :
    (thread, reg) ∈ slots sizes ↔ thread < sizes.activeThreads ∧ reg ∈ archRegs sizes := by
  simp [slots, threads]

/-- A renamed architectural register owns its mapping. -/
theorem mem_owningSlots
    (active : thread < sizes.activeThreads) (arch : reg ∈ archRegs sizes) (notZero : reg ≠ zeroId) :
    (thread, reg) ∈ owningSlots sizes reg.regClass := by
  simp [owningSlots, mem_slots, active, arch, notZero]

theorem regClass_of_mem_archRange (member : reg ∈ archRange regClass count) :
    reg.regClass = regClass := by
  obtain ⟨index, _, rfl⟩ := List.mem_map.mp member
  rfl

theorem archRange_disjoint (apart : first ≠ second) (firstCount secondCount : Nat) :
    (archRange first firstCount).Disjoint (archRange second secondCount) :=
  fun _ left right => apart <|
    (regClass_of_mem_archRange left).symm.trans (regClass_of_mem_archRange right)

/-- The architectural registers are distinct. -/
theorem archRegs_nodup (sizes : Sizes) : (archRegs sizes).Nodup := by
  have range : ∀ regClass count, (archRange regClass count).Nodup := by
    intro regClass count
    refine List.Nodup.map ?_ List.nodup_range
    intro first second equal
    exact congrArg RegId.regIdx equal
  unfold archRegs
  refine List.Nodup.append (List.Nodup.append (List.Nodup.append
    (range _ _) (range _ _) ?_) (range _ _) ?_) (range _ _) ?_ <;>
  simp [List.disjoint_append_left, archRange_disjoint]

theorem threads_nodup (sizes : Sizes) : (threads sizes).Nodup := List.nodup_range

theorem owningSlots_nodup (sizes : Sizes) (regClass : RegClass) :
    (owningSlots sizes regClass).Nodup :=
  ((threads_nodup sizes).product (archRegs_nodup sizes)).filter _

/-- The registers of a class are in distinct places. -/
theorem Conserved.nodup (conserved : Conserved sizes state) (regClass : RegClass) :
    (Rename.owned sizes state regClass).Nodup :=
  (conserved.owned regClass).nodup_iff.mpr (regRange_nodup _ _ _)

/-- Moving registers between the free list, one mapping and one history buffer
conserves the registers. -/
theorem owned_perm
    (active : thread < sizes.activeThreads) (slot : (thread, reg) ∈ owningSlots sizes reg.regClass)
    (maps : ∀ other otherReg, (other, otherReg) ≠ (thread, reg) →
      after.renameMap other otherReg = before.renameMap other otherReg)
    (histories : ∀ other, other ≠ thread → after.historyBuffer other = before.historyBuffer other)
    (free : ∀ regClass, regClass ≠ reg.regClass →
      after.freeList regClass = before.freeList regClass ∧
        replaced regClass (after.historyBuffer thread) =
          replaced regClass (before.historyBuffer thread))
    (moved : ∀ phys,
      (after.freeList reg.regClass ++ after.renameMap thread reg ::
          replaced reg.regClass (after.historyBuffer thread)).count phys =
        (before.freeList reg.regClass ++ before.renameMap thread reg ::
          replaced reg.regClass (before.historyBuffer thread)).count phys)
    (regClass : RegClass) :
    (owned sizes after regClass).Perm (owned sizes before regClass) := by
  have member : thread ∈ threads sizes := List.mem_range.mpr active
  refine List.perm_iff_count.mpr fun phys => ?_
  have histories := count_flatMap_add (threads_nodup sizes) member
    (fun thread => replaced regClass (before.historyBuffer thread))
    (fun thread => replaced regClass (after.historyBuffer thread))
    (fun other apart => by rw [histories other apart]) phys
  by_cases same : regClass = reg.regClass
  · subst same
    have maps := count_flatMap_add (owningSlots_nodup sizes reg.regClass) slot
      (fun slot => [before.renameMap slot.1 slot.2])
      (fun slot => [after.renameMap slot.1 slot.2])
      (fun other apart => by rw [maps other.1 other.2 apart]) phys
    have moved := moved phys
    simp only [owned, List.count_append, List.count_cons, List.count_nil]
      at histories maps moved ⊢
    omega
  · obtain ⟨sameFree, sameReplaced⟩ := free regClass same
    have maps : (owningSlots sizes regClass).flatMap
          (fun slot => [after.renameMap slot.1 slot.2]) =
        (owningSlots sizes regClass).flatMap
          (fun slot => [before.renameMap slot.1 slot.2]) := by
      refine List.flatMap_congr ?_
      intro other member
      have apart : other ≠ (thread, reg) := by
        rintro rfl
        simp [owningSlots, Ne.symm same] at member
      rw [maps other.1 other.2 apart]
    simp only [sameReplaced] at histories
    simp only [owned, List.count_append, maps, sameFree]
    omega

theorem mem_replaced {phys : PhysRegId} :
    phys ∈ replaced regClass history ↔
      ∃ entry ∈ history, entry.isChange = true ∧
        entry.archReg.regClass = regClass ∧ entry.prevPhysReg = phys := by
  simp [replaced, and_assoc]

theorem mem_owned {phys : PhysRegId} :
    phys ∈ owned sizes state regClass ↔
      phys ∈ state.freeList regClass ∨
        (∃ slot ∈ owningSlots sizes regClass, state.renameMap slot.1 slot.2 = phys) ∨
        ∃ thread < sizes.activeThreads, ∃ entry ∈ state.historyBuffer thread,
          entry.isChange = true ∧ entry.archReg.regClass = regClass ∧ entry.prevPhysReg = phys := by
  simp only [owned, List.append_assoc, List.mem_append, List.mem_flatMap,
    List.mem_singleton, @eq_comm _ phys, threads, List.mem_range, mem_replaced]

theorem Conserved.not_free
    (conserved : Conserved sizes state)
    (used : (∃ slot ∈ owningSlots sizes regClass,
        state.renameMap slot.1 slot.2 = phys) ∨
      ∃ thread < sizes.activeThreads, ∃ entry ∈ state.historyBuffer thread,
        entry.isChange = true ∧ entry.archReg.regClass = regClass ∧ entry.prevPhysReg = phys) :
    phys ∉ state.freeList regClass := by
  have nodup := conserved.nodup regClass
  rw [Rename.owned, List.append_assoc, List.nodup_append] at nodup
  intro free
  refine nodup.2.2 phys free phys ?_ rfl
  simpa only [List.mem_append, List.mem_flatMap, List.mem_singleton,
    @eq_comm _ phys, threads, List.mem_range, mem_replaced] using used

/-- The new register is mapped or was replaced later. -/
theorem Unwinds.new_used
    (unwinds : Unwinds renameMap history) (member : entry ∈ history)
    (change : entry.isChange = true) :
    renameMap entry.archReg = entry.newPhysReg ∨
      ∃ later ∈ history, later.isChange = true ∧
        later.archReg = entry.archReg ∧ later.prevPhysReg = entry.newPhysReg := by
  induction history generalizing renameMap with
  | nil => simp at member
  | cons head rest ih =>
      simp only [Unwinds] at unwinds
      split at unwinds
      next headChange =>
        rcases List.mem_cons.mp member with rfl | inRest
        · exact .inl unwinds.1
        · rcases ih unwinds.2 inRest with mapped | ⟨later, facts⟩
          · by_cases same : entry.archReg = head.archReg
            · rw [same, Function.update_self] at mapped
              exact .inr ⟨head, List.mem_cons_self, headChange, same.symm, mapped⟩
            · rw [Function.update_of_ne same] at mapped
              exact .inl mapped
          · exact .inr ⟨later, List.mem_cons_of_mem _ facts.1, facts.2⟩
      next noChange =>
        rcases List.mem_cons.mp member with rfl | inRest
        · exact absurd change noChange
        · exact (ih unwinds inRest).imp_right
            fun ⟨later, facts⟩ => ⟨later, List.mem_cons_of_mem _ facts.1, facts.2⟩

/-- The new register of an entry is in use. -/
theorem Conserved.new_owned
    (conserved : Conserved sizes state) (member : entry ∈ state.historyBuffer thread)
    (change : entry.isChange = true) :
    entry.newPhysReg ∈ regIds sizes entry.archReg.regClass ∧
      entry.newPhysReg ∉ state.freeList entry.archReg.regClass := by
  obtain ⟨active, arch, notZero⟩ := conserved.slotted thread entry member change
  have used : (∃ slot ∈ owningSlots sizes entry.archReg.regClass,
        state.renameMap slot.1 slot.2 = entry.newPhysReg) ∨
      ∃ thread < sizes.activeThreads, ∃ other ∈ state.historyBuffer thread,
        other.isChange = true ∧
          other.archReg.regClass = entry.archReg.regClass ∧
            other.prevPhysReg = entry.newPhysReg := by
    rcases (conserved.unwinds thread).new_used member change with
      mapped | ⟨later, laterMember, laterChange, sameReg, replaced⟩
    · exact .inl ⟨_, mem_owningSlots active arch notZero, mapped⟩
    · exact .inr ⟨thread, active, later, laterMember, laterChange,
        congrArg RegId.regClass sameReg, replaced⟩
  exact ⟨(conserved.owned _).subset (mem_owned.mpr (.inr used)), conserved.not_free used⟩

theorem Unwinds.of_append (unwinds : Unwinds renameMap (later ++ older)) :
    Unwinds renameMap later := by
  induction later generalizing renameMap with
  | nil => exact trivial
  | cons entry rest ih =>
      simp only [List.cons_append, Unwinds] at unwinds ⊢
      split at unwinds
      next change =>
        rw [if_pos change]
        exact ⟨unwinds.1, ih unwinds.2⟩
      next noChange =>
        rw [if_neg noChange]
        exact ih unwinds

/-- A mapping is a register of its class. -/
theorem Conserved.mapped_mem
    (conserved : Conserved sizes state) (member : slot ∈ owningSlots sizes regClass) :
    state.renameMap slot.1 slot.2 ∈ regIds sizes regClass :=
  (conserved.owned regClass).subset
    (mem_owned.mpr (.inr (.inl ⟨slot, member, rfl⟩)))

/-- A replaced register is one of its class. -/
theorem Conserved.prev_mem
    (conserved : Conserved sizes state) (member : entry ∈ state.historyBuffer thread)
    (change : entry.isChange = true) :
    entry.prevPhysReg ∈ regIds sizes entry.archReg.regClass :=
  (conserved.owned _).subset <| mem_owned.mpr <| .inr <| .inr
    ⟨thread, (conserved.slotted thread entry member change).1, entry, member, change, rfl, rfl⟩

theorem replaced_cons (regClass : RegClass) (entry : RenameHistory) (history : List RenameHistory) :
    replaced regClass (entry :: history) =
      if entry.isChange = true ∧ entry.archReg.regClass = regClass then
        entry.prevPhysReg :: replaced regClass history
      else replaced regClass history := by
  simp only [replaced, List.filter_cons, Bool.and_eq_true, beq_iff_eq]
  split <;> rfl

/-- An entry that changes nothing can be added or dropped. -/
theorem Conserved.special
    (thread : Nat) (conserved : Conserved sizes before) (map : after.renameMap = before.renameMap)
    (free : after.freeList = before.freeList)
    (histories : ∀ other, other ≠ thread → after.historyBuffer other = before.historyBuffer other)
    (changes : ∀ entry ∈ after.historyBuffer thread, entry.isChange = true →
      entry ∈ before.historyBuffer thread)
    (replacedSame : ∀ regClass,
      replaced regClass (after.historyBuffer thread) =
        replaced regClass (before.historyBuffer thread))
    (unwinds : Unwinds (before.renameMap thread) (before.historyBuffer thread) →
      Unwinds (before.renameMap thread) (after.historyBuffer thread)) :
    Conserved sizes after := by
  constructor
  case owned =>
    intro regClass
    have same : Rename.owned sizes after regClass = Rename.owned sizes before regClass := by
      simp only [Rename.owned, map, free]
      congr 1
      refine List.flatMap_congr fun other _ => ?_
      by_cases equal : other = thread
      · rw [equal, replacedSame]
      · rw [histories other equal]
    rw [same]
    exact conserved.owned regClass
  case shared =>
    rw [map]
    exact conserved.shared
  case unwinds =>
    intro other
    rw [map]
    by_cases equal : other = thread
    · subst equal
      exact unwinds (conserved.unwinds other)
    · rw [histories other equal]
      exact conserved.unwinds other
  case slotted =>
    intro other entry member change
    by_cases equal : other = thread
    · subst equal
      exact conserved.slotted other entry (changes entry member change) change
    · rw [histories other equal] at member
      exact conserved.slotted other entry member change

/-- Moving registers between the free list, one mapping and one history buffer
keeps conservation. -/
theorem Conserved.move
    (phys : PhysRegId) (conserved : Conserved sizes before) (active : thread < sizes.activeThreads)
    (arch : reg ∈ archRegs sizes) (notZero : reg ≠ zeroId)
    (map : after.renameMap = Function.update before.renameMap thread
      (Function.update (before.renameMap thread) reg phys))
    (histories : ∀ other, other ≠ thread → after.historyBuffer other = before.historyBuffer other)
    (others : ∀ regClass, regClass ≠ reg.regClass →
      after.freeList regClass = before.freeList regClass ∧
        replaced regClass (after.historyBuffer thread) =
          replaced regClass (before.historyBuffer thread))
    (moved : ∀ other,
      (after.freeList reg.regClass ++ phys ::
          replaced reg.regClass (after.historyBuffer thread)).count other =
        (before.freeList reg.regClass ++ before.renameMap thread reg ::
          replaced reg.regClass (before.historyBuffer thread)).count other)
    (unwinds : Unwinds (Function.update (before.renameMap thread) reg phys)
      (after.historyBuffer thread))
    (slotted : ∀ entry ∈ after.historyBuffer thread,
      entry ∈ before.historyBuffer thread ∨ entry.archReg = reg) :
    Conserved sizes after := by
  have mapSelf : after.renameMap thread reg = phys := by simp [map]
  have mapOther : ∀ other otherReg, (other, otherReg) ≠ (thread, reg) →
      after.renameMap other otherReg = before.renameMap other otherReg := by
    intro other otherReg apart
    by_cases same : other = thread
    · subst same
      have regDifferent : otherReg ≠ reg := by simpa using apart
      simp [map, regDifferent]
    · simp [map, same]
  constructor
  case owned =>
    intro regClass
    refine (owned_perm active (mem_owningSlots active arch notZero) mapOther
      histories others ?_ regClass).trans (conserved.owned regClass)
    rw [mapSelf]
    exact moved
  case shared =>
    intro other otherActive
    rw [mapOther other zeroId (by simp [notZero.symm]), mapOther 0 zeroId (by simp [notZero.symm])]
    exact conserved.shared other otherActive
  case unwinds =>
    intro other
    by_cases same : other = thread
    · subst same
      simpa [map] using unwinds
    · simpa [map, same, histories other same] using conserved.unwinds other
  case slotted =>
    intro other entry member change
    by_cases same : other = thread
    · subst same
      rcases slotted entry member with old | new
      · exact conserved.slotted other entry old change
      · rw [new]
        exact ⟨active, arch, notZero⟩
    · rw [histories other same] at member
      exact conserved.slotted other entry member change

theorem takeReg_eq_some (taken : takeReg state thread reg = some (phys, next)) :
    ∃ rest, state.freeList reg.regClass = phys :: rest ∧
      next = setEntry { state with
        freeList := Function.update state.freeList reg.regClass rest }
        thread reg phys := by
  unfold takeReg at taken
  split at taken
  next => simp at taken
  next first rest free =>
    simp only [Option.some.injEq, Prod.mk.injEq] at taken
    obtain ⟨rfl, rfl⟩ := taken
    exact ⟨rest, free, rfl⟩

/-- Renaming a register to a free one keeps conservation. -/
theorem Conserved.take
    (seq : Nat) (conserved : Conserved sizes state) (active : thread < sizes.activeThreads)
    (arch : reg ∈ archRegs sizes) (notZero : reg ≠ zeroId)
    (taken : takeReg state thread reg = some (phys, next)) (map : after.renameMap = next.renameMap)
    (free : after.freeList = next.freeList)
    (history : after.historyBuffer = Function.update state.historyBuffer thread
      ({ instSeqNum := seq, archReg := reg, newPhysReg := phys
         prevPhysReg := state.renameMap thread reg } ::
        state.historyBuffer thread)) :
    Conserved sizes after := by
  obtain ⟨rest, list, rfl⟩ := takeReg_eq_some taken
  have apart : phys ≠ state.renameMap thread reg := by
    intro same
    refine conserved.not_free
      (.inl ⟨_, mem_owningSlots active arch notZero, rfl⟩) ?_
    rw [list, ← same]
    exact List.mem_cons_self
  refine conserved.move phys active arch notZero map ?_ ?_ ?_ ?_ ?_
  · intro other otherThread
    simp [history, otherThread]
  · intro regClass otherClass
    simp [free, history, setEntry, otherClass, replaced_cons, otherClass.symm]
  · intro other
    simp [free, history, setEntry, replaced_cons, RenameHistory.isChange,
      apart, list, List.count_cons]
    omega
  · simp [history, Unwinds, RenameHistory.isChange, apart]
    exact conserved.unwinds thread
  · intro entry member
    rw [history, Function.update_self, List.mem_cons] at member
    rcases member with new | old
    · exact .inr (by rw [new])
    · exact .inl old

/-- Undoing the latest entry keeps conservation. -/
theorem Conserved.undo
    (conserved : Conserved sizes state) (history : state.historyBuffer thread = entry :: rest) :
    Conserved sizes (setHistory (undo state thread entry) thread rest) := by
  have unwinds := conserved.unwinds thread
  rw [history, Unwinds] at unwinds
  by_cases change : entry.isChange = true
  · have member : entry ∈ state.historyBuffer thread := by simp [history]
    obtain ⟨active, arch, notZero⟩ := conserved.slotted thread entry member change
    have sameClass :=
      (mem_regIds.mp (conserved.new_owned member change).1).1
    rw [if_pos change] at unwinds
    refine conserved.move entry.prevPhysReg active arch notZero
      ?_ ?_ ?_ ?_ ?_ ?_
    · simp [Rename.undo, change, setHistory, addReg, setEntry]
    · intro other otherThread
      simp [Rename.undo, change, setHistory, addReg, setEntry, otherThread]
    · intro regClass otherClass
      simp [Rename.undo, change, setHistory, addReg, setEntry, sameClass,
        otherClass, history, replaced_cons, otherClass.symm]
    · intro other
      simp [Rename.undo, change, setHistory, addReg, setEntry, sameClass,
        history, replaced_cons, unwinds.1, List.count_cons]
    · simpa [Rename.undo, change, setHistory, addReg, setEntry] using unwinds.2
    · intro other otherMember
      simp [Rename.undo, change, setHistory, addReg, setEntry] at otherMember
      exact .inl (by simp [history, otherMember])
  · refine conserved.special thread ?_ ?_ ?_ ?_ ?_ ?_
    · simp [Rename.undo, change, setHistory]
    · simp [Rename.undo, change, setHistory]
    · intro other otherThread
      simp [Rename.undo, change, setHistory, otherThread]
    · intro other otherMember _
      simp [Rename.undo, change, setHistory] at otherMember
      simp [history, otherMember]
    · intro regClass
      simp [Rename.undo, change, setHistory, history, replaced_cons]
    · intro _
      rw [if_neg change] at unwinds
      simpa [Rename.undo, change, setHistory] using unwinds

/-- Releasing the oldest entry keeps conservation. -/
theorem Conserved.release
    (conserved : Conserved sizes state) (history : state.historyBuffer thread = later ++ [entry]) :
    Conserved sizes (setHistory (release state entry) thread later) := by
  have unwinds := conserved.unwinds thread
  rw [history] at unwinds
  by_cases change : entry.isChange = true
  · have member : entry ∈ state.historyBuffer thread := by simp [history]
    obtain ⟨active, arch, notZero⟩ := conserved.slotted thread entry member change
    have sameClass := (mem_regIds.mp (conserved.prev_mem member change)).1
    refine conserved.move (state.renameMap thread entry.archReg) active arch
      notZero ?_ ?_ ?_ ?_ ?_ ?_
    · simp [Rename.release, change, setHistory, addReg]
    · intro other otherThread
      simp [Rename.release, change, setHistory, addReg, otherThread]
    · intro regClass otherClass
      simp [Rename.release, change, setHistory, addReg, sameClass, otherClass, history, replaced,
        otherClass.symm]
    · intro other
      simp [Rename.release, change, setHistory, addReg, sameClass, history, replaced,
        List.count_cons]
      omega
    · simpa [Rename.release, change, setHistory, addReg] using unwinds.of_append
    · intro other otherMember
      simp [Rename.release, change, setHistory, addReg] at otherMember
      exact .inl (by simp [history, otherMember])
  · refine conserved.special thread ?_ ?_ ?_ ?_ ?_ ?_
    · simp [Rename.release, change, setHistory]
    · simp [Rename.release, change, setHistory]
    · intro other otherThread
      simp [Rename.release, change, setHistory, otherThread]
    · intro other otherMember _
      simp [Rename.release, change, setHistory] at otherMember
      simp [history, otherMember]
    · intro regClass
      simp [Rename.release, change, setHistory, history, replaced]
    · intro _
      simpa [Rename.release, change, setHistory] using unwinds.of_append

/-! ## Construction -/

/-- The registers of a class while the architectural registers are being mapped
for the first time. -/
private structure Mapping
    (sizes : Sizes) (processed : List (Nat × RegId)) (state : State) : Prop where
  owned : ∀ regClass,
    (state.freeList regClass ++ (processed.filter fun slot =>
        slot.2.regClass == regClass && (slot.1 == 0 || slot.2 != zeroId)).flatMap
        fun slot => [state.renameMap slot.1 slot.2]).Perm (regIds sizes regClass)
  history : state.historyBuffer = fun _ => []
  shared : ∀ thread, (thread, zeroId) ∈ processed →
    state.renameMap thread zeroId = state.renameMap 0 zeroId
  unmapped : ∀ thread, (thread, zeroId) ∉ processed → state.renameMap thread zeroId = getMiscRegId 0

theorem slots_pairwise (sizes : Sizes) :
    (slots sizes).Pairwise fun first second => first.1 ≤ second.1 := by
  rw [slots, List.pairwise_flatMap]
  refine ⟨?_, ?_⟩
  · intro thread _
    rw [List.pairwise_map]
    exact List.pairwise_of_forall fun _ _ => Nat.le_refl _
  · refine (List.pairwise_lt_range (n := sizes.activeThreads)).imp ?_
    intro first second below left leftMember right rightMember
    obtain ⟨_, _, rfl⟩ := List.mem_map.mp leftMember
    obtain ⟨_, _, rfl⟩ := List.mem_map.mp rightMember
    exact Nat.le_of_lt below

/-- Setting one entry leaves the others. -/
theorem renameMap_setEntry
    (state : State) (thread other : Nat) (reg otherReg : RegId) (phys : PhysRegId) :
    (setEntry state thread reg phys).renameMap other otherReg =
      if (other, otherReg) = (thread, reg) then phys
      else state.renameMap other otherReg := by
  by_cases same : other = thread
  · subst same
    by_cases sameReg : otherReg = reg <;> simp [setEntry, sameReg]
  · simp [setEntry, same]

private theorem Mapping.extend
    (mapping : Mapping sizes processed state) (split : slots sizes = processed ++ slot :: rest)
    (mapped : mapFirst state slot = some next) :
    Mapping sizes (processed ++ [slot]) next := by
  obtain ⟨thread, reg⟩ := slot
  have fresh : (thread, reg) ∉ processed := by
    have nodup := (threads_nodup sizes).product (archRegs_nodup sizes)
    change (slots sizes).Nodup at nodup
    rw [split, List.nodup_append] at nodup
    exact fun member => nodup.2.2 _ member _ List.mem_cons_self rfl
  have older : ∀ other otherReg, (other, otherReg) ∈ processed → other ≤ thread := by
    have ordered := slots_pairwise sizes
    rw [split, List.pairwise_append] at ordered
    exact fun other otherReg member =>
      ordered.2.2 _ member _ List.mem_cons_self
  have kept : ∀ phys (free : RegClass → List PhysRegId) (chosen : _ → Bool),
      (processed.filter chosen).flatMap (fun slot =>
        [(setEntry { state with freeList := free } thread reg phys).renameMap
          slot.1 slot.2]) =
      (processed.filter chosen).flatMap fun slot =>
        [state.renameMap slot.1 slot.2] := by
    intro phys free chosen
    refine List.flatMap_congr fun other member => ?_
    have apart : other ≠ (thread, reg) := fun same =>
      fresh (same ▸ (List.mem_filter.mp member).1)
    rw [renameMap_setEntry, if_neg apart]
  have unmapped : ∀ phys (free : RegClass → List PhysRegId) other,
      (other, zeroId) ∉ processed ++ [(thread, reg)] →
        (setEntry { state with freeList := free } thread reg phys).renameMap
          other zeroId = getMiscRegId 0 := by
    intro phys free other absent
    rw [List.mem_append, List.mem_singleton, not_or] at absent
    rw [renameMap_setEntry, if_neg absent.2]
    exact mapping.unmapped other absent.1
  simp only [mapFirst] at mapped
  split at mapped
  next sharing =>
    simp only [Bool.and_eq_true, bne_iff_ne, ne_eq, beq_iff_eq] at sharing
    obtain ⟨notFirst, rfl⟩ := sharing
    cases mapped
    have first : (0, zeroId) ≠ (thread, zeroId) := by simpa using Ne.symm notFirst
    refine ⟨?_, mapping.history, ?_, unmapped _ _⟩
    · intro regClass
      have owned := mapping.owned regClass
      rw [List.filter_append, List.flatMap_append, kept _ state.freeList]
      simpa [setEntry, notFirst] using owned
    · intro other member
      rw [renameMap_setEntry, renameMap_setEntry, if_neg first]
      split
      next => rfl
      next apart =>
        rw [List.mem_append, List.mem_singleton] at member
        exact mapping.shared other (member.resolve_right apart)
  next owning =>
    obtain ⟨⟨phys, taken⟩, took, rfl⟩ := Option.map_eq_some_iff.mp mapped
    obtain ⟨rest, free, rfl⟩ := takeReg_eq_some took
    have chosen : (thread == 0 || reg != zeroId) = true := by
      simp only [Bool.and_eq_true, bne_iff_ne, ne_eq, beq_iff_eq, not_and] at owning
      by_cases zero : thread = 0
      · simp [zero]
      · simp [owning zero]
    refine ⟨?_, mapping.history, ?_, unmapped _ _⟩
    · intro regClass
      have owned := mapping.owned regClass
      rw [List.filter_append, List.flatMap_append, kept]
      by_cases same : regClass = reg.regClass
      · subst same
        rw [free] at owned
        refine List.Perm.trans ?_ owned
        simp only [List.filter_cons, beq_self_eq_true, chosen, Bool.and_self,
          if_true, List.filter_nil, List.flatMap_cons, List.flatMap_nil,
          renameMap_setEntry, List.append_nil]
        simp [setEntry, ← List.append_assoc]
      · simpa [setEntry, same, Ne.symm same] using owned
    · intro other member
      rw [List.mem_append, List.mem_singleton] at member
      by_cases zero : reg = zeroId
      · have first : thread = 0 := by simpa [zero] using chosen
        have isFirst : other = 0 := by
          rcases member with old | new
          · exact Nat.le_zero.mp (first ▸ older other zeroId old)
          · exact (Prod.mk.inj new).1.trans first
        rw [isFirst]
      · have apart : ∀ other, (other, zeroId) ≠ (thread, reg) := by
          intro other same
          exact zero (Prod.mk.inj same).2.symm
        rw [renameMap_setEntry, renameMap_setEntry, if_neg (apart other), if_neg (apart 0)]
        exact mapping.shared other (member.resolve_right (apart other))

section

variable (constructed : initial sizes = some state)
include constructed

private theorem Mapping.of_initial : Mapping sizes (slots sizes) state := by
  refine foldlM_processed (motive := Mapping sizes) (slots sizes) ?_ ?_ constructed
  · constructor <;> simp
  · intro processed slot rest accumulator next split mapping mapped
    exact mapping.extend split mapped

theorem historyBuffer_of_initial : state.historyBuffer = fun _ => [] :=
  (Mapping.of_initial constructed).history

theorem renameMap_zero_of_initial (missing : (0, zeroId) ∉ slots sizes) :
    state.renameMap 0 zeroId = getMiscRegId 0 :=
  (Mapping.of_initial constructed).unmapped 0 missing

/-- The constructed state conserves the registers. -/
theorem Conserved.of_initial : Conserved sizes state := by
  have mapping := Mapping.of_initial constructed
  constructor
  case owned =>
    intro regClass
    have nothing : (threads sizes).flatMap
        (fun thread => replaced regClass (state.historyBuffer thread)) = [] := by
      simp [mapping.history, replaced]
    rw [Rename.owned, nothing, List.append_nil]
    exact mapping.owned regClass
  case shared =>
    intro thread active
    by_cases arch : zeroId ∈ archRegs sizes
    · exact mapping.shared thread (mem_slots.mpr ⟨active, arch⟩)
    · rw [mapping.unmapped thread (fun member => arch (mem_slots.mp member).2),
        mapping.unmapped 0 (fun member => arch (mem_slots.mp member).2)]
  case unwinds => simp [mapping.history, Unwinds]
  case slotted => simp [mapping.history]

end

end Rename
end Dolma

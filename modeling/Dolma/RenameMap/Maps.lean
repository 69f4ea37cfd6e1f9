import Dolma.Rename.Conserved
import Mathlib.Algebra.Group.Nat.Defs
import Mathlib.Data.List.Basic

/-!
# The rename maps of the register classes

Each class of registers has its own map from architectural to physical registers and its own
free list. Looking a register up and setting its entry use the flat index of the register,
while renaming uses its index in the class; the two differ for the lanes of vector registers.
Renaming leaves the zero register of a map alone, which every map takes for an integer
register.
-/

namespace Dolma
namespace RenameMap

open Rename (getMiscRegId)

/-- The registers of the architecture. -/
structure Isa where
  numIntRegs : Nat
  numFloatRegs : Nat
  numVecRegs : Nat
  numCCRegs : Nat
  numMiscRegs : Nat
  numVecElemPerVecReg : Nat
  zeroReg : Nat
  isAlpha : Bool := false

namespace Isa

variable (isa : Isa)

/-- The number of registers of a class; for the lanes, the number of vectors. -/
def numRegs : RegClass → Nat
  | .int => isa.numIntRegs
  | .float => isa.numFloatRegs
  | .vec | .vecElem => isa.numVecRegs
  | .cc => isa.numCCRegs
  | .misc => isa.numMiscRegs

/-- The size of the map of a class. -/
def mapSize : RegClass → Nat
  | .vecElem => isa.numVecRegs * isa.numVecElemPerVecReg
  | regClass => isa.numRegs regClass

/-- The index that a register has in a vector. -/
def flatIndex (reg : RegId) : Nat :=
  match reg.regClass with
  | .vecElem => isa.numVecElemPerVecReg * reg.regIdx + reg.elemIdx
  | _ => reg.regIdx

/-- The register always reads zero. -/
def isZeroReg (reg : RegId) : Bool :=
  reg.regClass == .int && reg.regIdx == isa.zeroReg ||
    isa.isAlpha && reg.regClass == .float && reg.regIdx == isa.zeroReg

/-- The index of the zero register that the map of a class is initialised with. -/
def initZeroReg : RegClass → Nat
  | .int => isa.zeroReg
  | .float => if isa.isAlpha then isa.zeroReg else isa.numFloatRegs + 1
  | _ => 2 ^ 16 - 1

/-- The zero register of the map of a class. -/
def mapZeroReg (regClass : RegClass) : RegId :=
  { regClass := .int, regIdx := isa.initZeroReg regClass }

end Isa

/-- How vector registers are renamed. -/
inductive VecMode where
  | full
  | elem
deriving DecidableEq, Repr

/-- The rename maps and the free lists. -/
structure State where
  map : RegClass → List PhysRegId
  freeList : RegClass → List PhysRegId
  vecMode : VecMode

namespace State

variable (isa : Isa) (state : State)

/-- The class may be used in the mode. -/
def isActive : RegClass → Bool
  | .vec => state.vecMode == .full
  | .vecElem => state.vecMode == .elem
  | _ => true

/-- Look up the physical register of an architectural register. -/
def lookup (reg : RegId) : Option PhysRegId :=
  if !state.isActive reg.regClass then none
  else if reg.regClass = .misc then some (getMiscRegId reg.regIdx)
  else (state.map reg.regClass)[isa.flatIndex reg]?

/-- Write an entry of a map. -/
def write (regClass : RegClass) (index : Nat) (phys : PhysRegId) : State :=
  { state with
    map := Function.update state.map regClass ((state.map regClass).set index phys) }

/-- Set the entry of an architectural register. Control registers may only be set to what they
are. -/
def setEntry (reg : RegId) (phys : PhysRegId) : Option State :=
  if !state.isActive reg.regClass then none
  else if reg.regClass = .misc then
    if state.lookup isa reg = some phys then some state else none
  else if phys.regClass ≠ reg.regClass ∨
      (state.map reg.regClass).length ≤ isa.flatIndex reg then none
  else some (state.write reg.regClass (isa.flatIndex reg) phys)

/-- Rename a register in the map of its class. -/
def renameInMap (reg : RegId) : Option ((PhysRegId × PhysRegId) × State) := do
  let prev ← (state.map reg.regClass)[reg.regIdx]?
  if reg ≠ isa.mapZeroReg reg.regClass then
    match state.freeList reg.regClass with
    | [] => none
    | renamed :: rest =>
        some ((renamed, prev),
          { state.write reg.regClass reg.regIdx renamed with
            freeList := Function.update state.freeList reg.regClass rest })
  else if isa.isZeroReg prev.toRegId then some ((prev, prev), state)
  else none

/-- Rename a register: the new and the previous physical register. -/
def rename (reg : RegId) : Option ((PhysRegId × PhysRegId) × State) :=
  if !state.isActive reg.regClass then none
  else if reg.regClass = .misc then
    (state.lookup isa reg).map fun phys => ((phys, phys), state)
  else state.renameInMap isa reg

end State

/-! ## Renaming one register -/

/-- An architectural register in the current mode. -/
def IsArchReg (isa : Isa) (state : State) (reg : RegId) : Prop :=
  state.isActive reg.regClass = true ∧ reg.regIdx < isa.numRegs reg.regClass ∧
    if reg.regClass = .vecElem then reg.elemIdx < isa.numVecElemPerVecReg else reg.elemIdx = 0

instance (isa : Isa) (state : State) (reg : RegId) : Decidable (IsArchReg isa state reg) :=
  inferInstanceAs (Decidable (_ ∧ _ ∧ if reg.regClass = .vecElem then _ else _))

/-- The maps have their sizes and hold registers of their classes, zero registers are mapped to
zero registers, and free registers are not mapped. -/
structure Proper (isa : Isa) (state : State) : Prop where
  size : ∀ regClass, regClass ≠ .misc → (state.map regClass).length = isa.mapSize regClass
  classes : ∀ regClass, ∀ phys ∈ state.map regClass, phys.regClass = regClass
  zero : ∀ reg, isa.isZeroReg reg = true →
    ∀ phys ∈ (state.map reg.regClass)[reg.regIdx]?, isa.isZeroReg phys.toRegId = true
  fresh : ∀ regClass, ∀ phys ∈ state.freeList regClass, phys ∉ state.map regClass

/-- Renaming a register changes that register only. -/
structure RenamesOnly
    (isa : Isa) (state : State) (reg : RegId) (renamed prev : PhysRegId) (next : State) : Prop where
  new : next.lookup isa reg = some renamed
  old : state.lookup isa reg = some prev
  allocated : reg.regClass ≠ .misc → isa.isZeroReg reg = false →
    state.freeList reg.regClass = renamed :: next.freeList reg.regClass
  others : ∀ other, IsArchReg isa state other → other ≠ reg →
    next.lookup isa other = state.lookup isa other
  restores : ∃ restored, next.setEntry isa reg prev = some restored ∧ restored.map = state.map
  zero : isa.isZeroReg reg = true → next.map = state.map ∧ next.freeList = state.freeList

/-- The register has the same index in its class and in the map, and is not a zero register
that the map does not know. -/
def Isa.renamesAlone (isa : Isa) (reg : RegId) : Bool :=
  reg.regIdx == isa.flatIndex reg && !(isa.isZeroReg reg && reg.regClass == .float)

variable {isa : Isa} {state : State} {reg other : RegId}

theorem Isa.flatIndex_of_ne (noLane : reg.regClass ≠ .vecElem) :
    isa.flatIndex reg = reg.regIdx := by
  unfold Isa.flatIndex
  split
  case h_1 lane => exact absurd lane noLane
  case h_2 => rfl

theorem Isa.flatIndex_of_lane (lane : reg.regClass = .vecElem) :
    isa.flatIndex reg = isa.numVecElemPerVecReg * reg.regIdx + reg.elemIdx := by
  unfold Isa.flatIndex
  rw [lane]

theorem Isa.mapSize_of_ne (noLane : regClass ≠ .vecElem) :
    isa.mapSize regClass = isa.numRegs regClass := by
  cases regClass with
  | vecElem => exact absurd rfl noLane
  | int => rfl
  | float => rfl
  | vec => rfl
  | cc => rfl
  | misc => rfl

namespace IsArchReg

theorem flatIndex_lt (arch : IsArchReg isa state reg) :
    isa.flatIndex reg < isa.mapSize reg.regClass := by
  obtain ⟨-, inside, lane⟩ := arch
  by_cases isLane : reg.regClass = .vecElem
  · rw [if_pos isLane] at lane
    rw [Isa.flatIndex_of_lane isLane, isLane]
    rw [isLane] at inside
    change reg.regIdx < isa.numVecRegs at inside
    change _ < isa.numVecRegs * isa.numVecElemPerVecReg
    calc isa.numVecElemPerVecReg * reg.regIdx + reg.elemIdx
      _ < isa.numVecElemPerVecReg * reg.regIdx + isa.numVecElemPerVecReg :=
          Nat.add_lt_add_left lane _
      _ = (reg.regIdx + 1) * isa.numVecElemPerVecReg := by
          rw [Nat.mul_comm, Nat.succ_mul]
      _ ≤ isa.numVecRegs * isa.numVecElemPerVecReg := Nat.mul_le_mul_right _ inside
  · rw [Isa.flatIndex_of_ne isLane, Isa.mapSize_of_ne isLane]
    exact inside

theorem regIdx_lt (arch : IsArchReg isa state reg) : reg.regIdx < isa.mapSize reg.regClass := by
  by_cases isLane : reg.regClass = .vecElem
  · obtain ⟨-, inside, lane⟩ := arch
    rw [if_pos isLane] at lane
    rw [isLane] at inside ⊢
    change reg.regIdx < isa.numVecRegs at inside
    change _ < isa.numVecRegs * isa.numVecElemPerVecReg
    exact Nat.lt_of_lt_of_le inside (Nat.le_mul_of_pos_right _ (Nat.zero_lt_of_lt lane))
  · have inside := arch.flatIndex_lt
    rw [Isa.flatIndex_of_ne isLane] at inside
    exact inside

/-- Registers of a class have different flat indices. -/
theorem eq_of_flatIndex
    (arch : IsArchReg isa state reg) (otherArch : IsArchReg isa state other)
    (sameClass : other.regClass = reg.regClass)
    (sameIndex : isa.flatIndex other = isa.flatIndex reg) :
    other = reg := by
  obtain ⟨-, -, lane⟩ := arch
  obtain ⟨-, -, otherLane⟩ := otherArch
  obtain ⟨regClass, regIdx, elemIdx⟩ := reg
  obtain ⟨otherClass, otherIdx, otherElem⟩ := other
  dsimp only at sameClass lane otherLane
  subst sameClass
  by_cases isLane : otherClass = .vecElem
  · rw [if_pos isLane] at lane otherLane
    rw [Isa.flatIndex_of_lane isLane, Isa.flatIndex_of_lane isLane] at sameIndex
    have positive := Nat.zero_lt_of_lt lane
    have vectors := congrArg (· / isa.numVecElemPerVecReg) sameIndex
    have lanes := congrArg (· % isa.numVecElemPerVecReg) sameIndex
    dsimp only at vectors lanes
    rw [Nat.mul_add_div positive, Nat.mul_add_div positive, Nat.div_eq_of_lt lane,
      Nat.div_eq_of_lt otherLane] at vectors
    rw [Nat.mul_add_mod, Nat.mul_add_mod, Nat.mod_eq_of_lt lane,
      Nat.mod_eq_of_lt otherLane] at lanes
    rw [Nat.add_zero, Nat.add_zero] at vectors
    rw [vectors, lanes]
  · rw [if_neg isLane] at lane otherLane
    rw [Isa.flatIndex_of_ne isLane, Isa.flatIndex_of_ne isLane] at sameIndex
    dsimp only at sameIndex
    rw [sameIndex, lane, otherLane]

/-- What the lookup of a register that is renamed reads. -/
theorem lookup_eq (arch : IsArchReg isa state reg) (renameable : reg.regClass ≠ .misc) :
    state.lookup isa reg = (state.map reg.regClass)[isa.flatIndex reg]? := by
  unfold State.lookup
  rw [arch.1, Bool.not_true, if_neg Bool.false_ne_true, if_neg renameable]

/-- The register its map takes for zero. -/
theorem eq_mapZeroReg_iff (arch : IsArchReg isa state reg) :
    reg = isa.mapZeroReg reg.regClass ↔ reg.regClass = .int ∧ reg.regIdx = isa.zeroReg := by
  obtain ⟨-, -, lane⟩ := arch
  obtain ⟨regClass, regIdx, elemIdx⟩ := reg
  unfold Isa.mapZeroReg
  cases regClass with
  | int =>
      rw [if_neg RegClass.noConfusion] at lane
      dsimp only at lane
      subst lane
      simp [Isa.initZeroReg]
  | float => simp
  | vec => simp
  | vecElem => simp
  | cc => simp
  | misc => simp

end IsArchReg

theorem Isa.isZeroReg_iff :
    isa.isZeroReg reg = true ↔
      reg.regClass = .int ∧ reg.regIdx = isa.zeroReg ∨
        isa.isZeroReg reg = true ∧ reg.regClass = .float := by
  unfold Isa.isZeroReg
  cases reg.regClass with
  | int => simp
  | float => simp
  | vec => simp
  | vecElem => simp
  | cc => simp
  | misc => simp

/-- The state after a register has been renamed to the first free register. -/
def State.allocate (state : State) (reg : RegId) (phys : PhysRegId) (rest : List PhysRegId) :
    State :=
  { state.write reg.regClass reg.regIdx phys with
    freeList := Function.update state.freeList reg.regClass rest }

variable {phys prev : PhysRegId} {rest : List PhysRegId}

namespace Proper

/-- A register that its map does not take for the zero register is renamed to the first free
register. -/
theorem rename_eq
    (proper : Proper isa state) (arch : IsArchReg isa state reg) (renameable : reg.regClass ≠ .misc)
    (notZero : reg ≠ isa.mapZeroReg reg.regClass)
    (free : state.freeList reg.regClass = phys :: rest) :
    ∃ prev, (state.map reg.regClass)[reg.regIdx]? = some prev ∧
      state.rename isa reg = some ((phys, prev), state.allocate reg phys rest) := by
  have inside := arch.regIdx_lt
  rw [← proper.size _ renameable] at inside
  refine ⟨_, List.getElem?_eq_getElem inside, ?_⟩
  unfold State.rename State.renameInMap
  rw [arch.1, Bool.not_true, if_neg Bool.false_ne_true, if_neg renameable,
    List.getElem?_eq_getElem inside, free]
  exact if_pos notZero

/-- A register that its map takes for the zero register is left alone. -/
theorem rename_zero
    (proper : Proper isa state) (arch : IsArchReg isa state reg)
    (isZero : reg = isa.mapZeroReg reg.regClass) :
    ∃ phys, state.lookup isa reg = some phys ∧ phys.regClass = reg.regClass ∧
      state.rename isa reg = some ((phys, phys), state) := by
  have isInt := arch.eq_mapZeroReg_iff.mp isZero
  have renameable : reg.regClass ≠ .misc := by
    rw [isInt.1]
    exact RegClass.noConfusion
  have noLane : reg.regClass ≠ .vecElem := by
    rw [isInt.1]
    exact RegClass.noConfusion
  have inside := arch.regIdx_lt
  rw [← proper.size _ renameable] at inside
  have entry := List.getElem?_eq_getElem inside
  refine ⟨_, ?_, proper.classes _ _ (List.getElem_mem inside), ?_⟩
  · rw [arch.lookup_eq renameable, Isa.flatIndex_of_ne noLane]
    exact entry
  · have zero := proper.zero reg (Isa.isZeroReg_iff.mpr (.inl isInt)) _ entry
    unfold State.rename State.renameInMap
    rw [arch.1, Bool.not_true, if_neg Bool.false_ne_true, if_neg renameable, entry]
    exact (if_neg (not_not_intro isZero)).trans (if_pos zero)

/-- The lookup of a register after another of its class, or of another class, was renamed. -/
theorem lookup_allocate
    (proper : Proper isa state) (arch : IsArchReg isa state other) (phys : PhysRegId)
    (rest : List PhysRegId) :
    (state.allocate reg phys rest).lookup isa other =
      if other.regClass = reg.regClass ∧ other.regClass ≠ .misc ∧
          isa.flatIndex other = reg.regIdx then some phys
      else state.lookup isa other := by
  by_cases renameable : other.regClass = .misc
  · rw [if_neg fun applies => applies.2.1 renameable]
    unfold State.lookup
    rw [if_pos renameable, if_pos renameable]
    rfl
  · have later : IsArchReg isa (state.allocate reg phys rest) other := arch
    rw [arch.lookup_eq renameable, later.lookup_eq renameable]
    change (Function.update state.map reg.regClass _ other.regClass)[isa.flatIndex other]? = _
    by_cases sameClass : other.regClass = reg.regClass
    · rw [sameClass, Function.update_self, List.getElem?_set]
      have inside := arch.flatIndex_lt
      rw [← proper.size _ renameable, sameClass] at inside
      by_cases same : reg.regIdx = isa.flatIndex other
      · rw [if_pos same, if_pos (same ▸ inside), if_pos ⟨rfl, sameClass ▸ renameable, same.symm⟩]
      · rw [if_neg same, if_neg fun applies => same applies.2.2.symm]
    · rw [Function.update_of_ne sameClass, if_neg fun applies => sameClass applies.1]

theorem setEntry_allocate
    (proper : Proper isa state) (arch : IsArchReg isa state reg) (renameable : reg.regClass ≠ .misc)
    (sameIndex : reg.regIdx = isa.flatIndex reg)
    (old : (state.map reg.regClass)[reg.regIdx]? = some prev) (phys : PhysRegId)
    (rest : List PhysRegId) :
    ∃ restored, (state.allocate reg phys rest).setEntry isa reg prev = some restored ∧
      restored.map = state.map := by
  obtain ⟨inside, rfl⟩ := List.getElem?_eq_some_iff.mp old
  have map : (state.allocate reg phys rest).map reg.regClass =
      (state.map reg.regClass).set reg.regIdx phys := Function.update_self ..
  have fits : ¬ ((state.map reg.regClass)[reg.regIdx].regClass ≠ reg.regClass ∨
      ((state.allocate reg phys rest).map reg.regClass).length ≤ isa.flatIndex reg) := by
    rw [map, List.length_set, ← sameIndex, not_or]
    exact ⟨not_not_intro (proper.classes _ _ (List.getElem_mem inside)), Nat.not_le.mpr inside⟩
  have active : (state.allocate reg phys rest).isActive reg.regClass = true := arch.1
  refine ⟨(state.allocate reg phys rest).write reg.regClass (isa.flatIndex reg)
    (state.map reg.regClass)[reg.regIdx], ?_, ?_⟩
  · unfold State.setEntry
    rw [active, Bool.not_true, if_neg Bool.false_ne_true, if_neg renameable, if_neg fits]
  · unfold State.write
    dsimp only
    rw [map, ← sameIndex, List.set_set, List.set_getElem_self]
    unfold State.allocate State.write
    dsimp only
    rw [Function.update_idem, Function.update_eq_self]

end Proper

/-- Where nothing is allocated the mapping stays. -/
theorem renamesOnly_self
    (found : state.lookup isa reg = some phys)
    (unallocated : reg.regClass = .misc ∨ isa.isZeroReg reg = true)
    (restores : ∃ restored, state.setEntry isa reg phys = some restored ∧
      restored.map = state.map) :
    RenamesOnly isa state reg phys phys state where
  new := found
  old := found
  allocated := by
    intro renameable notZero
    rcases unallocated with isMisc | isZero
    · exact absurd isMisc renameable
    · rw [isZero] at notZero
      cases notZero
  others := fun _ _ _ => rfl
  restores := restores
  zero := fun _ => ⟨rfl, rfl⟩

/-- Setting an entry to what it is changes nothing. -/
theorem setEntry_self
    (arch : IsArchReg isa state reg) (found : state.lookup isa reg = some phys)
    (sameClass : reg.regClass ≠ .misc → phys.regClass = reg.regClass) :
    ∃ restored, state.setEntry isa reg phys = some restored ∧ restored.map = state.map := by
  unfold State.setEntry
  rw [arch.1, Bool.not_true, if_neg Bool.false_ne_true]
  by_cases renameable : reg.regClass = .misc
  · rw [if_pos renameable, if_pos found]
    exact ⟨state, rfl, rfl⟩
  · have entry := found
    rw [arch.lookup_eq renameable] at entry
    obtain ⟨inside, rfl⟩ := List.getElem?_eq_some_iff.mp entry
    rw [if_neg renameable, if_neg]
    · refine ⟨_, rfl, ?_⟩
      unfold State.write
      dsimp only
      rw [List.set_getElem_self, Function.update_eq_self]
    · rw [not_or]
      exact ⟨not_not_intro (sameClass renameable), Nat.not_le.mpr inside⟩

/-- A register with the same index in its class and in the map is renamed alone, unless it is a
zero register. -/
theorem Proper.renamesOnly_allocate
    (proper : Proper isa state) (arch : IsArchReg isa state reg) (renameable : reg.regClass ≠ .misc)
    (sameIndex : reg.regIdx = isa.flatIndex reg) (notZero : isa.isZeroReg reg = false)
    (free : state.freeList reg.regClass = phys :: rest)
    (old : (state.map reg.regClass)[reg.regIdx]? = some prev) :
    RenamesOnly isa state reg phys prev (state.allocate reg phys rest) where
  new := by
    rw [proper.lookup_allocate arch, if_pos ⟨rfl, renameable, sameIndex.symm⟩]
  old := by
    rw [arch.lookup_eq renameable, ← sameIndex]
    exact old
  allocated := by
    intro _ _
    rw [free]
    exact congrArg (phys :: ·) (Function.update_self reg.regClass rest state.freeList).symm
  others := by
    intro other otherArch apart
    rw [proper.lookup_allocate otherArch, if_neg]
    rintro ⟨sameClass, -, index⟩
    exact apart (arch.eq_of_flatIndex otherArch sameClass (index.trans sameIndex))
  restores := proper.setEntry_allocate arch renameable sameIndex old phys rest
  zero := by
    intro isZero
    rw [isZero] at notZero
    cases notZero

/-- A register that is renamed alone has the same index in its class and in the map, and is no
zero register. -/
theorem Proper.renamesAlone_of_allocate
    (proper : Proper isa state) (arch : IsArchReg isa state reg) (renameable : reg.regClass ≠ .misc)
    (free : state.freeList reg.regClass = phys :: rest)
    (alone : RenamesOnly isa state reg phys prev (state.allocate reg phys rest)) :
    reg.regIdx = isa.flatIndex reg ∧ isa.isZeroReg reg = false := by
  constructor
  · by_contra differs
    have found := alone.new
    rw [proper.lookup_allocate arch, if_neg fun applies => differs applies.2.2.symm,
      arch.lookup_eq renameable] at found
    -- The free register would already be mapped.
    refine proper.fresh reg.regClass phys ?_ (List.mem_of_getElem? found)
    rw [free]
    exact List.mem_cons_self
  · by_contra isZero
    rw [Bool.not_eq_false] at isZero
    have same := congrFun (alone.zero isZero).2 reg.regClass
    rw [free] at same
    have taken : (state.allocate reg phys rest).freeList reg.regClass = rest :=
      Function.update_self ..
    rw [taken] at same
    exact List.cons_ne_self phys rest same.symm

/-- Renaming a register changes that register only. -/
def Isa.RenamedAlone (isa : Isa) (state : State) (reg : RegId) : Prop :=
  ∃ renamed prev next, state.rename isa reg = some ((renamed, prev), next) ∧
    RenamesOnly isa state reg renamed prev next

theorem Isa.renamesAlone_iff :
    isa.renamesAlone reg = true ↔ reg.regIdx = isa.flatIndex reg ∧
      ¬ (isa.isZeroReg reg = true ∧ reg.regClass = .float) := by
  unfold Isa.renamesAlone
  rw [Bool.and_eq_true, beq_iff_eq, Bool.not_eq_true', ← Bool.not_eq_true, Bool.and_eq_true,
    beq_iff_eq]

/-- The condition holds of registers that are neither lanes nor floating-point registers. -/
theorem Isa.renamesAlone_of_ne
    (noLane : reg.regClass ≠ .vecElem) (noFloat : reg.regClass ≠ .float) :
    isa.renamesAlone reg = true := by
  rw [Isa.renamesAlone_iff, Isa.flatIndex_of_ne noLane]
  exact ⟨rfl, fun float => noFloat float.2⟩

/-- A control register is remapped to itself. -/
theorem IsArchReg.renamedAlone_misc
    (arch : IsArchReg isa state reg) (isMisc : reg.regClass = .misc) :
    isa.RenamedAlone state reg := by
  have found : state.lookup isa reg = some (getMiscRegId reg.regIdx) := by
    unfold State.lookup
    rw [arch.1, Bool.not_true, if_neg Bool.false_ne_true, if_pos isMisc]
  have renamed : state.rename isa reg =
      some ((getMiscRegId reg.regIdx, getMiscRegId reg.regIdx), state) := by
    unfold State.rename
    rw [arch.1, Bool.not_true, if_neg Bool.false_ne_true, if_pos isMisc, found]
    rfl
  have restores := setEntry_self arch found fun renameable => absurd isMisc renameable
  exact ⟨_, _, _, renamed, renamesOnly_self found (.inl isMisc) restores⟩

theorem Proper.renamedAlone_zero
    (proper : Proper isa state) (arch : IsArchReg isa state reg)
    (isZero : reg = isa.mapZeroReg reg.regClass) :
    isa.RenamedAlone state reg := by
  have zero := Isa.isZeroReg_iff.mpr (.inl (arch.eq_mapZeroReg_iff.mp isZero))
  obtain ⟨phys, found, sameClass, renamed⟩ := proper.rename_zero arch isZero
  have restores := setEntry_self arch found fun _ => sameClass
  exact ⟨_, _, _, renamed, renamesOnly_self found (.inr zero) restores⟩

/-- A register that its map does not take for the zero register is renamed alone under the
condition. -/
theorem Proper.renamedAlone_iff
    (proper : Proper isa state) (arch : IsArchReg isa state reg) (renameable : reg.regClass ≠ .misc)
    (notZero : reg ≠ isa.mapZeroReg reg.regClass)
    (room : isa.isZeroReg reg = false → state.freeList reg.regClass ≠ []) :
    isa.RenamedAlone state reg ↔ isa.renamesAlone reg = true := by
  have isFloat : isa.isZeroReg reg = true → reg.regClass = .float := fun zero =>
    ((Isa.isZeroReg_iff.mp zero).resolve_left
      fun isInt => notZero (arch.eq_mapZeroReg_iff.mpr isInt)).2
  rw [Isa.renamesAlone_iff]
  constructor
  · rintro ⟨renamed, prev, next, succeeds, only⟩
    cases free : state.freeList reg.regClass with
    | nil =>
        have fails : state.rename isa reg = none := by
          unfold State.rename State.renameInMap
          rw [arch.1, Bool.not_true, if_neg Bool.false_ne_true, if_neg renameable, free]
          cases (state.map reg.regClass)[reg.regIdx]? with
          | none => rfl
          | some prev => exact if_pos notZero
        rw [fails] at succeeds
        cases succeeds
    | cons phys rest =>
        obtain ⟨_, _, renames⟩ := proper.rename_eq arch renameable notZero free
        rw [renames] at succeeds
        cases succeeds
        obtain ⟨sameIndex, nonzero⟩ :=
          proper.renamesAlone_of_allocate arch renameable free only
        refine ⟨sameIndex, fun float => ?_⟩
        rw [nonzero] at float
        cases float.1
  · rintro ⟨sameIndex, notFloat⟩
    have nonzero : isa.isZeroReg reg = false := by
      by_contra zero
      rw [Bool.not_eq_false] at zero
      exact notFloat ⟨zero, isFloat zero⟩
    obtain ⟨phys, rest, free⟩ := List.exists_cons_of_ne_nil (room nonzero)
    obtain ⟨prev, old, renames⟩ := proper.rename_eq arch renameable notZero free
    exact ⟨_, _, _, renames, proper.renamesOnly_allocate arch renameable sameIndex nonzero free old⟩

/-- Renaming changes that register only and leaves a zero register alone exactly if the register
has the same index in its class and in the map and is not a floating-point zero register. -/
theorem rename_onlyOne_iff
    (proper : Proper isa state) (arch : IsArchReg isa state reg)
    (room : reg.regClass ≠ .misc → isa.isZeroReg reg = false → state.freeList reg.regClass ≠ []) :
    isa.RenamedAlone state reg ↔ isa.renamesAlone reg = true := by
  by_cases isMisc : reg.regClass = .misc
  · have condition : isa.renamesAlone reg = true := by
      apply Isa.renamesAlone_of_ne
      · rw [isMisc]
        exact RegClass.noConfusion
      · rw [isMisc]
        exact RegClass.noConfusion
    exact iff_of_true (arch.renamedAlone_misc isMisc) condition
  · by_cases isZero : reg = isa.mapZeroReg reg.regClass
    · have isInt := (arch.eq_mapZeroReg_iff.mp isZero).1
      have condition : isa.renamesAlone reg = true := by
        apply Isa.renamesAlone_of_ne
        · rw [isInt]
          exact RegClass.noConfusion
        · rw [isInt]
          exact RegClass.noConfusion
      exact iff_of_true (proper.renamedAlone_zero arch isZero) condition
    · exact proper.renamedAlone_iff arch isMisc isZero (room isMisc)

/-- Two vectors of two lanes, each lane mapped to a lane of the first physical vectors. -/
def twoLanes : Isa where
  numIntRegs := 2
  numFloatRegs := 2
  numVecRegs := 2
  numCCRegs := 0
  numMiscRegs := 1
  numVecElemPerVecReg := 2
  zeroReg := 1
  isAlpha := true

/-- The registers of a class, one physical register for each index. -/
def physRegs (regClass : RegClass) (first count : Nat) : List PhysRegId :=
  (List.range' first count).map fun index =>
    { regClass := regClass, regIdx := index, flatIdx := index }

/-- Lanes of physical vectors. -/
def physLanes (first count : Nat) : List PhysRegId :=
  (List.range' first count).flatMap fun index =>
    [{ regClass := .vecElem, regIdx := index, elemIdx := 0, flatIdx := 2 * index },
      { regClass := .vecElem, regIdx := index, elemIdx := 1, flatIdx := 2 * index + 1 }]

/-- Every register is mapped to the physical register of the same index. -/
def plainMaps : State where
  map := fun regClass =>
    match regClass with
    | .vecElem => physLanes 0 2
    | .misc | .cc => []
    | regClass => physRegs regClass 0 2
  freeList := fun regClass =>
    match regClass with
    | .vecElem => physLanes 2 1
    | .misc | .cc => []
    | regClass => physRegs regClass 2 1
  vecMode := .elem

theorem plainMaps_proper : Proper twoLanes plainMaps where
  size := by
    intro regClass renameable
    cases regClass with
    | misc => exact absurd rfl renameable
    | int => rfl
    | float => rfl
    | vec => rfl
    | vecElem => rfl
    | cc => rfl
  classes := by
    intro regClass
    cases regClass <;> decide
  zero := by
    rintro ⟨regClass, regIdx, elemIdx⟩ isZero
    have index : regIdx = 1 ∧ (regClass = .int ∨ regClass = .float) := by
      cases regClass <;> simp_all [Isa.isZeroReg, twoLanes]
    obtain ⟨rfl, rfl | rfl⟩ := index
    · dsimp only
      decide
    · dsimp only
      decide
  fresh := by
    intro regClass
    cases regClass <;> decide

/-- The first lane of the first vector, and the integer zero register. -/
theorem rename_onlyOne_iff_firstLane :
    twoLanes.RenamedAlone plainMaps { regClass := .vecElem, regIdx := 0 } ∧
      twoLanes.RenamedAlone plainMaps { regClass := .int, regIdx := 1 } := by
  constructor
  · exact (rename_onlyOne_iff plainMaps_proper (by decide) (by decide)).mpr (by decide)
  · exact (rename_onlyOne_iff plainMaps_proper (by decide) (by decide)).mpr (by decide)

/-- Renaming the first lane of the second vector leaves its own lookup and changes that of
another lane. Renaming the floating-point zero register takes a free register. -/
theorem not_renamedAlone_secondVector :
    (∃ renamed prev next,
      plainMaps.rename twoLanes { regClass := .vecElem, regIdx := 1 } =
          some ((renamed, prev), next) ∧
        next.lookup twoLanes { regClass := .vecElem, regIdx := 1 } ≠ some renamed ∧
        next.lookup twoLanes { regClass := .vecElem, regIdx := 0, elemIdx := 1 } ≠
          plainMaps.lookup twoLanes { regClass := .vecElem, regIdx := 0, elemIdx := 1 }) ∧
    ∃ renamed prev next,
      plainMaps.rename twoLanes { regClass := .float, regIdx := 1 } =
          some ((renamed, prev), next) ∧
        twoLanes.isZeroReg { regClass := .float, regIdx := 1 } = true ∧
        next.lookup twoLanes { regClass := .float, regIdx := 1 } ≠
          plainMaps.lookup twoLanes { regClass := .float, regIdx := 1 } ∧
        next.freeList .float ≠ plainMaps.freeList .float := by
  constructor
  · exact ⟨_, _, _, rfl, by decide, by decide⟩
  · exact ⟨_, _, _, rfl, by decide, by decide, by decide⟩

/-! ## The map as a function -/

/-- The maps of a thread hold its rename map, seen as a function of the register. -/
structure Holds (isa : Isa) (maps : State) (state : Rename.State) (thread : Nat) : Prop where
  zeroReg : isa.zeroReg = Dolma.zeroReg
  noFloatZero : isa.isAlpha = false
  full : maps.vecMode = .full
  entries : ∀ reg, IsArchReg isa maps reg →
    maps.lookup isa reg = some (Rename.lookup state thread reg)
  freeList : maps.freeList = state.freeList

/-- Renaming in the maps is renaming in the function. -/
theorem Holds.rename
    {maps : State} {state next : Rename.State} {thread : Nat} {renamed : PhysRegId}
    (holds : Holds isa maps state thread) (proper : Proper isa maps) (arch : IsArchReg isa maps reg)
    (renames : Rename.renameReg state thread reg = some ((renamed, prev), next)) :
    ∃ after, maps.rename isa reg = some ((renamed, prev), after) ∧ Holds isa after next thread := by
  have noLane : reg.regClass ≠ .vecElem := by
    intro lane
    have active := arch.1
    rw [lane] at active
    unfold State.isActive at active
    rw [holds.full] at active
    cases active
  have zeroIff : reg = isa.mapZeroReg reg.regClass ↔ reg = Rename.zeroId := by
    rw [arch.eq_mapZeroReg_iff, holds.zeroReg]
    constructor
    · rintro ⟨isInt, isZero⟩
      have noElem := arch.2.2
      rw [if_neg noLane] at noElem
      obtain ⟨regClass, regIdx, elemIdx⟩ := reg
      cases isInt
      cases isZero
      cases noElem
      rfl
    · rintro rfl
      exact ⟨rfl, rfl⟩
  unfold Rename.renameReg at renames
  dsimp only at renames
  rw [if_neg noLane] at renames
  split at renames
  case isTrue stays =>
    cases renames
    by_cases isMisc : reg.regClass = .misc
    · have found := holds.entries reg arch
      have renames : maps.rename isa reg = (maps.lookup isa reg).map fun phys =>
          ((phys, phys), maps) := by
        unfold State.rename
        rw [arch.1, Bool.not_true, if_neg Bool.false_ne_true, if_pos isMisc]
      rw [found] at renames
      exact ⟨maps, renames, holds⟩
    · have isZero := zeroIff.mpr (stays.resolve_left isMisc)
      obtain ⟨phys, found, -, renames⟩ := proper.rename_zero arch isZero
      rw [holds.entries reg arch] at found
      cases found
      exact ⟨maps, renames, holds⟩
  case isFalse changes =>
    rw [not_or] at changes
    obtain ⟨⟨phys, taken⟩, isTaken, same⟩ := Option.map_eq_some_iff.mp renames
    cases same
    obtain ⟨rest, free, rfl⟩ := Rename.takeReg_eq_some isTaken
    rw [← holds.freeList] at free
    have notZero : reg ≠ isa.mapZeroReg reg.regClass := fun isZero =>
      changes.2 (zeroIff.mp isZero)
    obtain ⟨old, isOld, renames⟩ := proper.rename_eq arch changes.1 notZero free
    have found := holds.entries reg arch
    rw [arch.lookup_eq changes.1, Isa.flatIndex_of_ne noLane, isOld] at found
    cases found
    refine ⟨_, renames, holds.zeroReg, holds.noFloatZero, holds.full, ?_, ?_⟩
    · intro other otherArch
      have before : IsArchReg isa maps other := otherArch
      rw [proper.lookup_allocate before]
      unfold Rename.lookup Rename.setEntry
      dsimp only
      by_cases otherMisc : other.regClass = .misc
      · rw [if_neg fun applies => applies.2.1 otherMisc, if_pos otherMisc,
          holds.entries other before]
        unfold Rename.lookup
        rw [if_pos otherMisc]
      · rw [if_neg otherMisc, Function.update_self]
        by_cases sameReg : other = reg
        · subst sameReg
          rw [if_pos ⟨rfl, otherMisc, Isa.flatIndex_of_ne noLane⟩, Function.update_self]
        · rw [if_neg, Function.update_of_ne sameReg, holds.entries other before]
          · unfold Rename.lookup
            rw [if_neg otherMisc]
          · rintro ⟨sameClass, -, index⟩
            rw [← Isa.flatIndex_of_ne noLane] at index
            exact sameReg (arch.eq_of_flatIndex before sameClass index)
    · unfold State.allocate State.write Rename.setEntry
      dsimp only
      rw [holds.freeList]

end RenameMap
end Dolma

import Dolma.RenameMap.Maps

/-!
# Switching the mode of vector renaming

Vector registers are renamed as whole registers or by lanes. To switch to lanes, the mapping of
each vector is split into the lanes of its physical register, and so are the free registers.
To switch back, the lanes are stitched together into the first physical registers, and the
remaining physical registers are set free; the map of the vectors stays as it was before it
was split.
-/

namespace Dolma
namespace RenameMap

/-- The vector registers of the register file. -/
structure VecFile where
  isa : Isa
  numPhysicalVecRegs : Nat
  firstFlatIdx : Nat
  enough : isa.numVecRegs ≤ numPhysicalVecRegs
  lanesSmall : numPhysicalVecRegs * isa.numVecElemPerVecReg < 2 ^ 32
  floatsSmall : isa.numFloatRegs < 2 ^ 32

namespace VecFile

variable (file : VecFile)

/-- The lanes of a vector register. -/
def numLanes : Nat :=
  file.isa.numVecElemPerVecReg

/-- A physical vector register. -/
def vecRegId (index : Nat) : PhysRegId :=
  { regClass := .vec, regIdx := index, flatIdx := file.firstFlatIdx + index }

/-- A lane of a physical vector register. -/
def vecElemId (index lane : Nat) : PhysRegId :=
  { regClass := .vecElem, regIdx := index, elemIdx := lane
    flatIdx := file.firstFlatIdx + file.numPhysicalVecRegs + index * file.numLanes + lane }

/-- The physical vector registers. -/
def vecRegIds : List PhysRegId :=
  (List.range file.numPhysicalVecRegs).map file.vecRegId

/-- The lanes of the physical vector registers. -/
def vecElemIds : List PhysRegId :=
  (List.range file.numPhysicalVecRegs).flatMap fun index =>
    (List.range file.numLanes).map (file.vecElemId index)

/-- The number of physical lanes. -/
def numVecElemPhysRegs : Nat :=
  file.numPhysicalVecRegs * file.numLanes

/-- The lanes of a physical vector register. -/
def getRegElemIds (reg : PhysRegId) : List PhysRegId :=
  (file.vecElemIds.drop (reg.regIdx * file.numLanes)).take file.numLanes

/-- The index of a lane in the map of the lanes. -/
def laneIndex (reg lane : Nat) : Nat :=
  file.isa.flatIndex { regClass := .vecElem, regIdx := reg, elemIdx := lane }

/-- The lanes of a vector are mapped to lanes of a physical register, from a lane on. -/
def splitReg (reg : Nat) : List PhysRegId → Nat → List PhysRegId → List PhysRegId
  | [], _, vecElemMap => vecElemMap
  | elem :: range, lane, vecElemMap =>
      splitReg reg range (lane + 1) (vecElemMap.set (file.laneIndex reg lane) elem)

/-- The lanes of the vectors are mapped to the lanes of their physical registers, from a vector
on. -/
def splitMap : List PhysRegId → Nat → List PhysRegId → Option (List PhysRegId)
  | [], _, vecElemMap => some vecElemMap
  | phys :: vecMap, reg, vecElemMap =>
      let range := file.getRegElemIds phys
      if range.length ≠ file.numLanes then none
      else splitMap vecMap (reg + 1) (file.splitReg reg range 0 vecElemMap)

/-- The free registers are split. -/
def splitFree (vecList vecElemList : List PhysRegId) : List PhysRegId :=
  vecList.foldl (fun vecElemList reg => vecElemList ++ file.getRegElemIds reg) vecElemList

end VecFile

/-- The rename maps and the contents of the vector registers. -/
structure Machine (α : Type*) where
  maps : State
  vectorRegFile : Nat → Nat → α

namespace Machine

variable {α : Type*} (file : VecFile) (machine : Machine α)

/-- Read a lane. -/
def readVecElem (phys : PhysRegId) : α :=
  machine.vectorRegFile phys.regIdx phys.elemIdx

/-- The vectors stitched together from the lanes they are mapped to. -/
def stitch (reg lane : Nat) : α :=
  match (machine.maps.map .vecElem)[file.laneIndex reg lane]? with
  | some phys => machine.readVecElem phys
  | none => machine.vectorRegFile reg lane

/-- The lanes are mapped as given, and the free registers are split. -/
def withLanes (vecElemMap : List PhysRegId) : Machine α :=
  let freeList := machine.maps.freeList
  { machine with
    maps :=
      { map := Function.update machine.maps.map .vecElem vecElemMap
        freeList := Function.update
          (Function.update freeList .vecElem
            (file.splitFree (freeList .vec) (freeList .vecElem))) .vec []
        vecMode := .elem } }

/-- Switch to renaming by lanes. -/
def switchToElem : Option (Machine α) :=
  let freeList := machine.maps.freeList
  if freeList .vecElem ≠ [] then none
  else if (freeList .vec).length ≠ file.numPhysicalVecRegs - file.isa.numVecRegs then none
  else
    (file.splitMap (machine.maps.map .vec) 0 (machine.maps.map .vecElem)).map
      (machine.withLanes file)

/-- The first physical registers hold the vectors, and the others are free. -/
def withVectors : Machine α :=
  let freeList := machine.maps.freeList
  { maps :=
      { machine.maps with
        freeList := Function.update
          (Function.update freeList .vec
            (freeList .vec ++ file.vecRegIds.drop file.isa.numVecRegs)) .vecElem []
        vecMode := .full }
    vectorRegFile := fun index lane =>
      if index < file.isa.numVecRegs ∧ lane < file.numLanes then machine.stitch file index lane
      else machine.vectorRegFile index lane }

/-- Switch to renaming whole registers. The sizes are compared as unsigned numbers. -/
def switchToFull : Option (Machine α) :=
  let freeList := machine.maps.freeList
  if freeList .vec ≠ [] then none
  else if (freeList .vec).length ≠
      (file.numVecElemPhysRegs + 2 ^ 32 - file.isa.numFloatRegs) % 2 ^ 32 then none
  else some (machine.withVectors file)

/-- Switch the mode. Setting the mode that is on is ignored. -/
def switchMode (newVecMode : VecMode) : Option (Machine α) :=
  match newVecMode, machine.maps.vecMode with
  | .elem, .full => machine.switchToElem file
  | .full, .elem => machine.switchToFull file
  | _, _ => some machine

/-- Read an architectural vector. -/
def readVec (reg : Nat) : Option (List α) :=
  (machine.maps.lookup file.isa { regClass := .vec, regIdx := reg }).map fun phys =>
    (List.range file.numLanes).map (machine.vectorRegFile phys.regIdx)

/-- Whole registers are renamed, and no vector register is being renamed: every physical
register is mapped or free. -/
structure Quiet : Prop where
  full : machine.maps.vecMode = .full
  vectors : (machine.maps.map .vec).length = file.isa.numVecRegs
  lanes : (machine.maps.map .vecElem).length = file.isa.numVecRegs * file.numLanes
  partitioned :
    (machine.maps.map .vec ++ machine.maps.freeList .vec).Perm file.vecRegIds
  noLanes : machine.maps.freeList .vecElem = []

end Machine

/-! ## Splitting -/

variable {index lane : Nat} {phys : PhysRegId}

namespace VecFile

variable {file : VecFile}

theorem laneIndex_eq (reg lane : Nat) : file.laneIndex reg lane = file.numLanes * reg + lane :=
  Isa.flatIndex_of_lane rfl

theorem getRegElemIds_eq
    (inside : index < file.numPhysicalVecRegs) (isIndex : phys.regIdx = index) :
    file.getRegElemIds phys = (List.range file.numLanes).map (file.vecElemId index) := by
  have before : List.range file.numPhysicalVecRegs =
      List.range index ++ index :: List.range' (index + 1) (file.numPhysicalVecRegs - index - 1) := by
    have joined := @List.range'_append 0 index (file.numPhysicalVecRegs - index - 1 + 1) 1
    rw [Nat.one_mul, Nat.zero_add] at joined
    rw [← List.range'_succ, List.range_eq_range', List.range_eq_range', joined]
    congr 1
    omega
  have length : ((List.range index).flatMap fun index =>
      (List.range file.numLanes).map (file.vecElemId index)).length = index * file.numLanes := by
    simp only [List.length_flatMap, List.length_map, List.length_range, List.map_const',
      List.sum_replicate_nat]
  unfold getRegElemIds vecElemIds
  rw [isIndex, before, List.flatMap_append, List.flatMap_cons, List.drop_left' length,
    List.take_left']
  rw [List.length_map, List.length_range]

theorem length_splitReg (reg : Nat) (range : List PhysRegId) (lane : Nat)
    (vecElemMap : List PhysRegId) :
    (file.splitReg reg range lane vecElemMap).length = vecElemMap.length := by
  induction range generalizing lane vecElemMap with
  | nil => rfl
  | cons elem range ih =>
      unfold splitReg
      rw [ih, List.length_set]

variable {reg : Nat} {vecElemMap : List PhysRegId}

/-- The lanes of other registers are untouched. -/
theorem splitReg_of_lt
    (before : index < file.numLanes * reg + lane) (range vecElemMap : List PhysRegId) :
    (file.splitReg reg range lane vecElemMap)[index]? = vecElemMap[index]? := by
  induction range generalizing lane vecElemMap with
  | nil => rfl
  | cons elem range ih =>
      unfold splitReg
      rw [ih (by omega), laneIndex_eq, List.getElem?_set_ne (by omega)]

/-- The lanes are mapped to those of the physical register. -/
theorem splitReg_lane
    (fits : file.numLanes * reg + lane + range.length ≤ vecElemMap.length)
    (inside : offset < range.length) :
    (file.splitReg reg range lane vecElemMap)[file.numLanes * reg + lane + offset]? =
      range[offset]? := by
  induction range generalizing lane offset vecElemMap with
  | nil => cases inside
  | cons elem range ih =>
      unfold splitReg
      rw [List.length_cons] at fits inside
      cases offset with
      | zero =>
          rw [splitReg_of_lt (by omega), laneIndex_eq, Nat.add_zero,
            List.getElem?_set_self (by omega)]
          rfl
      | succ offset =>
          have later := @ih (lane + 1)
            (vecElemMap.set (file.laneIndex reg lane) elem) offset
            (by rw [List.length_set]; omega) (by omega)
          rw [List.getElem?_cons_succ, ← later]
          congr 1
          omega

theorem mem_vecRegIds {phys : PhysRegId} :
    phys ∈ file.vecRegIds ↔
      phys.regIdx < file.numPhysicalVecRegs ∧ phys = file.vecRegId phys.regIdx := by
  unfold vecRegIds
  rw [List.mem_map]
  constructor
  · rintro ⟨index, inside, rfl⟩
    exact ⟨List.mem_range.mp inside, rfl⟩
  · rintro ⟨inside, same⟩
    exact ⟨phys.regIdx, List.mem_range.mpr inside, same.symm⟩

theorem take_vecRegIds :
    file.vecRegIds.take file.isa.numVecRegs =
      (List.range file.isa.numVecRegs).map file.vecRegId := by
  unfold vecRegIds
  rw [← List.map_take, List.take_range, Nat.min_eq_left file.enough]

/-- No physical vector register occurs twice. -/
theorem nodup_vecRegIds : file.vecRegIds.Nodup := by
  refine List.Nodup.map ?_ List.nodup_range
  intro first second same
  exact congrArg (fun phys : PhysRegId => phys.regIdx) same

/-- Splitting the map from a vector on. -/
theorem splitMap_spec
    (physical : ∀ phys ∈ vecMap, phys.regIdx < file.numPhysicalVecRegs)
    (fits : file.numLanes * (reg + vecMap.length) ≤ vecElemMap.length) :
    ∃ split, file.splitMap vecMap reg vecElemMap = some split ∧
      (∀ index < file.numLanes * reg, split[index]? = vecElemMap[index]?) ∧
      ∀ offset (inside : offset < vecMap.length) lane, lane < file.numLanes →
        split[file.laneIndex (reg + offset) lane]? =
          some (file.vecElemId vecMap[offset].regIdx lane) := by
  induction vecMap generalizing reg vecElemMap with
  | nil =>
      refine ⟨vecElemMap, rfl, fun _ _ => rfl, ?_⟩
      intro offset inside
      cases inside
  | cons phys vecMap ih =>
      have range := getRegElemIds_eq (physical phys List.mem_cons_self) rfl
      have length : (file.getRegElemIds phys).length = file.numLanes := by
        rw [range, List.length_map, List.length_range]
      have size := @length_splitReg file reg (file.getRegElemIds phys) 0 vecElemMap
      rw [List.length_cons] at fits
      have room : file.numLanes * (reg + 1 + vecMap.length) ≤
          (file.splitReg reg (file.getRegElemIds phys) 0 vecElemMap).length := by
        rw [size]
        refine Nat.le_trans (Nat.le_of_eq ?_) fits
        congr 1
        omega
      obtain ⟨split, isSplit, untouched, mapped⟩ :=
        ih (fun other member => physical other (List.mem_cons_of_mem _ member)) room
      have next : file.numLanes * (reg + 1) = file.numLanes * reg + file.numLanes :=
        Nat.mul_succ ..
      refine ⟨split, ?_, ?_, ?_⟩
      · unfold splitMap
        dsimp only
        rw [if_neg (not_not_intro length)]
        exact isSplit
      · intro index before
        rw [untouched index (by omega), splitReg_of_lt (by omega)]
      · intro offset inside lane isLane
        cases offset with
        | zero =>
            rw [Nat.add_zero, laneIndex_eq, untouched _ (by omega)]
            have own := @splitReg_lane 0 file reg vecElemMap lane (file.getRegElemIds phys)
              (by
                rw [length, Nat.add_zero, ← next]
                refine Nat.le_trans (Nat.mul_le_mul_left _ ?_) fits
                omega)
              (by rw [length]; exact isLane)
            rw [Nat.add_zero] at own
            rw [own, range, List.getElem?_map, List.getElem?_range isLane]
            rfl
        | succ offset =>
            have later := mapped offset (Nat.lt_of_succ_lt_succ inside) lane isLane
            have position : reg + (offset + 1) = reg + 1 + offset := by omega
            rw [position, later, List.getElem_cons_succ]

end VecFile

/-! ## The round trip -/

namespace Machine

variable {α : Type*} {file : VecFile} {machine mid final : Machine α}

/-- The architectural vectors are mapped to the first physical registers, each of which holds
what the register holds that the vector of its index is mapped to, and there are as many
physical lanes as floating-point registers. -/
structure RoundTrips (file : VecFile) (machine : Machine α) : Prop where
  sizes : file.numVecElemPhysRegs = file.isa.numFloatRegs
  first : ∀ phys ∈ machine.maps.map .vec, phys.regIdx < file.isa.numVecRegs
  same : ∀ reg, ∀ phys ∈ (machine.maps.map .vec)[reg]?, ∀ lane < file.numLanes,
    machine.vectorRegFile phys.regIdx lane = machine.vectorRegFile reg lane

/-- The maps of the lanes are those of the vectors, and no vector register is free. -/
structure Split (file : VecFile) (machine mid : Machine α) : Prop where
  elem : mid.maps.vecMode = .elem
  noVectors : mid.maps.freeList .vec = []
  vectors : mid.maps.map .vec = machine.maps.map .vec
  contents : mid.vectorRegFile = machine.vectorRegFile
  lanes : ∀ reg, ∀ phys ∈ (machine.maps.map .vec)[reg]?, ∀ lane < file.numLanes,
    mid.stitch file reg lane = machine.vectorRegFile phys.regIdx lane

/-- Vectors are mapped to vector registers. -/
theorem Quiet.physical (quiet : machine.Quiet file) (mapped : phys ∈ machine.maps.map .vec) :
    phys ∈ file.vecRegIds :=
  quiet.partitioned.subset (List.mem_append_left _ mapped)

theorem Quiet.switchToElem (quiet : machine.Quiet file) :
    ∃ mid, machine.switchMode file .elem = some mid ∧ Split file machine mid := by
  have counts : (machine.maps.freeList .vec).length =
      file.numPhysicalVecRegs - file.isa.numVecRegs := by
    have total := quiet.partitioned.length_eq
    unfold VecFile.vecRegIds at total
    rw [List.length_append, quiet.vectors, List.length_map, List.length_range] at total
    omega
  have room : file.numLanes * (0 + (machine.maps.map .vec).length) ≤
      (machine.maps.map .vecElem).length := by
    apply Nat.le_of_eq
    rw [quiet.vectors, quiet.lanes, Nat.zero_add, Nat.mul_comm]
  have inside : ∀ phys ∈ machine.maps.map .vec, phys.regIdx < file.numPhysicalVecRegs :=
    fun phys mapped => (VecFile.mem_vecRegIds.mp (quiet.physical mapped)).1
  obtain ⟨split, isSplit, -, mapped⟩ := VecFile.splitMap_spec inside room
  refine ⟨machine.withLanes file split, ?_, ?_⟩
  · unfold switchMode
    rw [quiet.full]
    dsimp only
    unfold Machine.switchToElem
    dsimp only
    rw [if_neg (not_not_intro quiet.noLanes), if_neg (not_not_intro counts), isSplit]
    rfl
  · refine ⟨rfl, rfl, rfl, rfl, ?_⟩
    intro reg phys isPhys lane isLane
    obtain ⟨inside, rfl⟩ := List.getElem?_eq_some_iff.mp isPhys
    have entry := mapped reg inside lane isLane
    rw [Nat.zero_add] at entry
    have lanes : (machine.withLanes file split).maps.map .vecElem = split := rfl
    unfold stitch
    rw [lanes, entry]
    rfl

/-- Switching back succeeds if the compared sizes agree. -/
theorem Split.switchToFull_iff (split : Split file machine mid) :
    mid.switchMode file .full = some final ↔
      file.numVecElemPhysRegs = file.isa.numFloatRegs ∧ final = mid.withVectors file := by
  have lanesSmall : file.numVecElemPhysRegs < 2 ^ 32 := file.lanesSmall
  have floatsSmall := file.floatsSmall
  have sizes : ¬ 0 ≠ (file.numVecElemPhysRegs + 2 ^ 32 - file.isa.numFloatRegs) % 2 ^ 32 ↔
      file.numVecElemPhysRegs = file.isa.numFloatRegs := by
    omega
  unfold switchMode
  rw [split.elem]
  dsimp only
  unfold Machine.switchToFull
  dsimp only
  rw [split.noVectors, if_neg (not_not_intro rfl), List.length_nil, Option.ite_none_left_eq_some,
    sizes, Option.some.injEq]
  constructor
  · rintro ⟨agree, rfl⟩
    exact ⟨agree, rfl⟩
  · rintro ⟨agree, rfl⟩
    exact ⟨agree, rfl⟩

/-- What a vector reads after switching back. -/
theorem Split.readVec_withVectors (split : Split file machine mid) (reg : Nat) :
    (mid.withVectors file).readVec file reg = ((machine.maps.map .vec)[reg]?).map fun phys =>
        (List.range file.numLanes).map ((mid.withVectors file).vectorRegFile phys.regIdx) := by
  rw [← split.vectors]
  rfl

/-- What a physical register holds after switching back. -/
theorem Split.contents_withVectors
    (split : Split file machine mid) (isPhys : phys ∈ (machine.maps.map .vec)[index]?)
    (first : index < file.isa.numVecRegs) (isLane : lane < file.numLanes) :
    (mid.withVectors file).vectorRegFile index lane = machine.vectorRegFile phys.regIdx lane := by
  have stitched := split.lanes index phys isPhys lane isLane
  rw [← stitched]
  exact if_pos ⟨first, isLane⟩

/-- A vector reads what its physical register holds. -/
theorem Quiet.readVec_eq (quiet : machine.Quiet file) (reg : Nat) :
    machine.readVec file reg = ((machine.maps.map .vec)[reg]?).map fun phys =>
        (List.range file.numLanes).map (machine.vectorRegFile phys.regIdx) := by
  have active : machine.maps.isActive .vec = true := by
    unfold State.isActive
    rw [quiet.full]
    rfl
  unfold readVec State.lookup
  rw [active]
  rfl

/-- The physical registers are mapped or free exactly if the first ones are mapped. -/
theorem Split.partitioned_iff (split : Split file machine mid) :
    ((mid.withVectors file).maps.map .vec ++ (mid.withVectors file).maps.freeList .vec).Perm
        file.vecRegIds ↔
      (machine.maps.map .vec).Perm (file.vecRegIds.take file.isa.numVecRegs) := by
  have free : (mid.withVectors file).maps.freeList .vec =
      file.vecRegIds.drop file.isa.numVecRegs := by
    change mid.maps.freeList .vec ++ _ = _
    rw [split.noVectors, List.nil_append]
  have mapped : (mid.withVectors file).maps.map .vec = machine.maps.map .vec := split.vectors
  rw [free, mapped]
  nth_rewrite 2 [← List.take_append_drop file.isa.numVecRegs file.vecRegIds]
  exact List.perm_append_right_iff _

/-- When the vectors have the first physical registers. -/
theorem Quiet.perm_iff (quiet : machine.Quiet file) :
    (machine.maps.map .vec).Perm (file.vecRegIds.take file.isa.numVecRegs) ↔
      ∀ phys ∈ machine.maps.map .vec, phys.regIdx < file.isa.numVecRegs := by
  rw [VecFile.take_vecRegIds]
  constructor
  · intro perm phys mapped
    obtain ⟨index, inside, rfl⟩ := List.mem_map.mp (perm.subset mapped)
    exact List.mem_range.mp inside
  · intro first
    have nodup : (machine.maps.map .vec).Nodup :=
      (quiet.partitioned.nodup_iff.mpr VecFile.nodup_vecRegIds).of_append_left
    refine (List.subperm_of_subset nodup ?_).perm_of_length_le ?_
    · intro phys mapped
      have isVec := (VecFile.mem_vecRegIds.mp (quiet.physical mapped)).2
      exact List.mem_map.mpr ⟨_, List.mem_range.mpr (first phys mapped), isVec.symm⟩
    · apply Nat.le_of_eq
      rw [quiet.vectors, List.length_map, List.length_range]

/-- If the vectors are mapped to the first physical registers, every vector reads the same
after switching back exactly if those registers hold the same. -/
theorem Split.readVec_iff
    (split : Split file machine mid) (quiet : machine.Quiet file)
    (first : ∀ phys ∈ machine.maps.map .vec, phys.regIdx < file.isa.numVecRegs) :
    (∀ reg < file.isa.numVecRegs,
        (mid.withVectors file).readVec file reg = machine.readVec file reg) ↔
      ∀ reg, ∀ phys ∈ (machine.maps.map .vec)[reg]?, ∀ lane < file.numLanes,
        machine.vectorRegFile phys.regIdx lane = machine.vectorRegFile reg lane := by
  constructor
  · intro reads reg phys isPhys lane isLane
    have inside : reg < file.isa.numVecRegs := by
      rw [← quiet.vectors]
      exact (List.getElem?_eq_some_iff.mp isPhys).1
    -- Some vector is mapped to the physical register of this index.
    have mapped : file.vecRegId reg ∈ machine.maps.map .vec := by
      refine (quiet.perm_iff.mpr first).symm.subset ?_
      rw [VecFile.take_vecRegIds]
      exact List.mem_map.mpr ⟨reg, List.mem_range.mpr inside, rfl⟩
    obtain ⟨vector, isMapped, entry⟩ := List.mem_iff_getElem.mp mapped
    have found : (machine.maps.map .vec)[vector]? = some (file.vecRegId reg) := by
      rw [List.getElem?_eq_getElem isMapped, entry]
    rw [quiet.vectors] at isMapped
    have same := reads vector isMapped
    rw [split.readVec_withVectors, quiet.readVec_eq, found] at same
    have lanes := List.map_inj_left.mp (Option.some.inj same) lane (List.mem_range.mpr isLane)
    rw [← split.contents_withVectors isPhys inside isLane]
    exact lanes
  · intro same reg inside
    rw [split.readVec_withVectors, quiet.readVec_eq]
    cases entry : (machine.maps.map .vec)[reg]? with
    | none => rfl
    | some phys =>
        have isFirst := first phys (List.mem_of_getElem? entry)
        refine congrArg some (List.map_inj_left.mpr fun lane isLane => ?_)
        rw [List.mem_range] at isLane
        have mapped : phys.regIdx < (machine.maps.map .vec).length := by
          rw [quiet.vectors]
          exact isFirst
        have found := List.getElem?_eq_getElem mapped
        rw [split.contents_withVectors found isFirst isLane]
        exact same phys.regIdx _ found lane isLane

/-- Switching to lanes and back succeeds, keeps what every vector reads and leaves every physical
register mapped or free exactly if there are as many physical lanes as floating-point registers,
the vectors are mapped to the first physical registers, and those hold what the vectors of their
indices read. -/
theorem switchMode_roundTrip_iff (quiet : machine.Quiet file) :
    (∃ mid final,
      machine.switchMode file .elem = some mid ∧ mid.switchMode file .full = some final ∧
        (∀ reg < file.isa.numVecRegs, final.readVec file reg = machine.readVec file reg) ∧
        (final.maps.map .vec ++ final.maps.freeList .vec).Perm file.vecRegIds) ↔
      RoundTrips file machine := by
  obtain ⟨mid, switched, split⟩ := quiet.switchToElem
  constructor
  · rintro ⟨other, final, isOther, back, reads, partitioned⟩
    rw [switched] at isOther
    cases isOther
    obtain ⟨sizes, rfl⟩ := split.switchToFull_iff.mp back
    have first := quiet.perm_iff.mp (split.partitioned_iff.mp partitioned)
    exact ⟨sizes, first, (split.readVec_iff quiet first).mp reads⟩
  · rintro ⟨sizes, first, same⟩
    refine ⟨mid, mid.withVectors file, switched, split.switchToFull_iff.mpr ⟨sizes, rfl⟩, ?_, ?_⟩
    · exact (split.readVec_iff quiet first).mpr same
    · exact split.partitioned_iff.mpr (quiet.perm_iff.mpr first)

/-- Two vectors of two lanes in three physical registers, with two floating-point registers. -/
def fewFloats : VecFile where
  isa := twoLanes
  numPhysicalVecRegs := 3
  firstFlatIdx := 0
  enough := by decide
  lanesSmall := by decide
  floatsSmall := by decide

/-- The same with as many floating-point registers as physical lanes. -/
def sixFloats : VecFile where
  isa := { twoLanes with numFloatRegs := 6 }
  numPhysicalVecRegs := 3
  firstFlatIdx := 0
  enough := by decide
  lanesSmall := by decide
  floatsSmall := by decide

/-- The vectors are mapped to two physical registers, and the third is free. -/
def mappedTo (file : VecFile) (first second free : Nat) : Machine Nat where
  maps :=
    { map := fun regClass =>
        match regClass with
        | .vec => [file.vecRegId first, file.vecRegId second]
        | .vecElem => physLanes 0 2
        | _ => []
      freeList := fun regClass =>
        match regClass with
        | .vec => [file.vecRegId free]
        | _ => []
      vecMode := .full }
  vectorRegFile := fun index lane => 10 * index + lane

/-- Each vector is mapped to the physical register of its index, and there are six
floating-point registers. -/
theorem switchMode_roundTrip_iff_identity :
    ∃ mid final,
      (mappedTo sixFloats 0 1 2).switchMode sixFloats .elem = some mid ∧
        mid.switchMode sixFloats .full = some final ∧
        (∀ reg < 2, final.readVec sixFloats reg =
          (mappedTo sixFloats 0 1 2).readVec sixFloats reg) ∧
        (final.maps.map .vec ++ final.maps.freeList .vec).Perm sixFloats.vecRegIds := by
  refine (switchMode_roundTrip_iff ⟨rfl, rfl, rfl, by decide, rfl⟩).mpr ⟨by decide, by decide, ?_⟩
  intro reg phys isPhys lane _
  have index : phys.regIdx = reg := by
    rcases reg with _ | _ | reg
    · cases isPhys
      rfl
    · cases isPhys
      rfl
    · cases isPhys
  rw [index]

/-- With two floating-point registers the code panics on the way back. With six, both vectors
read other values if they are mapped to the first two registers the other way round; mapped to
the last and the first register, the last one is mapped and free. -/
theorem not_roundTrip_swapped :
    (∃ mid, (mappedTo fewFloats 0 1 2).switchMode fewFloats .elem = some mid ∧
      (mid.switchMode fewFloats .full).isNone = true) ∧
    (∃ mid final,
      (mappedTo sixFloats 1 0 2).switchMode sixFloats .elem = some mid ∧
        mid.switchMode sixFloats .full = some final ∧
        (mappedTo sixFloats 1 0 2).readVec sixFloats 0 = some [10, 11] ∧
        final.readVec sixFloats 0 = some [0, 1]) ∧
    ∃ mid final,
      (mappedTo sixFloats 2 0 1).switchMode sixFloats .elem = some mid ∧
        mid.switchMode sixFloats .full = some final ∧
        sixFloats.vecRegId 2 ∈ final.maps.map .vec ∧
        sixFloats.vecRegId 2 ∈ final.maps.freeList .vec := by
  refine ⟨⟨_, rfl, ?_⟩, ⟨_, _, rfl, rfl, ?_, ?_⟩, ⟨_, _, rfl, rfl, ?_, ?_⟩⟩
  · decide
  · decide
  · decide
  · decide
  · decide

end Machine

end RenameMap
end Dolma

import Dolma.Library.Order
import Dolma.Lsq.Defs

/-!
# Accesses that overlap

Two accesses overlap if they have bytes in a common block of the dependence check. The check
compares the blocks of the first and of the last bytes, with addresses of 64 bits. This is the
same for accesses that end below the top of the address space. An access that runs past the top
has its last byte below its first one, and the check never takes it for an overlap.
-/

namespace Dolma
namespace Lsq

open Library

/-- The bytes of an access. Addresses go on at zero past the top. -/
def bytes (inst : DynInst) : Set (BitVec 64) :=
  { byte | ∃ offset < inst.effSize.toNat, byte = inst.effAddr + .ofNat 64 offset }

/-- Two accesses have bytes in a common block of the dependence check. -/
def Overlaps (config : Config) (inst load : DynInst) : Prop :=
  ∃ first ∈ bytes inst, ∃ second ∈ bytes load,
    first >>> config.depCheckShift = second >>> config.depCheckShift

/-- The access runs past the top of the address space. -/
def RunsPastTop (inst : DynInst) : Prop :=
  2 ^ 64 < inst.effAddr.toNat + inst.effSize.toNat

instance (inst : DynInst) : Decidable (RunsPastTop inst) :=
  inferInstanceAs (Decidable (_ < _))

variable {config : Config} {inst load : DynInst}

theorem shiftRight_eq_iff {first second : BitVec 64} {shift : Nat} :
    first >>> shift = second >>> shift ↔ first.toNat / 2 ^ shift = second.toNat / 2 ^ shift := by
  rw [← BitVec.toNat_inj, BitVec.toNat_ushiftRight, BitVec.toNat_ushiftRight,
    Nat.shiftRight_eq_div_pow, Nat.shiftRight_eq_div_pow]

theorem shiftRight_le_iff {first second : BitVec 64} {shift : Nat} :
    first >>> shift ≤ second >>> shift ↔ first.toNat / 2 ^ shift ≤ second.toNat / 2 ^ shift := by
  rw [BitVec.le_def, BitVec.toNat_ushiftRight, BitVec.toNat_ushiftRight,
    Nat.shiftRight_eq_div_pow, Nat.shiftRight_eq_div_pow]

theorem sameBlock_comm : sameBlock config inst load = sameBlock config load inst :=
  Bool.and_comm _ _

theorem sameBlock_eq_true_iff :
    sameBlock config inst load = true ↔
      load.effAddr.toNat / 2 ^ config.depCheckShift ≤
          (inst.effAddr + inst.effSize.setWidth 64 - 1).toNat / 2 ^ config.depCheckShift ∧
        inst.effAddr.toNat / 2 ^ config.depCheckShift ≤
          (load.effAddr + load.effSize.setWidth 64 - 1).toNat / 2 ^ config.depCheckShift := by
  rw [sameBlock, Bool.and_eq_true, decide_eq_true_eq, decide_eq_true_eq, shiftRight_le_iff,
    shiftRight_le_iff]

theorem toNat_lastByte (sized : inst.effSize ≠ 0) :
    (inst.effAddr + inst.effSize.setWidth 64 - 1).toNat =
      (inst.effAddr.toNat + inst.effSize.toNat - 1) % 2 ^ 64 := by
  have positive : inst.effSize.toNat ≠ 0 := fun zero =>
    sized (BitVec.eq_of_toNat_eq zero)
  have small := inst.effSize.isLt
  have below := inst.effAddr.isLt
  rw [BitVec.toNat_sub, BitVec.toNat_add, BitVec.toNat_setWidth]
  change (2 ^ 64 - 1 + _) % 2 ^ 64 = _
  omega

theorem effSize_pos (sized : inst.effSize ≠ 0) : 0 < inst.effSize.toNat :=
  Nat.pos_of_ne_zero fun zero => sized (BitVec.eq_of_toNat_eq zero)

/-- Bytes of an access that ends below the top are counted up from the first one. -/
theorem toNat_byte (below : ¬RunsPastTop inst) (inside : offset < inst.effSize.toNat) :
    (inst.effAddr + .ofNat 64 offset).toNat = inst.effAddr.toNat + offset := by
  unfold RunsPastTop at below
  rw [BitVec.toNat_add, BitVec.toNat_ofNat]
  omega

theorem overlaps_iff (below : ¬RunsPastTop inst) (below' : ¬RunsPastTop load) :
    Overlaps config inst load ↔
      ∃ offset < inst.effSize.toNat, ∃ offset' < load.effSize.toNat,
        (inst.effAddr.toNat + offset) / 2 ^ config.depCheckShift =
          (load.effAddr.toNat + offset') / 2 ^ config.depCheckShift := by
  constructor
  · rintro ⟨_, ⟨offset, inside, rfl⟩, _, ⟨offset', inside', rfl⟩, same⟩
    rw [shiftRight_eq_iff, toNat_byte below inside, toNat_byte below' inside'] at same
    exact ⟨offset, inside, offset', inside', same⟩
  · rintro ⟨offset, inside, offset', inside', same⟩
    refine ⟨_, ⟨offset, inside, rfl⟩, _, ⟨offset', inside', rfl⟩, ?_⟩
    rw [shiftRight_eq_iff, toNat_byte below inside, toNat_byte below' inside']
    exact same

/-- The check misses an access that runs past the top. -/
theorem not_sameBlock_of_runsPastTop
    (shift : config.depCheckShift < 63) (sized : inst.effSize ≠ 0) (sized' : load.effSize ≠ 0)
    (past : RunsPastTop inst) :
    ¬sameBlock config inst load = true := by
  rw [sameBlock_eq_true_iff, toNat_lastByte sized, toNat_lastByte sized']
  rintro ⟨upper, lower⟩
  have blocks : 2 ^ config.depCheckShift ≤ 2 ^ 62 := Nat.pow_le_pow_right (by decide) (by omega)
  have positive : 0 < 2 ^ config.depCheckShift := Nat.two_pow_pos _
  generalize 2 ^ config.depCheckShift = blockSize at *
  unfold RunsPastTop at past
  have small := inst.effSize.isLt
  have small' := load.effSize.isLt
  have inRange := inst.effAddr.isLt
  have inRange' := load.effAddr.isLt
  -- The load starts in a low block, so it ends far below the block of the store.
  have starts := Nat.lt_mul_of_div_lt (Nat.lt_succ_of_le upper) positive
  have ends := Nat.lt_mul_of_div_lt (Nat.lt_succ_of_le lower) positive
  have last := Nat.div_mul_le_self
    ((inst.effAddr.toNat + inst.effSize.toNat - 1) % 2 ^ 64) blockSize
  have last' := Nat.div_mul_le_self
    ((load.effAddr.toNat + load.effSize.toNat - 1) % 2 ^ 64) blockSize
  rw [Nat.succ_mul] at starts ends
  omega

/-- The check finds the overlaps of accesses that end below the top, and no others. -/
theorem sameBlock_iff
    (shift : config.depCheckShift < 63) (sized : inst.effSize ≠ 0) (sized' : load.effSize ≠ 0) :
    sameBlock config inst load = true ↔
      Overlaps config inst load ∧ ¬RunsPastTop inst ∧ ¬RunsPastTop load := by
  by_cases past : RunsPastTop inst
  · exact iff_of_false (not_sameBlock_of_runsPastTop shift sized sized' past)
      fun found => found.2.1 past
  by_cases past' : RunsPastTop load
  · rw [sameBlock_comm]
    exact iff_of_false (not_sameBlock_of_runsPastTop shift sized' sized past')
      fun found => found.2.2 past'
  have inRange := inst.effAddr.isLt
  have inRange' := load.effAddr.isLt
  rw [and_iff_left ⟨past, past'⟩, overlaps_iff past past', sameBlock_eq_true_iff,
    toNat_lastByte sized, toNat_lastByte sized',
    exists_div_eq_div_iff (Nat.two_pow_pos _) (effSize_pos sized) (effSize_pos sized')]
  unfold RunsPastTop at past past'
  have positive := effSize_pos sized
  have positive' := effSize_pos sized'
  rw [Nat.mod_eq_of_lt (by omega), Nat.mod_eq_of_lt (by omega)]

end Lsq
end Dolma

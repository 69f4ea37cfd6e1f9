import Mathlib.Order.Bounds.Basic
import Mathlib.Order.Lattice.Nat

/-!
# Blocks and least members

Memory is cut into blocks of one size. Two stretches of addresses have parts in a common block
if and only if neither ends in a block before the other starts. A set and a part of it have the
same least member if and only if every member of the set has one of the part at or below it.
-/

namespace Dolma
namespace Library

variable {first second size other block blockSize : Nat}

/-- A stretch has a member in every block between its ends. -/
theorem exists_div_eq
    (positive : 0 < blockSize) (sized : 0 < size) (lower : first / blockSize ≤ block)
    (upper : block ≤ (first + size - 1) / blockSize) :
    ∃ offset < size, (first + offset) / blockSize = block := by
  rcases Nat.eq_or_lt_of_le lower with rfl | before
  · exact ⟨0, sized, rfl⟩
  · have start : first < block * blockSize := (Nat.div_lt_iff_lt_mul positive).mp before
    have inside : block * blockSize ≤ first + size - 1 :=
      (Nat.le_div_iff_mul_le positive).mp upper
    refine ⟨block * blockSize - first, by omega, ?_⟩
    rw [Nat.add_sub_cancel' (Nat.le_of_lt start)]
    exact Nat.mul_div_cancel _ positive

theorem exists_div_eq_div_iff (positive : 0 < blockSize) (sized : 0 < size) (sized' : 0 < other) :
    (∃ offset < size, ∃ offset' < other,
      (first + offset) / blockSize = (second + offset') / blockSize) ↔
    second / blockSize ≤ (first + size - 1) / blockSize ∧
      first / blockSize ≤ (second + other - 1) / blockSize := by
  constructor
  · rintro ⟨offset, inside, offset', inside', same⟩
    constructor
    · calc second / blockSize
        _ ≤ (second + offset') / blockSize := Nat.div_le_div_right (Nat.le_add_right _ _)
        _ = (first + offset) / blockSize := same.symm
        _ ≤ (first + size - 1) / blockSize := Nat.div_le_div_right (by omega)
    · calc first / blockSize
        _ ≤ (first + offset) / blockSize := Nat.div_le_div_right (Nat.le_add_right _ _)
        _ = (second + offset') / blockSize := same
        _ ≤ (second + other - 1) / blockSize := Nat.div_le_div_right (by omega)
  · rintro ⟨upper, lower⟩
    rcases Nat.le_total (first / blockSize) (second / blockSize) with starts | starts
    · obtain ⟨offset, inside, same⟩ := exists_div_eq positive sized starts upper
      exact ⟨offset, inside, 0, sized', same⟩
    · obtain ⟨offset, inside, same⟩ := exists_div_eq positive sized' starts lower
      exact ⟨0, sized, offset, inside, same.symm⟩

theorem isLeast_iff_of_subset {part whole : Set Nat} (subset : part ⊆ whole) :
    (∀ least, IsLeast part least ↔ IsLeast whole least) ↔
      ∀ member ∈ whole, ∃ found ∈ part, found ≤ member := by
  constructor
  · intro same member isIn
    have least : IsLeast whole (sInf whole) := ⟨Nat.sInf_mem ⟨member, isIn⟩, fun _ => Nat.sInf_le⟩
    exact ⟨_, ((same _).mpr least).1, least.2 isIn⟩
  · intro below least
    constructor
    · rintro ⟨isIn, bound⟩
      refine ⟨subset isIn, fun member isMember => ?_⟩
      obtain ⟨found, inPart, le⟩ := below member isMember
      exact Nat.le_trans (bound inPart) le
    · rintro ⟨isIn, bound⟩
      obtain ⟨found, inPart, le⟩ := below least isIn
      obtain rfl : found = least := Nat.le_antisymm le (bound (subset inPart))
      exact ⟨inPart, fun member inPart => bound (subset inPart)⟩

end Library
end Dolma

import Mathlib.Data.List.Basic
import Mathlib.Logic.Function.Basic

/-!
# Ring buffers

A ring buffer keeps its items in slots that are used in turn. The items that were put
in since the start are numbered, those taken back at the end excepted: item `i` is in
slot `i % size`, and the items before `first` have left the ring. A full ring leaves
one slot free, so that equal ends mean an empty ring.
-/

namespace Dolma
namespace Library
namespace Ring

variable {α : Type*} {size first head tail : Nat} {count : Int} {slots : Nat → α}
  {items : List α}

/-- The slot after a slot. -/
def next (size idx : Nat) : Nat :=
  if size ≤ idx + 1 then 0 else idx + 1

/-- The slot before a slot. -/
def prev (size idx : Nat) : Nat :=
  if idx = 0 then size - 1 else idx - 1

/-- The next slot is the slot of the next item. -/
theorem next_mod (positive : 0 < size) (i : Nat) : next size (i % size) = (i + 1) % size := by
  have bound := Nat.mod_lt i positive
  rw [next, ← Nat.mod_add_mod]
  split
  case isTrue wraps =>
    have last : i % size + 1 = size := by omega
    rw [last, Nat.mod_self]
  case isFalse inside => exact (Nat.mod_eq_of_lt (by omega)).symm

/-- The slot before the slot of the next item is the slot of the item. -/
theorem prev_mod (positive : 0 < size) (i : Nat) : prev size ((i + 1) % size) = i % size := by
  have bound := Nat.mod_lt i positive
  rw [prev, ← Nat.mod_add_mod]
  by_cases wraps : i % size + 1 = size
  · rw [wraps, Nat.mod_self, if_pos rfl]
    omega
  · rw [Nat.mod_eq_of_lt (by omega), if_neg (by omega)]
    omega

variable {i j : Nat}

/-- Items less than a round apart are in different slots. -/
theorem mod_ne (before : i < j) (near : j < i + size) : i % size ≠ j % size := by
  intro same
  have positive : 0 < size := by omega
  have multiple : size ∣ j - i :=
    Nat.dvd_of_mod_eq_zero (Nat.sub_mod_eq_zero_of_mod_eq same.symm)
  have large := Nat.le_of_dvd (by omega) multiple
  omega

/-- The distance between the slots of two items that fit into the ring. -/
theorem distance (before : i ≤ j) (near : j < i + size) :
    (j % size + size - i % size) % size = j - i := by
  have below := Nat.mod_lt i (show 0 < size by omega)
  have same : j % size = (i % size + (j - i)) % size := by
    rw [Nat.mod_add_mod, Nat.add_sub_cancel' before]
  by_cases wraps : i % size + (j - i) < size
  · rw [Nat.mod_eq_of_lt wraps] at same
    have sum : j % size + size - i % size = j - i + size := by omega
    rw [sum, Nat.add_mod_right, Nat.mod_eq_of_lt (by omega)]
  · have value : (i % size + (j - i)) % size = i % size + (j - i) - size := by
      rw [Nat.mod_eq_sub_mod (Nat.le_of_not_lt wraps), Nat.mod_eq_of_lt (by omega)]
    rw [value] at same
    have sum : j % size + size - i % size = j - i := by omega
    rw [sum, Nat.mod_eq_of_lt (by omega)]

/-- The ring holds the items from number `first` on. -/
structure Holds
    (size : Nat) (slots : Nat → α) (head tail : Nat) (count : Int) (first : Nat)
    (items : List α) : Prop where
  first_le : first ≤ items.length
  room : items.length < first + size
  head_eq : head = first % size
  tail_eq : tail = items.length % size
  count_eq : count = (items.length : Int) - first
  slot : ∀ i (inside : i < items.length), first ≤ i → slots (i % size) = items[i]

namespace Holds

theorem positive (ring : Holds size slots head tail count first items) : 0 < size := by
  have below := ring.first_le
  have room := ring.room
  omega

/-- The counter is the distance from head to tail. -/
theorem count_eq_emod (ring : Holds size slots head tail count first items) :
    count = ((tail : Int) - head) % size := by
  have least := ring.first_le
  have room := ring.room
  rw [ring.count_eq, ring.head_eq, ring.tail_eq]
  push_cast
  rw [← Int.sub_emod, Int.emod_eq_of_lt (by omega) (by omega)]

theorem nil (positive : 0 < size) (slots : Nat → α) : Holds size slots 0 0 0 0 [] where
  first_le := Nat.le_refl 0
  room := by simpa using positive
  head_eq := (Nat.zero_mod size).symm
  tail_eq := (Nat.zero_mod size).symm
  count_eq := rfl
  slot := fun _ inside => absurd inside (Nat.not_lt_zero _)

section

variable (ring : Holds size slots head tail count first items)
include ring

/-- The slots of two items in the ring differ. -/
theorem slot_ne
    (fromFirst : first ≤ i) (inside : i ≤ items.length) (fromFirst' : first ≤ j)
    (inside' : j ≤ items.length) (distinct : i ≠ j) :
    i % size ≠ j % size := by
  have room := ring.room
  rcases Nat.lt_or_gt_of_ne distinct with before | after
  · exact mod_ne before (by omega)
  · exact (mod_ne after (by omega)).symm

theorem head_eq_tail : head = tail ↔ first = items.length := by
  have below := ring.first_le
  rw [ring.head_eq, ring.tail_eq]
  constructor
  · intro same
    by_contra distinct
    exact ring.slot_ne (Nat.le_refl _) below below (Nat.le_refl _) distinct same
  · rintro rfl
    rfl

theorem update_outside (outside : ∀ i, first ≤ i → i < items.length → i % size ≠ idx) (item : α) :
    Holds size (Function.update slots idx item) head tail count first items :=
  { ring with
    slot := by
      intro i inside fromFirst
      rw [Function.update_of_ne (outside i fromFirst inside)]
      exact ring.slot i inside fromFirst }

theorem push (room : items.length + 1 < first + size) (item : α) :
    Holds size (Function.update slots tail item) head (next size tail) (count + 1) first
      (items ++ [item]) where
  first_le := by
    have below := ring.first_le
    rw [List.length_append]
    omega
  room := by simpa using room
  head_eq := ring.head_eq
  tail_eq := by
    rw [ring.tail_eq, next_mod ring.positive]
    simp
  count_eq := by
    rw [ring.count_eq]
    simp only [List.length_append, List.length_cons, List.length_nil]
    omega
  slot := by
    intro i inside fromFirst
    rw [List.length_append, List.length_singleton] at inside
    rcases Nat.lt_or_ge i items.length with old | new
    · rw [List.getElem_append_left old, Function.update_of_ne]
      · exact ring.slot i old fromFirst
      · rw [ring.tail_eq]
        exact ring.slot_ne fromFirst (Nat.le_of_lt old) ring.first_le (Nat.le_refl _)
          (Nat.ne_of_lt old)
    · obtain rfl : i = items.length := by omega
      rw [ring.tail_eq, Function.update_self]
      simp

theorem popFront (nonempty : first < items.length) :
    Holds size slots (next size head) tail (count - 1) (first + 1) items where
  first_le := nonempty
  room := by
    have room := ring.room
    omega
  head_eq := by rw [ring.head_eq, next_mod ring.positive]
  tail_eq := ring.tail_eq
  count_eq := by
    rw [ring.count_eq]
    omega
  slot := fun i inside fromFirst => ring.slot i inside (Nat.le_of_succ_le fromFirst)

/-- The slot of the last item is before the tail. -/
theorem prev_tail (nonempty : 0 < items.length) : prev size tail = (items.length - 1) % size := by
  obtain ⟨last, length⟩ : ∃ last, items.length = last + 1 :=
    Nat.exists_eq_succ_of_ne_zero (Nat.ne_of_gt nonempty)
  rw [ring.tail_eq, length, prev_mod ring.positive]
  rfl

theorem popBack (nonempty : first < items.length) :
    Holds size slots head (prev size tail) (count - 1) first items.dropLast where
  first_le := by
    rw [List.length_dropLast]
    omega
  room := by
    have room := ring.room
    rw [List.length_dropLast]
    omega
  head_eq := ring.head_eq
  tail_eq := by rw [ring.prev_tail (by omega), List.length_dropLast]
  count_eq := by
    rw [ring.count_eq, List.length_dropLast]
    omega
  slot := by
    intro i inside fromFirst
    rw [List.getElem_dropLast]
    rw [List.length_dropLast] at inside
    exact ring.slot i (by omega) fromFirst

theorem set (fromFirst : first ≤ i) (inside : i < items.length) (item : α) :
    Holds size (Function.update slots (i % size) item) head tail count first
      (items.set i item) where
  first_le := by
    rw [List.length_set]
    exact ring.first_le
  room := by
    rw [List.length_set]
    exact ring.room
  head_eq := ring.head_eq
  tail_eq := by rw [List.length_set, ring.tail_eq]
  count_eq := by rw [List.length_set, ring.count_eq]
  slot := by
    intro j inside' fromFirst'
    rw [List.length_set] at inside'
    rw [List.getElem_set]
    split
    case isTrue same => rw [same, Function.update_self]
    case isFalse distinct =>
      rw [Function.update_of_ne]
      · exact ring.slot j inside' fromFirst'
      · exact ring.slot_ne fromFirst' (Nat.le_of_lt inside') fromFirst
          (Nat.le_of_lt inside) (Ne.symm distinct)

/-- A ring whose tail may not move onto its head has room for one more item. -/
theorem space (free : (tail + 1) % size ≠ head) : items.length + 1 < first + size := by
  have room := ring.room
  by_contra full
  have last : items.length + 1 = first + size := by omega
  apply free
  rw [ring.tail_eq, ring.head_eq, Nat.mod_add_mod, last, Nat.add_mod_right]

end

end Holds

end Ring
end Library
end Dolma

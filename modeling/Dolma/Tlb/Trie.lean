import Dolma.Mem.Request

/-!
# The trie of a translation buffer

A node covers the addresses that agree with its key under its mask. Inner nodes hold no value. A
missing child is the empty trie, and a node with one child has it first. An insertion has no
result where the source aborts.
-/

namespace Dolma
namespace Tlb

open Mem

/-- A trie over addresses. -/
inductive Trie (α : Type) where
  | nil
  | node (key mask : Addr) (value : Option α) (first second : Trie α)
deriving Repr

namespace Trie

variable {α : Type}

/-- The root of a trie without values. -/
def empty : Trie α :=
  .node 0 0 none .nil .nil

/-- There is no node. -/
def isNil : Trie α → Bool
  | .nil => true
  | .node .. => false

/-- The node covers the address. -/
def covers (address : Addr) : Trie α → Bool
  | .nil => false
  | .node key mask _ _ _ => address &&& mask == key

/-- The first value on the way down to the address. -/
def lookup (address : Addr) : Trie α → Option α
  | .nil => none
  | .node _ _ (some value) _ _ => some value
  | .node _ _ none first second =>
      if first.covers address then first.lookup address
      else if second.covers address then second.lookup address
      else none

/-- A node an entry is inserted below. -/
def goesAfter (address newMask : Addr) : Trie α → Bool
  | .nil => false
  | .node key mask _ _ _ =>
      address &&& mask == key && mask &&& newMask == mask

/-- The mask extended by one more bit. -/
def extendMask (mask : Addr) : Addr :=
  mask ||| (mask >>> 1) ||| (1 <<< 63)

/-- Extend the mask until the keys differ or the bits of the entry end. -/
def walkMask (address key newMask : Addr) : Nat → Addr → Addr
  | 0, mask => mask
  | fuel + 1, mask =>
      let extended := extendMask mask
      if address &&& extended != key &&& extended || mask == newMask then mask
      else walkMask address key newMask fuel extended

/-- Put an entry beside a child, or none if it belongs to the other leg. -/
def insertLeg (address newMask parentMask : Addr) (value : α) (kid : Trie α) : Option (Trie α) :=
  match kid with
  | .nil => some (.node address newMask (some value) .nil .nil)
  | .node key _ _ _ _ =>
      let mask := walkMask address key newMask 65 parentMask
      if mask == parentMask then none
      else if mask == newMask then
        some (.node (address &&& mask) mask (some value) kid .nil)
      else
        some (.node (address &&& mask) mask none kid
          (.node address newMask (some value) .nil .nil))

/-- Insert a value for the addresses that agree with the given one under the mask. -/
def insert (address newMask : Addr) (value : α) : Trie α → Option (Trie α)
  | .nil => none
  | .node key mask held first second =>
      if first.goesAfter address newMask then
        (first.insert address newMask value).map fun inserted =>
          .node key mask held inserted second
      else if second.goesAfter address newMask then
        (second.insert address newMask value).map fun inserted =>
          .node key mask held first inserted
      else if mask == newMask then
        if held.isSome then none
        else some (.node key mask (some value) first second)
      else
        match insertLeg address newMask mask value first with
        | some inserted => some (.node key mask held inserted second)
        | none =>
            (insertLeg address newMask mask value second).map fun inserted =>
              .node key mask held first inserted

/-- A parent without a second child and without a value goes as well. -/
def dropParent
    (isRoot : Bool) (key mask : Addr) (held : Option α) (first second : Trie α) : Trie α × Bool :=
  let kids := if first.isNil then (second, .nil) else (first, second)
  if kids.2.isNil && held.isNone && !isRoot then (kids.1, true)
  else (.node key mask held kids.1 kids.2, false)

/-- Remove the node that holds a value. The flag says that the node itself is
gone and its first child has taken its place. -/
def remove [DecidableEq α] (isRoot : Bool) (value : α) : Trie α → Trie α × Bool
  | .nil => (.nil, false)
  | .node key mask held first second =>
      if held = some value then
        if second.isNil then (first, true)
        else (.node key mask none first second, false)
      else
        let left := first.remove false value
        if left.2 then dropParent isRoot key mask held left.1 second
        else
          let right := second.remove false value
          if right.2 then dropParent isRoot key mask held left.1 right.1
          else (.node key mask held left.1 right.1, false)

/-- The values that the nodes hold. -/
def values : Trie α → List α
  | .nil => []
  | .node _ _ held first second => held.toList ++ first.values ++ second.values

@[simp] theorem values_nil : (nil : Trie α).values = [] := rfl

@[simp] theorem values_node (key mask : Addr) (held : Option α) (first second : Trie α) :
    (node key mask held first second).values = held.toList ++ first.values ++ second.values := rfl

theorem values_of_isNil {trie : Trie α} (isNil : trie.isNil = true) : trie.values = [] := by
  cases trie with
  | nil => rfl
  | node => cases isNil

variable {address newMask : Addr}
variable {value : α} {inserted : Trie α}

/-- What a lookup finds is held by a node. -/
theorem mem_values_of_lookup (trie : Trie α) (found : trie.lookup address = some value) :
    value ∈ trie.values := by
  induction trie with
  | nil => cases found
  | node key mask held first second firstIh secondIh =>
      cases held with
      | some other =>
          simp only [lookup, Option.some.injEq] at found
          simp [found]
      | none =>
          rw [lookup] at found
          split at found
          · simp [firstIh found]
          · split at found
            · simp [secondIh found]
            · cases found

/-- The values of a child with a neighbour. -/
theorem values_insertLeg
    (isInserted : insertLeg address newMask parentMask value kid = some inserted) :
    inserted.values.Perm (value :: kid.values) := by
  cases kid with
  | nil =>
      simp only [insertLeg, Option.some.injEq] at isInserted
      simp [← isInserted]
  | node key mask held first second =>
      simp only [insertLeg] at isInserted
      split at isInserted
      · cases isInserted
      · split at isInserted
        all_goals
          cases isInserted
          simp only [values_node, values_nil, Option.toList, List.append_nil, List.nil_append]
        · exact List.Perm.refl _
        · exact List.perm_append_singleton value _

/-- An insertion adds its value to those of the trie. -/
theorem values_insert
    (trie : Trie α) (isInserted : trie.insert address newMask value = some inserted) :
    inserted.values.Perm (value :: trie.values) := by
  -- the value joins one of the parts of a node, and the parts keep their places
  have inFirst (held changed first second : List α)
      (added : changed.Perm (value :: first)) :
      (held ++ changed ++ second).Perm (value :: (held ++ first ++ second)) :=
    ((added.append_left held).trans List.perm_middle).append_right second
  have inSecond (held changed first second : List α)
      (added : changed.Perm (value :: second)) :
      (held ++ first ++ changed).Perm (value :: (held ++ first ++ second)) :=
    (added.append_left (held ++ first)).trans List.perm_middle
  induction trie generalizing inserted with
  | nil => cases isInserted
  | node key mask held first second firstIh secondIh =>
      simp only [insert] at isInserted
      split at isInserted
      · obtain ⟨changed, isChanged, rfl⟩ := Option.map_eq_some_iff.mp isInserted
        exact inFirst _ _ _ _ (firstIh isChanged)
      · split at isInserted
        · obtain ⟨changed, isChanged, rfl⟩ := Option.map_eq_some_iff.mp isInserted
          exact inSecond _ _ _ _ (secondIh isChanged)
        · split at isInserted
          · split at isInserted
            · cases isInserted
            · next unheld =>
                cases isInserted
                obtain rfl : held = none := by simpa using unheld
                simp
          · split at isInserted
            · next isChanged =>
                cases isInserted
                exact inFirst _ _ _ _ (values_insertLeg isChanged)
            · obtain ⟨changed, isChanged, rfl⟩ :=
                Option.map_eq_some_iff.mp isInserted
              exact inSecond _ _ _ _ (values_insertLeg isChanged)

theorem values_dropParent
    (isRoot : Bool) (key mask : Addr) (held : Option α) (first second : Trie α) :
    (dropParent isRoot key mask held first second).1.values =
      held.toList ++ first.values ++ second.values := by
  simp only [dropParent]
  split
  · next isNil =>
      rw [values_of_isNil isNil, List.append_nil]
      split
      · next dropped =>
          simp only [Bool.and_eq_true, Option.isNone_iff_eq_none] at dropped
          simp [dropped.1.2]
      · simp
  · split
    · next dropped =>
        simp only [Bool.and_eq_true, Option.isNone_iff_eq_none] at dropped
        simp [values_of_isNil dropped.1.1, dropped.1.2]
    · rfl

section Remove

variable [DecidableEq α] {value : α}

/-- A node that goes away with a removal held the value, or one below it did. -/
theorem mem_values_of_removed (trie : Trie α) (isRemoved : (trie.remove isRoot value).2 = true) :
    value ∈ trie.values := by
  induction trie generalizing isRoot with
  | nil => cases isRemoved
  | node key mask held first second firstIh secondIh =>
      simp only [remove] at isRemoved
      split at isRemoved
      · next holds => simp [holds]
      · split at isRemoved
        · next left => simp [firstIh left]
        · split at isRemoved
          · next right => simp [secondIh right]
          · cases isRemoved

theorem filter_ne_of_not_mem {list : List α} (absent : value ∉ list) :
    list.filter (· ≠ value) = list := by
  refine List.filter_eq_self.mpr ?_
  intro other member
  simpa using ne_of_mem_of_not_mem member absent

/-- A removal takes its value out of those of the trie. -/
theorem values_remove (trie : Trie α) (isRoot : Bool) (nodup : trie.values.Nodup) :
    (trie.remove isRoot value).1.values = trie.values.filter (· ≠ value) := by
  induction trie generalizing isRoot with
  | nil => rfl
  | node key mask held first second firstIh secondIh =>
      simp only [values_node, List.append_assoc] at nodup
      obtain ⟨_, below, apart⟩ := List.nodup_append.mp nodup
      obtain ⟨firstNodup, secondNodup, firstApart⟩ := List.nodup_append.mp below
      simp only [remove]
      split
      · -- the value is here, so it is in neither child
        next holds =>
          have absent : value ∉ first.values ++ second.values := by
            intro member
            exact apart value (by simp [holds]) value member rfl
          rw [values_node, holds, List.append_assoc, List.filter_append,
            filter_ne_of_not_mem absent]
          split
          · next isNil => simp [values_of_isNil isNil]
          · simp
      · next holds =>
          have heldKept : held.toList.filter (· ≠ value) = held.toList :=
            filter_ne_of_not_mem (by simpa using holds)
          rw [values_node, List.filter_append, List.filter_append, heldKept,
            ← firstIh false firstNodup]
          split
          · -- the value was in the first child, so it is not in the second
            next removed =>
              have member := mem_values_of_removed first removed
              have absent : value ∉ second.values := fun inSecond =>
                firstApart value member value inSecond rfl
              rw [values_dropParent, filter_ne_of_not_mem absent]
          · rw [← secondIh false secondNodup]
            split
            · rw [values_dropParent]
            · rw [values_node]

end Remove

end Trie

end Tlb
end Dolma

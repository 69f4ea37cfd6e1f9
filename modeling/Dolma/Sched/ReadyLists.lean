import Dolma.Library.Lists
import Dolma.Sched.Defs
import Mathlib.Data.List.Nodup

/-!
# The ready lists

Ready instructions wait in a priority queue for each operation class. The classes that have
ready instructions are on a list by the age of their oldest instruction. A class is put on
the list when it gets its first instruction, moves up when it gets an older one, and moves
down or leaves when its oldest instruction is taken. Iterators into the list are kept for
each class; an entry has a node that iterators point to.
-/

namespace Dolma
namespace Sched

open Library

/-- An entry of the list of operation classes. -/
structure ListOrderEntry where
  queueType : Nat
  oldestInst : Nat
  node : Nat
deriving DecidableEq, Repr

/-- The ready lists. -/
structure ReadyLists where
  readyInsts : Nat → List Nat := fun _ => []
  listOrder : List ListOrderEntry := []
  /-- The node of each class on the list, or none for the end of the list. -/
  readyIt : Nat → Option Nat := fun _ => none
  queueOnList : Nat → Bool := fun _ => false
  nextNode : Nat := 0

namespace ReadyLists

variable (lists : ReadyLists)

/-- The oldest ready instruction of a class. -/
def top (opClass : Nat) : Nat :=
  (lists.readyInsts opClass).min?.getD 0

/-- Make an instruction ready. -/
def push (opClass seq : Nat) : ReadyLists :=
  { lists with
    readyInsts := Function.update lists.readyInsts opClass (seq :: lists.readyInsts opClass) }

/-- Take the oldest ready instruction of a class. -/
def pop (opClass : Nat) : ReadyLists :=
  { lists with
    readyInsts := Function.update lists.readyInsts opClass
      ((lists.readyInsts opClass).erase (lists.top opClass)) }

@[simp] theorem pop_readyInsts_self (opClass : Nat) :
    (lists.pop opClass).readyInsts opClass = (lists.readyInsts opClass).erase (lists.top opClass) :=
  Function.update_self ..

@[simp] theorem push_readyInsts_self (opClass seq : Nat) :
    (lists.push opClass seq).readyInsts opClass = seq :: lists.readyInsts opClass :=
  Function.update_self ..

/-- A new entry for a class. -/
def newEntry (opClass : Nat) : ListOrderEntry where
  queueType := opClass
  oldestInst := lists.top opClass
  node := lists.nextNode

/-- The iterator of a class points to a new entry. -/
def setReadyIt (opClass : Nat) : ReadyLists :=
  { lists with
    readyIt := Function.update lists.readyIt opClass (some lists.nextNode)
    nextNode := lists.nextNode + 1 }

/-- Put a class on the list, before the first younger one. -/
def addToOrderList (opClass : Nat) : ReadyLists :=
  { lists.setReadyIt opClass with
    listOrder := lists.listOrder.orderedInsert
      (fun new old => new.oldestInst < old.oldestInst) (lists.newEntry opClass)
    queueOnList := Function.update lists.queueOnList opClass true }

/-- Put the class at a position on the list again, behind that position and before the first
entry that is not older. -/
def moveToYoungerInst (position opClass : Nat) : ReadyLists :=
  { lists.setReadyIt opClass with
    listOrder := lists.listOrder.take (position + 1) ++
      (lists.listOrder.drop (position + 1)).orderedInsert
        (fun new old => new.oldestInst ≤ old.oldestInst) (lists.newEntry opClass) }

/-- The entry that a node holds. -/
def entryAt (node : Nat) : Option ListOrderEntry :=
  lists.listOrder.find? fun entry => entry.node == node

/-- Erase the entry that a node holds. -/
def eraseNode (node : Nat) : ReadyLists :=
  { lists with listOrder := lists.listOrder.filter fun entry => entry.node != node }

/-- Add a ready instruction. The class is put on the list if it is not there, and put on the
list again if the instruction is older than its others. -/
def addReadyMemInst (opClass seq : Nat) : ReadyLists :=
  let pushed := lists.push opClass seq
  if !lists.queueOnList opClass then pushed.addToOrderList opClass
  else
    match lists.readyIt opClass with
    | none => pushed
    | some node =>
        if (lists.entryAt node).any fun entry => decide (pushed.top opClass < entry.oldestInst) then
          (pushed.eraseNode node).addToOrderList opClass
        else pushed

/-- The oldest instruction of the class at a position leaves the ready lists. -/
def takeTop (position : Nat) (entry : ListOrderEntry) : ReadyLists :=
  let opClass := entry.queueType
  let popped := lists.pop opClass
  let moved :=
    if (popped.readyInsts opClass).isEmpty then
      { popped with
        readyIt := Function.update popped.readyIt opClass none
        queueOnList := Function.update popped.queueOnList opClass false }
    else popped.moveToYoungerInst position opClass
  { moved with listOrder := moved.listOrder.eraseIdx position }

end ReadyLists

/-! ## The order of the lists -/

/-- The list holds the classes with ready instructions by age, and flags and iterators
agree. -/
structure Ordered (lists : ReadyLists) : Prop where
  onList : ∀ opClass, lists.queueOnList opClass = true ↔ lists.readyInsts opClass ≠ []
  listed : ∀ opClass, opClass ∈ lists.listOrder.map (·.queueType) ↔ lists.readyInsts opClass ≠ []
  distinct : (lists.listOrder.map (·.queueType)).Nodup
  sorted : lists.listOrder.Pairwise fun first second => first.oldestInst ≤ second.oldestInst
  oldest : ∀ entry ∈ lists.listOrder,
    (lists.readyInsts entry.queueType).min? = some entry.oldestInst
  position : ∀ entry ∈ lists.listOrder, lists.readyIt entry.queueType = some entry.node
  unlisted : ∀ opClass, lists.readyInsts opClass = [] → lists.readyIt opClass = none
  nodes : (lists.listOrder.map (·.node)).Nodup
  allocated : ∀ entry ∈ lists.listOrder, entry.node < lists.nextNode

variable {entry : ListOrderEntry} {position : Nat} {list : List ListOrderEntry}

/-- The entries of the other classes. -/
theorem eraseIdx_eq_filter
    (distinct : (list.map (·.queueType)).Nodup) (found : list[position]? = some entry) :
    list.eraseIdx position = list.filter fun other => other.queueType != entry.queueType := by
  induction list generalizing position with
  | nil => cases found
  | cons first rest ih =>
      rw [List.map_cons, List.nodup_cons] at distinct
      cases position with
      | zero =>
          cases found
          rw [List.eraseIdx_cons_zero, List.filter_cons_of_neg (by simp)]
          refine (List.filter_eq_self.mpr fun other member => ?_).symm
          rw [bne_iff_ne]
          intro same
          exact distinct.1 (same ▸ List.mem_map_of_mem member)
      | succ position =>
          rw [List.getElem?_cons_succ] at found
          have different : (first.queueType != entry.queueType) = true := by
            rw [bne_iff_ne]
            intro same
            rw [same] at distinct
            exact distinct.1 (List.mem_map_of_mem (List.mem_of_getElem? found))
          rw [List.eraseIdx_cons_succ, List.filter_cons, if_pos different, ih distinct.2 found]

theorem filter_node_eq (ordered : Ordered lists) (member : entry ∈ lists.listOrder) :
    (lists.listOrder.filter fun other => other.node != entry.node) =
      lists.listOrder.filter fun other => other.queueType != entry.queueType := by
  refine List.filter_congr fun other isIn => ?_
  rw [Bool.eq_iff_iff, bne_iff_ne, bne_iff_ne]
  refine not_congr ⟨fun same => ?_, fun same => ?_⟩
  · exact congrArg _ (List.inj_on_of_nodup_map ordered.nodes isIn member same)
  · exact congrArg _ (List.inj_on_of_nodup_map ordered.distinct isIn member same)

namespace Ordered

variable {lists next : ReadyLists} {opClass : Nat}

/-- The entries of the other classes. -/
def others (lists : ReadyLists) (opClass : Nat) : List ListOrderEntry :=
  lists.listOrder.filter fun other => other.queueType != opClass

theorem mem_others {entry : ListOrderEntry} :
    entry ∈ others lists opClass ↔ entry ∈ lists.listOrder ∧ entry.queueType ≠ opClass := by
  unfold others
  rw [List.mem_filter, bne_iff_ne]

/-- The queue of a class changes: its entry is replaced by a new one if it still has ready
instructions, and the other entries stay. -/
theorem change
    (added : Option ListOrderEntry) (ordered : Ordered lists)
    (readyInsts : next.readyInsts = Function.update lists.readyInsts opClass queue)
    (perm : next.listOrder.Perm (added.toList ++ others lists opClass))
    (least : queue.min? = added.map (·.oldestInst))
    (own : ∀ entry ∈ added, entry.queueType = opClass ∧ entry.node = lists.nextNode)
    (sorted : next.listOrder.Pairwise fun first second => first.oldestInst ≤ second.oldestInst)
    (readyIt : next.readyIt = Function.update lists.readyIt opClass (added.map (·.node)))
    (onList : next.queueOnList = Function.update lists.queueOnList opClass added.isSome)
    (nextNode : next.nextNode = lists.nextNode + added.toList.length) :
    Ordered next := by
  have empty : queue = [] ↔ added = none := by
    rw [← List.min?_eq_none_iff, least, Option.map_eq_none_iff]
  have sublist : (others lists opClass).Sublist lists.listOrder := List.filter_sublist
  have member : ∀ {entry}, entry ∈ next.listOrder ↔
      added = some entry ∨ entry ∈ lists.listOrder ∧ entry.queueType ≠ opClass := by
    intro entry
    rw [perm.mem_iff, List.mem_append, Option.mem_toList, mem_others]
  have old : ∀ {entry}, entry ∈ others lists opClass → entry.queueType ≠ opClass :=
    fun isOther => (mem_others.mp isOther).2
  constructor
  case onList =>
    intro other
    rw [onList, readyInsts]
    by_cases same : other = opClass
    · subst same
      rw [Function.update_self, Function.update_self, ne_eq, empty, ← ne_eq,
        Option.ne_none_iff_isSome]
    · rw [Function.update_of_ne same, Function.update_of_ne same]
      exact ordered.onList other
  case listed =>
    intro other
    rw [readyInsts, List.mem_map]
    by_cases same : other = opClass
    · subst same
      rw [Function.update_self, ne_eq, empty, ← ne_eq, Option.ne_none_iff_exists']
      constructor
      · rintro ⟨entry, isIn, class_eq⟩
        exact ⟨entry, (member.mp isIn).resolve_right fun isOld => isOld.2 class_eq⟩
      · rintro ⟨entry, isAdded⟩
        exact ⟨entry, member.mpr (.inl isAdded), (own entry isAdded).1⟩
    · rw [Function.update_of_ne same, ← ordered.listed other, List.mem_map]
      constructor
      · rintro ⟨entry, isIn, rfl⟩
        rcases member.mp isIn with isAdded | ⟨isOld, -⟩
        · exact absurd (own entry isAdded).1 same
        · exact ⟨entry, isOld, rfl⟩
      · rintro ⟨entry, isIn, rfl⟩
        exact ⟨entry, member.mpr (.inr ⟨isIn, same⟩), rfl⟩
  case distinct =>
    rw [(perm.map _).nodup_iff]
    have rest := ordered.distinct.sublist (sublist.map _)
    cases added with
    | none => exact rest
    | some entry =>
        refine List.nodup_cons.mpr ⟨fun isIn => ?_, rest⟩
        obtain ⟨other, isOther, same⟩ := List.mem_map.mp isIn
        exact old isOther (same.trans (own entry rfl).1)
  case sorted => exact sorted
  case oldest =>
    intro entry isIn
    rw [readyInsts]
    rcases member.mp isIn with isAdded | ⟨isOld, different⟩
    · rw [(own entry isAdded).1, Function.update_self, least, isAdded]
      rfl
    · rw [Function.update_of_ne different]
      exact ordered.oldest entry isOld
  case position =>
    intro entry isIn
    rw [readyIt]
    rcases member.mp isIn with isAdded | ⟨isOld, different⟩
    · rw [(own entry isAdded).1, Function.update_self, isAdded]
      rfl
    · rw [Function.update_of_ne different]
      exact ordered.position entry isOld
  case unlisted =>
    intro other none
    rw [readyInsts] at none
    rw [readyIt]
    by_cases same : other = opClass
    · subst same
      rw [Function.update_self] at none ⊢
      rw [empty.mp none]
      rfl
    · rw [Function.update_of_ne same] at none ⊢
      exact ordered.unlisted other none
  case nodes =>
    rw [(perm.map _).nodup_iff]
    have rest := ordered.nodes.sublist (sublist.map _)
    cases added with
    | none => exact rest
    | some entry =>
        refine List.nodup_cons.mpr ⟨fun isIn => ?_, rest⟩
        obtain ⟨other, isOther, same⟩ := List.mem_map.mp isIn
        have below := ordered.allocated other (sublist.subset isOther)
        have fresh := (own entry rfl).2
        dsimp only at same
        omega
  case allocated =>
    intro entry isIn
    rw [nextNode]
    rcases member.mp isIn with isAdded | ⟨isOld, -⟩
    · rw [(own entry isAdded).2, isAdded]
      exact Nat.lt_succ_self _
    · exact Nat.lt_of_lt_of_le (ordered.allocated entry isOld) (Nat.le_add_right _ _)

/-- The top is the oldest ready instruction. -/
theorem top_eq {oldest : Nat} (least : (lists.readyInsts opClass).min? = some oldest) :
    lists.top opClass = oldest := by
  unfold ReadyLists.top
  rw [least]
  rfl

theorem empty : Ordered {} where
  onList := fun _ => iff_of_false Bool.false_ne_true fun none => none rfl
  listed := fun _ => iff_of_false List.not_mem_nil fun none => none rfl
  distinct := List.nodup_nil
  sorted := List.Pairwise.nil
  oldest := fun _ isIn => absurd isIn List.not_mem_nil
  position := fun _ isIn => absurd isIn List.not_mem_nil
  unlisted := fun _ _ => rfl
  nodes := List.nodup_nil
  allocated := fun _ isIn => absurd isIn List.not_mem_nil

theorem sorted_move
    (ordered : Ordered lists) (found : lists.listOrder[position]? = some entry)
    (younger : entry.oldestInst ≤ new.oldestInst) :
    (lists.listOrder.take position ++ (lists.listOrder.drop (position + 1)).orderedInsert
        (fun new old => new.oldestInst ≤ old.oldestInst) new).Pairwise
      fun first second => first.oldestInst ≤ second.oldestInst := by
  have sorted := ordered.sorted
  rw [split_at found, List.pairwise_append, List.pairwise_cons] at sorted
  obtain ⟨before, ⟨least, after⟩, cross⟩ := sorted
  refine List.pairwise_append.mpr ⟨before, ?_, ?_⟩
  · apply pairwise_orderedInsert _ _ after
    · exact fun _ _ => id
    · exact fun _ _ => Nat.le_of_not_le
  · intro first isBefore second isBehind
    rw [(List.perm_orderedInsert _ _ _).mem_iff, List.mem_cons] at isBehind
    have earlier := cross first isBefore entry List.mem_cons_self
    rcases isBehind with rfl | later
    · exact Nat.le_trans earlier younger
    · exact cross first isBefore second (List.mem_cons_of_mem _ later)

/-- A class without ready instructions leaves the list. -/
theorem takeTop_of_nil
    (last : (lists.readyInsts entry.queueType).erase (lists.top entry.queueType) = []) :
    lists.takeTop position entry =
      { lists.pop entry.queueType with
        listOrder := lists.listOrder.eraseIdx position
        readyIt := Function.update lists.readyIt entry.queueType none
        queueOnList := Function.update lists.queueOnList entry.queueType false } := by
  unfold ReadyLists.takeTop
  dsimp only
  rw [ReadyLists.pop_readyInsts_self, last, List.isEmpty_nil, if_pos rfl]
  rfl

/-- A class with more ready instructions moves down. -/
theorem takeTop_of_ne_nil
    (inside : position < lists.listOrder.length)
    (more : (lists.readyInsts entry.queueType).erase (lists.top entry.queueType) ≠ []) :
    lists.takeTop position entry =
      { (lists.pop entry.queueType).setReadyIt entry.queueType with
        listOrder := lists.listOrder.take position ++
          (lists.listOrder.drop (position + 1)).orderedInsert
            (fun new old => new.oldestInst ≤ old.oldestInst)
            ((lists.pop entry.queueType).newEntry entry.queueType) } := by
  have nonempty : ¬ ((lists.pop entry.queueType).readyInsts entry.queueType).isEmpty = true := by
    rw [ReadyLists.pop_readyInsts_self, List.isEmpty_iff]
    exact more
  unfold ReadyLists.takeTop
  dsimp only
  rw [if_neg nonempty, ← eraseIdx_take_append inside]
  rfl

/-- The ready instructions after one has been taken. -/
theorem takeTop_readyInsts (position : Nat) (entry : ListOrderEntry) :
    (lists.takeTop position entry).readyInsts =
      Function.update lists.readyInsts entry.queueType
        ((lists.readyInsts entry.queueType).erase (lists.top entry.queueType)) := by
  unfold ReadyLists.takeTop
  dsimp only
  split
  · rfl
  · rfl

/-- The entries from the position on, after the class at it has been taken off the list or
has moved down. -/
theorem drop_takeTop (found : lists.listOrder[position]? = some entry) :
    (lists.takeTop position entry).listOrder.drop position =
      if (lists.readyInsts entry.queueType).erase (lists.top entry.queueType) = [] then
        lists.listOrder.drop (position + 1)
      else
        (lists.listOrder.drop (position + 1)).orderedInsert
          (fun new old => new.oldestInst ≤ old.oldestInst)
          ((lists.pop entry.queueType).newEntry entry.queueType) := by
  have inside := (List.getElem?_eq_some_iff.mp found).1
  have length : (lists.listOrder.take position).length = position :=
    List.length_take_of_le (Nat.le_of_lt inside)
  split
  case isTrue last =>
    rw [takeTop_of_nil last]
    dsimp only
    rw [List.eraseIdx_eq_take_drop_succ, List.drop_left' length]
  case isFalse more =>
    rw [takeTop_of_ne_nil inside more]
    dsimp only
    rw [List.drop_left' length]

/-- The classes from the position on, after the class at it has been taken off the list or
has moved down. -/
theorem drop_takeTop_perm (found : lists.listOrder[position]? = some entry) :
    ∃ added : Option ListOrderEntry,
      (∀ new ∈ added, new.queueType = entry.queueType) ∧
        ((lists.takeTop position entry).listOrder.drop position).Perm
          (added.toList ++ lists.listOrder.drop (position + 1)) := by
  rw [drop_takeTop found]
  split
  case isTrue =>
    refine ⟨none, ?_, List.Perm.refl _⟩
    rintro _ ⟨⟩
  case isFalse =>
    refine ⟨some ((lists.pop entry.queueType).newEntry entry.queueType), ?_, ?_⟩
    · rintro _ ⟨⟩
      rfl
    · exact List.perm_orderedInsert _ _ _

/-- The classes behind a position are others. -/
theorem ne_of_mem_drop
    (ordered : Ordered lists) (found : lists.listOrder[position]? = some entry)
    (behind : other ∈ lists.listOrder.drop (position + 1)) :
    other.queueType ≠ entry.queueType := by
  have distinct := ordered.distinct
  rw [split_at found, List.map_append, List.map_cons] at distinct
  have apart := (List.nodup_cons.mp (List.nodup_append.mp distinct).2.1).1
  intro same
  exact apart (List.mem_map.mpr ⟨other, behind, same⟩)

/-- The ready instructions after one has been added. -/
theorem addReadyMemInst_readyInsts (lists : ReadyLists) (opClass seq : Nat) :
    (lists.addReadyMemInst opClass seq).readyInsts =
      Function.update lists.readyInsts opClass (seq :: lists.readyInsts opClass) := by
  unfold ReadyLists.addReadyMemInst
  dsimp only
  split
  · rfl
  · split
    · rfl
    · split
      · rfl
      · rfl

/-- The class at a position is taken off the list or moves down. -/
theorem takeTop (ordered : Ordered lists) (found : lists.listOrder[position]? = some entry) :
    Ordered (lists.takeTop position entry) := by
  have member := List.mem_of_getElem? found
  have inside := (List.getElem?_eq_some_iff.mp found).1
  have erased : lists.listOrder.eraseIdx position = others lists entry.queueType :=
    eraseIdx_eq_filter ordered.distinct found
  have oldest := ordered.oldest entry member
  cases least :
    ((lists.readyInsts entry.queueType).erase (lists.top entry.queueType)).min? with
  | none =>
      have last := List.min?_eq_none_iff.mp least
      rw [takeTop_of_nil last]
      refine ordered.change none rfl ?_ least ?_ ?_ rfl rfl rfl
      · rw [← erased]
        exact List.Perm.refl _
      · rintro _ ⟨⟩
      · exact ordered.sorted.sublist (List.eraseIdx_sublist _ _)
  | some next =>
      have isIn := List.min?_mem least
      have top : (lists.pop entry.queueType).top entry.queueType = next := by
        apply top_eq
        rw [ReadyLists.pop_readyInsts_self, least]
      have younger : entry.oldestInst ≤ next :=
        (List.min?_eq_some_iff.mp oldest).2 next (List.erase_subset isIn)
      have on : lists.queueOnList entry.queueType = true :=
        (ordered.onList entry.queueType).mpr
          ((ordered.listed entry.queueType).mp (List.mem_map_of_mem member))
      rw [takeTop_of_ne_nil inside (List.ne_nil_of_mem isIn)]
      refine ordered.change (some ((lists.pop entry.queueType).newEntry entry.queueType)) rfl
        ?_ ?_ ?_ ?_ rfl ?_ rfl
      · rw [← erased, List.eraseIdx_eq_take_drop_succ]
        exact ((List.perm_orderedInsert _ _ _).append_left _).trans List.perm_middle
      · rw [least, Option.map_some]
        exact congrArg some top.symm
      · rintro _ ⟨⟩
        exact ⟨rfl, rfl⟩
      · apply ordered.sorted_move found
        change _ ≤ (lists.pop entry.queueType).top entry.queueType
        rw [top]
        exact younger
      · rw [Option.isSome_some, ← on, Function.update_eq_self]
        rfl

/-- The oldest of a class with one more. -/
theorem min?_push (lists : ReadyLists) (opClass seq : Nat) :
    (seq :: lists.readyInsts opClass).min? = some ((lists.push opClass seq).top opClass) := by
  unfold ReadyLists.top
  rw [ReadyLists.push_readyInsts_self, List.min?_cons]
  rfl

theorem addToOrderList (ordered : Ordered lists) (seq : Nat) (rest : list = others lists opClass) :
    Ordered (ReadyLists.addToOrderList { lists.push opClass seq with listOrder := list }
      opClass) := by
  have sorted : list.Pairwise fun first second => first.oldestInst ≤ second.oldestInst := by
    rw [rest]
    exact ordered.sorted.sublist List.filter_sublist
  refine ordered.change (some ((lists.push opClass seq).newEntry opClass)) rfl ?_ ?_ ?_ ?_ rfl
    rfl rfl
  · rw [← rest]
    exact List.perm_orderedInsert _ _ _
  · exact min?_push lists opClass seq
  · rintro _ ⟨⟩
    exact ⟨rfl, rfl⟩
  · apply pairwise_orderedInsert _ _ sorted
    · exact fun _ _ => Nat.le_of_lt
    · exact fun _ _ => Nat.le_of_not_lt

/-- A class that gets a younger instruction stays where it is. -/
theorem push
    (ordered : Ordered lists) (member : entry ∈ lists.listOrder)
    (younger : ¬ (lists.push entry.queueType seq).top entry.queueType < entry.oldestInst) :
    Ordered (lists.push entry.queueType seq) := by
  have nonempty : ∀ opClass, (lists.push entry.queueType seq).readyInsts opClass ≠ [] ↔
      lists.readyInsts opClass ≠ [] := by
    intro opClass
    by_cases own : opClass = entry.queueType
    · rw [own, ReadyLists.push_readyInsts_self]
      refine iff_of_true (List.cons_ne_nil _ _) ?_
      exact (ordered.listed entry.queueType).mp (List.mem_map_of_mem member)
    · unfold ReadyLists.push
      dsimp only
      rw [Function.update_of_ne own]
  constructor
  case onList => exact fun opClass => (ordered.onList opClass).trans (nonempty opClass).symm
  case listed => exact fun opClass => (ordered.listed opClass).trans (nonempty opClass).symm
  case distinct => exact ordered.distinct
  case sorted => exact ordered.sorted
  case oldest =>
    intro other isIn
    by_cases own : other.queueType = entry.queueType
    · obtain rfl := List.inj_on_of_nodup_map ordered.distinct isIn member own
      have oldest := ordered.oldest other isIn
      have least := min?_push lists other.queueType seq
      rw [List.min?_cons, oldest, Option.elim_some, Option.some.injEq] at least
      rw [ReadyLists.push_readyInsts_self, List.min?_cons, oldest, Option.elim_some,
        Option.some.injEq]
      omega
    · unfold ReadyLists.push
      dsimp only
      rw [Function.update_of_ne own]
      exact ordered.oldest other isIn
  case position => exact ordered.position
  case unlisted =>
    intro opClass none
    refine ordered.unlisted opClass ?_
    by_contra some
    exact (nonempty opClass).mpr some none
  case nodes => exact ordered.nodes
  case allocated => exact ordered.allocated

theorem entryAt_eq (ordered : Ordered lists) (member : entry ∈ lists.listOrder) :
    lists.entryAt entry.node = some entry := by
  have exists_entry : (lists.entryAt entry.node).isSome = true :=
    List.find?_isSome.mpr ⟨entry, member, beq_self_eq_true _⟩
  obtain ⟨other, found⟩ := Option.isSome_iff_exists.mp exists_entry
  have test := found
  unfold ReadyLists.entryAt at test
  have same := List.find?_some test
  rw [beq_iff_eq] at same
  rw [found, List.inj_on_of_nodup_map ordered.nodes (List.mem_of_find?_eq_some found) member same]

theorem addReadyMemInst (ordered : Ordered lists) (opClass seq : Nat) :
    Ordered (lists.addReadyMemInst opClass seq) := by
  unfold ReadyLists.addReadyMemInst
  dsimp only
  cases on : lists.queueOnList opClass with
  | false =>
      rw [Bool.not_false, if_pos rfl]
      refine ordered.addToOrderList seq (List.filter_eq_self.mpr fun entry member => ?_).symm
      rw [bne_iff_ne]
      rintro rfl
      have listed := (ordered.onList entry.queueType).mpr
        ((ordered.listed entry.queueType).mp (List.mem_map_of_mem member))
      rw [on] at listed
      cases listed
  | true =>
      rw [Bool.not_true, if_neg Bool.false_ne_true]
      obtain ⟨entry, member, rfl⟩ := List.mem_map.mp
        ((ordered.listed opClass).mpr ((ordered.onList opClass).mp on))
      have found := ordered.entryAt_eq member
      rw [ordered.position entry member]
      dsimp only
      rw [found, Option.any_some]
      split
      case isTrue =>
        have same := filter_node_eq ordered member
        exact ordered.addToOrderList seq same
      case isFalse younger =>
        rw [decide_eq_true_eq] at younger
        exact ordered.push member younger

end Ordered

end Sched
end Dolma

import Dolma.Library.RingWalk
import Dolma.Library.TransitionSystem
import Dolma.LsqUnit.Invariant

/-!
# Resizing the queues

The load queue and the store queue are rings in a vector. Resizing changes the number of
entries at which the indices wrap, and pushes entries onto the vector, but it moves no entry.
A ring that is wrapped is therefore read differently afterwards.
-/

namespace Dolma
namespace LsqUnit
namespace Resize

open Library

/-- A queue that is a ring in a vector. -/
structure RingQueue (α : Type*) where
  slots : Nat → α
  vectorSize : Nat
  entries : Nat
  head : Nat := 0
  tail : Nat := 0
  /-- Index of the first store that is not yet sent, for the store queue. -/
  wbIdx : Option Nat := none

namespace RingQueue

variable {α : Type*} (queue : RingQueue α)

/-- Push an entry onto the vector. -/
def pushBack (dummy : α) : RingQueue α :=
  { queue with
    slots := Function.update queue.slots queue.vectorSize dummy
    vectorSize := queue.vectorSize + 1
    entries := queue.entries + 1 }

/-- Push entries until the vector has a size. -/
def pushUntil (dummy : α) (size : Nat) : Nat → RingQueue α → RingQueue α
  | 0, queue => queue
  | fuel + 1, queue =>
      if queue.vectorSize < size then pushUntil dummy size fuel (queue.pushBack dummy)
      else queue

/-- Change the number of entries. -/
def resize (dummy : α) (sizePlusSentinel : Nat) : RingQueue α :=
  if queue.entries < sizePlusSentinel then
    pushUntil dummy sizePlusSentinel sizePlusSentinel queue
  else { queue with entries := sizePlusSentinel }

/-- The entries read from one index to another. -/
def Reads (start stop : Nat) (items : List α) : Prop :=
  ∃ visited, Ring.Walks queue.entries start stop visited ∧ items = visited.map queue.slots

/-- The live entries, read from the head to the tail in at most so many steps. -/
def contents (fuel : Nat) : Option (List α) :=
  (Ring.walk queue.entries queue.tail fuel queue.head).map (·.map queue.slots)

/-- The number of live entries. -/
def live : Nat :=
  Ring.offset queue.entries queue.head queue.tail

end RingQueue

/-- The load queue is resized. The assertions fail if the queue would get smaller, or its
indices too large. -/
def resizeLQ (size : Nat) (queue : RingQueue (Option Nat)) : Option (RingQueue (Option Nat)) :=
  let sizePlusSentinel := size + 1
  if sizePlusSentinel < queue.entries then none
  else
    let resized := queue.resize none sizePlusSentinel
    if resized.entries ≤ 256 then some resized else none

/-- The store queue is resized. The assertion fails if the indices would get too large. -/
def resizeSQ (size : Nat) (queue : RingQueue SQEntry) : Option (RingQueue SQEntry) :=
  let resized := queue.resize {} (size + 1)
  if resized.entries ≤ 256 then some resized else none

/-! ## Rings over a run -/

/-- What happens to a ring. -/
inductive RingEvent (α : Type*) where
  | insert (item : α)
  | write (idx : Nat) (item : α)
  | popFront
  | popBack
  | send
  /-- The next store has nothing to send. It leaves if it is the oldest. -/
  | skip
  | resize (size : Nat)

namespace RingQueue

variable {α : Type*} (queue : RingQueue α)

/-- The write-back index moves on. -/
def nextWB : RingQueue α :=
  { queue with wbIdx := queue.wbIdx.map (Ring.next queue.entries) }

/-- The oldest entry leaves. -/
def popFront : RingQueue α :=
  { queue with head := Ring.next queue.entries queue.head }

/-- One event of a ring with a given way to resize it. -/
def step
    (resizes : Nat → RingQueue α → Option (RingQueue α))
    (queue : RingQueue α) : RingEvent α → Option (RingQueue α)
  | .insert item =>
      if (queue.tail + 1) % queue.entries = queue.head then none
      else
        some { queue with
          slots := Function.update queue.slots queue.tail item
          tail := Ring.next queue.entries queue.tail }
  | .write idx item => some { queue with slots := Function.update queue.slots idx item }
  | .popFront =>
      if queue.head = queue.tail ∨ queue.wbIdx = some queue.head then none
      else some queue.popFront
  | .popBack =>
      if queue.head = queue.tail ∨ queue.wbIdx = some queue.tail then none
      else some { queue with tail := Ring.prev queue.entries queue.tail }
  | .send => if queue.wbIdx = some queue.tail then none else some queue.nextWB
  | .skip =>
      if queue.wbIdx = some queue.tail then none
      else if queue.wbIdx = some queue.head then some queue.popFront.nextWB
      else some queue.nextWB
  | .resize size => resizes size queue

/-- The indices are inside the ring, and the ring is inside the vector. The first store that is
not yet sent is a live entry or the next one. -/
structure WellFormed (queue : RingQueue α) : Prop where
  inVector : queue.entries ≤ queue.vectorSize
  small : queue.entries ≤ 256
  head : queue.head < queue.entries
  tail : queue.tail < queue.entries
  wb : ∀ wb ∈ queue.wbIdx, wb < queue.entries
  window : ∀ wb ∈ queue.wbIdx, Ring.offset queue.entries queue.head wb ≤ queue.live

/-- Resizing keeps the indices inside the ring and every entry at its place. -/
def isOrderly (size : Nat) (queue : RingQueue α) : Bool :=
  if queue.entries ≤ size + 1 then
    decide (queue.entries + (size + 1 - queue.vectorSize) ≤ 256) &&
      (decide (queue.head ≤ queue.tail) || decide (size + 1 ≤ queue.vectorSize))
  else decide (queue.head ≤ queue.tail) && decide (queue.tail < size + 1)

/-- Resizing keeps the sequence of live entries. The last case is that of a wrapped queue with
one entry before the end of the ring, where the head is outside the smaller ring. -/
def keepsEntries (size : Nat) (queue : RingQueue α) : Bool :=
  if queue.entries ≤ size + 1 then queue.isOrderly size
  else
    decide (queue.head = queue.tail) ||
      decide (queue.head < queue.tail) && decide (queue.tail < size + 1) ||
      decide (queue.tail < queue.head) && decide (size + 1 ≤ queue.head) &&
        decide (queue.head + 1 = queue.entries)

/-- The entries and the position of the write-back index are the same. -/
structure Kept (queue resized : RingQueue α) : Prop where
  entries : ∀ items, queue.Reads queue.head queue.tail items ↔
    resized.Reads resized.head resized.tail items
  wbIdx : resized.wbIdx = queue.wbIdx
  sent : ∀ wb ∈ queue.wbIdx, ∀ items, queue.Reads queue.head wb items ↔
    resized.Reads resized.head wb items
  unsent : ∀ wb ∈ queue.wbIdx, ∀ items, queue.Reads wb queue.tail items ↔
    resized.Reads wb resized.tail items

/-! ## What resizing does -/

variable {queue resized : RingQueue α} {dummy : α} {size : Nat}

/-- Only the number of entries, and entries behind the vector, change. -/
structure Resized (queue resized : RingQueue α) : Prop where
  head : resized.head = queue.head
  tail : resized.tail = queue.tail
  wbIdx : resized.wbIdx = queue.wbIdx
  vectorSize : queue.vectorSize ≤ resized.vectorSize
  slots : ∀ idx < queue.vectorSize, resized.slots idx = queue.slots idx

theorem pushUntil_resized (enough : size ≤ queue.vectorSize + fuel) :
    Resized queue (pushUntil dummy size fuel queue) ∧
      (pushUntil dummy size fuel queue).entries = queue.entries + (size - queue.vectorSize) ∧
      (pushUntil dummy size fuel queue).vectorSize =
        queue.vectorSize + (size - queue.vectorSize) := by
  induction fuel generalizing queue with
  | zero =>
      refine ⟨⟨rfl, rfl, rfl, Nat.le_refl _, fun _ _ => rfl⟩, ?_⟩
      unfold pushUntil
      omega
  | succ fuel ih =>
      unfold pushUntil
      split
      case isTrue smaller =>
        have room : size ≤ (queue.pushBack dummy).vectorSize + fuel := by
          unfold pushBack
          dsimp only
          omega
        obtain ⟨pushed, entries, vectorSize⟩ := ih room
        refine ⟨⟨pushed.head, pushed.tail, pushed.wbIdx, ?_, ?_⟩, ?_, ?_⟩
        · exact Nat.le_trans (Nat.le_succ _) pushed.vectorSize
        · intro idx inside
          rw [pushed.slots idx (Nat.lt_succ_of_lt inside)]
          exact Function.update_of_ne (Nat.ne_of_lt inside) ..
        · rw [entries]
          unfold pushBack
          dsimp only
          omega
        · rw [vectorSize]
          unfold pushBack
          dsimp only
          omega
      case isFalse =>
        refine ⟨⟨rfl, rfl, rfl, Nat.le_refl _, fun _ _ => rfl⟩, ?_⟩
        omega

/-- The number of entries after resizing. -/
def newEntries (queue : RingQueue α) (size : Nat) : Nat :=
  if queue.entries < size + 1 then queue.entries + (size + 1 - queue.vectorSize) else size + 1

theorem resize_resized (queue : RingQueue α) (dummy : α) (size : Nat) :
    Resized queue (queue.resize dummy (size + 1)) ∧
      (queue.resize dummy (size + 1)).entries = queue.newEntries size := by
  unfold resize newEntries
  split
  · obtain ⟨resized, entries, -⟩ :=
      @pushUntil_resized _ queue dummy (size + 1) (size + 1) (Nat.le_add_left _ _)
    exact ⟨resized, entries⟩
  · exact ⟨⟨rfl, rfl, rfl, Nat.le_refl _, fun _ _ => rfl⟩, rfl⟩

theorem resize_inVector (inVector : queue.entries ≤ queue.vectorSize) :
    (queue.resize dummy (size + 1)).entries ≤ (queue.resize dummy (size + 1)).vectorSize := by
  unfold resize
  split
  · obtain ⟨-, entries, vectorSize⟩ :=
      @pushUntil_resized _ queue dummy (size + 1) (size + 1) (Nat.le_add_left _ _)
    rw [entries, vectorSize]
    omega
  · dsimp only
    omega

variable {start stop : Nat} {visited : List Nat}

/-- What is read is what is in the slots visited. -/
theorem reads_iff (walks : Ring.Walks queue.entries start stop visited) (items : List α) :
    queue.Reads start stop items ↔ items = visited.map queue.slots := by
  constructor
  · rintro ⟨other, walks', rfl⟩
    rw [walks'.unique walks]
  · rintro rfl
    exact ⟨visited, walks, rfl⟩

theorem Resized.reads
    (changes : Resized queue resized) (inVector : ∀ idx ∈ visited, idx < queue.vectorSize)
    (before : Ring.Walks queue.entries start stop visited)
    (after : Ring.Walks resized.entries start stop visited) (items : List α) :
    queue.Reads start stop items ↔ resized.Reads start stop items := by
  have same : visited.map resized.slots = visited.map queue.slots := by
    apply List.map_congr_left
    intro idx isVisited
    exact changes.slots idx (inVector idx isVisited)
  rw [reads_iff before, reads_iff after, same]

/-- If the walk from the head to the tail stays the same, so do the entries and the position
of the write-back index. -/
theorem Resized.kept
    (changes : Resized queue resized) (wellFormed : WellFormed queue)
    (keeps :
      Ring.keepsWalk queue.entries resized.entries queue.head queue.tail = true) :
    Kept queue resized := by
  obtain ⟨visited, walks, -, isVisited⟩ := Ring.exists_walks wellFormed.head wellFormed.tail
  have walks' := walks.resize wellFormed.head wellFormed.tail keeps
  have inVector : ∀ idx ∈ visited, idx < queue.vectorSize := fun idx member =>
    Nat.lt_of_lt_of_le ((isVisited idx).mp member).1 wellFormed.inVector
  have position : ∀ wb ∈ queue.wbIdx, wb ∈ visited ∨ wb = queue.tail := by
    intro wb isWB
    have inside := wellFormed.wb wb isWB
    rcases Nat.lt_or_eq_of_le (wellFormed.window wb isWB) with before | atTail
    · exact .inl ((isVisited wb).mpr ⟨inside, before⟩)
    · exact .inr (Ring.offset_inj wellFormed.head inside wellFormed.tail atTail)
  constructor
  case entries =>
    rw [changes.head, changes.tail]
    exact changes.reads inVector walks walks'
  case wbIdx => exact changes.wbIdx
  case sent =>
    intro wb isWB
    rw [changes.head]
    rcases position wb isWB with member | rfl
    · obtain ⟨before, after, rfl, first⟩ := List.eq_append_cons_of_mem member
      refine changes.reads (fun idx isIn => ?_) (walks.split first).1 (walks'.split first).1
      exact inVector idx (List.mem_append_left _ isIn)
    · exact changes.reads inVector walks walks'
  case unsent =>
    intro wb isWB
    rw [changes.tail]
    rcases position wb isWB with member | rfl
    · obtain ⟨before, after, rfl, first⟩ := List.eq_append_cons_of_mem member
      refine changes.reads (fun idx isIn => ?_) (walks.split first).2 (walks'.split first).2
      exact inVector idx (List.mem_append_right _ isIn)
    · refine changes.reads ?_ (Ring.Walks.nil _ _) (Ring.Walks.nil _ _)
      intro idx isIn
      cases isIn

/-- If the entries stay the same, so does the walk. -/
theorem Resized.keepsWalk
    (changes : Resized queue resized) (wellFormed : WellFormed queue)
    (positive : 0 < resized.entries) (kept : Kept queue resized) :
    Ring.keepsWalk queue.entries resized.entries queue.head queue.tail = true := by
  obtain ⟨visited, walks, -⟩ := Ring.exists_walks wellFormed.head wellFormed.tail
  obtain ⟨other, walks', same⟩ :=
    (kept.entries _).mp ((reads_iff walks (visited.map queue.slots)).mpr rfl)
  rw [changes.head, changes.tail] at walks'
  have length := congrArg List.length same
  rw [List.length_map, List.length_map] at length
  exact walks.keepsWalk_of_length wellFormed.head positive walks' length.symm

section

variable (wellFormed : WellFormed queue)
include wellFormed

/-- The condition for a size with room for the live entries. -/
theorem keepsEntries_iff (room : queue.live ≤ size) :
    queue.newEntries size ≤ 256 ∧
        Ring.keepsWalk queue.entries (queue.newEntries size) queue.head queue.tail = true ↔
      queue.keepsEntries size = true := by
  obtain ⟨inVector, small, head, tail, -, -⟩ := wellFormed
  unfold live Ring.offset at room
  unfold newEntries keepsEntries isOrderly Ring.keepsWalk
  simp only [Bool.or_eq_true, Bool.and_eq_true, decide_eq_true_eq]
  by_cases grows : queue.entries < size + 1
  · have stays : queue.entries ≤ size + 1 := Nat.le_of_lt grows
    rw [if_pos grows, if_pos stays, if_pos stays]
    simp only [Bool.or_eq_true, Bool.and_eq_true, decide_eq_true_eq]
    have full : size + 1 ≤ queue.vectorSize ↔ size + 1 - queue.vectorSize = 0 := by omega
    rw [full]
    generalize size + 1 - queue.vectorSize = added
    omega
  · rw [if_neg grows]
    by_cases same : queue.entries ≤ size + 1
    · rw [if_pos same, if_pos same]
      simp only [Bool.or_eq_true, Bool.and_eq_true, decide_eq_true_eq]
      omega
    · rw [if_neg same]
      simp only [Bool.or_eq_true, Bool.and_eq_true, decide_eq_true_eq]
      split at room
      · omega
      · omega

/-! ## Runs -/

/-- An orderly resize keeps the ring well formed. -/
theorem WellFormed.resize
    (orderly : queue.isOrderly size = true) (dummy : α)
    (small : (queue.resize dummy (size + 1)).entries ≤ 256) :
    WellFormed (queue.resize dummy (size + 1)) := by
  obtain ⟨changes, entries⟩ := queue.resize_resized dummy size
  have inVector := @resize_inVector _ queue dummy size wellFormed.inVector
  have head := wellFormed.head
  have tail := wellFormed.tail
  have before := wellFormed.inVector
  -- Either no index wraps at another place, or none of the indices in use wraps.
  have shape : queue.newEntries size = queue.entries ∨
      queue.head ≤ queue.tail ∧ queue.tail < queue.newEntries size := by
    unfold isOrderly at orderly
    unfold newEntries
    split at orderly
    · simp only [Bool.or_eq_true, Bool.and_eq_true, decide_eq_true_eq] at orderly
      split
      · omega
      · omega
    · simp only [Bool.and_eq_true, decide_eq_true_eq] at orderly
      rw [if_neg (by omega)]
      exact .inr orderly
  rw [← entries] at shape
  generalize queue.resize dummy (size + 1) = resized at *
  have between : ∀ wb ∈ queue.wbIdx, wb < resized.entries ∧
      Ring.offset resized.entries queue.head wb ≤
        Ring.offset resized.entries queue.head queue.tail := by
    intro wb isWB
    have inside := wellFormed.wb wb isWB
    have window := wellFormed.window wb isWB
    unfold live at window
    rcases shape with same | ⟨upwards, tailInside⟩
    · rw [same]
      exact ⟨inside, window⟩
    · unfold Ring.offset at window ⊢
      rw [if_pos upwards] at window ⊢
      split at window
      case isTrue after =>
        rw [if_pos after]
        omega
      case isFalse => omega
  constructor
  case inVector => exact inVector
  case small => exact small
  case head =>
    rw [changes.head]
    omega
  case tail =>
    rw [changes.tail]
    omega
  case wb =>
    rw [changes.wbIdx]
    exact fun wb isWB => (between wb isWB).1
  case window =>
    unfold live
    rw [changes.wbIdx, changes.head, changes.tail]
    exact fun wb isWB => (between wb isWB).2

theorem WellFormed.nextWB (unsent : queue.wbIdx ≠ some queue.tail) : WellFormed queue.nextWB := by
  obtain ⟨inVector, small, head, tail, wb, window⟩ := wellFormed
  refine ⟨inVector, small, head, tail, ?_, ?_⟩
  · intro moved isWB
    obtain ⟨old, isOld, rfl⟩ := Option.map_eq_some_iff.mp isWB
    exact Ring.next_lt (wb old isOld)
  · intro moved isWB
    obtain ⟨old, isOld, rfl⟩ := Option.map_eq_some_iff.mp isWB
    change Ring.offset queue.entries queue.head (Ring.next queue.entries old) ≤ queue.live
    have before : Ring.offset queue.entries queue.head old < queue.live := by
      refine Nat.lt_of_le_of_ne (window old isOld) fun same => unsent ?_
      rw [← Ring.offset_inj head (wb old isOld) tail same]
      exact isOld
    by_cases wraps : Ring.next queue.entries old = queue.head
    · rw [wraps]
      unfold Ring.offset
      rw [if_pos (Nat.le_refl _), Nat.sub_self]
      exact Nat.zero_le _
    · rw [Ring.offset_next head (wb old isOld) wraps]
      exact before

theorem WellFormed.popFront
    (nonempty : queue.head ≠ queue.tail) (sent : queue.wbIdx ≠ some queue.head) :
    WellFormed queue.popFront := by
  obtain ⟨inVector, small, head, tail, wb, window⟩ := wellFormed
  refine ⟨inVector, small, Ring.next_lt head, tail, wb, ?_⟩
  intro idx isWB
  have apart : queue.head ≠ idx := by
    rintro rfl
    exact sent isWB
  have old := window idx isWB
  have nearer := Ring.offset_next_start head (wb idx isWB) apart
  have shorter := Ring.offset_next_start head tail nonempty
  unfold live at old
  change Ring.offset queue.entries (Ring.next queue.entries queue.head) idx ≤
    Ring.offset queue.entries (Ring.next queue.entries queue.head) queue.tail
  omega

theorem WellFormed.popFront_nextWB (isHead : queue.wbIdx = some queue.head) :
    WellFormed queue.popFront.nextWB := by
  obtain ⟨inVector, small, head, tail, wb, window⟩ := wellFormed
  have moved : ∀ idx ∈ queue.popFront.nextWB.wbIdx, idx = Ring.next queue.entries queue.head := by
    intro idx isWB
    change queue.wbIdx.map (Ring.next queue.entries) = some idx at isWB
    rw [isHead] at isWB
    exact (Option.some.inj isWB).symm
  refine ⟨inVector, small, Ring.next_lt head, tail, ?_, ?_⟩
  · intro idx isWB
    rw [moved idx isWB]
    exact Ring.next_lt head
  · intro idx isWB
    rw [moved idx isWB]
    change Ring.offset queue.entries (Ring.next queue.entries queue.head)
      (Ring.next queue.entries queue.head) ≤ _
    unfold Ring.offset
    rw [if_pos (Nat.le_refl _), Nat.sub_self]
    exact Nat.zero_le _

end

/-- Every event keeps a ring well formed, if the changes of its size are orderly. -/
theorem WellFormed.step
    (isResize : ∀ {size queue next}, resizes size queue = some next →
      next.entries ≤ 256 ∧ ∃ dummy, next = queue.resize dummy (size + 1))
    (wellFormed : WellFormed queue)
    (orderly : ∀ size, event = .resize size → queue.isOrderly size = true)
    (stepped : queue.step resizes event = some next) :
    WellFormed next := by
  cases event with
  | insert item =>
      obtain ⟨notFull, ⟨⟩⟩ := Option.ite_none_left_eq_some.mp stepped
      obtain ⟨inVector, small, head, tail, wb, window⟩ := wellFormed
      rw [← Ring.next_mod (Nat.zero_lt_of_lt head), Nat.mod_eq_of_lt tail] at notFull
      refine ⟨inVector, small, head, Ring.next_lt tail, wb, ?_⟩
      intro idx isWB
      apply Nat.le_trans (window idx isWB)
      change Ring.offset queue.entries queue.head queue.tail ≤
        Ring.offset queue.entries queue.head (Ring.next queue.entries queue.tail)
      rw [Ring.offset_next head tail notFull]
      exact Nat.le_succ _
  | write idx item =>
      cases stepped
      exact ⟨wellFormed.inVector, wellFormed.small, wellFormed.head, wellFormed.tail,
        wellFormed.wb, wellFormed.window⟩
  | popFront =>
      obtain ⟨possible, ⟨⟩⟩ := Option.ite_none_left_eq_some.mp stepped
      rw [not_or] at possible
      exact wellFormed.popFront possible.1 possible.2
  | popBack =>
      obtain ⟨possible, ⟨⟩⟩ := Option.ite_none_left_eq_some.mp stepped
      rw [not_or] at possible
      obtain ⟨inVector, small, head, tail, wb, window⟩ := wellFormed
      refine ⟨inVector, small, head, Ring.prev_lt tail, wb, ?_⟩
      intro idx isWB
      have shorter := Ring.offset_prev head tail possible.1
      have before : Ring.offset queue.entries queue.head idx ≠ queue.live := by
        intro same
        refine possible.2 ?_
        rw [← Ring.offset_inj head (wb idx isWB) tail same]
        exact isWB
      have old := window idx isWB
      unfold live at before old
      change Ring.offset queue.entries queue.head idx ≤
        Ring.offset queue.entries queue.head (Ring.prev queue.entries queue.tail)
      omega
  | send =>
      obtain ⟨unsent, ⟨⟩⟩ := Option.ite_none_left_eq_some.mp stepped
      exact wellFormed.nextWB unsent
  | skip =>
      obtain ⟨unsent, stepped⟩ := Option.ite_none_left_eq_some.mp stepped
      split at stepped
      case isTrue isHead =>
        cases stepped
        exact wellFormed.popFront_nextWB isHead
      case isFalse =>
        cases stepped
        exact wellFormed.nextWB unsent
  | resize size =>
      obtain ⟨small, dummy, rfl⟩ := isResize stepped
      exact wellFormed.resize (orderly size rfl) dummy small

end RingQueue

/-- A resize event meets the condition under which every index stays in place. -/
def RingEvent.isOrderly {α : Type*} (queue : RingQueue α) : RingEvent α → Bool
  | .resize size => queue.isOrderly size
  | _ => true

/-- The load queue before the first load. -/
def emptyLQ (maxLQEntries : Nat) : RingQueue (Option Nat) where
  slots := fun _ => none
  vectorSize := maxLQEntries + 1
  entries := maxLQEntries + 1

/-- The store queue before the first store. -/
def emptySQ (maxSQEntries : Nat) : RingQueue SQEntry where
  slots := fun _ => {}
  vectorSize := maxSQEntries + 1
  entries := maxSQEntries + 1
  wbIdx := some 0

/-- The rings of a run in which every change of the size is orderly. -/
def Run {α : Type*} (resizes : Nat → RingQueue α → Option (RingQueue α)) : RingQueue α → RingQueue α → Prop :=
  Reachable (RingQueue.step resizes) fun queue event => event.isOrderly queue = true

theorem resizeLQ_eq_some {size : Nat} {queue next : RingQueue (Option Nat)} :
    resizeLQ size queue = some next ↔
      queue.entries ≤ size + 1 ∧ next.entries ≤ 256 ∧ next = queue.resize none (size + 1) := by
  unfold resizeLQ
  dsimp only
  rw [Option.ite_none_left_eq_some, Option.ite_none_right_eq_some, Nat.not_lt]
  constructor
  · rintro ⟨grows, small, ⟨⟩⟩
    exact ⟨grows, small, rfl⟩
  · rintro ⟨grows, small, rfl⟩
    exact ⟨grows, small, rfl⟩

theorem resizeSQ_eq_some {size : Nat} {queue next : RingQueue SQEntry} :
    resizeSQ size queue = some next ↔ next.entries ≤ 256 ∧ next = queue.resize {} (size + 1) := by
  unfold resizeSQ
  dsimp only
  rw [Option.ite_none_right_eq_some]
  constructor
  · rintro ⟨small, ⟨⟩⟩
    exact ⟨small, rfl⟩
  · rintro ⟨small, rfl⟩
    exact ⟨small, rfl⟩

theorem Run.wellFormed
    (run : Run resizes start queue)
    (isResize : ∀ {size queue next}, resizes size queue = some next →
      next.entries ≤ 256 ∧ ∃ dummy, next = queue.resize dummy (size + 1))
    (wellFormed : start.WellFormed) :
    queue.WellFormed := by
  induction run with
  | init => exact wellFormed
  | step event _ permitted stepped ih =>
      refine ih.step isResize ?_ stepped
      rintro size rfl
      exact permitted

/-- The empty load queue is well formed. -/
theorem emptyLQ_wellFormed (small : maxLQEntries + 1 ≤ 256) :
    (emptyLQ maxLQEntries).WellFormed where
  inVector := Nat.le_refl _
  small := small
  head := Nat.succ_pos _
  tail := Nat.succ_pos _
  wb := by rintro _ ⟨⟩
  window := by rintro _ ⟨⟩

/-- The empty store queue is well formed. -/
theorem emptySQ_wellFormed (small : maxSQEntries + 1 ≤ 256) :
    (emptySQ maxSQEntries).WellFormed where
  inVector := Nat.le_refl _
  small := small
  head := Nat.succ_pos _
  tail := Nat.succ_pos _
  wb := by
    rintro _ ⟨⟩
    exact Nat.succ_pos _
  window := by
    rintro _ ⟨⟩
    exact Nat.le_refl _

namespace RingQueue

variable {α : Type*} {queue : RingQueue α} {size : Nat}

/-- Resizing keeps the entries exactly under the condition. -/
theorem WellFormed.resize_kept_iff
    (wellFormed : WellFormed queue) (room : queue.live ≤ size) (dummy : α) :
    (queue.resize dummy (size + 1)).entries ≤ 256 ∧ Kept queue (queue.resize dummy (size + 1)) ↔
      queue.keepsEntries size = true := by
  obtain ⟨changes, entries⟩ := queue.resize_resized dummy size
  have positive : 0 < (queue.resize dummy (size + 1)).entries := by
    have head := wellFormed.head
    rw [entries]
    unfold newEntries
    split
    · omega
    · omega
  rw [← keepsEntries_iff wellFormed room, ← entries]
  constructor
  · rintro ⟨small, kept⟩
    exact ⟨small, changes.keepsWalk wellFormed positive kept⟩
  · rintro ⟨small, keeps⟩
    exact ⟨small, changes.kept wellFormed keeps⟩

end RingQueue

/-- Resizing the queues of a run to a size with room for the live entries keeps the entries and
the write-back position exactly if: the load queue does not get smaller; a queue that gets larger
is not wrapped, or its vector is large enough; a store queue that gets smaller is empty, or not
wrapped and inside the smaller ring, or has one entry before the end of the ring, which is
outside the smaller one. -/
theorem resize_keeps_iff
    {maxLQEntries maxSQEntries : Nat} (lqSmall : maxLQEntries + 1 ≤ 256)
    (sqSmall : maxSQEntries + 1 ≤ 256) {lq : RingQueue (Option Nat)} {sq : RingQueue SQEntry}
    (lqRun : Run resizeLQ (emptyLQ maxLQEntries) lq)
    (sqRun : Run resizeSQ (emptySQ maxSQEntries) sq) {size : Nat} (lqRoom : lq.live ≤ size)
    (sqRoom : sq.live ≤ size) :
    ((∃ resized, resizeLQ size lq = some resized ∧ lq.Kept resized) ↔
      lq.entries ≤ size + 1 ∧ lq.keepsEntries size = true) ∧
    ((∃ resized, resizeSQ size sq = some resized ∧ sq.Kept resized) ↔
      sq.keepsEntries size = true) := by
  have lqFormed : lq.WellFormed := by
    refine lqRun.wellFormed (fun resized => ?_) (emptyLQ_wellFormed lqSmall)
    obtain ⟨-, small, same⟩ := resizeLQ_eq_some.mp resized
    exact ⟨small, none, same⟩
  have sqFormed : sq.WellFormed := by
    refine sqRun.wellFormed (fun resized => ?_) (emptySQ_wellFormed sqSmall)
    obtain ⟨small, same⟩ := resizeSQ_eq_some.mp resized
    exact ⟨small, {}, same⟩
  rw [← lqFormed.resize_kept_iff lqRoom none, ← sqFormed.resize_kept_iff sqRoom {}]
  constructor
  · constructor
    · rintro ⟨_, resized, kept⟩
      obtain ⟨grows, small, rfl⟩ := resizeLQ_eq_some.mp resized
      exact ⟨grows, small, kept⟩
    · rintro ⟨grows, small, kept⟩
      exact ⟨_, resizeLQ_eq_some.mpr ⟨grows, small, rfl⟩, kept⟩
  · constructor
    · rintro ⟨_, resized, kept⟩
      obtain ⟨small, rfl⟩ := resizeSQ_eq_some.mp resized
      exact ⟨small, kept⟩
    · rintro ⟨small, kept⟩
      exact ⟨_, resizeSQ_eq_some.mpr ⟨small, rfl⟩, kept⟩

/-- A wrapped load queue gets no larger, and a store queue that is not wrapped gets smaller
behind its last entry. -/
theorem resize_keeps_iff_sameSize :
    ∃ lq sq, Run resizeLQ (emptyLQ 2) lq ∧ Run resizeSQ (emptySQ 4) sq ∧
      lq.tail < lq.head ∧
      (∃ resized, resizeLQ 2 lq = some resized ∧ lq.Kept resized) ∧
      ∃ resized, resizeSQ 2 sq = some resized ∧ sq.Kept resized := by
  have lqReplayed :
      (replay (RingQueue.step resizeLQ) (fun queue event => event.isOrderly queue = true) (emptyLQ 2)
        [.insert (some 1), .insert (some 2), .popFront, .insert (some 3)]).any
        (fun queue => decide (queue.tail < queue.head ∧ queue.live ≤ 2 ∧
          queue.entries ≤ 3 ∧ queue.keepsEntries 2 = true)) = true := by
    decide
  have sqReplayed :
      (replay (RingQueue.step resizeSQ) (fun queue event => event.isOrderly queue = true) (emptySQ 4)
        [.insert { inst := some 1 }, .insert { inst := some 2 }, .send]).any
        (fun queue => decide (queue.live ≤ 2 ∧ queue.keepsEntries 2 = true)) = true := by
    decide
  obtain ⟨lq, lqRun, lqTest⟩ := Reachable.exists_of_replay _ _ lqReplayed
  obtain ⟨sq, sqRun, sqTest⟩ := Reachable.exists_of_replay _ _ sqReplayed
  obtain ⟨wrapped, lqRoom, grows, lqKeeps⟩ := of_decide_eq_true lqTest
  obtain ⟨sqRoom, sqKeeps⟩ := of_decide_eq_true sqTest
  have iffs := resize_keeps_iff (by decide) (by decide) lqRun sqRun lqRoom sqRoom
  exact ⟨lq, sq, lqRun, sqRun, wrapped, iffs.1.mpr ⟨grows, lqKeeps⟩, iffs.2.mpr sqKeeps⟩

/-- A wrapped load queue with two loads gets larger, and an empty third entry is read from it. A
store queue with one store gets smaller, and the tail is not reached any more. -/
theorem not_kept_wrapped :
    (∃ lq, Run resizeLQ (emptyLQ 2) lq ∧ lq.live ≤ 3 ∧
      lq.contents 4 = some [some 2, some 3] ∧
      ∃ resized, resizeLQ 3 lq = some resized ∧ resized.contents 4 = some [some 2, some 3, none]) ∧
    ∃ sq, Run resizeSQ (emptySQ 4) sq ∧ sq.live ≤ 2 ∧
      (sq.contents 4).map (·.map (·.inst)) = some [some 4] ∧
      ∃ resized, resizeSQ 2 sq = some resized ∧ ∀ fuel, resized.contents fuel = none := by
  have lqReplayed :
      (replay (RingQueue.step resizeLQ) (fun queue event => event.isOrderly queue = true) (emptyLQ 2)
        [.insert (some 1), .insert (some 2), .popFront, .insert (some 3)]).any
        (fun queue => decide (queue.live ≤ 3 ∧ queue.contents 4 = some [some 2, some 3] ∧
          (resizeLQ 3 queue).any (fun resized =>
            decide (resized.contents 4 = some [some 2, some 3, none])) = true)) = true := by
    decide
  have sqReplayed :
      (replay (RingQueue.step resizeSQ) (fun queue event => event.isOrderly queue = true) (emptySQ 4)
        [.insert { inst := some 1 }, .insert { inst := some 2 }, .insert { inst := some 3 },
          .send, .send, .send, .popFront, .popFront, .popFront, .insert { inst := some 4 }]).any
        (fun queue => decide (queue.live ≤ 2 ∧
          (queue.contents 4).map (·.map (·.inst)) = some [some 4] ∧
          (resizeSQ 2 queue).any (fun resized =>
            decide (resized.entries = 3 ∧ resized.head = 3 ∧ resized.tail = 4)) = true)) =
        true := by
    decide
  constructor
  · obtain ⟨lq, lqRun, test⟩ := Reachable.exists_of_replay _ _ lqReplayed
    obtain ⟨room, before, resizes⟩ := of_decide_eq_true test
    obtain ⟨resized, isResized, after⟩ := (Option.any_eq_true _ _).mp resizes
    exact ⟨lq, lqRun, room, before, resized, isResized, of_decide_eq_true after⟩
  · obtain ⟨sq, sqRun, test⟩ := Reachable.exists_of_replay _ _ sqReplayed
    obtain ⟨room, before, resizes⟩ := of_decide_eq_true test
    obtain ⟨resized, isResized, after⟩ := (Option.any_eq_true _ _).mp resizes
    obtain ⟨entries, head, tail⟩ := of_decide_eq_true after
    refine ⟨sq, sqRun, room, before, resized, isResized, fun fuel => ?_⟩
    unfold RingQueue.contents
    rw [entries, head, tail, Option.map_eq_none_iff, Option.eq_none_iff_forall_ne_some]
    intro visited walks
    exact Ring.not_walks_outside (by decide) (by decide) (by decide) ⟨fuel, walks⟩

/-! ## The rings of a unit -/

variable {params : Params} {lsq : LSQUnit}

/-- The load queue of a unit that has not been resized. -/
def loadRing (params : Params) (lsq : LSQUnit) : RingQueue (Option Nat) where
  slots := lsq.loadQueue
  vectorSize := params.lqEntries
  entries := params.lqEntries
  head := lsq.loadHead
  tail := lsq.loadTail

/-- The store queue of a unit that has not been resized. -/
def storeRing (params : Params) (lsq : LSQUnit) : RingQueue SQEntry where
  slots := lsq.storeQueue
  vectorSize := params.sqEntries
  entries := params.sqEntries
  head := lsq.storeHead
  tail := lsq.storeTail
  wbIdx := some lsq.storeWBIdx

/-- The rings of a unit are well formed, so that resizing them keeps their entries under the
same conditions. -/
theorem rings_wellFormed (whole : Whole params lsq queue written) :
    (loadRing params lsq).WellFormed ∧ (storeRing params lsq).WellFormed := by
  have loads := whole.rings.loadRing
  have stores := whole.rings.storeRing
  have writeback := whole.writeback
  constructor
  · refine ⟨Nat.le_refl _, params.lqBound, ?_, ?_, ?_, ?_⟩
    · change lsq.loadHead < params.lqEntries
      rw [loads.head_eq]
      exact Nat.mod_lt _ loads.positive
    · change lsq.loadTail < params.lqEntries
      rw [loads.tail_eq]
      exact Nat.mod_lt _ loads.positive
    · rintro _ ⟨⟩
    · rintro _ ⟨⟩
  · refine ⟨Nat.le_refl _, params.sqBound, ?_, ?_, ?_, ?_⟩
    · change lsq.storeHead < params.sqEntries
      rw [stores.head_eq]
      exact Nat.mod_lt _ stores.positive
    · change lsq.storeTail < params.sqEntries
      rw [stores.tail_eq]
      exact Nat.mod_lt _ stores.positive
    · rintro _ ⟨⟩
      change lsq.storeWBIdx < params.sqEntries
      rw [writeback.idx]
      exact Nat.mod_lt _ stores.positive
    · rintro _ ⟨⟩
      change Ring.offset params.sqEntries lsq.storeHead lsq.storeWBIdx ≤
        Ring.offset params.sqEntries lsq.storeHead lsq.storeTail
      have room := stores.room
      have written_le := writeback.written_le
      rw [writeback.idx, stores.head_eq, stores.tail_eq,
        Ring.offset_mod writeback.head_le (by omega), Ring.offset_mod stores.first_le room]
      omega

end Resize
end LsqUnit
end Dolma

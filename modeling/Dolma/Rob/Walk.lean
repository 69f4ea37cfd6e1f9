import Dolma.Rob.Squash
import Mathlib.Data.List.Induction

/-!
# Squashing finishes and is exact

A squash walks over the buffer from the tail, a few instructions a cycle, with an iterator
that is saved from cycle to cycle. A new request sets the iterator to the tail again. The
functions below follow the iterator; it stands for the instructions from its position to the
head, which are what the walk of the other modules is about.
-/

namespace Dolma
namespace Rob

/-- The squash state of a thread. -/
structure SquashIter where
  squashedSeqNum : Nat := 0
  squashIt : Option Nat := none
  doneSquashing : Bool := true

/-- The instruction at a position of the buffer. -/
def instAt (instList : List Nat) (it : Nat) : Nat :=
  instList.getD it 0

/-- The loop of a squash cycle. It returns the position it stops at, or none if it has
reached the head of the buffer. -/
def squashAt (instList : List Nat) (keep : Nat) (heap : Heap) : Nat → Nat → Option Nat × Heap
  | 0, it => (some it, heap)
  | width + 1, it =>
      if keep < instAt instList it then
        let marked := heap.modify (instAt instList it) squashMark
        match it with
        | 0 => (none, marked)
        | it + 1 => squashAt instList keep marked width it
      else (some it, heap)

namespace SquashIter

/-- The squash is done. -/
def finish (iter : SquashIter) : SquashIter :=
  { iter with squashIt := none, doneSquashing := true }

/-- One cycle of a squash. The source asserts that the iterator is not at the end. -/
def doSquash
    (config : Config) (instList : List Nat) (iter : SquashIter) (heap : Heap) : SquashIter × Heap :=
  match iter.squashIt with
  | none => (iter, heap)
  | some it =>
      if instAt instList it < iter.squashedSeqNum then (iter.finish, heap)
      else
        match squashAt instList iter.squashedSeqNum heap config.squashWidth it with
        | (none, heap) => (iter.finish, heap)
        | (some it, heap) =>
            if instAt instList it ≤ iter.squashedSeqNum then (iter.finish, heap)
            else ({ iter with squashIt := some it }, heap)

/-- Start a squash. -/
def squash
    (config : Config) (instList : List Nat) (seq : Nat) (iter : SquashIter)
    (heap : Heap) : SquashIter × Heap :=
  if instList.isEmpty then (iter, heap)
  else
    doSquash config instList
      { squashedSeqNum := seq
        squashIt := some (instList.length - 1)
        doneSquashing := false } heap

/-- The instructions from the iterator to the head. -/
def toWalk (instList : List Nat) (iter : SquashIter) : SquashWalk where
  squashedSeqNum := iter.squashedSeqNum
  squashIt :=
    match iter.squashIt with
    | none => []
    | some it => (instList.take (it + 1)).reverse
  doneSquashing := iter.doneSquashing

end SquashIter

variable {instList : List Nat} {it : Nat} {iter : SquashIter}

/-- The instruction at a position comes first. -/
theorem reverse_take_succ (inside : it < instList.length) :
    (instList.take (it + 1)).reverse = instAt instList it :: (instList.take it).reverse := by
  have last : instAt instList it = instList[it] := by
    rw [instAt, List.getD_eq_getElem?_getD, List.getElem?_eq_getElem inside]
    rfl
  rw [List.take_succ_eq_append_getElem inside, List.reverse_append, last]
  rfl

/-- The loop over positions is the loop over the instructions from there to the head. -/
theorem squashLoop_eq
    (walk : SquashWalk) (heap : Heap) (width it : Nat) (inside : it < instList.length) :
    squashLoop walk heap width (instList.take (it + 1)).reverse =
      match squashAt instList walk.squashedSeqNum heap width it with
      | (none, heap) => ({ walk with squashIt := [], doneSquashing := true }, heap)
      | (some it, heap) =>
          if instAt instList it ≤ walk.squashedSeqNum then
            ({ walk with squashIt := [], doneSquashing := true }, heap)
          else ({ walk with squashIt := (instList.take (it + 1)).reverse }, heap) := by
  induction width generalizing heap it with
  | zero =>
      rw [reverse_take_succ inside]
      unfold squashLoop squashAt
      dsimp only
      rw [reverse_take_succ inside]
  | succ width ih =>
      rw [reverse_take_succ inside]
      unfold squashLoop squashAt
      by_cases young : walk.squashedSeqNum < instAt instList it
      · rw [if_neg (Nat.not_le_of_lt young), if_pos young]
        cases it with
        | zero =>
            rw [List.take_zero, List.reverse_nil]
            unfold squashLoop
            rfl
        | succ it => exact ih _ it (Nat.lt_of_succ_lt inside)
      · have old := Nat.le_of_not_lt young
        rw [if_pos old, if_neg young]
        dsimp only
        rw [if_pos old]

/-- The iterator of a squash that goes on is inside the buffer. -/
def SquashIter.Inside (instList : List Nat) (iter : SquashIter) : Prop :=
  match iter.squashIt with
  | none => iter.doneSquashing = true
  | some it => iter.doneSquashing = false ∧ it < instList.length

theorem SquashIter.Inside.done_of_nil (inside : iter.Inside []) : iter.doneSquashing = true := by
  unfold Inside at inside
  cases position : iter.squashIt with
  | none =>
      rw [position] at inside
      exact inside
  | some it =>
      rw [position] at inside
      exact absurd inside.2 (Nat.not_lt_zero it)

/-- Nothing is left to walk over when a squash is done. -/
theorem SquashIter.Inside.walk_of_done
    (inside : iter.Inside instList) (done : iter.doneSquashing = true) :
    (iter.toWalk instList).squashIt = [] := by
  unfold Inside at inside
  unfold toWalk
  cases position : iter.squashIt with
  | none => rfl
  | some it =>
      rw [position, done] at inside
      cases inside.1

/-- The iterator of a squash that goes on is inside. -/
theorem SquashIter.Inside.exists_position
    (inside : iter.Inside instList) (going : iter.doneSquashing = false) :
    ∃ it, iter.squashIt = some it ∧ it < instList.length := by
  unfold Inside at inside
  cases position : iter.squashIt with
  | none =>
      rw [position, going] at inside
      cases inside
  | some it =>
      rw [position] at inside
      exact ⟨it, rfl, inside.2⟩

theorem squashAt_inside
    (keep : Nat) (heap : Heap) (width : Nat) {stop : Nat} (inside : it < instList.length)
    (stopped : (squashAt instList keep heap width it).1 = some stop) :
    stop < instList.length := by
  induction width generalizing heap it with
  | zero =>
      unfold squashAt at stopped
      cases stopped
      exact inside
  | succ width ih =>
      unfold squashAt at stopped
      split at stopped
      · cases it with
        | zero => cases stopped
        | succ it => exact ih _ (Nat.lt_of_succ_lt inside) stopped
      · cases stopped
        exact inside

theorem squashAt_of_le {keep : Nat} (heap : Heap) (width : Nat) (old : instAt instList it ≤ keep) :
    squashAt instList keep heap width it = (some it, heap) := by
  unfold squashAt
  cases width with
  | zero => rfl
  | succ width => exact if_neg (Nat.not_lt_of_le old)

/-- A squash cycle follows the walk and stays inside. -/
theorem SquashIter.doSquash_walk
    (config : Config) (heap : Heap) (position : iter.squashIt = some it)
    (going : iter.doneSquashing = false) (inside : it < instList.length) :
    Rob.doSquash config (iter.toWalk instList) heap =
        ((iter.doSquash config instList heap).1.toWalk instList,
          (iter.doSquash config instList heap).2) ∧
      (iter.doSquash config instList heap).1.Inside instList := by
  have list : (iter.toWalk instList).squashIt = (instList.take (it + 1)).reverse := by
    unfold toWalk
    rw [position]
  unfold Rob.doSquash SquashIter.doSquash
  rw [list, squashLoop_eq _ _ _ _ inside, position]
  dsimp only
  have same : (iter.toWalk instList).squashedSeqNum = iter.squashedSeqNum := rfl
  rw [same]
  by_cases old : instAt instList it < iter.squashedSeqNum
  · rw [if_pos old, squashAt_of_le _ _ (Nat.le_of_lt old)]
    dsimp only
    rw [if_pos (Nat.le_of_lt old)]
    exact ⟨rfl, rfl⟩
  · rw [if_neg old]
    have stops : ∀ stop, (squashAt instList iter.squashedSeqNum heap config.squashWidth it).1 =
        some stop → stop < instList.length := fun stop =>
      squashAt_inside iter.squashedSeqNum heap config.squashWidth inside
    generalize squashAt instList iter.squashedSeqNum heap config.squashWidth it = result at stops
    obtain ⟨stop, after⟩ := result
    cases stop with
    | none => exact ⟨rfl, rfl⟩
    | some stop =>
        dsimp only
        by_cases kept : instAt instList stop ≤ iter.squashedSeqNum
        · rw [if_pos kept, if_pos kept]
          exact ⟨rfl, rfl⟩
        · rw [if_neg kept, if_neg kept]
          exact ⟨rfl, going, stops stop rfl⟩

/-! ## Requests and cycles -/

/-- A reorder buffer that is being squashed. -/
structure Buffer where
  instList : List Nat
  heap : Heap
  iter : SquashIter := {}
  failed : Bool := false

/-- What happens to the buffer. -/
inductive SquashEvent where
  | squash (seq : Nat)
  | tick
deriving DecidableEq, Repr

namespace Buffer

/-- The step function. -/
def step (config : Config) (buffer : Buffer) : SquashEvent → Buffer
  | .squash seq =>
      let squashed := buffer.iter.squash config buffer.instList seq buffer.heap
      { buffer with iter := squashed.1, heap := squashed.2 }
  | .tick =>
      if buffer.iter.doneSquashing then buffer
      else
        let squashed := buffer.iter.doSquash config buffer.instList buffer.heap
        { buffer with
          iter := squashed.1
          heap := squashed.2
          failed := buffer.failed || buffer.iter.squashIt.isNone }

/-- A run of the buffer. -/
def run (config : Config) (buffer : Buffer) (events : List SquashEvent) : Buffer :=
  events.foldl (step config) buffer

end Buffer

/-- The sequence numbers of the requests. -/
def requests (events : List SquashEvent) : List Nat :=
  events.filterMap fun
    | .squash seq => some seq
    | .tick => none

/-- Everything younger than a number is marked. -/
def markYounger (instList : List Nat) (keep : Nat) (heap : Heap) : Heap :=
  heap.modifyWhere (fun seq => decide (seq ∈ instList) && decide (keep < seq)) squashMark

/-- A buffer after requests, the last of which was for a number. -/
structure Squashing (start : Buffer) (keep : Nat) (buffer : Buffer) : Prop where
  instList : buffer.instList = start.instList
  sound : buffer.failed = false
  inside : buffer.iter.Inside buffer.instList
  bound : buffer.iter.doneSquashing = false → buffer.iter.squashedSeqNum = keep
  marked : ∀ seq, buffer.heap seq = start.heap seq ∨
    seq ∈ start.instList ∧ keep < seq ∧ buffer.heap seq = squashMark (start.heap seq)
  left : ∀ seq ∈ start.instList, keep < seq →
    buffer.heap seq = squashMark (start.heap seq) ∨
      buffer.iter.doneSquashing = false ∧ seq ∈ (buffer.iter.toWalk buffer.instList).squashIt

namespace Squashing

variable {start buffer : Buffer} {keep : Nat}

theorem exact (squashing : Squashing start keep buffer) (done : buffer.iter.doneSquashing = true) :
    buffer.heap = markYounger start.instList keep start.heap := by
  funext seq
  unfold markYounger Heap.modifyWhere
  by_cases young : seq ∈ start.instList ∧ keep < seq
  · have test : (decide (seq ∈ start.instList) && decide (keep < seq)) = true := by
      simpa using young
    rw [if_pos test]
    refine (squashing.left seq young.1 young.2).resolve_right ?_
    rintro ⟨going, -⟩
    rw [done] at going
    cases going
  · have test : ¬ (decide (seq ∈ start.instList) && decide (keep < seq)) = true := by
      simpa using young
    rw [if_neg test]
    refine (squashing.marked seq).resolve_right ?_
    exact fun mark => young ⟨mark.1, mark.2.1⟩

theorem cycle
    (config : Config) (sorted : start.instList.Pairwise (· < ·)) {heap : Heap}
    (position : iter.squashIt = some it) (going : iter.doneSquashing = false)
    (inside : it < start.instList.length) (bound : iter.squashedSeqNum = keep)
    (marked : ∀ seq, heap seq = start.heap seq ∨
      seq ∈ start.instList ∧ keep < seq ∧ heap seq = squashMark (start.heap seq))
    (left : ∀ seq ∈ start.instList, keep < seq → heap seq = squashMark (start.heap seq) ∨
      seq ∈ (iter.toWalk start.instList).squashIt) :
    Squashing start keep
      { instList := start.instList
        heap := (iter.doSquash config start.instList heap).2
        iter := (iter.doSquash config start.instList heap).1 } := by
  obtain ⟨walks, stays⟩ := SquashIter.doSquash_walk config heap position going inside
  have list : (iter.toWalk start.instList).squashIt = (start.instList.take (it + 1)).reverse := by
    unfold SquashIter.toWalk
    rw [position]
  have descending : (iter.toWalk start.instList).squashIt.Pairwise (· > ·) := by
    rw [list, List.pairwise_reverse]
    exact sorted.sublist (List.take_sublist _ _)
  have again : ∀ seq, heap seq = start.heap seq ∨ heap seq = squashMark (start.heap seq) :=
    fun seq => (marked seq).imp id fun mark => mark.2.2
  have remark : ∀ {seq after}, after = squashMark (heap seq) →
      after = squashMark (start.heap seq) := by
    intro seq after equal
    rcases again seq with same | mark
    · rw [equal, same]
    · rw [equal, mark, squashMark_squashMark]
  obtain ⟨sameBound, -, marks⟩ := squashLoop_marks (iter.toWalk start.instList) heap
    config.squashWidth _ descending
  have changes := doSquash_heap config (iter.toWalk start.instList) heap
  unfold Rob.doSquash at walks changes
  rw [walks] at sameBound marks changes
  constructor
  case instList => rfl
  case sound => rfl
  case inside => exact stays
  case bound => exact fun _ => sameBound.trans bound
  case marked =>
    intro seq
    rcases changes seq with same | ⟨member, young, mark⟩
    · dsimp only at same ⊢
      rw [same]
      exact marked seq
    · refine .inr ⟨?_, bound ▸ young, remark mark⟩
      rw [list] at member
      exact List.mem_of_mem_take (List.mem_reverse.mp member)
  case left =>
    intro seq member young
    rcases left seq member young with mark | ahead
    · left
      rcases changes seq with same | ⟨-, -, mark'⟩
      · exact same.trans mark
      · exact remark mark'
    · have isYoung : (iter.toWalk start.instList).squashedSeqNum < seq := by
        change iter.squashedSeqNum < seq
        rw [bound]
        exact young
      refine (marks seq ahead isYoung).imp remark ?_
      rintro ⟨still, isLeft⟩
      exact ⟨still.trans going, isLeft⟩

theorem tick
    (config : Config) (sorted : start.instList.Pairwise (· < ·))
    (squashing : Squashing start keep buffer) :
    Squashing start keep (buffer.step config .tick) := by
  obtain ⟨instList, sound, inside, bound, marked, left⟩ := squashing
  obtain ⟨list, heap, iter, failed⟩ := buffer
  dsimp only at instList sound inside bound marked left
  subst instList sound
  unfold Buffer.step
  dsimp only
  cases going : iter.doneSquashing with
  | true => exact ⟨rfl, rfl, inside, bound, marked, left⟩
  | false =>
      rw [if_neg Bool.false_ne_true]
      obtain ⟨it, position, isInside⟩ := inside.exists_position going
      rw [position]
      exact cycle config sorted position going isInside (bound going) marked fun seq member young =>
        (left seq member young).imp id And.right

theorem request
    (config : Config) (sorted : start.instList.Pairwise (· < ·)) {lower : Nat}
    (instList : buffer.instList = start.instList) (sound : buffer.failed = false)
    (inside : buffer.iter.Inside buffer.instList)
    (marked : ∀ seq, buffer.heap seq = start.heap seq ∨
      seq ∈ start.instList ∧ lower < seq ∧ buffer.heap seq = squashMark (start.heap seq)) :
    Squashing start lower (buffer.step config (.squash lower)) := by
  obtain ⟨list, heap, iter, failed⟩ := buffer
  dsimp only at instList sound inside marked
  subst instList sound
  unfold Buffer.step SquashIter.squash
  dsimp only
  cases shape : start.instList with
  | nil =>
      rw [shape] at inside marked
      rw [List.isEmpty_nil, if_pos rfl]
      constructor
      case instList => exact shape.symm
      case sound => rfl
      case inside => exact inside
      case bound =>
        intro going
        rw [inside.done_of_nil] at going
        cases going
      case marked => exact fun seq => .inl ((marked seq).resolve_right fun mark =>
        absurd mark.1 List.not_mem_nil)
      case left =>
        intro seq member
        rw [shape] at member
        cases member
  | cons first rest =>
      rw [List.isEmpty_cons, if_neg Bool.false_ne_true, ← shape]
      have positive : 0 < start.instList.length := by
        rw [shape]
        exact Nat.succ_pos _
      refine cycle config sorted rfl rfl (Nat.sub_lt positive Nat.one_pos) rfl marked ?_
      intro seq member _
      right
      unfold SquashIter.toWalk
      dsimp only
      rw [Nat.sub_add_cancel positive, List.take_length, List.mem_reverse]
      exact member

variable {config : Config}

/-- A cycle finishes the squash or brings the iterator nearer to the head. -/
theorem progress
    (width : 1 ≤ config.squashWidth) (squashing : Squashing start keep buffer)
    (going : buffer.iter.doneSquashing = false) :
    (buffer.step config .tick).iter.doneSquashing = true ∨
      ((buffer.step config .tick).iter.toWalk start.instList).squashIt.length <
        (buffer.iter.toWalk start.instList).squashIt.length := by
  obtain ⟨it, position, inside⟩ := squashing.inside.exists_position going
  obtain ⟨walks, -⟩ := SquashIter.doSquash_walk config buffer.heap position going inside
  have shorter := squashLoop_length (buffer.iter.toWalk buffer.instList) buffer.heap
    config.squashWidth (buffer.iter.toWalk buffer.instList).squashIt
  unfold Rob.doSquash at walks
  rw [walks] at shorter
  have stepped : (buffer.step config .tick).iter =
      (buffer.iter.doSquash config buffer.instList buffer.heap).1 := by
    unfold Buffer.step
    rw [going]
    rfl
  rw [stepped, ← squashing.instList]
  refine shorter.imp id fun length => ?_
  dsimp only at length
  omega

/-- The squash is done after as many cycles as instructions are left to walk over. -/
theorem finishes
    (width : 1 ≤ config.squashWidth) (sorted : start.instList.Pairwise (· < ·)) (ticks : Nat)
    (squashing : Squashing start keep buffer)
    (enough : (buffer.iter.toWalk start.instList).squashIt.length ≤ ticks) :
    (buffer.run config (List.replicate ticks .tick)).iter.doneSquashing = true := by
  induction ticks generalizing buffer with
  | zero =>
      cases going : buffer.iter.doneSquashing with
      | true => exact going
      | false =>
          obtain ⟨it, position, inside⟩ := squashing.inside.exists_position going
          rw [squashing.instList] at inside
          unfold SquashIter.toWalk at enough
          rw [position] at enough
          dsimp only at enough
          rw [List.length_reverse, List.length_take] at enough
          omega
  | succ ticks ih =>
      change ((buffer.step config .tick).run config (List.replicate ticks .tick)).iter.doneSquashing
        = true
      have next := squashing.tick config sorted
      have stays := next.inside
      rw [next.instList] at stays
      apply ih next
      cases going : buffer.iter.doneSquashing with
      | true =>
          have same : buffer.step config .tick = buffer := if_pos going
          rw [same] at stays ⊢
          rw [stays.walk_of_done going]
          exact Nat.zero_le _
      | false =>
          rcases squashing.progress width going with done | shorter
          · rw [stays.walk_of_done done]
            exact Nat.zero_le _
          · omega

end Squashing

/-- The buffer before and after the first request. -/
theorem run_squashing
    (config : Config) {start : Buffer} (sorted : start.instList.Pairwise (· < ·))
    (idle : start.iter = {}) (sound : start.failed = false) (events : List SquashEvent)
    (falling : (requests events).Pairwise (· ≥ ·)) :
    (requests events = [] ∧ start.run config events = start) ∨
      ∃ keep, (requests events).getLast? = some keep ∧
        Squashing start keep (start.run config events) := by
  induction events using List.reverseRecOn with
  | nil => exact .inl ⟨rfl, rfl⟩
  | append_singleton events event ih =>
      have split : requests (events ++ [event]) = requests events ++ requests [event] :=
        List.filterMap_append
      have stepped : start.run config (events ++ [event]) =
          (start.run config events).step config event := by
        unfold Buffer.run
        rw [List.foldl_append]
        rfl
      rw [split] at falling ⊢
      rw [stepped]
      obtain ⟨fallingBefore, -, lowest⟩ := List.pairwise_append.mp falling
      have before := ih fallingBefore
      cases event with
      | tick =>
          change requests events ++ [] = [] ∧ _ ∨ ∃ keep, (requests events ++ []).getLast? = _ ∧ _
          rw [List.append_nil]
          rcases before with ⟨none, same⟩ | ⟨keep, last, squashing⟩
          · refine .inl ⟨none, ?_⟩
            rw [same]
            unfold Buffer.step
            rw [idle]
            rfl
          · exact .inr ⟨keep, last, squashing.tick config sorted⟩
      | squash seq =>
          refine .inr ⟨seq, List.getLast?_concat, ?_⟩
          rcases before with ⟨none, same⟩ | ⟨keep, last, squashing⟩
          · rw [same]
            refine Squashing.request config sorted rfl sound ?_ fun _ => .inl rfl
            rw [idle]
            rfl
          · have lower : seq ≤ keep :=
              lowest keep (List.mem_of_getLast? last) seq (List.mem_singleton_self seq)
            refine Squashing.request config sorted squashing.instList squashing.sound
              squashing.inside fun other => ?_
            refine (squashing.marked other).imp id ?_
            rintro ⟨member, young, mark⟩
            exact ⟨member, Nat.lt_of_le_of_lt lower young, mark⟩

theorem requests_append_ticks (events : List SquashEvent) (ticks : Nat) :
    requests (events ++ List.replicate ticks .tick) = requests events := by
  unfold requests
  rw [List.filterMap_append, List.filterMap_replicate_of_none rfl, List.append_nil]

/-- Squashing is exact and finishes. After requests with falling numbers, with any cycles between
them, the buffer reports that it is done after finitely many cycles; then exactly the
instructions younger than the last request are marked as squashed and ready to commit. The list
stays, and the iterator is never at the end. -/
theorem squash_exact
    (config : Config) (width : 1 ≤ config.squashWidth) (instList : List Nat)
    (sorted : instList.Pairwise (· < ·)) (heap : Heap) (events : List SquashEvent)
    (falling : (requests events).Pairwise (· ≥ ·)) {keep : Nat}
    (last : (requests events).getLast? = some keep) (ticks : Nat) :
    let start : Buffer := { instList := instList, heap := heap }
    let final := start.run config (events ++ List.replicate ticks .tick)
    (instList.length ≤ ticks → final.iter.doneSquashing = true) ∧
      (final.iter.doneSquashing = true → final.heap = markYounger instList keep heap) ∧
      final.instList = instList ∧ final.failed = false := by
  intro start final
  have reached : ∀ more : List SquashEvent, requests more = requests events →
      Squashing start keep (start.run config more) := by
    intro more same
    have runs := @run_squashing config start sorted rfl rfl more (same ▸ falling)
    rw [same] at runs
    rcases runs with ⟨none, -⟩ | ⟨other, isLast, squashing⟩
    · rw [none] at last
      cases last
    · rw [last, Option.some.injEq] at isLast
      rw [isLast]
      exact squashing
  have squashing := reached _ (requests_append_ticks events ticks)
  refine ⟨fun enough => ?_, squashing.exact, squashing.instList, squashing.sound⟩
  have split : final = (start.run config events).run config (List.replicate ticks .tick) :=
    List.foldl_append
  rw [split]
  apply (reached events rfl).finishes width sorted
  unfold SquashIter.toWalk
  dsimp only
  split
  · exact Nat.zero_le _
  · rw [List.length_reverse, List.length_take]
    exact Nat.le_trans (Nat.min_le_right _ _) enough

/-- Five instructions, one a cycle, and two requests. -/
theorem squash_exact_twoRequests :
    let config : Config := { mode := 1, stt := false, squashWidth := 1 }
    let events : List SquashEvent := [.squash 7, .tick, .squash 4]
    let start : Buffer := { instList := [2, 3, 5, 8, 9], heap := fun _ => {} }
    let final := start.run config (events ++ List.replicate 5 .tick)
    final.iter.doneSquashing = true ∧ final.heap = markYounger [2, 3, 5, 8, 9] 4 (fun _ => {}) := by
  have exact := squash_exact { mode := 1, stt := false, squashWidth := 1 } (Nat.le_refl 1)
    [2, 3, 5, 8, 9] (by decide) (fun _ => {}) [.squash 7, .tick, .squash 4] (by decide) rfl 5
  have done := exact.1 (Nat.le_refl 5)
  exact ⟨done, exact.2.1 done⟩

end Rob
end Dolma

import Dolma.Rob.Control

/-!
# The redirect that commit takes

In each cycle commit looks for a held-back redirect in the reorder buffer and at the
squash signal of the execute stage, and takes the older one unless its cause is still
unsafe. With the reorder buffers around it this is a system in which a redirect that
was held back is never taken under an unresolved branch.
-/

namespace Dolma
variable {config : Config}

namespace Rob

/-- The instruction holds back a redirect that may be taken. STT does not wait for the
store. -/
def isResolvedRedirect (config : Config) (inst : DynInst) : Bool :=
  !inst.isDolmaRestricted &&
    (inst.isPendingBranch || inst.isPendingMemOrder && (inst.colliderPC != 0 || config.isSTT))

/-- The oldest held-back redirect that may be taken. -/
def getResolvedRedirect (config : Config) (instList : List Nat) (heap : Heap) : Option Nat :=
  instList.find? fun seq => isResolvedRedirect config (heap seq)

theorem getResolvedRedirect_oldest
    (sorted : instList.Pairwise (· < ·))
    (found : getResolvedRedirect config instList heap = some squasher) (member : other ∈ instList)
    (resolved : isResolvedRedirect config (heap other) = true) :
    squasher ≤ other := by
  obtain ⟨-, before, after, rfl, passed⟩ := List.find?_eq_some_iff_append.mp found
  rcases List.mem_append.mp member with old | later
  · exact absurd resolved (by simpa using passed other old)
  · rcases List.mem_cons.mp later with rfl | younger
    · exact Nat.le_refl _
    · have ordered := (List.pairwise_append.mp sorted).2.1
      exact Nat.le_of_lt (List.rel_of_pairwise_cons ordered younger)

end Rob

namespace Commit

open Iew Rob

/-- What commit does about redirects in a cycle. -/
inductive Decision where
  | pending (squasher : Nat)
  | signal (squasher : Nat)
  /-- A held-back redirect is dropped, since younger instructions are gone already. -/
  | drop (squasher : Nat)
  | rest
deriving DecidableEq

/-- The instruction whose redirect is taken. -/
def Decision.squasher : Decision → Option Nat
  | .pending squasher => some squasher
  | .signal squasher => some squasher
  | .drop _ => none
  | .rest => none

/-- The instruction holds back a redirect. -/
def isPending (inst : DynInst) : Bool :=
  inst.isPendingBranch || inst.isPendingMemOrder

/-- The cause of a signal, or the store that found it, is not unsafe. -/
def canSquash (config : Config) (inst : DynInst) : Bool :=
  if inst.isDolmaRestricted && isPending inst then false
  else !(!config.isSTT && inst.isPendingMemOrder && inst.colliderPC == 0)

/-- The decision for a thread. There is none where an assertion fails. -/
def decision
    (config : Config) (instList : List Nat) (heap : Heap) (youngestSeqNum : Nat)
    (fromIEW : IewMsg) : Option Decision :=
  let squasher := getResolvedRedirect config instList heap
  let asserted := squasher.filter fun seq =>
    (heap seq).isControlInducer || (heap seq).isPendingMemOrder
  if squasher.any fun seq => decide (seq ≤ youngestSeqNum) &&
      (!fromIEW.squash || decide (seq ≤ fromIEW.squashedSeqNum)) then
    asserted.map .pending
  else if fromIEW.squash && decide (fromIEW.squashedSeqNum ≤ youngestSeqNum) then
    (findInst instList fromIEW.squashedSeqNum).map fun seq =>
      if canSquash config (heap seq) then .signal seq else .rest
  else if squasher.isSome then asserted.map .drop
  else some .rest

/-- What happens to the reorder buffers and at commit. -/
inductive Event where
  | rob (event : Control.Event)
  | cycle (thread youngestSeqNum : Nat) (fromIEW : IewMsg)

/-- The reorder buffers after a decision. -/
def act
    (config : Config) (state : Control.State) (thread : Nat)
    (fromIEW : IewMsg) : Decision → Option Control.State
  | .pending squasher =>
      Control.step config state (.redirect thread squasher
        (pendingRedirect (state.instList thread) state.heap squasher).doneSeqNum)
  | .signal squasher =>
      Control.step config state (.redirect thread squasher
        (signalRedirect (state.instList thread) state.heap fromIEW).doneSeqNum)
  | .drop squasher =>
      some { state with heap := state.heap.modify squasher clearRedirectFlags }
  | .rest => some state

/-- The reorder buffers with the decisions of commit. -/
def step (config : Config) (state : Control.State) : Event → Option Control.State
  | .rob event => Control.step config state event
  | .cycle thread youngestSeqNum fromIEW =>
      (decision config (state.instList thread) state.heap youngestSeqNum fromIEW).bind
        (act config state thread fromIEW)

section

variable {config : Config} {instList : List Nat} {heap : Heap} {youngestSeqNum : Nat}
  {fromIEW : IewMsg} {squasher : Nat}

/-- A redirect that is taken has a cause in the buffer that is not younger than any
other one, and was not held back or may be taken now. -/
structure Chosen
    (config : Config) (instList : List Nat) (heap : Heap) (youngestSeqNum : Nat) (fromIEW : IewMsg)
    (squasher : Nat) : Prop where
  member : squasher ∈ instList
  kept : squasher ≤ youngestSeqNum
  signal : fromIEW.squash = true → squasher ≤ fromIEW.squashedSeqNum
  oldest : ∀ other ∈ instList, isResolvedRedirect config (heap other) = true →
    other ≤ youngestSeqNum → squasher ≤ other
  resolved : isPending (heap squasher) = true → isResolvedRedirect config (heap squasher) = true

theorem isResolvedRedirect_of_canSquash
    (can : canSquash config inst = true) (pending : isPending inst = true) :
    isResolvedRedirect config inst = true := by
  unfold canSquash at can
  unfold isPending at pending can
  unfold isResolvedRedirect
  grind

/-- The redirect is held back and the oldest one, by the order of the search. -/
theorem chosen_pending
    (sorted : instList.Pairwise (· < ·))
    (found : getResolvedRedirect config instList heap = some squasher)
    (kept : squasher ≤ youngestSeqNum)
    (signal : fromIEW.squash = true → squasher ≤ fromIEW.squashedSeqNum) :
    Chosen config instList heap youngestSeqNum fromIEW squasher := by
  have resolved := List.find?_some found
  refine ⟨List.mem_of_find?_eq_some found, kept, signal, ?_, fun _ => resolved⟩
  exact fun _ member resolved _ => getResolvedRedirect_oldest sorted found member resolved

/-- The redirect is signalled, and the oldest one held back was passed by. -/
theorem chosen_signal
    (sorted : instList.Pairwise (· < ·))
    (found : findInst instList fromIEW.squashedSeqNum = some squasher)
    (kept : fromIEW.squashedSeqNum ≤ youngestSeqNum) (can : canSquash config (heap squasher) = true)
    (passed : ∀ oldest, getResolvedRedirect config instList heap = some oldest →
      oldest ≤ youngestSeqNum → fromIEW.squashedSeqNum < oldest) :
    Chosen config instList heap youngestSeqNum fromIEW squasher := by
  obtain rfl : squasher = fromIEW.squashedSeqNum := by
    simpa using List.find?_some found
  refine ⟨List.mem_of_find?_eq_some found, kept, fun _ => Nat.le_refl _, ?_,
    isResolvedRedirect_of_canSquash can⟩
  intro other member resolved bounded
  cases search : getResolvedRedirect config instList heap with
  | none => exact (List.find?_eq_none.mp search other member resolved).elim
  | some oldest =>
      have le := getResolvedRedirect_oldest sorted search member resolved
      have younger := passed oldest search (Nat.le_trans le bounded)
      omega

theorem chosen_of_decision
    (sorted : instList.Pairwise (· < ·))
    (isDecided : decision config instList heap youngestSeqNum fromIEW = some decided)
    (redirects : decided.squasher = some squasher) :
    Chosen config instList heap youngestSeqNum fromIEW squasher := by
  simp only [decision] at isDecided
  split at isDecided
  · next takes =>
      obtain ⟨seq, isSeq, rfl⟩ := Option.map_eq_some_iff.mp isDecided
      cases redirects
      have found := (Option.filter_eq_some_iff.mp isSeq).1
      simp only [found, Option.any_some, Bool.and_eq_true, Bool.or_eq_true, Bool.not_eq_true',
        decide_eq_true_eq] at takes
      exact chosen_pending sorted found takes.1 fun isSquash => by simpa [isSquash] using takes.2
  · next passes =>
      split at isDecided
      · next signalled =>
          simp only [Bool.and_eq_true, decide_eq_true_eq] at signalled
          obtain ⟨seq, isSeq, isSignal⟩ := Option.map_eq_some_iff.mp isDecided
          split at isSignal
          · next can =>
              subst isSignal
              cases redirects
              refine chosen_signal sorted isSeq signalled.2 can fun oldest found bounded => ?_
              simpa [found, signalled.1, bounded] using passes
          · subst isSignal
            cases redirects
      · split at isDecided
        · obtain ⟨_, -, rfl⟩ := Option.map_eq_some_iff.mp isDecided
          cases redirects
        · cases isDecided
          cases redirects

end

/-- Every step keeps the restriction of the instructions below an unresolved branch. -/
theorem invariant_step
    (dolma : config.isDolma = true) (registers : config.isDolmaMemOnly = false)
    (invariant : Control.Invariant state) (event : Event)
    (stepped : step config state event = some next) :
    Control.Invariant next := by
  cases event with
  | rob event => exact invariant.step dolma registers stepped
  | cycle thread youngestSeqNum fromIEW =>
      obtain ⟨decided, -, acted⟩ := Option.bind_eq_some_iff.mp stepped
      cases decided with
      | pending squasher =>
          rw [act] at acted
          exact invariant.step dolma registers acted
      | signal squasher =>
          rw [act] at acted
          exact invariant.step dolma registers acted
      | drop squasher =>
          cases acted
          exact invariant.quiet (Control.Quiet.clearRedirectFlags _ squasher) rfl rfl
      | rest =>
          cases acted
          exact invariant

/-- In the modes that protect registers and memory commit takes, after any steps, the oldest
redirect that may be taken. If it was held back, its cause is unrestricted and below no
unresolved branch. -/
theorem redirect_oldest_resolved
    (config : Config) (dolma : config.isDolma = true) (registers : config.isDolmaMemOnly = false)
    (heap : Heap) (state : Control.State)
    (reachable : Library.Reachable (step config) (fun _ _ => True)
      (Control.initial heap) state)
    (thread youngestSeqNum : Nat) (fromIEW : IewMsg) (decided : Decision)
    (isDecided : decision config (state.instList thread) state.heap youngestSeqNum fromIEW =
      some decided)
    (squasher : Nat) (redirects : decided.squasher = some squasher) :
    Chosen config (state.instList thread) state.heap youngestSeqNum fromIEW squasher ∧
      (isPending (state.heap squasher) = true →
        (state.heap squasher).isDolmaRestricted = false ∧
          ∀ older ∈ state.instList thread, older < squasher →
            (state.heap older).isControlInducer = false) := by
  have invariant : Control.Invariant state :=
    Library.Reachable.invariant (Control.Invariant.initial heap)
      (fun _ event _ holds _ stepped => invariant_step dolma registers holds event stepped)
      reachable
  have chosen := chosen_of_decision (invariant.sorted thread) isDecided redirects
  refine ⟨chosen, fun pending => ?_⟩
  have resolved := chosen.resolved pending
  rw [isResolvedRedirect, Bool.and_eq_true, Bool.not_eq_true'] at resolved
  refine ⟨resolved.1, fun older member before => ?_⟩
  by_contra inducer
  rw [Bool.not_eq_false] at inducer
  have unsquashed : (state.heap squasher).isSquashed = false := by
    rw [isPending, Bool.or_eq_true] at pending
    rcases pending with branch | memOrder
    · exact DynInst.isSquashed_of_isLive _ branch
    · exact DynInst.isSquashed_of_isLive _ memOrder
  have restricted := invariant.restricted thread older member squasher chosen.member before
    inducer unsquashed
  simp [DynInst.isDolmaRestricted, unsquashed, restricted] at resolved

/-- The second of two branches as it is below the first, holding back a redirect. -/
def heldBranch : DynInst :=
  ((((Control.branchHeap 1).setStatus .robEntry true).setStatus .controlRestricted
    true).setStatus .controlInducer true).setPendingBranch true

/-- The redirect of the second of two branches is taken after the first has resolved. -/
theorem redirect_oldest_resolved_second :
    ∃ state, Library.Reachable (step { mode := 1 }) (fun _ _ => True)
        (Control.initial fun _ => Control.branchHeap 1) state ∧
      decision { mode := 1 } (state.instList 0) state.heap 2 {} = some (.pending 2) ∧
      ∀ older ∈ state.instList 0, older < 2 → (state.heap older).isControlInducer = false := by
  refine Library.Reachable.exists_imp_of_replay
    [.rob (.insert 1), .rob (.insert 2), .rob (.elsewhere 2 heldBranch), .rob (.resolve 1),
      .rob (.update 0)]
    (fun state => decision { mode := 1 } (state.instList 0) state.heap 2 {} = some (.pending 2) ∧
      isPending (state.heap 2) = true) (by decide +kernel) ?_
  rintro state reachable ⟨decided, pending⟩
  exact ⟨decided, ((redirect_oldest_resolved { mode := 1 } (by decide) (by decide) _ state
    reachable 0 2 {} _ decided 2 rfl).2 pending).2⟩

end Commit
end Dolma

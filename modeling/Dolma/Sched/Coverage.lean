import Dolma.Sched.Pass

/-!
# The classes a pass looks at

Without stalls a pass looks at the ready instructions from the oldest on, and leaves out the
further instructions of a class once one of it finds no unit. With STT a restricted load is
stalled, and the iterator is advanced twice: the class of the next instruction is passed over
too. This does no harm if that class was looked at before. It is looked at in no pass if the
next instruction is the first one of its class, and if there is no next instruction the iterator
is advanced past the end.
-/

namespace Dolma
namespace Sched

open Library

/-! ## The ready instructions by age -/

/-- The ready instructions of some classes on the list, with their classes. -/
def ReadyLists.readyOf (lists : ReadyLists) (entries : List ListOrderEntry) : List (Nat × Nat) :=
  entries.flatMap fun entry =>
    (lists.readyInsts entry.queueType).map fun seq => (seq, entry.queueType)

/-- The ready instructions with their classes, the oldest first. -/
def ReadyLists.byAge (lists : ReadyLists) : List (Nat × Nat) :=
  (lists.readyOf lists.listOrder).insertionSort fun first second => first.1 ≤ second.1

/-- An instruction is ready in one class only. -/
def ReadyLists.OneClass (lists : ReadyLists) : Prop :=
  ∀ seq opClass other, seq ∈ lists.readyInsts opClass → seq ∈ lists.readyInsts other →
    opClass = other

/-- What is known on a walk over the ready instructions. -/
structure Walk where
  state : State
  totalIssued : Nat := 0
  looked : List Nat := []
  leftOut : List Nat := []
  afterStall : Bool := false

/-- Look at an instruction. If it finds no unit, the others of its class are left out. -/
def Walk.look (params : Params) (walk : Walk) (seq opClass : Nat) : Walk :=
  let next :=
    { walk with
      state := walk.state.schedule params seq
      looked := opClass :: walk.looked }
  match walk.state.verdict params seq with
  | .stalls => { next with afterStall := true }
  | .drops => next
  | .waits => { next with leftOut := opClass :: walk.leftOut }
  | .issues => { next with totalIssued := walk.totalIssued + 1 }

/-- On a walk over ready instructions, every stalled load is followed by an instruction of a
class that was looked at before. The class is then left out. -/
def missesNone (params : Params) (totalWidth : Nat) : Walk → List (Nat × Nat) → Bool
  | walk, [] => !walk.afterStall
  | walk, (seq, opClass) :: rest =>
      if walk.leftOut.contains opClass then missesNone params totalWidth walk rest
      else if walk.afterStall then
        walk.looked.contains opClass &&
          missesNone params totalWidth
            { walk with leftOut := opClass :: walk.leftOut, afterStall := false } rest
      else if totalWidth ≤ walk.totalIssued then true
      else missesNone params totalWidth (walk.look params seq opClass) rest

namespace Pass

variable {params : Params} {totalWidth seq opClass : Nat} {pass next last : Pass}
  {entry : ListOrderEntry}

/-- The classes the pass has not come to yet. -/
def ahead (pass : Pass) : List Nat :=
  (pass.lists.listOrder.drop pass.orderIt).map (·.queueType)

/-- The ready instructions of the classes the pass has not come to yet. -/
def readyAhead (pass : Pass) : List (Nat × Nat) :=
  pass.lists.readyOf (pass.lists.listOrder.drop pass.orderIt)

/-- The class was looked at, or the pass has not come to it yet. -/
def Covers (pass : Pass) (opClass : Nat) : Prop :=
  opClass ∈ pass.examined ∨ opClass ∈ pass.ahead

/-- The pass has not gone past the end, and has looked at each of the classes unless the issue
width was used up before it came to the class. -/
def CoversAll (totalWidth : Nat) (classes : List Nat) (pass : Pass) : Prop :=
  pass.pastEnd = false ∧ ∀ opClass ∈ classes,
    opClass ∈ pass.examined ∨ totalWidth ≤ pass.totalIssued ∧ opClass ∈ pass.ahead

/-! ## The instructions ahead -/

theorem drop_eq (here : pass.current = some entry) :
    pass.lists.listOrder.drop pass.orderIt =
      entry :: pass.lists.listOrder.drop (pass.orderIt + 1) := by
  obtain ⟨inside, rfl⟩ := List.getElem?_eq_some_iff.mp here
  exact List.drop_eq_getElem_cons inside

/-- The class the pass is at, and those after it. -/
theorem ahead_eq (here : pass.current = some entry) :
    pass.ahead = entry.queueType :: pass.advance.ahead := by
  unfold ahead advance
  rw [drop_eq here, List.map_cons]

theorem readyAhead_eq (here : pass.current = some entry) :
    pass.readyAhead =
      (pass.lists.readyInsts entry.queueType).map (fun seq => (seq, entry.queueType)) ++
        pass.advance.readyAhead := by
  unfold readyAhead advance ReadyLists.readyOf
  rw [drop_eq here, List.flatMap_cons]

theorem mem_readyAhead :
    (seq, opClass) ∈ pass.readyAhead ↔
      opClass ∈ pass.ahead ∧ seq ∈ pass.lists.readyInsts opClass := by
  unfold readyAhead ReadyLists.readyOf ahead
  simp only [List.mem_flatMap, List.mem_map, Prod.mk.injEq]
  constructor
  · rintro ⟨entry, isIn, _, ready, rfl, rfl⟩
    exact ⟨⟨entry, isIn, rfl⟩, ready⟩
  · rintro ⟨⟨entry, isIn, rfl⟩, ready⟩
    exact ⟨entry, isIn, seq, ready, rfl, rfl⟩

/-- The next classes stay ahead when the class of the instruction is taken off the list or
moves down, and no others come. -/
theorem mem_ahead_take (here : pass.current = some entry) (other : opClass ≠ entry.queueType) :
    opClass ∈ (pass.take entry).ahead ↔ opClass ∈ pass.ahead := by
  obtain ⟨added, own, perm⟩ := Ordered.drop_takeTop_perm here
  rw [ahead_eq here, List.mem_cons, or_iff_right other]
  unfold ahead take advance
  rw [(perm.map _).mem_iff, List.map_append, List.mem_append]
  refine or_iff_right fun isAdded => ?_
  obtain ⟨new, isNew, rfl⟩ := List.mem_map.mp isAdded
  exact other (own new (Option.mem_toList.mp isNew))

/-- The instruction that is taken is no longer ahead, all others are. -/
theorem readyAhead_take (ordered : Ordered pass.lists) (here : pass.current = some entry) :
    pass.readyAhead.Perm ((entry.oldestInst, entry.queueType) :: (pass.take entry).readyAhead) := by
  have oldest := ordered.oldest entry (List.mem_of_getElem? here)
  have rest : (pass.lists.takeTop pass.orderIt entry).readyOf
      (pass.lists.listOrder.drop (pass.orderIt + 1)) = pass.advance.readyAhead := by
    unfold readyAhead ReadyLists.readyOf advance
    refine List.flatMap_congr fun other behind => ?_
    rw [Ordered.takeTop_readyInsts, Function.update_of_ne (ordered.ne_of_mem_drop here behind)]
  have left : (pass.lists.takeTop pass.orderIt entry).readyInsts entry.queueType =
      (pass.lists.readyInsts entry.queueType).erase entry.oldestInst := by
    rw [Ordered.takeTop_readyInsts, Function.update_self, Ordered.top_eq oldest]
  have own : ((pass.lists.readyInsts entry.queueType).erase entry.oldestInst).map
        (fun seq => (seq, entry.queueType)) ++ pass.advance.readyAhead |>.Perm
      (pass.take entry).readyAhead := by
    rw [← rest]
    unfold readyAhead take
    dsimp only
    rw [Ordered.drop_takeTop here, Ordered.top_eq oldest]
    split
    · next none =>
        rw [none]
        exact .refl _
    · refine List.Perm.trans ?_ ((List.perm_orderedInsert _ _ _).flatMap_right _).symm
      rw [List.flatMap_cons]
      unfold ReadyLists.newEntry
      dsimp only
      rw [left]
      exact .refl _
  rw [readyAhead_eq here]
  refine (((List.perm_cons_erase (List.min?_mem oldest)).map _).append_right _).trans ?_
  exact own.cons _

/-- Advancing leaves out the instructions of one class. -/
theorem readyAhead_advance (ordered : Ordered pass.lists) (here : pass.current = some entry) :
    pass.readyAhead.filter (fun inst => inst.2 != entry.queueType) = pass.advance.readyAhead := by
  rw [readyAhead_eq here, List.filter_append]
  have own : ((pass.lists.readyInsts entry.queueType).map fun seq => (seq, entry.queueType)).filter
      (fun inst => inst.2 != entry.queueType) = [] := by
    simp
  rw [own, List.nil_append, List.filter_eq_self]
  rintro ⟨seq, opClass⟩ isAhead
  obtain ⟨isIn, -⟩ := mem_readyAhead.mp isAhead
  obtain ⟨other, behind, rfl⟩ := List.mem_map.mp isIn
  exact bne_iff_ne.mpr (ordered.ne_of_mem_drop here behind)

/-! ## One iteration -/

/-- A class that is covered after an iteration was covered before. -/
theorem Examined.covers_of
    (examined : Examined params totalWidth pass next) (covers : next.Covers opClass) :
    pass.Covers opClass := by
  have own {entry : ListOrderEntry} (here : pass.current = some entry) :
      entry.queueType ∈ pass.ahead := by
    rw [ahead_eq here]
    exact List.mem_cons_self
  have looked {entry : ListOrderEntry} (here : pass.current = some entry)
      (isIn : opClass ∈ entry.queueType :: pass.examined) : pass.Covers opClass := by
    rcases List.mem_cons.mp isIn with rfl | before
    · exact .inr (own here)
    · exact .inl before
  have taken {entry : ListOrderEntry} (here : pass.current = some entry)
      (isAhead : opClass ∈ (pass.take entry).ahead) : pass.Covers opClass := by
    by_cases same : opClass = entry.queueType
    · exact .inr (same ▸ own here)
    · exact .inr ((mem_ahead_take here same).mp isAhead)
  cases examined with
  | leaves here => exact covers.elim (looked here) (taken here)
  | waits here =>
      refine covers.elim (looked here) fun isAhead => .inr ?_
      rw [ahead_eq here]
      exact List.mem_cons_of_mem _ isAhead
  | @stalls entry here _ inside =>
      refine covers.elim (looked here) fun isAhead => taken here ?_
      have current : (pass.take entry).current =
          some (pass.take entry).lists.listOrder[pass.orderIt] := List.getElem?_eq_getElem inside
      rw [ahead_eq current]
      exact List.mem_cons_of_mem _ isAhead

/-- What a pass covers in the end, it has covered all along. -/
theorem covers_of_returns
    (returns : Returns (examine params totalWidth) pass last) (inside : last.pastEnd = false)
    (covers : last.Covers opClass) :
    pass.Covers opClass := by
  obtain ⟨fuel, returned⟩ := returns
  induction fuel generalizing pass with
  | zero => cases returned
  | succ fuel ih =>
      cases outcome : pass.examine params totalWidth with
      | inl result =>
          rw [loop_inl outcome, Option.some.injEq] at returned
          subst returned
          cases examine_inl outcome with
          | full => exact covers
          | atEnd => exact covers
          | pastEnd => cases inside
      | inr next =>
          rw [loop_inr outcome] at returned
          exact (examine_inr outcome).covers_of (ih returned)

/-- Look at the oldest instruction of the class the iterator is at. -/
def look (params : Params) (pass : Pass) (entry : ListOrderEntry) : Pass :=
  { pass with
    state := pass.state.schedule params (pass.lists.top entry.queueType)
    examined := entry.queueType :: pass.examined }

/-- How a pass ends, from a pass or from one that has just stalled a load. -/
def Ends (params : Params) (totalWidth : Nat) (afterStall : Bool) (pass last : Pass) : Prop :=
  if afterStall then
    match pass.current with
    | some _ => Returns (examine params totalWidth) pass.advance last
    | none => last = { pass with pastEnd := true }
  else Returns (examine params totalWidth) pass last

section Verdicts

variable (room : pass.totalIssued < totalWidth) (here : pass.current = some entry)

include room here

theorem returns_stalls
    (stalls : pass.state.verdict params (pass.lists.top entry.queueType) = .stalls) :
    Returns (examine params totalWidth) pass last ↔
      Ends params totalWidth true ((pass.look params entry).take entry) last := by
  unfold Ends
  rw [if_pos rfl]
  by_cases inside : pass.orderIt < (pass.lists.takeTop pass.orderIt entry).listOrder.length
  · have current : ((pass.look params entry).take entry).current =
        some (pass.lists.takeTop pass.orderIt entry).listOrder[pass.orderIt] :=
      List.getElem?_eq_getElem inside
    have stepped : pass.examine params totalWidth =
        .inr ((pass.look params entry).take entry).advance := by
      unfold examine
      rw [if_pos room, here]
      dsimp only
      rw [stalls]
      exact if_pos inside
    rw [returns_inr stepped, current]
  · have current : ((pass.look params entry).take entry).current = none :=
      List.getElem?_eq_none (Nat.le_of_not_lt inside)
    have returned : pass.examine params totalWidth =
        .inl { (pass.look params entry).take entry with pastEnd := true } := by
      unfold examine
      rw [if_pos room, here]
      dsimp only
      rw [stalls]
      exact if_neg inside
    rw [returns_inl returned, current]

theorem examine_drops
    (drops : pass.state.verdict params (pass.lists.top entry.queueType) = .drops) :
    ∃ agreed, pass.examine params totalWidth =
      .inr { (pass.look params entry).take entry with agreed := agreed } := by
  unfold examine
  rw [if_pos room, here]
  dsimp only
  rw [drops]
  exact ⟨_, rfl⟩

theorem examine_waits
    (waits : pass.state.verdict params (pass.lists.top entry.queueType) = .waits) :
    ∃ agreed, pass.examine params totalWidth =
      .inr { (pass.look params entry).advance with agreed := agreed } := by
  unfold examine
  rw [if_pos room, here]
  dsimp only
  rw [waits]
  exact ⟨_, rfl⟩

theorem examine_issues
    (issues : pass.state.verdict params (pass.lists.top entry.queueType) = .issues) :
    ∃ agreed, pass.examine params totalWidth =
      .inr { (pass.look params entry).take entry with
        agreed := agreed, totalIssued := pass.totalIssued + 1 } := by
  unfold examine
  rw [if_pos room, here]
  dsimp only
  rw [issues]
  exact ⟨_, rfl⟩

end Verdicts

/-- The pass is inside the list, covers the classes, and only they are ahead. -/
structure OnTrack (classes : List Nat) (pass : Pass) : Prop where
  inside : pass.pastEnd = false
  covers : ∀ opClass ∈ classes, pass.Covers opClass
  known : ∀ opClass ∈ pass.ahead, opClass ∈ classes

namespace OnTrack

variable {classes : List Nat}

theorem look (params : Params) (onTrack : pass.OnTrack classes) (entry : ListOrderEntry) :
    (pass.look params entry).OnTrack classes where
  inside := onTrack.inside
  covers := fun opClass isIn => (onTrack.covers opClass isIn).imp_left (List.mem_cons_of_mem _)
  known := onTrack.known

theorem take
    (onTrack : pass.OnTrack classes) (here : pass.current = some entry)
    (looked : entry.queueType ∈ pass.examined) :
    (pass.take entry).OnTrack classes := by
  refine ⟨onTrack.inside, fun opClass isIn => ?_, fun opClass isAhead => onTrack.known _ ?_⟩
  · by_cases same : opClass = entry.queueType
    · exact .inl (same ▸ looked)
    · exact (onTrack.covers _ isIn).imp_right (mem_ahead_take here same).mpr
  · by_cases same : opClass = entry.queueType
    · rw [same, ahead_eq here]
      exact List.mem_cons_self
    · exact (mem_ahead_take here same).mp isAhead

theorem advance
    (onTrack : pass.OnTrack classes) (here : pass.current = some entry)
    (looked : entry.queueType ∈ pass.examined) :
    pass.advance.OnTrack classes := by
  refine ⟨onTrack.inside, fun opClass isIn => ?_, fun opClass isAhead => onTrack.known _ ?_⟩
  · rcases onTrack.covers _ isIn with before | isAhead
    · exact .inl before
    · rw [ahead_eq here] at isAhead
      rcases List.mem_cons.mp isAhead with rfl | later
      · exact .inl looked
      · exact .inr later
  · rw [ahead_eq here]
    exact List.mem_cons_of_mem _ isAhead

/-- A pass that stops has covered the classes. -/
theorem coversAll
    (onTrack : pass.OnTrack classes) (stops : totalWidth ≤ pass.totalIssued ∨ pass.current = none) :
    pass.CoversAll totalWidth classes := by
  refine ⟨onTrack.inside, fun opClass isIn => ?_⟩
  rcases stops with used | atEnd
  · exact (onTrack.covers opClass isIn).imp_right fun isAhead => ⟨used, isAhead⟩
  · refine .inl ((onTrack.covers opClass isIn).resolve_right fun isAhead => ?_)
    unfold ahead at isAhead
    rw [List.drop_eq_nil_of_le (List.getElem?_eq_none_iff.mp atEnd)] at isAhead
    cases isAhead

/-- A class that is passed over without a look is never covered. -/
theorem not_coversAll
    (onTrack : pass.OnTrack classes) (ordered : Ordered pass.lists)
    (here : pass.current = some entry) (unseen : entry.queueType ∉ pass.examined)
    (returns : Returns (examine params totalWidth) pass.advance last) :
    ¬last.CoversAll totalWidth classes := by
  rintro ⟨inside, all⟩
  have isKnown : entry.queueType ∈ classes := by
    refine onTrack.known _ ?_
    rw [ahead_eq here]
    exact List.mem_cons_self
  have covered := (all _ isKnown).imp_right And.right
  rcases covers_of_returns returns inside covered with looked | isAhead
  · exact unseen looked
  · obtain ⟨other, behind, same⟩ := List.mem_map.mp isAhead
    exact ordered.ne_of_mem_drop here behind same

end OnTrack

end Pass

/-! ## The walk and the pass -/

/-- The walk is where the pass is: the rest of the walk without the classes that are left out
are the ready instructions ahead of the pass. -/
structure Tracks (pass : Pass) (walk : Walk) (rest : List (Nat × Nat)) : Prop where
  ordered : Ordered pass.lists
  oneClass : pass.lists.OneClass
  state : walk.state = pass.state
  issued : walk.totalIssued = pass.totalIssued
  looked : walk.looked = pass.examined
  sorted : rest.Pairwise fun first second => first.1 ≤ second.1
  perm : (rest.filter fun inst => !walk.leftOut.contains inst.2).Perm pass.readyAhead

namespace Tracks

variable {params : Params} {totalWidth seq opClass : Nat} {pass last : Pass} {walk : Walk}
  {entry : ListOrderEntry} {rest : List (Nat × Nat)}

/-- The walk is at its end if the pass is. -/
theorem current_eq_none (tracks : Tracks pass walk []) : pass.current = none := by
  cases here : pass.current with
  | none => rfl
  | some entry =>
      have oldest := tracks.ordered.oldest entry (List.mem_of_getElem? here)
      have isAhead : (entry.oldestInst, entry.queueType) ∈ pass.readyAhead := by
        refine Pass.mem_readyAhead.mpr ⟨?_, List.min?_mem oldest⟩
        rw [Pass.ahead_eq here]
        exact List.mem_cons_self
      have inRest := tracks.perm.mem_iff.mpr isAhead
      cases inRest

/-- The pass looks at the class of the next instruction that is not left out, and at that
instruction. -/
theorem current_eq
    (tracks : Tracks pass walk ((seq, opClass) :: rest)) (goesOn : opClass ∉ walk.leftOut) :
    ∃ entry, pass.current = some entry ∧ entry.queueType = opClass ∧ entry.oldestInst = seq := by
  have first : (seq, opClass) ∈ pass.readyAhead := by
    refine tracks.perm.mem_iff.mp (List.mem_filter.mpr ⟨List.mem_cons_self, ?_⟩)
    simpa using goesOn
  obtain ⟨isAhead, ready⟩ := Pass.mem_readyAhead.mp first
  obtain ⟨own, isIn, rfl⟩ := List.mem_map.mp isAhead
  cases split : pass.lists.listOrder.drop pass.orderIt with
  | nil =>
      rw [split] at isIn
      cases isIn
  | cons entry behind =>
      have here : pass.current = some entry := by
        rw [Pass.current, ← List.head?_drop, split]
        rfl
      have member := List.mem_of_getElem? here
      have oldest := tracks.ordered.oldest entry member
      have entryAhead : (entry.oldestInst, entry.queueType) ∈ pass.readyAhead := by
        refine Pass.mem_readyAhead.mpr ⟨?_, List.min?_mem oldest⟩
        rw [Pass.ahead_eq here]
        exact List.mem_cons_self
      have sorted := tracks.ordered.sorted.sublist (List.drop_sublist pass.orderIt _)
      rw [split] at sorted isIn
      -- The instruction is the oldest one ahead, and so is that of the entry.
      have notYounger : entry.oldestInst ≤ seq := by
        have ownOldest := tracks.ordered.oldest own
          (List.mem_of_mem_drop (split ▸ isIn))
        have ownLe : own.oldestInst ≤ seq := (List.min?_eq_some_iff.mp ownOldest).2 seq ready
        rcases List.mem_cons.mp isIn with rfl | later
        · exact ownLe
        · exact Nat.le_trans ((List.pairwise_cons.mp sorted).1 own later) ownLe
      have notOlder : seq ≤ entry.oldestInst := by
        have inRest := List.mem_of_mem_filter (tracks.perm.mem_iff.mpr entryAhead)
        rcases List.mem_cons.mp inRest with same | later
        · exact Nat.le_of_eq (congrArg Prod.fst same).symm
        · exact (List.pairwise_cons.mp tracks.sorted).1 _ later
      have same : entry.oldestInst = seq := Nat.le_antisymm notYounger notOlder
      refine ⟨entry, here, ?_, same⟩
      exact tracks.oneClass seq _ _ (same ▸ List.min?_mem oldest) ready

theorem perm_take
    (tracks : Tracks pass walk ((entry.oldestInst, entry.queueType) :: rest))
    (goesOn : entry.queueType ∉ walk.leftOut) (here : pass.current = some entry) :
    (rest.filter fun inst => !walk.leftOut.contains inst.2).Perm (pass.take entry).readyAhead := by
  have perm := tracks.perm.trans (Pass.readyAhead_take tracks.ordered here)
  rw [List.filter_cons_of_pos (by simpa using goesOn)] at perm
  exact perm.cons_inv

theorem perm_advance
    (tracks : Tracks pass walk ((seq, entry.queueType) :: rest))
    (here : pass.current = some entry) :
    (rest.filter fun inst => !(entry.queueType :: walk.leftOut).contains inst.2).Perm
      pass.advance.readyAhead := by
  have perm := tracks.perm.filter fun inst => inst.2 != entry.queueType
  rw [Pass.readyAhead_advance tracks.ordered here, List.filter_filter] at perm
  refine List.Perm.trans (.of_eq ?_) perm
  rw [List.filter_cons_of_neg (by simp)]
  refine List.filter_congr fun inst _ => ?_
  rw [List.contains_cons, Bool.not_or, bne]

theorem oneClass_take (tracks : Tracks pass walk rest) :
    (pass.lists.takeTop pass.orderIt entry).OneClass := by
  have fewer : ∀ seq opClass, seq ∈ (pass.lists.takeTop pass.orderIt entry).readyInsts opClass →
      seq ∈ pass.lists.readyInsts opClass := by
    intro seq opClass ready
    rw [Ordered.takeTop_readyInsts] at ready
    by_cases same : opClass = entry.queueType
    · subst same
      rw [Function.update_self] at ready
      exact List.mem_of_mem_erase ready
    · rwa [Function.update_of_ne same] at ready
  exact fun seq opClass other ready too =>
    tracks.oneClass seq opClass other (fewer _ _ ready) (fewer _ _ too)

/-- The walk tracks the pass past an instruction that is taken. -/
theorem take
    (tracks : Tracks pass walk ((entry.oldestInst, entry.queueType) :: rest))
    (goesOn : entry.queueType ∉ walk.leftOut) (here : pass.current = some entry) :
    Tracks (pass.take entry) walk rest where
  ordered := tracks.ordered.takeTop here
  oneClass := tracks.oneClass_take
  state := tracks.state
  issued := tracks.issued
  looked := tracks.looked
  sorted := (List.pairwise_cons.mp tracks.sorted).2
  perm := tracks.perm_take goesOn here

/-- The walk tracks the pass past a class that is left out. -/
theorem advance
    (tracks : Tracks pass walk ((seq, entry.queueType) :: rest))
    (here : pass.current = some entry) :
    Tracks pass.advance { walk with leftOut := entry.queueType :: walk.leftOut } rest where
  ordered := tracks.ordered
  oneClass := tracks.oneClass
  state := tracks.state
  issued := tracks.issued
  looked := tracks.looked
  sorted := (List.pairwise_cons.mp tracks.sorted).2
  perm := tracks.perm_advance here

variable {classes : List Nat}

/-- The walk tracks the pass through an iteration. -/
theorem look
    (tracks : Tracks pass walk ((entry.oldestInst, entry.queueType) :: rest))
    (onTrack : pass.OnTrack classes) (goesOn : entry.queueType ∉ walk.leftOut)
    (here : pass.current = some entry) (noStall : walk.afterStall = false)
    (room : pass.totalIssued < totalWidth)
    (returns : Returns (Pass.examine params totalWidth) pass last) :
    ∃ next, Tracks next (walk.look params entry.oldestInst entry.queueType) rest ∧
      next.OnTrack classes ∧
        next.Ends params totalWidth
          (walk.look params entry.oldestInst entry.queueType).afterStall last := by
  have top := Ordered.top_eq (tracks.ordered.oldest entry (List.mem_of_getElem? here))
  have verdicts : pass.state.verdict params (pass.lists.top entry.queueType) =
      walk.state.verdict params entry.oldestInst := by
    rw [tracks.state, top]
  have looked : Tracks (pass.look params entry)
      { walk with
        state := walk.state.schedule params entry.oldestInst
        looked := entry.queueType :: walk.looked }
      ((entry.oldestInst, entry.queueType) :: rest) :=
    ⟨tracks.ordered, tracks.oneClass, by rw [tracks.state, Pass.look, top], tracks.issued,
      by rw [tracks.looked, Pass.look], tracks.sorted, tracks.perm⟩
  have looks := onTrack.look params entry
  have own : entry.queueType ∈ (pass.look params entry).examined := List.mem_cons_self
  have taken := looked.take goesOn here
  have stays := looks.take here own
  unfold Walk.look
  cases verdict : walk.state.verdict params entry.oldestInst with
  | stalls =>
      refine ⟨(pass.look params entry).take entry, ?_, stays, ?_⟩
      · exact ⟨taken.ordered, taken.oneClass, taken.state, taken.issued, taken.looked,
          taken.sorted, taken.perm⟩
      · exact (Pass.returns_stalls room here (verdicts.trans verdict)).mp returns
  | drops =>
      obtain ⟨agreed, stepped⟩ := Pass.examine_drops room here (verdicts.trans verdict)
      refine ⟨{ (pass.look params entry).take entry with agreed := agreed }, ?_,
        ⟨stays.inside, stays.covers, stays.known⟩, ?_⟩
      · exact ⟨taken.ordered, taken.oneClass, taken.state, taken.issued, taken.looked,
          taken.sorted, taken.perm⟩
      · dsimp only
        rw [noStall]
        exact (returns_inr stepped).mp returns
  | waits =>
      obtain ⟨agreed, stepped⟩ := Pass.examine_waits room here (verdicts.trans verdict)
      have passed := looked.advance here
      have covers := looks.advance here own
      refine ⟨{ (pass.look params entry).advance with agreed := agreed }, ?_,
        ⟨covers.inside, covers.covers, covers.known⟩, ?_⟩
      · exact ⟨passed.ordered, passed.oneClass, passed.state, passed.issued, passed.looked,
          passed.sorted, passed.perm⟩
      · dsimp only
        rw [noStall]
        exact (returns_inr stepped).mp returns
  | issues =>
      obtain ⟨agreed, stepped⟩ := Pass.examine_issues room here (verdicts.trans verdict)
      refine ⟨{ (pass.look params entry).take entry with
        agreed := agreed, totalIssued := pass.totalIssued + 1 }, ?_,
        ⟨stays.inside, stays.covers, stays.known⟩, ?_⟩
      · exact ⟨taken.ordered, taken.oneClass, taken.state, congrArg (· + 1) tracks.issued,
          taken.looked, taken.sorted, taken.perm⟩
      · dsimp only
        rw [noStall]
        exact (returns_inr stepped).mp returns

/-- A pass covers the classes if and only if the walk misses none. -/
theorem coversAll_iff
    (tracks : Tracks pass walk rest) (onTrack : pass.OnTrack classes)
    (ends : pass.Ends params totalWidth walk.afterStall last) :
    last.CoversAll totalWidth classes ↔ missesNone params totalWidth walk rest = true := by
  induction rest generalizing pass walk with
  | nil =>
      have here := tracks.current_eq_none
      unfold missesNone
      cases stalled : walk.afterStall with
      | false =>
          rw [stalled] at ends
          have returned : pass.examine params totalWidth = .inl pass := by
            unfold Pass.examine
            rw [here]
            split <;> rfl
          obtain rfl := (returns_inl returned).mp ends
          exact iff_of_true (onTrack.coversAll (.inr here)) rfl
      | true =>
          rw [stalled] at ends
          unfold Pass.Ends at ends
          rw [if_pos rfl, here] at ends
          subst ends
          exact iff_of_false (fun covers => by cases covers.1) Bool.false_ne_true
  | cons inst rest ih =>
      obtain ⟨seq, opClass⟩ := inst
      unfold missesNone
      by_cases out : opClass ∈ walk.leftOut
      · have perm := tracks.perm
        rw [List.filter_cons_of_neg (by simpa using out)] at perm
        rw [if_pos (List.contains_iff_mem.mpr out)]
        exact ih ⟨tracks.ordered, tracks.oneClass, tracks.state,
          tracks.issued, tracks.looked, (List.pairwise_cons.mp tracks.sorted).2, perm⟩
          onTrack ends
      obtain ⟨entry, here, rfl, rfl⟩ := tracks.current_eq out
      rw [if_neg (by simpa using out)]
      cases stalled : walk.afterStall with
      | true =>
          rw [stalled] at ends
          unfold Pass.Ends at ends
          rw [if_pos rfl, here] at ends
          rw [if_pos rfl]
          by_cases looked : entry.queueType ∈ pass.examined
          · have passed := tracks.advance here
            rw [List.contains_iff_mem.mpr (tracks.looked ▸ looked), Bool.true_and]
            exact ih ⟨passed.ordered, passed.oneClass, passed.state,
              passed.issued, passed.looked, passed.sorted, passed.perm⟩
              (onTrack.advance here looked) ends
          · refine iff_of_false (onTrack.not_coversAll tracks.ordered here looked ends) ?_
            simp [tracks.looked, looked]
      | false =>
          rw [stalled] at ends
          rw [if_neg Bool.false_ne_true]
          by_cases used : totalWidth ≤ walk.totalIssued
          · have returned : pass.examine params totalWidth = .inl pass := by
              unfold Pass.examine
              rw [if_neg (by rw [← tracks.issued]; omega)]
            obtain rfl := (returns_inl returned).mp ends
            rw [if_pos used]
            exact iff_of_true (onTrack.coversAll (.inl (tracks.issued ▸ used))) rfl
          · have room : pass.totalIssued < totalWidth := by
              rw [← tracks.issued]
              omega
            rw [if_neg used]
            obtain ⟨next, tracks, onTrack, ends⟩ :=
              tracks.look onTrack out here stalled room ends
            exact ih tracks onTrack ends

end Tracks

/-- A pass over ready lists in order ends. It stays inside the list and, within the issue width,
looks at every class if and only if every stalled load is followed by an instruction of a class
that was looked at before. -/
theorem scheduleLoop_covers_iff
    {lists : ReadyLists} (ordered : Ordered lists) (oneClass : lists.OneClass) (params : Params)
    (totalWidth : Nat) (state : State) :
    ∃ pass, scheduleLoop params totalWidth state lists = some pass ∧
      (pass.CoversAll totalWidth (lists.listOrder.map (·.queueType)) ↔
        missesNone params totalWidth { state := state } lists.byAge = true) := by
  obtain ⟨pass, finished, -⟩ := exists_scheduleLoop ordered params totalWidth state
  have tracks : Tracks { state := state, lists := lists } { state := state } lists.byAge := by
    refine ⟨ordered, oneClass, rfl, rfl, rfl, List.pairwise_insertionSort _ _, ?_⟩
    rw [List.filter_eq_self.mpr (by simp)]
    exact List.perm_insertionSort _ _
  have onTrack : Pass.OnTrack (lists.listOrder.map (·.queueType))
      { state := state, lists := lists } := ⟨rfl, fun _ isIn => .inr isIn, fun _ isIn => isIn⟩
  exact ⟨pass, finished, tracks.coversAll_iff onTrack ⟨_, finished⟩⟩

/-- The units under STT. -/
def sttUnits : Params :=
  { State.slowUnits with config := { mode := 1, stt := true } }

/-- The instructions before five are restricted loads of the first class, the others are of the
second class. -/
def restrictedLoads : State :=
  { initial sttUnits fun _ => none with
    heap := fun seq =>
      if seq < 5 then { opClass := 1, isMemRef := true, isLoad := true, restricted := true }
      else { opClass := 2 } }

/-- Two restricted loads, of which the second is older than the instruction of the next
class. -/
theorem scheduleLoop_covers_iff_twoLoads :
    ∃ pass,
      scheduleLoop sttUnits 8 restrictedLoads
          (((ReadyLists.addReadyMemInst {} 1 3).addReadyMemInst 1 4).addReadyMemInst 2 5) =
        some pass ∧
      pass.CoversAll 8 [1, 2] := by
  have ordered :=
    ((Ordered.empty.addReadyMemInst 1 3).addReadyMemInst 1 4).addReadyMemInst 2 5
  have oneClass : ReadyLists.OneClass
      (((ReadyLists.addReadyMemInst {} 1 3).addReadyMemInst 1 4).addReadyMemInst 2 5) := by
    simp only [ReadyLists.OneClass, Ordered.addReadyMemInst_readyInsts]
    grind
  obtain ⟨pass, finished, covers⟩ :=
    scheduleLoop_covers_iff ordered oneClass sttUnits 8 restrictedLoads
  exact ⟨pass, finished, covers.mpr (by decide)⟩

/-- The only ready instruction is a restricted load: the iterator goes past the end. An older
restricted load comes before the next class: that class is passed over. -/
theorem not_covers_oneLoad :
    (∃ pass,
      scheduleLoop sttUnits 8 restrictedLoads (ReadyLists.addReadyMemInst {} 1 3) = some pass ∧
        pass.pastEnd = true) ∧
    ∃ pass,
      scheduleLoop sttUnits 8 restrictedLoads
          ((ReadyLists.addReadyMemInst {} 1 3).addReadyMemInst 2 5) =
        some pass ∧
      2 ∉ pass.examined ∧ pass.totalIssued = 0 := by
  have first : (scheduleLoop sttUnits 8 restrictedLoads
      (ReadyLists.addReadyMemInst {} 1 3)).any (fun pass => pass.pastEnd) = true := by
    decide
  have second : (scheduleLoop sttUnits 8 restrictedLoads
      ((ReadyLists.addReadyMemInst {} 1 3).addReadyMemInst 2 5)).any
        (fun pass => decide (2 ∉ pass.examined ∧ pass.totalIssued = 0)) = true := by
    decide
  constructor
  · exact (Option.any_eq_true _ _).mp first
  · obtain ⟨pass, finished, skipped⟩ := (Option.any_eq_true _ _).mp second
    exact ⟨pass, finished, of_decide_eq_true skipped⟩

end Sched
end Dolma

import Dolma.LsqUnit.Step

/-!
# What the execution of a load or a store changes

A load changes its own marks, the list of loads to be replayed and the record of the
load that waits for a store. The check for violations changes the violator and the mark
of the instruction that is checked. None of this touches the queues.
-/

namespace Dolma
namespace LsqUnit

open Library Lsq LSQUnit

@[simp] theorem LSQUnit.modify_insts_self (lsq : LSQUnit) (seq : Nat) (change : DynInst → DynInst) :
    (lsq.modify seq change).insts seq = change (lsq.insts seq) :=
  Heap.modify_self ..

@[simp] theorem LSQUnit.modify_insts_of_ne
    (lsq : LSQUnit) (distinct : other ≠ seq) (change : DynInst → DynInst) :
    (lsq.modify seq change).insts other = lsq.insts other :=
  Heap.modify_of_ne _ distinct _

/-- An instruction keeps the marks that decide where it stands. -/
structure SameStand (before after : DynInst) : Prop where
  isSquashed : after.isSquashed = before.isSquashed
  isExecuted : after.isExecuted = before.isExecuted
  atCommit : after.status .atCommit = before.status .atCommit
  strictlyOrdered : after.strictlyOrdered = before.strictlyOrdered
  staticInst : after.staticInst = before.staticInst
  effAddrValid : after.effAddrValid = before.effAddrValid
  effSize : after.effSize = before.effSize

namespace SameStand

variable {first second third : DynInst}

theorem refl (inst : DynInst) : SameStand inst inst := ⟨rfl, rfl, rfl, rfl, rfl, rfl, rfl⟩

theorem trans (left : SameStand first second) (right : SameStand second third) :
    SameStand first third where
  isSquashed := right.isSquashed.trans left.isSquashed
  isExecuted := right.isExecuted.trans left.isExecuted
  atCommit := right.atCommit.trans left.atCommit
  strictlyOrdered := right.strictlyOrdered.trans left.strictlyOrdered
  staticInst := right.staticInst.trans left.staticInst
  effAddrValid := right.effAddrValid.trans left.effAddrValid
  effSize := right.effSize.trans left.effSize

theorem setStatus
    (inst : DynInst) (value : Bool) (notSquashed : flag ≠ .squashed)
    (notExecuted : flag ≠ .executed) (notAtCommit : flag ≠ .atCommit) :
    SameStand inst (inst.setStatus flag value) := by
  refine ⟨?_, ?_, ?_, rfl, rfl, rfl, rfl⟩
  · simp [DynInst.isSquashed, notSquashed.symm]
  · simp [DynInst.isExecuted, notExecuted.symm]
  · simp [notAtCommit.symm]

theorem setDolmaStalled (inst : DynInst) : SameStand inst inst.setDolmaStalled :=
  ⟨rfl, rfl, rfl, rfl, rfl, rfl, rfl⟩

end SameStand

/-- Only marks of one instruction change, and not where it stands. -/
structure Touches (lsq : LSQUnit) (seq : Nat) (next : LSQUnit) : Prop where
  frame : next = { lsq with insts := next.insts }
  others : ∀ other, other ≠ seq → next.insts other = lsq.insts other
  self : SameStand (lsq.insts seq) (next.insts seq)

variable {change : DynInst → DynInst}

namespace Touches

variable {lsq mid next : LSQUnit} {seq : Nat}

theorem refl (lsq : LSQUnit) (seq : Nat) : Touches lsq seq lsq :=
  ⟨rfl, fun _ _ => rfl, SameStand.refl _⟩

theorem trans (first : Touches lsq seq mid) (second : Touches mid seq next) :
    Touches lsq seq next where
  frame := by
    rw [second.frame, first.frame]
  others other distinct := (second.others other distinct).trans (first.others other distinct)
  self := first.self.trans second.self

theorem modify (lsq : LSQUnit) (same : SameStand (lsq.insts seq) (change (lsq.insts seq))) :
    Touches lsq seq (lsq.modify seq change) where
  frame := rfl
  others _ distinct := lsq.modify_insts_of_ne distinct change
  self := by
    rw [modify_insts_self]
    exact same

end Touches

/-- The record of the load that waits for a store, and the loads to be replayed. -/
structure SameRecord (lsq next : LSQUnit) : Prop where
  stalled : next.stalled = lsq.stalled
  stallingStoreIsn : next.stallingStoreIsn = lsq.stallingStoreIsn
  stallingLoadIdx : next.stallingLoadIdx = lsq.stallingLoadIdx

theorem SameRecord.trans (first : SameRecord lsq mid) (second : SameRecord mid next) :
    SameRecord lsq next where
  stalled := second.stalled.trans first.stalled
  stallingStoreIsn := second.stallingStoreIsn.trans first.stallingStoreIsn
  stallingLoadIdx := second.stallingLoadIdx.trans first.stallingLoadIdx

/-- The load does not wait for anything. -/
structure GoesOn (lsq next : LSQUnit) : Prop where
  instsToReplay : next.instsToReplay = lsq.instsToReplay
  record : SameRecord lsq next

/-- The load waits for the store at an index. The record is taken by the oldest load. -/
structure Stalls (lsq : LSQUnit) (seq storeIdx : Nat) (next : LSQUnit) : Prop where
  instsToReplay : next.instsToReplay = lsq.instsToReplay ++ [seq]
  owed : next.owed = lsq.owed
  record :
    (lsq.stalled = true → ∃ recorded,
        lsq.loadQueue lsq.stallingLoadIdx = some recorded ∧ seq < recorded) ∧
        next.stalled = true ∧ next.stallingLoadIdx = lsq.lqIdx seq ∧
        (lsq.storeQueue storeIdx).inst = some next.stallingStoreIsn ∨
      (lsq.stalled = true ∧ ∃ recorded,
        lsq.loadQueue lsq.stallingLoadIdx = some recorded ∧ recorded ≤ seq) ∧
        SameRecord lsq next

/-- What becomes of the read of a load. -/
inductive Reads
    (params : Params) (lsq : LSQUnit) (seq : Nat) (request : LoadAccess) (next : LSQUnit) : Prop
  | goesOn (kept : GoesOn lsq next)
  | awaitsCommit
      (strictlyOrdered : request.strictlyOrdered = true)
      (early : ¬(lsq.lqIdx seq = lsq.loadHead ∧ (lsq.insts seq).status .atCommit = true))
      (instsToReplay : next.instsToReplay = lsq.instsToReplay ++ [seq])
      (owed : next.owed = lsq.owed)
      (record : SameRecord lsq next)
  | awaitsStore
      (idx : Nat)
      (allowed : request.strictlyOrdered = true →
        lsq.lqIdx seq = lsq.loadHead ∧ (lsq.insts seq).status .atCommit = true)
      (found : ∃ start bypassed, lsq.sqIdx seq = some start ∧
        scan params lsq request params.sqEntries start false = some ⟨bypassed, some (idx, false)⟩)
      (stalls : Stalls lsq seq idx next)

/-- What the read of a load changes. -/
structure ReadEffect (lsq : LSQUnit) (seq : Nat) (next : LSQUnit) : Prop where
  frame : next = { lsq with
    insts := next.insts
    instsToReplay := next.instsToReplay
    owed := next.owed
    stalled := next.stalled
    stallingStoreIsn := next.stallingStoreIsn
    stallingLoadIdx := next.stallingLoadIdx }
  others : ∀ other, other ≠ seq → next.insts other = lsq.insts other
  self : SameStand (lsq.insts seq) (next.insts seq)
  owed : ∀ other, other ≠ seq → next.owed other = lsq.owed other

section Read

variable {params : Params} {lsq mid next : LSQUnit} {seq idx : Nat} {request : LoadAccess}
  {outcome : CacheOutcome} {wasPartial : Bool}

theorem Touches.readEffect (touches : Touches lsq seq next) : ReadEffect lsq seq next where
  frame := by
    rw [touches.frame]
  others := touches.others
  self := touches.self
  owed other _ := by rw [touches.frame]

theorem ReadEffect.after (effect : ReadEffect mid seq next) (touches : Touches lsq seq mid) :
    ReadEffect lsq seq next where
  frame := by
    rw [effect.frame, touches.frame]
  others other distinct := (effect.others other distinct).trans (touches.others other distinct)
  self := touches.self.trans effect.self
  owed other distinct := by
    rw [effect.owed other distinct, touches.frame]

theorem Stalls.after
    (stalls : Stalls mid seq idx next) (frame : mid = { lsq with insts := mid.insts }) :
    Stalls lsq seq idx next := by
  obtain ⟨replay, owed, record⟩ := stalls
  rw [frame] at replay owed record
  refine ⟨replay, owed, ?_⟩
  rcases record with taken | ⟨older, stalled, isn, place⟩
  · exact .inl taken
  · exact .inr ⟨older, stalled, isn, place⟩

/-- Nothing that matters happens after the load waits. -/
theorem Stalls.before
    (stalls : Stalls lsq seq idx mid) (instsToReplay : next.instsToReplay = mid.instsToReplay)
    (owed : next.owed = mid.owed) (record : SameRecord mid next) :
    Stalls lsq seq idx next := by
  refine ⟨instsToReplay.trans stalls.instsToReplay, owed.trans stalls.owed, ?_⟩
  rcases stalls.record with ⟨older, stalled, place, named⟩ | ⟨older, same⟩
  · left
    rw [record.stalled, record.stallingLoadIdx, record.stallingStoreIsn]
    exact ⟨older, stalled, place, named⟩
  · exact .inr ⟨older, same.trans record⟩

theorem GoesOn.after (kept : GoesOn mid next) (frame : mid = { lsq with insts := mid.insts }) :
    GoesOn lsq next := by
  obtain ⟨replay, stalled, isn, place⟩ := kept
  rw [frame] at replay stalled isn place
  exact ⟨replay, stalled, isn, place⟩

theorem owe_effect (lsq : LSQUnit) (seq : Nat) : ReadEffect lsq seq (owe lsq seq) where
  frame := rfl
  others _ _ := rfl
  self := SameStand.refl _
  owed _ distinct := Function.update_of_ne distinct ..

/-- The load is kept for a replay, whatever the record says. -/
theorem reschedule_effect (lsq : LSQUnit) (seq : Nat) (stalled : Bool) (isn idx : Nat) :
    ReadEffect lsq seq
      ((rescheduleMemInst
        { lsq with
          stalled := stalled
          stallingStoreIsn := isn
          stallingLoadIdx := idx } seq).modify seq
        fun load => load.setStatus .issued false) where
  frame := rfl
  others _ distinct := if_neg distinct
  self := by
    rw [modify_insts_self]
    exact SameStand.setStatus _ _ (by decide) (by decide) (by decide)
  owed _ _ := rfl

theorem stallLoad_effect (ended : stallLoad lsq seq idx = some next) :
    ReadEffect lsq seq next ∧ Stalls lsq seq idx next := by
  unfold stallLoad at ended
  obtain ⟨store, named, ended⟩ := Option.bind_eq_some_iff.mp ended
  dsimp only at ended
  split at ended
  case isTrue waits =>
    obtain ⟨older, compared, ended⟩ := Option.bind_eq_some_iff.mp ended
    obtain ⟨recorded, slot, compared⟩ := Option.map_eq_some_iff.mp compared
    cases ended
    cases older
    · refine ⟨reschedule_effect lsq seq _ _ _, rfl, rfl, .inr ?_⟩
      exact ⟨⟨waits, recorded, slot, by simpa using compared⟩, rfl, rfl, rfl⟩
    · refine ⟨reschedule_effect lsq seq _ _ _, rfl, rfl, .inl ?_⟩
      exact ⟨fun _ => ⟨recorded, slot, by simpa using compared⟩, rfl, rfl, named⟩
  case isFalse clear =>
    cases ended
    refine ⟨reschedule_effect lsq seq _ _ _, rfl, rfl, .inl ?_⟩
    exact ⟨fun waits => absurd waits clear, rfl, rfl, named⟩

theorem accessMemory_effect (ended : accessMemory lsq seq wasPartial idx outcome = some next) :
    ReadEffect lsq seq next ∧
      (GoesOn lsq next ∨
        Stalls lsq seq idx next ∧
          (lsq.insts seq).status .totalStoreBufferHit = false ∧
          (lsq.insts seq).status .partialStoreBufferHit = true ∧ wasPartial = false) := by
  unfold accessMemory at ended
  dsimp only at ended
  cases outcome with
  | accepted =>
      dsimp only at ended
      split at ended
      case isTrue =>
        cases ended
        exact ⟨owe_effect lsq seq, .inl ⟨rfl, rfl, rfl, rfl⟩⟩
      case isFalse total =>
        split at ended
        case isTrue first =>
          obtain ⟨effect, stalls⟩ := stallLoad_effect ended
          rw [Bool.and_eq_true, Bool.not_eq_true'] at first
          exact ⟨effect, .inr ⟨stalls, by simpa using total, first.1, first.2⟩⟩
        case isFalse =>
          cases ended
          exact ⟨owe_effect lsq seq, .inl ⟨rfl, rfl, rfl, rfl⟩⟩
  | restrictedMiss =>
      dsimp only at ended
      obtain ⟨-, last⟩ := Option.ite_none_left_eq_some.mp ended
      cases last
      refine ⟨(Touches.modify lsq ?_).readEffect, .inl ⟨rfl, rfl, rfl, rfl⟩⟩
      exact ⟨rfl, rfl, rfl, rfl, rfl, rfl, rfl⟩
  | blocked =>
      cases ended
      refine ⟨(Touches.modify lsq ?_).readEffect, .inl ⟨rfl, rfl, rfl, rfl⟩⟩
      split
      · exact ⟨rfl, rfl, rfl, rfl, rfl, rfl, rfl⟩
      · exact ⟨rfl, rfl, rfl, rfl, rfl, rfl, rfl⟩

/-- The mark touches only the load. -/
theorem markBypass_touches (lsq : LSQUnit) (seq : Nat) (bypassed : Bool) :
    Touches lsq seq (markBypass lsq seq bypassed) := by
  unfold markBypass
  split
  · exact Touches.modify lsq
      (SameStand.setStatus _ _ (by decide) (by decide) (by decide))
  · exact Touches.refl lsq seq

theorem markBypass_partial (lsq : LSQUnit) (seq : Nat) (bypassed : Bool) :
    ((markBypass lsq seq bypassed).insts seq).status .partialStoreBufferHit =
      (lsq.insts seq).status .partialStoreBufferHit := by
  unfold markBypass
  split
  · rw [modify_insts_self]
    rfl
  · rfl

/-- A load waits only for a store that the scan has found to have a part of its data. -/
theorem useScan_effect (ended : useScan params lsq seq result outcome = some next) :
    ReadEffect lsq seq next ∧
      (GoesOn lsq next ∨ ∃ idx, result.found = some (idx, false) ∧ Stalls lsq seq idx next) := by
  have touches := markBypass_touches lsq seq result.bypassed
  have sameMark := markBypass_partial lsq seq result.bypassed
  have hit : ∀ flag, flag ≠ .squashed → flag ≠ .executed → flag ≠ .atCommit →
      Touches lsq seq ((markBypass lsq seq result.bypassed).modify seq
        fun load => load.setStatus flag true) := fun flag squashed executed atCommit =>
    touches.trans (Touches.modify _ (SameStand.setStatus _ _ squashed executed atCommit))
  unfold useScan at ended
  dsimp only at ended
  cases found : result.found with
  | none =>
      rw [found] at ended
      obtain ⟨effect, same | ⟨-, -, again, none⟩⟩ := accessMemory_effect ended
      · exact ⟨effect.after touches, .inl (same.after touches.frame)⟩
      · rw [sameMark, none] at again
        cases again
  | some position =>
      obtain ⟨idx, covers⟩ := position
      rw [found] at ended
      dsimp only at ended
      obtain ⟨store, -, ended⟩ := Option.bind_eq_some_iff.mp ended
      cases covers
      · rw [if_neg Bool.false_ne_true] at ended
        split at ended
        case isTrue =>
          have touches' := hit .partialStoreBufferHit (by decide) (by decide) (by decide)
          obtain ⟨effect, same | ⟨stalls, -⟩⟩ := accessMemory_effect ended
          · exact ⟨effect.after touches', .inl (same.after touches'.frame)⟩
          · exact ⟨effect.after touches', .inr ⟨idx, rfl, stalls.after touches'.frame⟩⟩
        case isFalse =>
          obtain ⟨effect, stalls⟩ := stallLoad_effect ended
          exact ⟨effect.after touches, .inr ⟨idx, rfl, stalls.after touches.frame⟩⟩
      · rw [if_pos rfl] at ended
        split at ended
        case isTrue =>
          have touches' := hit .totalStoreBufferHit (by decide) (by decide) (by decide)
          obtain ⟨effect, same | ⟨-, total, -⟩⟩ := accessMemory_effect ended
          · exact ⟨effect.after touches', .inl (same.after touches'.frame)⟩
          · rw [modify_insts_self] at total
            cases total
        case isFalse =>
          cases ended
          refine ⟨(owe_effect _ seq).after touches, .inl (GoesOn.after ?_ touches.frame)⟩
          exact ⟨rfl, rfl, rfl, rfl⟩

/-- What a read changes, and what becomes of the load. -/
theorem read_effect (ended : read params lsq seq request outcome = some next) :
    ReadEffect lsq seq next ∧ Reads params lsq seq request next := by
  unfold read at ended
  dsimp only at ended
  obtain ⟨-, ended⟩ := Option.ite_none_left_eq_some.mp ended
  split at ended
  case isTrue early =>
    cases ended
    exact ⟨⟨rfl, fun _ _ => rfl, SameStand.refl _, fun _ _ => rfl⟩,
      .awaitsCommit early.1 early.2 rfl rfl ⟨rfl, rfl, rfl⟩⟩
  case isFalse allowed =>
    rw [not_and_not_right] at allowed
    split at ended
    case isTrue =>
      cases ended
      exact ⟨owe_effect lsq seq, .goesOn ⟨rfl, rfl, rfl, rfl⟩⟩
    case isFalse =>
      cases place : lsq.sqIdx seq with
      | none =>
          rw [place] at ended
          have scanned : useScan params lsq seq ⟨false, none⟩ outcome = some next := ended
          obtain ⟨effect, same | ⟨idx, found, -⟩⟩ := useScan_effect scanned
          · exact ⟨effect, .goesOn same⟩
          · cases found
      | some start =>
          rw [place] at ended
          dsimp only at ended
          obtain ⟨⟨bypassed, found⟩, scans, ended⟩ := Option.bind_eq_some_iff.mp ended
          have scanned : useScan params lsq seq ⟨bypassed, found⟩ outcome = some next := ended
          obtain ⟨effect, same | ⟨idx, rfl, stalls⟩⟩ := useScan_effect scanned
          · exact ⟨effect, .goesOn same⟩
          · exact ⟨effect, .awaitsStore idx allowed ⟨start, bypassed, place, scans⟩ stalls⟩

end Read

/-- What the check for violations changes. -/
structure CheckEffect (lsq : LSQUnit) (seq : Nat) (next : LSQUnit) : Prop where
  frame : next = { lsq with
    insts := next.insts
    memDepViolator := next.memDepViolator
    possibleLoadViolation := next.possibleLoadViolation }
  others : ∀ other, other ≠ seq → next.insts other = lsq.insts other
  self : SameStand (lsq.insts seq) (next.insts seq)
  status : (next.insts seq).status = (lsq.insts seq).status

/-- What the execution of a load changes. -/
structure LoadEffect (lsq : LSQUnit) (seq : Nat) (next : LSQUnit) : Prop where
  frame : next = { lsq with
    insts := next.insts
    instsToReplay := next.instsToReplay
    owed := next.owed
    stalled := next.stalled
    stallingStoreIsn := next.stallingStoreIsn
    stallingLoadIdx := next.stallingLoadIdx
    memDepViolator := next.memDepViolator
    possibleLoadViolation := next.possibleLoadViolation }
  others : ∀ other, other ≠ seq → next.insts other = lsq.insts other
  isSquashed : (next.insts seq).isSquashed = (lsq.insts seq).isSquashed
  atCommit : (next.insts seq).status .atCommit = (lsq.insts seq).status .atCommit
  owed : ∀ other, other ≠ seq → next.owed other = lsq.owed other

/-- What becomes of the execution of a load. -/
inductive LoadOutcome (params : Params) (lsq : LSQUnit) (seq : Nat) (next : LSQUnit) : Prop
  | goesOn (kept : GoesOn lsq next)
  | awaitsCommit
      (strictlyOrdered : (next.insts seq).strictlyOrdered = true)
      (early : ¬(lsq.lqIdx seq = lsq.loadHead ∧ (lsq.insts seq).status .atCommit = true))
      (isExecuted : (next.insts seq).isExecuted = (lsq.insts seq).isExecuted)
      (instsToReplay : next.instsToReplay = lsq.instsToReplay ++ [seq])
      (owed : next.owed = lsq.owed)
      (record : SameRecord lsq next)
  | awaitsStore
      (idx : Nat)
      (allowed : (next.insts seq).strictlyOrdered = true →
        lsq.lqIdx seq = lsq.loadHead ∧ (lsq.insts seq).status .atCommit = true)
      (isExecuted : (next.insts seq).isExecuted = (lsq.insts seq).isExecuted)
      (found : ∃ unit request start bypassed, unit.storeQueue = lsq.storeQueue ∧
        unit.storeWBIdx = lsq.storeWBIdx ∧ lsq.sqIdx seq = some start ∧
        scan params unit request params.sqEntries start false = some ⟨bypassed, some (idx, false)⟩)
      (stalls : Stalls lsq seq idx next)

section Execute

variable {params : Params} {lsq mid next : LSQUnit} {seq : Nat}
variable {idx : Nat} {hits : List Nat}

/-- The check for violations goes through the younger loads. -/
theorem checkViolations_effect
    (bound : Nat) (ended : checkViolations params seq bound idx lsq = some next) :
    CheckEffect lsq seq next := by
  have nothing : CheckEffect lsq seq lsq := ⟨rfl, fun _ _ => rfl, SameStand.refl _, rfl⟩
  induction bound generalizing lsq idx with
  | zero =>
      cases ended
      exact nothing
  | succ bound ih =>
      rw [checkViolations] at ended
      split at ended
      case isTrue =>
        cases ended
        exact nothing
      case isFalse =>
        split at ended
        · cases ended
        · dsimp only at ended
          split at ended
          case isFalse => exact ih ended nothing
          case isTrue =>
            split at ended
            case isTrue =>
              split at ended
              case isTrue =>
                cases ended
                exact ⟨rfl, fun _ _ => rfl, SameStand.refl _, rfl⟩
              case isFalse =>
                obtain ⟨frame, others, self, status⟩ :=
                  ih ended ⟨rfl, fun _ _ => rfl, SameStand.refl _, rfl⟩
                exact ⟨frame, others, self, status⟩
            case isFalse =>
              split at ended
              case isTrue =>
                cases ended
                exact nothing
              case isFalse =>
                cases ended
                refine ⟨rfl, fun other distinct => ?_, ?_, ?_⟩
                · dsimp only
                  split
                  · exact if_neg distinct
                  · rfl
                · dsimp only
                  split
                  · rw [Heap.modify_self]
                    exact ⟨rfl, rfl, rfl, rfl, rfl, rfl, rfl⟩
                  · exact SameStand.refl _
                · dsimp only
                  split
                  · rw [Heap.modify_self]
                  · rfl

theorem modify_loadEffect
    (isSquashed : (change (lsq.insts seq)).isSquashed = (lsq.insts seq).isSquashed)
    (atCommit : (change (lsq.insts seq)).status .atCommit = (lsq.insts seq).status .atCommit) :
    LoadEffect lsq seq (lsq.modify seq change) ∧
      LoadOutcome params lsq seq (lsq.modify seq change) := by
  refine ⟨⟨rfl, fun other distinct => lsq.modify_insts_of_ne distinct change, ?_, ?_,
    fun _ _ => rfl⟩, .goesOn ⟨rfl, rfl, rfl, rfl⟩⟩
  · rw [modify_insts_self]
    exact isSquashed
  · rw [modify_insts_self]
    exact atCommit

/-- The load gets its address, reads, and may be checked. -/
theorem access_loadEffect
    (known : addressed = lsq.modify seq fun load =>
      { load with
        effAddr := request.effAddr
        effSize := request.effSize
        effAddrValid := true
        strictlyOrdered := request.strictlyOrdered })
    (reads : read params addressed seq request outcome = some mid)
    (checked : CheckEffect mid seq next) :
    LoadEffect lsq seq next ∧ LoadOutcome params lsq seq next := by
  obtain ⟨effect, outcome⟩ := read_effect reads
  have frame : addressed = { lsq with insts := addressed.insts } := by
    rw [known]
    rfl
  have self : addressed.insts seq =
      { lsq.insts seq with
        effAddr := request.effAddr
        effSize := request.effSize
        effAddrValid := true
        strictlyOrdered := request.strictlyOrdered } := by
    rw [known, modify_insts_self]
  have stand := effect.self.trans checked.self
  rw [self] at stand
  have replay : next.instsToReplay = mid.instsToReplay := by rw [checked.frame]
  have owed : next.owed = mid.owed := by rw [checked.frame]
  have record : SameRecord mid next := by
    rw [checked.frame]
    exact ⟨rfl, rfl, rfl⟩
  have touches : addressed.instsToReplay = lsq.instsToReplay ∧ addressed.owed = lsq.owed ∧
      SameRecord lsq addressed := by
    rw [frame]
    exact ⟨rfl, rfl, rfl, rfl, rfl⟩
  refine ⟨⟨?_, fun other distinct => ?_, stand.isSquashed, stand.atCommit,
    fun other distinct => ?_⟩, ?_⟩
  · rw [checked.frame, effect.frame, frame]
  · rw [checked.others other distinct, effect.others other distinct, known,
      lsq.modify_insts_of_ne distinct]
  · rw [owed, effect.owed other distinct, touches.2.1]
  · cases outcome with
    | goesOn kept =>
        have kept := kept.after frame
        exact .goesOn ⟨replay.trans kept.instsToReplay, kept.record.trans record⟩
    | awaitsCommit ordered early instsToReplay owed' record' =>
        rw [self, frame] at early
        refine .awaitsCommit (stand.strictlyOrdered.trans ordered) early stand.isExecuted ?_ ?_
          ((touches.2.2.trans record').trans record)
        · rw [replay, instsToReplay, touches.1]
        · rw [owed, owed', touches.2.1]
    | awaitsStore idx allowed found stalls =>
        obtain ⟨start, bypassed, place, scans⟩ := found
        rw [self, frame] at allowed
        refine .awaitsStore idx (fun ordered => ?_) stand.isExecuted
          ⟨addressed, request, start, bypassed, ?_, ?_, ?_, scans⟩
          ((stalls.after frame).before replay owed record)
        · exact allowed (stand.strictlyOrdered.symm.trans ordered)
        · rw [frame]
        · rw [frame]
        · rw [frame] at place
          exact place

theorem executeLoad_effect (ended : executeLoad params lsq seq attempt = some next) :
    LoadEffect lsq seq next ∧ LoadOutcome params lsq seq next := by
  unfold executeLoad at ended
  dsimp only at ended
  obtain ⟨-, ended⟩ := Option.ite_none_left_eq_some.mp ended
  cases attempt with
  | noAccess faulted =>
      cases ended
      refine modify_loadEffect ?_ ?_
      · rfl
      · rfl
  | delayed =>
      cases ended
      exact ⟨⟨rfl, fun _ _ => rfl, rfl, rfl, fun _ _ => rfl⟩, .goesOn ⟨rfl, rfl, rfl, rfl⟩⟩
  | stalled =>
      cases ended
      refine modify_loadEffect ?_ ?_
      · rfl
      · rfl
  | access request outcome =>
      dsimp only at ended
      obtain ⟨mid, reads, ended⟩ := Option.bind_eq_some_iff.mp ended
      split at ended
      case isTrue =>
        cases ended
        exact access_loadEffect rfl reads ⟨rfl, fun _ _ => rfl, SameStand.refl _, rfl⟩
      case isFalse => exact access_loadEffect rfl reads (checkViolations_effect _ ended)

/-- A snoop leaves marks and faults at loads. -/
structure SnoopEffect (lsq next : LSQUnit) : Prop where
  frame : next = { lsq with insts := next.insts }
  stand : ∀ seq, SameStand (lsq.insts seq) (next.insts seq)

namespace SnoopEffect

theorem refl (lsq : LSQUnit) : SnoopEffect lsq lsq := ⟨rfl, fun _ => SameStand.refl _⟩

theorem trans (first : SnoopEffect lsq mid) (second : SnoopEffect mid next) :
    SnoopEffect lsq next where
  frame := by
    rw [second.frame, first.frame]
  stand seq := (first.stand seq).trans (second.stand seq)

theorem modify (stand : SameStand (lsq.insts seq) (change (lsq.insts seq))) :
    SnoopEffect lsq (lsq.modify seq change) := by
  refine ⟨rfl, fun other => ?_⟩
  by_cases same : other = seq
  · rw [same, modify_insts_self]
    exact stand
  · rw [lsq.modify_insts_of_ne same]
    exact SameStand.refl _

end SnoopEffect

theorem checkSnoopFrom_effect
    (bound : Nat) (ended : checkSnoopFrom params hits bound idx forceSquash lsq = some next) :
    SnoopEffect lsq next := by
  induction bound generalizing idx forceSquash lsq with
  | zero =>
      cases ended
      exact .refl _
  | succ bound ih =>
      rw [checkSnoopFrom] at ended
      split at ended
      case isTrue =>
        cases ended
        exact .refl _
      case isFalse =>
        split at ended
        · cases ended
        · dsimp only at ended
          split at ended
          case isFalse => exact ih ended
          case isTrue =>
            have marked {change : DynInst → DynInst} {seq : Nat}
                (stand : SameStand (lsq.insts seq) (change (lsq.insts seq))) :=
              SnoopEffect.modify stand
            split at ended
            · exact (marked ⟨rfl, rfl, rfl, rfl, rfl, rfl, rfl⟩).trans (ih ended)
            · exact (marked ⟨rfl, rfl, rfl, rfl, rfl, rfl, rfl⟩).trans (ih ended)

theorem checkSnoop_effect (ended : checkSnoop params lsq hits = some next) :
    SnoopEffect lsq next := by
  unfold checkSnoop at ended
  split at ended
  · cases ended
    exact .refl _
  · exact checkSnoopFrom_effect _ ended

/-- An entry gets its data. -/
@[simps] def SQEntry.setData (entry : SQEntry) (request : StoreAccess) : SQEntry :=
  { entry with
    size := request.effSize
    isSplit := entry.isSplit || request.isSplit
    isMmappedIpr := request.isMmappedIpr
    isCacheMaintenance := request.isCacheMaintenance }

/-- What the access of a store changes. -/
structure StoreEffect
    (lsq : LSQUnit) (seq idx : Nat) (request : StoreAccess) (next : LSQUnit) : Prop where
  sqIdx : lsq.sqIdx seq = some idx
  frame : next = { lsq with
    insts := next.insts
    storeQueue := Function.update lsq.storeQueue idx ((lsq.storeQueue idx).setData request)
    memDepViolator := next.memDepViolator
    possibleLoadViolation := next.possibleLoadViolation }
  others : ∀ other, other ≠ seq → next.insts other = lsq.insts other
  isSquashed : (next.insts seq).isSquashed = (lsq.insts seq).isSquashed
  staticInst : (next.insts seq).staticInst = (lsq.insts seq).staticInst
  effAddrValid : (next.insts seq).effAddrValid = true

theorem accessStore_effect (ended : accessStore params lsq seq request = some next) :
    ∃ idx, StoreEffect lsq seq idx request next := by
  unfold accessStore at ended
  obtain ⟨idx, place, ended⟩ := Option.bind_eq_some_iff.mp ended
  dsimp only at ended
  split at ended
  case isTrue =>
    cases ended
    have self : ∀ change : DynInst → DynInst,
        ((write (lsq.modify seq change) idx request).insts seq) = change (lsq.insts seq) := by
      intro change
      rw [write, LSQUnit.setEntry]
      exact lsq.modify_insts_self seq change
    refine ⟨idx, place, rfl, fun other distinct => if_neg distinct, ?_, ?_, ?_⟩
    · rw [self]
      rfl
    · rw [self]
    · rw [self]
  case isFalse =>
    obtain ⟨frame, others, self, -⟩ := checkViolations_effect _ ended
    refine ⟨idx, place, ?_, fun other distinct => ?_, ?_, ?_, ?_⟩
    · rw [frame]
      rfl
    · rw [others other distinct]
      exact if_neg distinct
    · rw [self.isSquashed, write, LSQUnit.setEntry]
      dsimp only
      rw [modify_insts_self]
      rfl
    · rw [self.staticInst, write, LSQUnit.setEntry]
      dsimp only
      rw [modify_insts_self]
    · rw [self.effAddrValid, write, LSQUnit.setEntry]
      dsimp only
      rw [modify_insts_self]

/-- What the execution of a store changes that gets no address. -/
structure StoreMoves (lsq : LSQUnit) (seq : Nat) (next : LSQUnit) : Prop where
  frame : next = { lsq with insts := next.insts }
  others : ∀ other, other ≠ seq → next.insts other = lsq.insts other
  isSquashed : (next.insts seq).isSquashed = (lsq.insts seq).isSquashed
  staticInst : (next.insts seq).staticInst = (lsq.insts seq).staticInst
  effAddrValid : (next.insts seq).effAddrValid = (lsq.insts seq).effAddrValid

theorem executeStore_cases (ended : executeStore params lsq seq attempt = some next) :
    (∃ request, attempt = .access request ∧ accessStore params lsq seq request = some next) ∨
      StoreMoves lsq seq next := by
  unfold executeStore at ended
  obtain ⟨-, ended⟩ := Option.ite_none_left_eq_some.mp ended
  have modified : ∀ change : DynInst → DynInst,
      (change (lsq.insts seq)).isSquashed = (lsq.insts seq).isSquashed →
      (change (lsq.insts seq)).staticInst = (lsq.insts seq).staticInst →
      (change (lsq.insts seq)).effAddrValid = (lsq.insts seq).effAddrValid →
      StoreMoves lsq seq (lsq.modify seq change) := by
    intro change squashed kind known
    refine ⟨rfl, fun other distinct => lsq.modify_insts_of_ne distinct _, ?_, ?_, ?_⟩ <;>
      rw [modify_insts_self]
    · exact squashed
    · exact kind
    · exact known
  cases attempt with
  | access request => exact .inl ⟨request, rfl, ended⟩
  | delayed =>
      cases ended
      exact .inr ⟨rfl, fun _ _ => rfl, rfl, rfl, rfl⟩
  | stalled =>
      cases ended
      exact .inr (modified _ (SameStand.setDolmaStalled _).isSquashed rfl rfl)
  | noAccess faulted strictlyOrdered =>
      cases ended
      exact .inr (modified _ rfl rfl rfl)

end Execute

end LsqUnit
end Dolma

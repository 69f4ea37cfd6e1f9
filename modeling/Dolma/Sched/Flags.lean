import Dolma.Sched.Entries

/-!
# Flags and entries

What the flags of an instruction say about its entry, given where the instruction
is. The flags decide whether issue, completion or a squash gives the entry back.
-/

namespace Dolma
namespace Sched

open Library

namespace State

/-- The instruction has not been issued, or has to be issued again. -/
def IsIdle (state : State) (seq : Nat) : Prop :=
  seq ∈ state.waiting ∨ seq ∈ state.readyInsts

/-- The instruction is held back. -/
def IsHeldBack (state : State) (seq : Nat) : Prop :=
  seq ∈ state.dolmaStalledInsts ∨ seq ∈ state.deferredMemInsts ∨
    seq ∈ state.blockedMemInsts ∨ seq ∈ state.retryMemInsts

/-- The instruction runs. -/
def IsRunning (state : State) (seq : Nat) : Prop :=
  seq ∈ state.instsToExecute ∨ seq ∈ state.completions.map (·.inst) ∨ seq ∈ state.writebacks

variable {state : State} {seq : Nat}

/-- An instruction that is on a list is in some place. -/
theorem placeCount_pos (somewhere : state.IsIdle seq ∨ state.IsHeldBack seq ∨ state.IsRunning seq) :
    0 < state.placeCount seq := by
  unfold IsIdle IsHeldBack IsRunning at somewhere
  simp only [← List.count_pos_iff] at somewhere
  unfold placeCount
  omega

/-- No instruction is in places of two kinds. -/
theorem apart_of_single (single : state.placeCount seq ≤ 1) :
    ¬ (state.IsIdle seq ∧ state.IsHeldBack seq) ∧
      ¬ (state.IsIdle seq ∧ state.IsRunning seq) ∧
        ¬ (state.IsHeldBack seq ∧ state.IsRunning seq) := by
  unfold IsIdle IsHeldBack IsRunning
  simp only [← List.count_pos_iff]
  unfold placeCount at single
  omega

end State

/-- What the flags of an instruction say about its entry. -/
structure Flags (inst : Inst) (idle heldBack running : Prop) (places : Nat) : Prop where
  unknown : inst.inserted = false → inst.inIQ = false ∧ places = 0
  single : places ≤ 1
  access : inst.inserted = true → inst.isMemRef = true →
    inst.inIQ = (!inst.memOpDone && !inst.squashedInIQ)
  other : inst.inserted = true → inst.isMemRef = false → inst.inIQ = !inst.issued
  done : inst.memOpDone = true → inst.issued = true ∧ places = 0
  idle : inst.isMemRef = false → idle → inst.issued = false ∨ inst.squashedInIQ = true
  heldBack : heldBack → inst.isMemRef = true
  running : running → inst.issued = true
  squashed : inst.squashedInIQ = true → inst.issued = true ∧ inst.squashed = true
  finished : inst.completed = true → inst.inIQ = false
  load : inst.isLoad = true → inst.isMemRef = true

/-- The flags of an instruction agree with its place. -/
def FlagsHold (state : State) (seq : Nat) : Prop :=
  Flags (state.heap seq) (state.IsIdle seq) (state.IsHeldBack seq) (state.IsRunning seq)
    (state.placeCount seq)

/-- Two versions of an instruction agree on what concerns its entry. -/
structure SameEntry (before after : Inst) : Prop where
  inserted : after.inserted = before.inserted
  inIQ : after.inIQ = before.inIQ
  isMemRef : after.isMemRef = before.isMemRef
  isLoad : after.isLoad = before.isLoad
  issued : after.issued = before.issued
  memOpDone : after.memOpDone = before.memOpDone
  squashedInIQ : after.squashedInIQ = before.squashedInIQ
  completed : after.completed = before.completed
  squashed : before.squashed = true → after.squashed = true
  threadNumber : after.threadNumber = before.threadNumber

theorem SameEntry.refl (inst : Inst) : SameEntry inst inst := by
  constructor <;> first | rfl | exact id

namespace Flags

variable {inst after : Inst} {idle heldBack running idle' heldBack' running' : Prop}
  {places places' : Nat}

theorem unknown_of_known
    (known : inst.inserted = true) (inserted : after.inserted = inst.inserted) :
    after.inserted = false → after.inIQ = false ∧ places' = 0 := by
  intro new
  rw [inserted, known] at new
  cases new

section

variable (flags : Flags inst idle heldBack running places)
include flags

theorem load_of_same
    (isLoad : after.isLoad = inst.isLoad) (isMemRef : after.isMemRef = inst.isMemRef) :
    after.isLoad = true → after.isMemRef = true := by
  rw [isLoad, isMemRef]
  exact flags.load

/-- A move between places keeps the flags right. -/
theorem move
    (same : SameEntry inst after) (fewer : places' ≤ places)
    (idles : idle' → idle ∨ inst.isMemRef = true)
    (holdsBack : heldBack' → heldBack ∨ inst.isMemRef = true) (runs : running' → running) :
    Flags after idle' heldBack' running' places' where
  unknown new := by
    rw [same.inserted] at new
    rw [same.inIQ]
    obtain ⟨idle, nowhere⟩ := flags.unknown new
    exact ⟨idle, by omega⟩
  single := le_trans fewer flags.single
  access inserted isMemRef := by
    rw [same.inserted] at inserted
    rw [same.isMemRef] at isMemRef
    rw [same.inIQ, same.memOpDone, same.squashedInIQ]
    exact flags.access inserted isMemRef
  other inserted isMemRef := by
    rw [same.inserted] at inserted
    rw [same.isMemRef] at isMemRef
    rw [same.inIQ, same.issued]
    exact flags.other inserted isMemRef
  done memOpDone := by
    rw [same.memOpDone] at memOpDone
    rw [same.issued]
    obtain ⟨issued, nowhere⟩ := flags.done memOpDone
    exact ⟨issued, by omega⟩
  idle isMemRef waits := by
    rw [same.isMemRef] at isMemRef
    rw [same.issued, same.squashedInIQ]
    rcases idles waits with before | access
    · exact flags.idle isMemRef before
    · rw [isMemRef] at access
      cases access
  heldBack back := by
    rw [same.isMemRef]
    exact (holdsBack back).elim flags.heldBack id
  running run := by
    rw [same.issued]
    exact flags.running (runs run)
  squashed squashedInIQ := by
    rw [same.squashedInIQ] at squashedInIQ
    rw [same.issued]
    obtain ⟨issued, flagged⟩ := flags.squashed squashedInIQ
    exact ⟨issued, same.squashed flagged⟩
  finished completed := by
    rw [same.completed] at completed
    rw [same.inIQ]
    exact flags.finished completed
  load isLoad := by
    rw [same.isLoad] at isLoad
    rw [same.isMemRef]
    exact flags.load isLoad

/-- A memory access that is somewhere is not done. -/
theorem memOpDone_eq_false (somewhere : 0 < places) : inst.memOpDone = false := by
  by_contra done
  have nowhere := (flags.done (Bool.not_eq_false _ ▸ done)).2
  omega

/-- An instruction that is somewhere was inserted. -/
theorem inserted_of_somewhere (somewhere : 0 < places) : inst.inserted = true := by
  by_contra new
  have nowhere := (flags.unknown (Bool.not_eq_true _ ▸ new)).2
  omega

theorem squashedInIQ_eq_false (live : inst.squashed = false) : inst.squashedInIQ = false := by
  by_contra squashed
  have flagged := (flags.squashed (Bool.not_eq_false _ ▸ squashed)).2
  rw [live] at flagged
  cases flagged

theorem unissue
    (access : inst.isMemRef = true) (live : inst.squashed = false) (somewhere : 0 < places)
    (single : places' ≤ 1) (halts : ¬ running')
    (same : SameEntry { inst with issued := false } after) :
    Flags after idle' heldBack' running' places' := by
  have undone := flags.memOpDone_eq_false somewhere
  have unsquashed := flags.squashedInIQ_eq_false live
  have known := flags.inserted_of_somewhere somewhere
  have isMemRef : after.isMemRef = true := same.isMemRef.trans access
  constructor
  case unknown => exact unknown_of_known known same.inserted
  case single => exact single
  case access =>
    intro _ _
    rw [same.inIQ, same.memOpDone, same.squashedInIQ]
    exact flags.access known access
  case other =>
    intro _ other
    rw [isMemRef] at other
    cases other
  case done =>
    intro done
    rw [same.memOpDone] at done
    change inst.memOpDone = true at done
    rw [undone] at done
    cases done
  case idle =>
    intro other
    rw [isMemRef] at other
    cases other
  case heldBack => exact fun _ => isMemRef
  case running => exact fun runs => absurd runs halts
  case squashed =>
    intro squashed
    rw [same.squashedInIQ] at squashed
    change inst.squashedInIQ = true at squashed
    rw [unsquashed] at squashed
    cases squashed
  case finished =>
    intro completed
    rw [same.completed] at completed
    rw [same.inIQ]
    exact flags.finished completed
  case load => exact fun _ => isMemRef

/-- An instruction that issues has its entry, which it gives back unless it accesses
memory. -/
theorem issue
    (somewhere : 0 < places) (unsquashed : inst.squashedInIQ = false) (single : places' ≤ 1)
    (starts : ¬ idle' ∧ ¬ heldBack')
    (same : SameEntry
      { inst with issued := true, inIQ := inst.isMemRef && inst.inIQ } after) :
    Flags after idle' heldBack' running' places' := by
  have undone := flags.memOpDone_eq_false somewhere
  have known := flags.inserted_of_somewhere somewhere
  have isMemRef : after.isMemRef = inst.isMemRef := same.isMemRef
  have inIQ : after.inIQ = (inst.isMemRef && inst.inIQ) := same.inIQ
  have issued : after.issued = true := same.issued
  have memOpDone : after.memOpDone = inst.memOpDone := same.memOpDone
  have squashedInIQ : after.squashedInIQ = inst.squashedInIQ := same.squashedInIQ
  constructor
  case unknown => exact unknown_of_known known same.inserted
  case single => exact single
  case access =>
    intro _ access
    rw [isMemRef] at access
    rw [inIQ, memOpDone, squashedInIQ, access, flags.access known access]
    rfl
  case other =>
    intro _ other
    rw [isMemRef] at other
    rw [inIQ, issued, other]
    rfl
  case done =>
    intro done
    rw [memOpDone, undone] at done
    cases done
  case idle => exact fun _ idles => absurd idles starts.1
  case heldBack => exact fun back => absurd back starts.2
  case running => exact fun _ => issued
  case squashed =>
    intro squashed
    rw [squashedInIQ, unsquashed] at squashed
    cases squashed
  case finished =>
    intro completed
    rw [same.completed] at completed
    rw [inIQ, flags.finished completed, Bool.and_false]
  case load => exact flags.load_of_same same.isLoad isMemRef

/-- An instruction whose result is written back holds its entry exactly if it
accesses memory, and then gives it back. -/
theorem writeback
    (runs : running) (somewhere : 0 < places) (nowhere : places' = 0) (gone : ¬ idle' ∧ ¬ heldBack')
    (same : SameEntry
      { inst with completed := true, inIQ := false, memOpDone := inst.isMemRef } after) :
    Flags after idle' heldBack' running' places' := by
  have undone := flags.memOpDone_eq_false somewhere
  have known := flags.inserted_of_somewhere somewhere
  have isMemRef : after.isMemRef = inst.isMemRef := same.isMemRef
  have inIQ : after.inIQ = false := same.inIQ
  have issued : after.issued = true := same.issued.trans (flags.running runs)
  have memOpDone : after.memOpDone = inst.isMemRef := same.memOpDone
  constructor
  case unknown => exact unknown_of_known known same.inserted
  case single => omega
  case access =>
    intro _ access
    rw [isMemRef] at access
    rw [inIQ, memOpDone, access]
    rfl
  case other =>
    intro _ _
    rw [inIQ, issued]
    rfl
  case done => exact fun _ => ⟨issued, nowhere⟩
  case idle => exact fun _ idles => absurd idles gone.1
  case heldBack => exact fun back => absurd back gone.2
  case running => exact fun _ => issued
  case squashed =>
    intro squashed
    rw [same.squashedInIQ] at squashed
    exact ⟨issued, same.squashed (flags.squashed squashed).2⟩
  case finished => exact fun _ => inIQ
  case load => exact flags.load_of_same same.isLoad isMemRef

/-- A memory access whose result is written back holds its entry. -/
theorem access_holds
    (access : inst.isMemRef = true) (live : inst.squashed = false) (somewhere : 0 < places) :
    inst.inIQ = true := by
  have undone := flags.memOpDone_eq_false somewhere
  have unsquashed := flags.squashedInIQ_eq_false live
  have known := flags.inserted_of_somewhere somewhere
  rw [flags.access known access, undone, unsquashed]
  rfl

/-- The queue squashes an instruction that has not been squashed yet. -/
theorem squash
    (known : inst.inserted = true) (fewer : places' ≤ places) (idles : idle' → idle)
    (holdsBack : heldBack' → heldBack) (runs : running' → running)
    (same : SameEntry
      (if inst.inIQ = true then
        { inst with squashedInIQ := true, squashed := true, issued := true, inIQ := false }
      else inst) after) :
    Flags after idle' heldBack' running' places' := by
  cases holder : inst.inIQ
  case false =>
    rw [holder] at same
    exact flags.move same fewer (fun idle => .inl (idles idle))
      (fun back => .inl (holdsBack back)) runs
  case true =>
    rw [holder, if_pos rfl] at same
    have issued : after.issued = true := same.issued
    have isMemRef : after.isMemRef = inst.isMemRef := same.isMemRef
    have inIQ : after.inIQ = false := same.inIQ
    have squashedInIQ : after.squashedInIQ = true := same.squashedInIQ
    have memOpDone : after.memOpDone = inst.memOpDone := same.memOpDone
    constructor
    case unknown => exact unknown_of_known known same.inserted
    case single => exact le_trans fewer flags.single
    case access =>
      intro _ _
      rw [inIQ, squashedInIQ, Bool.not_true, Bool.and_false]
    case other =>
      intro _ _
      rw [inIQ, issued]
      rfl
    case done =>
      intro done
      rw [memOpDone] at done
      have nowhere := (flags.done done).2
      exact ⟨issued, by omega⟩
    case idle => exact fun _ _ => .inr squashedInIQ
    case heldBack =>
      intro back
      rw [isMemRef]
      exact flags.heldBack (holdsBack back)
    case running => exact fun _ => issued
    case squashed => exact fun _ => ⟨issued, same.squashed rfl⟩
    case finished => exact fun _ => inIQ
    case load => exact flags.load_of_same same.isLoad isMemRef

/-- The test that a squash makes is whether the entry is held. -/
theorem squash_test (known : inst.inserted = true) (unsquashed : inst.squashedInIQ = false) :
    (!inst.issued || (inst.isMemRef && !inst.memOpDone)) = inst.inIQ := by
  cases access : inst.isMemRef
  case false =>
    rw [flags.other known access, Bool.false_and, Bool.or_false]
  case true =>
    rw [flags.access known access, unsquashed]
    cases done : inst.memOpDone
    case false => simp
    case true => simp [(flags.done done).1]

end

end Flags

end Sched
end Dolma

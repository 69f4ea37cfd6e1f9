import Dolma.Access.Stall

/-!
# Stalls are transparent

An instruction that was stalled any number of times and is then executed without a
restriction ends as if it had never been stalled.
-/

namespace Dolma
namespace Access

open Mem Tlb

/-- A load or store before its first execution. -/
def MemInst.new (isStore : Bool) (addr : Addr) (size : Nat) (flags : BitVec 64) : MemInst where
  isStore := isStore
  addr := addr
  size := size
  flags := flags

/-- A stalled instruction is released once it is not restricted. -/
def MemInst.release (inst : MemInst) : MemInst :=
  { inst with restricted := false, stalled := false }

/-- Restricted executions that all ended with a stall, in the states of the machine
they were made in, latest first. -/
inductive StalledAttempts {σ : Type} (params : Params σ) (inst : MemInst) :
    List (World σ) → MemInst → Prop where
  | start : StalledAttempts params inst [] inst
  | stall {worlds : List (World σ)} {between after : MemInst} {world later : World σ}
      {outcome : ReadOutcome}
      (earlier : StalledAttempts params inst worlds between)
      (returned : execute params { between with restricted := true } world outcome =
        some (after, later))
      (stalled : after.stalled = true) :
      StalledAttempts params inst (world :: worlds) after.release

/-- What happens to an instruction that is not restricted. -/
inductive Step (σ : Type) where
  | execute (world : World σ) (outcome : ReadOutcome)
  | walk (half : Half) (fault : Option Tlb.Fault) (req : Request)

/-- The steps of an instruction, with the states that its executions leave. -/
def run {σ : Type} (params : Params σ) :
    MemInst → List (Step σ) → Option (MemInst × List (World σ))
  | inst, [] => some (inst, [])
  | inst, .execute world outcome :: rest =>
      (execute params inst world outcome).bind fun executed =>
        (run params executed.1 rest).map fun ended => (ended.1, executed.2 :: ended.2)
  | inst, .walk half fault req :: rest => run params (finishWalk inst half fault req) rest

/-- Two instructions end alike: with the same fault, the same order once it is
known, and the same addresses, flags and requests once the address is known or if
the leftovers are the same. -/
structure SameEnd (same : Prop) (left right : MemInst) : Prop where
  frame : left = { right with strictlyOrdered := left.strictlyOrdered, resolved := left.resolved }
  order : right.isTranslationDelayed = false → left.strictlyOrdered = right.strictlyOrdered
  resolved : right.resolved.effAddrValid = true → left.resolved = right.resolved
  kept : same → left.resolved = right.resolved

section Steps

variable {σ : Type} {params : Params σ} {split : Bool} {same : Prop} {left right : MemInst}

theorem Converges.sameEnd (converges : Converges split same left right) :
    SameEnd same left right := by
  rcases converges with rfl | pending
  · exact ⟨rfl, fun _ => rfl, fun _ => rfl, fun _ => rfl⟩
  · constructor
    case frame =>
      rw [pending.alike.frame, pending.fault]
    case order =>
      intro ended
      refine (pending.alike.answered ?_).2
      simpa [MemInst.isTranslationDelayed, pending.started] using ended
    case resolved =>
      intro valid
      rw [pending.invalid] at valid
      cases valid
    case kept => exact pending.alike.kept

/-- The instructions converge, and the states that they leave are the same. -/
def Follows {α : Type} (split : Bool) (same : Prop) (left right : MemInst × α) : Prop :=
  Converges split same left.1 right.1 ∧ left.2 = right.2

variable {worlds : List (World σ)} {world : World σ}

/-- Instructions whose executions follow each other go on alike. -/
theorem run_execute
    (executed : Option.Rel (Follows split same) (execute params left world outcome)
      (execute params right world outcome))
    (goesOn : ∀ {left right : MemInst}, Converges split same left right →
      Option.Rel (Follows split same) (run params left rest) (run params right rest)) :
    Option.Rel (Follows split same) (run params left (.execute world outcome :: rest))
      (run params right (.execute world outcome :: rest)) := by
  simp only [run]
  generalize execute params left world outcome = first at executed
  generalize execute params right world outcome = second at executed
  cases executed with
  | none => exact .none
  | @some leftAfter rightAfter related =>
      have ended := goesOn related.1
      simp only [Option.bind_some]
      generalize run params leftAfter.1 rest = leftEnd at ended
      generalize run params rightAfter.1 rest = rightEnd at ended
      cases ended with
      | none => exact .none
      | some ends =>
          refine .some ⟨ends.1, ?_⟩
          simp only [related.2, ends.2]

/-- Instructions that converge go through any steps alike. -/
theorem Converges.run (converges : Converges split same left right) (steps : List (Step σ)) :
    Option.Rel (Follows split same) (run params left steps) (run params right steps) := by
  induction steps generalizing left right with
  | nil => exact .some ⟨converges, rfl⟩
  | cons step rest ih =>
      cases step with
      | walk half fault req => exact ih (converges.finishWalk half fault req)
      | execute world outcome =>
          exact run_execute (converges.execute world outcome) ih

/-- What stalled executions have left in an instruction that was new. -/
structure Leftover
    (params : Params σ) (inst : MemInst) (worlds : List (World σ)) (stalled : MemInst) : Prop where
  frame : stalled =
    { inst with
      fault := stalled.fault, strictlyOrdered := stalled.strictlyOrdered
      resolved := stalled.resolved }
  high : (inst.requests params).split.isSome = false →
    stalled.resolved.physEffAddrHigh = inst.resolved.physEffAddrHigh
  passes : stalled.resolved = inst.resolved ∨ ∃ world ∈ worlds, Passes params inst world

variable {inst stalled : MemInst}

/-- Leftovers are no obstacle to a translation. -/
theorem Leftover.alike
    (leftover : Leftover params inst worlds stalled)
    (incomplete : inst.translationCompleted = false) :
    Alike (inst.requests params).split.isSome (stalled.resolved = inst.resolved) stalled
      inst where
  frame := leftover.frame
  high := leftover.high
  answered completed := nomatch incomplete.symm.trans completed
  located completed := nomatch incomplete.symm.trans completed
  kept := id

/-- An instruction before its first execution that is not restricted. -/
structure MemInst.IsNew (inst : MemInst) : Prop extends inst.Idle where
  unrestricted : inst.restricted = false
  invalid : inst.resolved.effAddrValid = false

/-- The first unrestricted translation is that of a new instruction. -/
theorem Leftover.translated
    (leftover : Leftover params inst worlds stalled) (isNew : inst.IsNew) (world : World σ) :
    Option.Rel
      (Translated (inst.requests params).split.isSome (stalled.resolved = inst.resolved))
      (initiateTranslation params stalled (inst.requests params) world)
      (initiateTranslation params inst (inst.requests params) world) :=
  (leftover.alike isNew.incomplete).initiateTranslation isNew.unrestricted isNew.unstalled
    isNew.incomplete isNew.invalid isNew.unsaved

/-- Where the translation of a stalled instruction passes, that of the new one
does. -/
theorem Leftover.passes_new
    (leftover : Leftover params inst worlds stalled) (isNew : inst.IsNew)
    (passes : Passes params stalled world) :
    Passes params inst world := by
  obtain ⟨access, returned, completed, clear⟩ := passes
  have translated := leftover.translated isNew world
  have requests : stalled.requests params = inst.requests params := by
    rw [leftover.frame]
    rfl
  have unrestricted : ({ stalled with restricted := false } : MemInst) = stalled := by
    rw [leftover.frame, isNew.unrestricted]
  rw [requests, unrestricted] at returned
  rw [returned] at translated
  generalize found : initiateTranslation params inst (inst.requests params) world = plain
    at translated
  cases translated with
  | @some _ plain related =>
      refine ⟨plain, ?_, ?_⟩
      · have same : ({ inst with restricted := false } : MemInst) = inst := by
          rw [← isNew.unrestricted]
        rw [same]
        exact found
      · exact ⟨related.alike.frame_eq.1.symm.trans completed, related.fault.symm.trans clear⟩

/-- Stalled executions leave a fault and addresses. -/
theorem StalledAttempts.leftover
    (isNew : inst.IsNew) (attempts : StalledAttempts params inst worlds stalled) :
    Leftover params inst worlds stalled := by
  induction attempts with
  | start => exact ⟨rfl, fun _ => rfl, .inl rfl⟩
  | @stall worlds between after world later outcome earlier returned stalled
      ih =>
      have idle : ({ between with restricted := true } : MemInst).Idle := by
        rw [ih.frame]
        exact { isNew.toIdle with }
      have requests : ({ between with restricted := true } : MemInst).requests params =
          inst.requests params := by
        rw [ih.frame]
        rfl
      obtain ⟨-, fault, order, resolved, rfl, how⟩ := execute_stalled rfl idle returned stalled
      constructor
      case frame =>
        rw [ih.frame]
        simp [MemInst.release, isNew.unrestricted, isNew.unstalled]
      case high =>
        intro whole
        rcases how with same | ⟨-, kept⟩
        · exact (congrArg Resolved.physEffAddrHigh same).trans (ih.high whole)
        · rw [requests] at kept
          exact (kept whole).trans (ih.high whole)
      case passes =>
        rcases how with same | ⟨passes, -⟩
        · refine ih.passes.imp (fun equal => same.trans equal) ?_
          rintro ⟨earlierWorld, member, passes⟩
          exact ⟨earlierWorld, List.mem_cons_of_mem _ member, passes⟩
        · right
          exact ⟨world, List.mem_cons_self, ih.passes_new isNew passes⟩

/-- The first unrestricted execution of a stalled instruction. -/
theorem Leftover.execute
    (leftover : Leftover params inst worlds stalled) (isNew : inst.IsNew) (world : World σ)
    (outcome : ReadOutcome) :
    Option.Rel
      (Follows (inst.requests params).split.isSome (∀ earlier ∈ worlds, earlier = world))
      (Access.execute params stalled world outcome)
      (Access.execute params inst world outcome) := by
  have begins : beginAccess params stalled world =
        initiateTranslation params stalled (inst.requests params) world ∧
      beginAccess params inst world =
        initiateTranslation params inst (inst.requests params) world := by
    unfold beginAccess
    rw [leftover.frame, isNew.unstarted]
    exact ⟨rfl, rfl⟩
  have translated := leftover.translated isNew world
  rw [execute_eq, execute_eq, begins.1, begins.2]
  generalize Access.initiateTranslation params stalled (inst.requests params) world = first
    at translated
  generalize found : Access.initiateTranslation params inst (inst.requests params) world = second
    at translated
  cases translated with
  | none => exact .none
  | @some left right related =>
      refine .some ⟨?_, related.world⟩
      obtain ⟨converges, equal⟩ := related.concluded outcome
      rcases converges with same | pending
      · exact .inl same
      · refine .inr { pending with alike := { pending.alike with kept := fun alone => ?_ } }
        rcases leftover.passes with kept | ⟨earlier, member, passes⟩
        · exact pending.alike.kept kept
        · -- the addresses that were left are found once more
          obtain ⟨access, returned, completed, clear⟩ := passes
          have plain : ({ inst with restricted := false } : MemInst) = inst := by
            rw [← isNew.unrestricted]
          rw [plain, alone earlier member, found] at returned
          cases returned
          exact congrArg MemInst.resolved (equal completed clear)

end Steps

/-- A load or store that was stalled any number of times has not executed, and from its first
unrestricted execution on it goes through any steps as one that was never stalled. It ends with
the same fault, and once the address is known with the same fields. If the machine was the same
at the stalled executions, nothing of them is left. -/
theorem stalls_transparent
    {σ : Type} (params : Params σ) (isStore : Bool) (addr : Addr) (size : Nat) (flags : BitVec 64)
    (worlds : List (World σ)) (stalled : MemInst)
    (attempts : StalledAttempts params (.new isStore addr size flags) worlds stalled)
    (world : World σ) (outcome : ReadOutcome) (steps : List (Step σ)) :
    stalled.executed = false ∧
      Option.Rel
        (fun left right =>
          SameEnd (∀ earlier ∈ worlds, earlier = world) left.1 right.1 ∧ left.2 = right.2)
        (run params stalled (.execute world outcome :: steps))
        (run params (.new isStore addr size flags) (.execute world outcome :: steps)) := by
  have isNew : (MemInst.new isStore addr size flags).IsNew :=
    ⟨⟨rfl, rfl, rfl, rfl, rfl, rfl⟩, rfl, rfl⟩
  have leftover := attempts.leftover isNew
  refine ⟨?_, ?_⟩
  · rw [leftover.frame]
    rfl
  · have ended := run_execute (leftover.execute isNew world outcome)
      fun converges => converges.run steps
    generalize run params stalled (.execute world outcome :: steps) = leftEnd at ended ⊢
    generalize run params (.new isStore addr size flags) (.execute world outcome :: steps) =
      rightEnd at ended ⊢
    cases ended with
    | none => exact .none
    | some ends => exact .some ⟨ends.1.sameEnd, ends.2⟩

/-- A machine with one page in its translation buffer. -/
def emulated : Params Unit where
  config := { mode := 1 }
  machine := emulation
  tc := pagedThread false
  cacheLineSize := 64

/-- A load that crosses the end of the page. -/
def crossing : MemInst := .new false 0x1ffc 8 9

/-- A load whose high half misses. Its stall leaves a protection fault, and the load
ends with the page fault. -/
theorem stalls_transparent_crossing :
    ∃ stalled,
      StalledAttempts emulated crossing [onePage] stalled ∧
      stalled.fault = some (.translation (.generalProtection 0)) ∧
      stalled.executed = false ∧
      ((run emulated crossing [.execute onePage .reads]).map fun ended => ended.1.fault) =
        some (some (.translation (.pageFault 0x2000 true .read true false))) ∧
      Option.Rel
        (fun left right =>
          SameEnd (∀ earlier ∈ [onePage], earlier = onePage) left.1 right.1 ∧ left.2 = right.2)
        (run emulated stalled [.execute onePage .reads])
        (run emulated crossing [.execute onePage .reads]) := by
  have stalls : ((execute emulated { crossing with restricted := true } onePage .reads).map
      fun attempt => (attempt.1.stalled, attempt.1.fault)) =
        some (true, some (.translation (.generalProtection 0))) := by decide
  obtain ⟨attempt, returned, ends⟩ := Option.map_eq_some_iff.mp stalls
  obtain ⟨stalled, fault⟩ := Prod.mk.inj ends
  have attempts := StalledAttempts.stall .start returned stalled
  obtain ⟨unexecuted, ended⟩ :=
    stalls_transparent emulated false 0x1ffc 8 9 _ _ attempts onePage .reads []
  exact ⟨_, attempts, fault, unexecuted, by decide, ended⟩

end Access
end Dolma

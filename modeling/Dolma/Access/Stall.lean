import Dolma.Access.Restart
import Dolma.Tlb.Hit

/-!
# Stalled attempts

A restricted attempt that misses the translation buffer or the cache leaves the
machine as it was. It may leave a fault and addresses in the instruction, and it
leaves addresses only where the unrestricted translation gets through.
-/

namespace Dolma
namespace Access

open Mem Tlb

section Answers

variable {state : WholeTranslationState} {half : Half} {fault : Option Tlb.Fault}
  {req : Request}

@[simp] theorem finish_outstanding :
    (state.finish half fault).outstanding = state.outstanding - 1 := by
  unfold WholeTranslationState.finish
  cases half
  all_goals
    dsimp only
    split
    · rfl
    · split <;> rfl

@[simp] theorem finish_faultLow :
    (state.finish half fault).faultLow = if half = .low then fault else state.faultLow := by
  unfold WholeTranslationState.finish
  cases half
  all_goals
    dsimp only
    split
    · rfl
    · split <;> rfl

@[simp] theorem finish_faultHigh :
    (state.finish half fault).faultHigh = if half = .high then fault else state.faultHigh := by
  unfold WholeTranslationState.finish
  cases half
  all_goals
    dsimp only
    split
    · rfl
    · split <;> rfl

/-- An answer leaves the requests that are translated. -/
@[simp] theorem finish_part (other : Half) :
    (state.finish half fault).part other = state.part other := by
  unfold WholeTranslationState.finish
  cases half
  all_goals
    dsimp only
    split
    · cases other <;> rfl
    case h_2 halves =>
      split <;> cases other <;> simp [WholeTranslationState.part, halves]

@[simp] theorem setPart_outstanding : (state.setPart half req).outstanding = state.outstanding :=
  rfl

@[simp] theorem setPart_faultLow : (state.setPart half req).faultLow = state.faultLow := rfl

@[simp] theorem setPart_faultHigh : (state.setPart half req).faultHigh = state.faultHigh := rfl

@[simp] theorem setPart_part : (state.setPart half req).part half = req := by
  unfold WholeTranslationState.setPart
  cases half
  all_goals
    dsimp only
    split <;> simp_all [WholeTranslationState.part]

theorem setPart_low_high (split : state.reqs.split.isSome = true) :
    (state.setPart .low req).part .high = state.part .high := by
  obtain ⟨halves, found⟩ := Option.isSome_iff_exists.mp split
  simp [WholeTranslationState.setPart, WholeTranslationState.part, found]

end Answers

section Translate

variable {σ : Type} {params : Params σ} {half : Half} {access : Translation σ}

/-- The instruction and its translation after an answer. -/
def answered (half : Half) (access : Translation σ) (outcome : Outcome σ) : Translation σ :=
  let finished := (access.state.setPart half outcome.req).finish half outcome.fault
  { inst := access.inst.answer finished, state := finished, world := outcome.world }
variable {outcome : Outcome σ}

theorem translateTiming_answered
    (returned : translate params.machine params.tc access.inst.mode
      (access.state.part half) access.world = some outcome)
    (prompt : outcome.delayedResponse = false) :
    translateTiming params half access = some (answered half access outcome) := by
  unfold translateTiming
  rw [returned]
  simp [prompt, answered]

/-- A part of a translation stalls the access or goes on. -/
theorem translatePart_cases
    (restricted : (access.state.part half).isRestricted = true)
    (returned : translatePart params half next access = some after) :
    ∃ outcome,
      translate params.machine params.tc access.inst.mode (access.state.part half)
        access.world = some outcome ∧
      outcome.world = access.world ∧
      ((access.inst.restricted = true ∧ outcome.fault.isSome = true ∧
          after =
            { answered half access outcome with
              inst := (answered half access outcome).inst.setDolmaStalled }) ∨
        ((access.inst.restricted = true →
            misses params.machine params.tc access.inst.mode (access.state.part half)
              access.world.tlb = false) ∧
          next (answered half access outcome) = some after)) := by
  obtain ⟨answer, translated, goesOn⟩ := Option.bind_eq_some_iff.mp returned
  obtain ⟨outcome, found, -⟩ := Option.map_eq_some_iff.mp translated
  obtain ⟨prompt, keeps⟩ := translate_restricted_answer restricted found
  rw [translateTiming_answered found prompt] at translated
  cases translated
  refine ⟨outcome, found, translate_restricted_world restricted found, ?_⟩
  have part : (answered half access outcome).state.part half = outcome.req := by
    simp [answered]
  have missed : access.inst.missed (access.state.part half) outcome.req =
      (access.inst.restricted && !outcome.req.isRestricted) := by
    simp [MemInst.missed, restricted]
  rw [part, missed] at goesOn
  cases hit : misses params.machine params.tc access.inst.mode (access.state.part half)
      access.world.tlb with
  | false =>
      rw [keeps hit, Bool.not_true, Bool.and_false] at goesOn
      exact .inr ⟨fun _ => rfl, goesOn⟩
  | true =>
      rw [translate_restricted_miss restricted hit] at found
      cases found
      rw [Request.isRestricted_clearUnsafe, Bool.not_false, Bool.and_true] at goesOn
      split at goesOn
      case isTrue held => exact .inl ⟨held, rfl, (Option.some.inj goesOn).symm⟩
      case isFalse free => exact .inr ⟨fun held => absurd held free, goesOn⟩

theorem translatePart_unrestricted
    (unrestricted : access.inst.restricted = false)
    (returned : translate params.machine params.tc access.inst.mode
      (access.state.part half) access.world = some outcome)
    (prompt : outcome.delayedResponse = false) :
    translatePart params half next access = next (answered half access outcome) := by
  unfold translatePart
  rw [translateTiming_answered returned prompt]
  simp [MemInst.missed, unrestricted]

end Translate

section Attempt

variable {σ : Type} {params : Params σ} {inst : MemInst} {world : World σ}

/-- The access at the start of its translation. -/
def begun (params : Params σ) (inst : MemInst) (reqs : Requests) (world : World σ) :
    Translation σ where
  inst :=
    { inst with
      translationStarted := true
      dolmaVirtualReq :=
        if inst.isMarked params.config then some reqs else inst.dolmaVirtualReq }
  state := .start (if inst.isMarked params.config then reqs.setUnsafe else reqs)
  world := world

/-- The end of the start of a translation. -/
def saveRequests (access : Translation σ) : Option (Translation σ) :=
  some { access with inst := access.inst.save access.state }

/-- The translation goes through one or two parts. -/
theorem initiateTranslation_eq (reqs : Requests) :
    initiateTranslation params inst reqs world =
      if reqs.split.isSome then
        translatePart params .low (translatePart params .high saveRequests)
          (begun params inst reqs world)
      else translatePart params .low saveRequests (begun params inst reqs world) :=
  rfl

variable {access : Translation σ}

/-- Nothing is kept of a complete translation. -/
theorem saveRequests_complete (completed : access.inst.translationCompleted = true) :
    saveRequests access = some access := by
  unfold saveRequests MemInst.save
  rw [if_pos completed]

/-- Nothing of an access is under way. -/
structure MemInst.Idle (inst : MemInst) : Prop where
  unstalled : inst.stalled = false
  unstarted : inst.translationStarted = false
  incomplete : inst.translationCompleted = false
  unsaved : inst.saved = none
  noVirtual : inst.dolmaVirtualReq = none
  noPhysical : inst.dolmaPhysicalReq = none

/-- The requests of an instruction. -/
def MemInst.requests (params : Params σ) (inst : MemInst) : Requests :=
  splitRequest params.cacheLineSize
    { vaddr := inst.addr, size := inst.size, flags := inst.flags }

/-- The unrestricted translation of the access is complete at once, without a
fault. -/
def Passes (params : Params σ) (inst : MemInst) (world : World σ) : Prop :=
  ∃ access,
    initiateTranslation params { inst with restricted := false } (inst.requests params) world =
      some access ∧
    access.inst.translationCompleted = true ∧ access.inst.fault = none

/-- A part of the begun translation. -/
theorem begun_part (reqs : Requests) (half : Half) :
    (begun params inst reqs world).state.part half =
      if inst.isMarked params.config then ((WholeTranslationState.start reqs).part half).setUnsafe
      else (WholeTranslationState.start reqs).part half := by
  unfold begun
  cases inst.isMarked params.config with
  | false => rfl
  | true =>
      simp only [if_true, WholeTranslationState.part, WholeTranslationState.start,
        Requests.setUnsafe]
      cases reqs.split <;> cases half <;> rfl

/-- All parts of an access carry the flags of the instruction. -/
theorem requests_flags (half : Half) :
    ((WholeTranslationState.start (inst.requests params)).part half).flags = inst.flags := by
  unfold MemInst.requests splitRequest
  cases half
  all_goals
    simp only [WholeTranslationState.part, WholeTranslationState.start]
    split <;> rfl

/-- Both halves are restricted or none is. -/
theorem begun_restricted (half other : Half) :
    ((begun params inst (inst.requests params) world).state.part half).isRestricted =
      ((begun params inst (inst.requests params) world).state.part other).isRestricted := by
  rw [begun_part, begun_part]
  unfold Request.isRestricted Request.isSet
  split
  · rw [Request.setUnsafe_flags, Request.setUnsafe_flags, requests_flags, requests_flags]
  · rw [requests_flags, requests_flags]

variable {half : Half} {reqs : Requests} {mode : Mode} {outcome : ReadOutcome}

/-- A restricted part that does not miss is seen as the part itself. -/
theorem begun_seen
    (hit : misses params.machine params.tc mode
      ((begun params inst reqs world).state.part half) world.tlb = false) :
    misses params.machine params.tc mode ((WholeTranslationState.start reqs).part half)
        world.tlb = false ∧
      (translate params.machine params.tc mode ((WholeTranslationState.start reqs).part half)
          world).map Outcome.seen =
        (translate params.machine params.tc mode
          ((begun params inst reqs world).state.part half) world).map Outcome.seen := by
  rw [begun_part] at hit ⊢
  split
  case isTrue marked =>
    rw [if_pos marked, misses_setUnsafe] at hit
    exact ⟨hit, (translate_hit_setUnsafe hit).symm⟩
  case isFalse plain =>
    rw [if_neg plain] at hit
    exact ⟨hit, rfl⟩

/-- The last answer ends a translation without a fault. -/
theorem answered_passes
    {outcome : Outcome σ} (last : access.state.outstanding = 1)
    (low : half = .high → access.state.faultLow = none)
    (high : half = .low → access.state.faultHigh = none) (clear : outcome.fault = none) :
    (answered half access outcome).inst.translationCompleted = true ∧
      (answered half access outcome).inst.fault = none := by
  have complete : ((access.state.setPart half outcome.req).finish half
      outcome.fault).outstanding = 0 := by
    simp [last]
  have faultless : ((access.state.setPart half outcome.req).finish half
      outcome.fault).getFault = none := by
    cases half
    all_goals
      simp [WholeTranslationState.getFault, clear, low, high]
  simp only [answered, MemInst.answer, complete, if_true, MemInst.finishTranslation, faultless,
    Option.map_none, and_self]

/-- A part of a restricted translation hits and is answered at once without a fault. -/
structure PassesPart
    (params : Params σ) (inst : MemInst) (world : World σ) (half : Half) (outcome : Outcome σ) :
    Prop where
  found : translate params.machine params.tc inst.mode
    ((begun params inst (inst.requests params) world).state.part half) world = some outcome
  hit : misses params.machine params.tc inst.mode
    ((begun params inst (inst.requests params) world).state.part half) world.tlb = false
  prompt : outcome.delayedResponse = false
  clear : outcome.fault = none

/-- The part also passes without the restriction, and when entries have been used. -/
theorem PassesPart.exists_plain
    {other : World σ} {outcome : Outcome σ} (passes : PassesPart params inst world half outcome)
    (same : SameEntries other.tlb world.tlb) :
    ∃ plain, translate params.machine params.tc inst.mode
        ((WholeTranslationState.start (inst.requests params)).part half) other = some plain ∧
      plain.delayedResponse = false ∧ plain.fault = none := by
  obtain ⟨hit, seen⟩ := begun_seen passes.hit
  have seen := (translate_hit_seen same hit).trans seen
  rw [passes.found, Option.map_some] at seen
  obtain ⟨plain, returned, shown⟩ := Option.map_eq_some_iff.mp seen
  simp only [Outcome.seen, Prod.mk.injEq] at shown
  exact ⟨plain, returned, shown.2.1.trans passes.prompt, shown.1.trans passes.clear⟩

/-- An access in one piece passes where its restricted translation does. -/
theorem passes_whole
    {outcome : Outcome σ} (whole : (inst.requests params).split.isSome = false)
    (part : PassesPart params inst world .low outcome) :
    Passes params inst world := by
  obtain ⟨plain, returned, promptly, faultless⟩ := part.exists_plain (.refl _)
  let access := begun params { inst with restricted := false } (inst.requests params) world
  have ends : (answered .low access plain).inst.translationCompleted = true ∧
      (answered .low access plain).inst.fault = none := by
    refine answered_passes ?_ (fun other => nomatch other) (fun _ => rfl) faultless
    simp [access, begun, MemInst.isMarked, WholeTranslationState.start, whole]
  refine ⟨answered .low access plain, ?_, ends⟩
  rw [initiateTranslation_eq, whole, if_neg Bool.false_ne_true, ← saveRequests_complete ends.1]
  refine translatePart_unrestricted rfl ?_ promptly
  rw [begun_part]
  exact returned

/-- An access in two halves passes where its restricted translation does. The use of
the first half does not change what is seen of the second. -/
theorem passes_split
    {low high : Outcome σ} (split : (inst.requests params).split.isSome = true)
    (lowPart : PassesPart params inst world .low low)
    (highPart : PassesPart params inst world .high high) :
    Passes params inst world := by
  obtain ⟨plain, returned, promptly, faultless⟩ := lowPart.exists_plain (.refl _)
  have kept := translate_hit_entries (begun_seen lowPart.hit).1 returned
  obtain ⟨second, returnedHigh, promptlyHigh, faultlessHigh⟩ := highPart.exists_plain kept
  let access := begun params { inst with restricted := false } (inst.requests params) world
  have first : (answered .low access plain).state.outstanding = 1 ∧
      (answered .low access plain).state.faultLow = none ∧
        (answered .low access plain).inst = access.inst := by
    have pending : ((access.state.setPart .low plain.req).finish .low
        plain.fault).outstanding = 1 := by
      simp [access, begun, MemInst.isMarked, WholeTranslationState.start, split]
    refine ⟨pending, by simp [answered, faultless], ?_⟩
    simp only [answered, MemInst.answer, pending]
    rfl
  have ends : (answered .high (answered .low access plain) second).inst.translationCompleted =
        true ∧
      (answered .high (answered .low access plain) second).inst.fault = none :=
    answered_passes first.1 (fun _ => first.2.1) (fun other => nomatch other) faultlessHigh
  refine ⟨answered .high (answered .low access plain) second, ?_, ends⟩
  rw [initiateTranslation_eq, split, if_pos rfl, ← saveRequests_complete ends.1]
  have goesOn : translatePart params .low (translatePart params .high saveRequests) access =
      translatePart params .high saveRequests (answered .low access plain) := by
    refine translatePart_unrestricted rfl ?_ promptly
    rw [begun_part]
    exact returned
  refine goesOn.trans (translatePart_unrestricted ?_ ?_ promptlyHigh)
  · rw [first.2.2]
    rfl
  · have part : (answered .low access plain).state.part .high =
        (WholeTranslationState.start (inst.requests params)).part .high := by
      have plainPart : access.state.part .high =
          (WholeTranslationState.start (inst.requests params)).part .high := by
        rw [begun_part]
        rfl
      simp only [answered, finish_part]
      rw [setPart_low_high, plainPart]
      exact split
    rw [part, first.2.2]
    exact returnedHigh

/-- The first answer leaves the instruction. -/
theorem answered_first {outcome : Outcome σ} (first : access.state.outstanding = 2) :
    (answered half access outcome).inst = access.inst ∧
      (answered half access outcome).state.outstanding = 1 := by
  have pending : ((access.state.setPart half outcome.req).finish half
      outcome.fault).outstanding = 1 := by
    simp [first]
  refine ⟨?_, pending⟩
  simp only [answered, MemInst.answer, pending]
  rfl

/-- The last answer completes the translation. -/
theorem answered_last {outcome : Outcome σ} (last : access.state.outstanding = 1) :
    (answered half access outcome).inst =
      access.inst.finishTranslation (answered half access outcome).state := by
  have complete : ((access.state.setPart half outcome.req).finish half
      outcome.fault).outstanding = 0 := by
    simp [last]
  simp only [answered, MemInst.answer, complete, if_true]

/-- A translation of a restricted access has stalled it. -/
structure HasStalled (start : MemInst) (access : Translation σ) : Prop where
  stalls : ∃ fault order completed,
    access.inst =
      { start with
        fault := fault, strictlyOrdered := order
        translationCompleted := completed }.setDolmaStalled ∧
    (completed = true → fault.isSome = true)

/-- A translation of a restricted access is complete. -/
structure IsThrough
    (params : Params σ) (inst start : MemInst) (world : World σ)
    (access : Translation σ) : Prop where
  complete : ∃ state, access.inst = start.finishTranslation state ∧
    state.reqs.split.isSome = (inst.requests params).split.isSome
  passes : access.inst.fault = none → Passes params inst world

theorem last_answer
    (sameInst : access.inst = start) (restricted : start.restricted = true)
    (marked : (access.state.part half).isRestricted = true) (last : access.state.outstanding = 1)
    (halves : half = .high → access.state.reqs.split.isSome = true)
    (shape : access.state.reqs.split.isSome = (inst.requests params).split.isSome)
    (passes : ∀ outcome,
      translate params.machine params.tc access.inst.mode (access.state.part half)
        access.world = some outcome →
      misses params.machine params.tc access.inst.mode (access.state.part half)
        access.world.tlb = false →
      (answered half access outcome).inst.fault = none → Passes params inst world)
    (returned : translatePart params half saveRequests access = some after) :
    after.world = access.world ∧
      (HasStalled start after ∨ IsThrough params inst start world after) := by
  subst sameInst
  obtain ⟨outcome, found, world, ⟨-, faulted, rfl⟩ | ⟨hit, through⟩⟩ :=
    translatePart_cases marked returned
  · refine ⟨world, .inl ⟨?_⟩⟩
    have fault : (answered half access outcome).state.getFault.isSome = true := by
      unfold WholeTranslationState.getFault
      cases half with
      | low =>
          simp only [answered, finish_faultLow, finish_faultHigh, if_true]
          split <;> simp [faulted]
      | high =>
          have split : (answered .high access outcome).state.reqs.split.isSome = true := by
            simpa [answered] using halves rfl
          rw [if_pos split]
          simp [answered, faulted]
    have none : (answered half access outcome).state.getFault.isNone = false := by
      rw [← Option.not_isSome, fault]
      rfl
    refine ⟨(answered half access outcome).state.getFault.map .translation,
      (answered half access outcome).state.reqs.req.isStrictlyOrdered, true,
      congrArg MemInst.setDolmaStalled ?_, fun _ => ?_⟩
    case refine_1 =>
      rw [answered_last last]
      unfold MemInst.finishTranslation
      rw [none, if_neg Bool.false_ne_true]
    case refine_2 =>
      rw [Option.isSome_map]
      exact fault
  · rw [saveRequests_complete (by rw [answered_last last]; rfl)] at through
    cases through
    refine ⟨world, .inr ⟨⟨_, answered_last last, ?_⟩, passes outcome found (hit restricted)⟩⟩
    simpa [answered] using shape

/-- A restricted translation stalls the access or is complete. -/
theorem initiateTranslation_restricted
    (restricted : inst.restricted = true) (incomplete : inst.translationCompleted = false)
    (marked : ((begun params inst (inst.requests params) world).state.part .low).isRestricted =
      true)
    (returned : initiateTranslation params inst (inst.requests params) world = some access) :
    access.world = world ∧
      (HasStalled (begun params inst (inst.requests params) world).inst access ∨
        IsThrough params inst (begun params inst (inst.requests params) world).inst world
          access) := by
  have shape : (begun params inst (inst.requests params) world).state.reqs.split.isSome =
      (inst.requests params).split.isSome := by
    simp only [begun, WholeTranslationState.start]
    split
    · simp [Requests.setUnsafe]
    · rfl
  have outstanding : (begun params inst (inst.requests params) world).state.outstanding =
      if (inst.requests params).split.isSome then 2 else 1 := by
    rw [← shape]
    rfl
  have restrictedStart : (begun params inst (inst.requests params) world).inst.restricted =
      true := restricted
  rw [initiateTranslation_eq] at returned
  cases split : (inst.requests params).split.isSome with
  | false =>
      rw [split, if_neg Bool.false_ne_true] at returned outstanding
      refine last_answer rfl restrictedStart marked outstanding (fun other => nomatch other)
        shape ?_ returned
      intro outcome found hit clear
      have prompt := (translate_restricted_answer marked found).1
      refine passes_whole split ⟨found, hit, prompt, ?_⟩
      rw [answered_last outstanding] at clear
      simpa [MemInst.finishTranslation, WholeTranslationState.getFault, answered, shape, split]
        using clear
  | true =>
      rw [split, if_pos rfl] at returned outstanding
      obtain ⟨low, foundLow, worldLow, ⟨-, -, rfl⟩ | ⟨hitLow, goesOn⟩⟩ :=
        translatePart_cases marked returned
      · -- the low half stalls before the translation is complete
        refine ⟨worldLow, .inl ⟨inst.fault, inst.strictlyOrdered, false, ?_,
          fun impossible => absurd impossible Bool.false_ne_true⟩⟩
        dsimp only
        rw [(answered_first outstanding).1, ← incomplete]
        rfl
      · let second := answered .low (begun params inst (inst.requests params) world) low
        obtain ⟨same, last⟩ : second.inst =
              (begun params inst (inst.requests params) world).inst ∧
            second.state.outstanding = 1 := answered_first outstanding
        have part : second.state.part .high =
            (begun params inst (inst.requests params) world).state.part .high := by
          simp only [second, answered, finish_part]
          exact setPart_low_high (shape.trans split)
        have halves : second.state.reqs.split.isSome = true := by
          simpa [second, answered] using shape.trans split
        have markedHigh : (second.state.part .high).isRestricted = true := by
          rw [part, begun_restricted .high .low]
          exact marked
        refine (last_answer same restrictedStart markedHigh last (fun _ => halves)
          (halves.trans split.symm) ?_ goesOn).imp_left fun kept => kept.trans worldLow
        intro high foundHigh hitHigh clear
        have worldSecond : second.world = world := worldLow
        rw [same, part, worldSecond] at foundHigh hitHigh
        have promptLow := (translate_restricted_answer marked foundLow).1
        rw [part] at markedHigh
        have promptHigh := (translate_restricted_answer markedHigh foundHigh).1
        rw [answered_last last] at clear
        have clear : low.fault = none ∧ high.fault = none := by
          simpa [MemInst.finishTranslation, WholeTranslationState.getFault, answered, second,
            shape, split] using clear
        exact passes_split split ⟨foundLow, hitLow restricted, promptLow, clear.1⟩
          ⟨foundHigh, hitHigh, promptHigh, clear.2⟩

/-- An unrestricted part does not stall the access. -/
theorem translatePart_unmarked
    (unmarked : (access.state.part half).isRestricted = false)
    (returned : translatePart params half next access = some after) :
    ∃ answer, next answer = some after ∧ answer.inst.stalled = access.inst.stalled ∧
      (half = .low → access.state.reqs.split.isSome = true →
        answer.state.part .high = access.state.part .high) := by
  obtain ⟨answer, translated, goesOn⟩ := Option.bind_eq_some_iff.mp returned
  refine ⟨answer, ?_, ?_⟩
  · simpa [MemInst.missed, unmarked] using goesOn
  · obtain ⟨outcome, -, rfl⟩ := Option.map_eq_some_iff.mp translated
    dsimp only
    split
    · refine ⟨rfl, ?_⟩
      rintro rfl split
      exact setPart_low_high split
    · refine ⟨(answer_frame _ _).2.2.1, ?_⟩
      rintro rfl split
      rw [finish_part]
      exact setPart_low_high split

/-- An access that is not marked is not stalled. -/
theorem initiateTranslation_unmarked
    (unmarked : ((begun params inst (inst.requests params) world).state.part .low).isRestricted =
      false)
    (returned : initiateTranslation params inst (inst.requests params) world = some access) :
    access.inst.stalled = inst.stalled := by
  have saves : ∀ before : Translation σ, saveRequests before = some access →
      access.inst.stalled = before.inst.stalled := by
    intro before saved
    cases saved
    exact (save_frame _ _).2.2.1
  rw [initiateTranslation_eq] at returned
  split at returned
  case isFalse =>
    obtain ⟨answer, goesOn, kept, -⟩ := translatePart_unmarked unmarked returned
    exact (saves answer goesOn).trans kept
  case isTrue split =>
    obtain ⟨answer, goesOn, kept, high⟩ := translatePart_unmarked unmarked returned
    have unmarkedHigh : (answer.state.part .high).isRestricted = false := by
      rw [high rfl ?_, begun_restricted .high .low]
      · exact unmarked
      · simp only [begun, WholeTranslationState.start]
        split
        · simpa [Requests.setUnsafe] using split
        · exact split
    obtain ⟨last, goesOn, keptHigh, -⟩ := translatePart_unmarked unmarkedHigh goesOn
    exact (saves last goesOn).trans (keptHigh.trans kept)

@[simp] theorem conclude_stalled (inst : MemInst) : inst.conclude.stalled = inst.stalled := by
  unfold MemInst.conclude
  split
  · rfl
  · split
    · rfl
    · split
      · rfl
      · split <;> rfl

/-- An access that its translation has stalled starts over. -/
theorem concluded_stalled
    (outcome : ReadOutcome) (stalled : access.inst.stalled = true)
    (faulted : access.inst.translationCompleted = true → access.inst.fault.isSome = true) :
    concluded outcome access = access.inst.resetTranslation := by
  have resets : access.inst.conclude = access.inst.resetTranslation := by
    unfold MemInst.conclude
    rw [if_pos stalled]
  unfold concluded writeMem initiateMemRead
  dsimp only
  cases completed : access.inst.translationCompleted with
  | false => simp [resets]
  | true =>
      have none : access.inst.fault.isNone = false := by
        rw [← Option.not_isSome, faulted completed]
        rfl
      simp [none, stalled, resets]

/-- A load stalls after its translation on a restricted miss of the cache only. -/
theorem read_stalled
    (unstalled : inst.stalled = false) (stalled : (inst.read reqs outcome).stalled = true) :
    inst.read reqs outcome =
      { inst with fault := none, dolmaPhysicalReq := none }.setDolmaStalled := by
  cases outcome with
  | refuses lifted =>
      unfold MemInst.read at stalled ⊢
      dsimp only at stalled ⊢
      generalize inst.missed reqs.req (if lifted then reqs.req.clearUnsafe else reqs.req) =
        missed at stalled ⊢
      cases missed with
      | true => rfl
      | false => cases unstalled.symm.trans stalled
  | strictlyOrdered => cases unstalled.symm.trans stalled
  | forwards => cases unstalled.symm.trans stalled
  | reads => cases unstalled.symm.trans stalled
  | reschedules => cases unstalled.symm.trans stalled

/-- A store does not stall after its translation. -/
theorem concluded_store_stalled (store : access.inst.isStore = true) :
    (concluded outcome access).stalled = access.inst.stalled := by
  unfold concluded writeMem
  rw [if_pos store, conclude_stalled]
  dsimp only
  split <;> rfl

/-- A load that has its translation stalls on a restricted miss of the cache, with its
address. -/
theorem concluded_load_stalled
    (load : access.inst.isStore = false) (completed : access.inst.translationCompleted = true)
    (unstalled : access.inst.stalled = false)
    (stalled : (concluded outcome access).stalled = true) :
    access.inst.fault = none ∧
      concluded outcome access =
        ({ access.inst.setEffAddr access.state.reqs with
          fault := none, dolmaPhysicalReq := none }.setDolmaStalled).resetTranslation := by
  cases fault : access.inst.fault with
  | some found =>
      have faulted : access.inst.fault.isNone = false := by
        rw [fault]
        rfl
      rw [concluded_faulted outcome completed unstalled faulted] at stalled
      cases unstalled.symm.trans stalled
  | none =>
      refine ⟨rfl, ?_⟩
      rw [concluded_clear outcome completed fault, load, if_neg Bool.false_ne_true] at stalled ⊢
      rw [conclude_stalled] at stalled
      have addressed : (access.inst.setEffAddr access.state.reqs).stalled = false := unstalled
      rw [read_stalled addressed stalled]
      rfl

/-- A stalled attempt leaves the machine as it was. In the instruction it leaves a
fault, and addresses only where the unrestricted translation is complete. -/
theorem execute_stalled
    (restricted : inst.restricted = true) (idle : inst.Idle)
    (returned : execute params inst world outcome = some (after, later))
    (stalled : after.stalled = true) :
    later = world ∧ ∃ fault order resolved,
      after =
        { inst with
          stalled := true, fault := fault, strictlyOrdered := order, resolved := resolved } ∧
      (resolved = inst.resolved ∨
        Passes params inst world ∧
          ((inst.requests params).split.isSome = false →
            resolved.physEffAddrHigh = inst.resolved.physEffAddrHigh)) := by
  rw [execute_eq] at returned
  obtain ⟨access, begins, same⟩ := Option.map_eq_some_iff.mp returned
  obtain ⟨rfl, rfl⟩ := Prod.mk.inj same
  have kind := beginAccess_isStore begins
  unfold beginAccess at begins
  rw [idle.unstarted, if_neg Bool.false_ne_true] at begins
  cases marked : ((begun params inst (inst.requests params) world).state.part
      .low).isRestricted with
  | false =>
      -- only a store goes unmarked
      have kept := (initiateTranslation_unmarked marked begins).trans idle.unstalled
      cases store : inst.isStore with
      | true => cases ((concluded_store_stalled (kind.trans store)).trans kept).symm.trans stalled
      | false =>
          rw [begun_part, MemInst.isMarked, restricted, store] at marked
          simp at marked
  | true =>
      obtain ⟨kept, hasStalled | isThrough⟩ :=
        initiateTranslation_restricted restricted idle.incomplete marked begins
      · refine ⟨kept, ?_⟩
        obtain ⟨fault, order, completed, sameInst, faulted⟩ := hasStalled.stalls
        rw [concluded_stalled outcome (by rw [sameInst]; rfl) (by rw [sameInst]; exact faulted)]
        refine ⟨fault, order, inst.resolved, ?_, .inl rfl⟩
        rw [sameInst]
        simp [MemInst.resetTranslation, MemInst.setDolmaStalled, begun, idle.unstarted,
          idle.incomplete, idle.noVirtual, idle.noPhysical]
      · refine ⟨kept, ?_⟩
        obtain ⟨state, sameInst, shape⟩ := isThrough.complete
        have unstalled : access.inst.stalled = false := by
          rw [sameInst]
          exact idle.unstalled
        cases store : inst.isStore with
        | true =>
            cases ((concluded_store_stalled (kind.trans store)).trans unstalled).symm.trans stalled
        | false =>
            obtain ⟨clear, equal⟩ := concluded_load_stalled (kind.trans store)
              (by rw [sameInst]; rfl) unstalled stalled
            refine ⟨none, access.inst.strictlyOrdered,
              (access.inst.setEffAddr access.state.reqs).resolved, ?_,
              .inr ⟨isThrough.passes clear, fun whole => ?_⟩⟩
            · rw [equal, sameInst]
              simp [MemInst.resetTranslation, MemInst.setDolmaStalled, MemInst.setEffAddr,
                MemInst.finishTranslation, begun, idle.unstarted, idle.incomplete,
                idle.noVirtual, idle.noPhysical, store]
            · -- the translation of a whole request leaves the high half
              have none : state.reqs.split = none := by
                rw [whole] at shape
                simpa using shape
              rw [sameInst]
              simp only [MemInst.setEffAddr, MemInst.finishTranslation, begun]
              split
              · simp [WholeTranslationState.locate, none]
              · rfl

end Attempt

end Access
end Dolma

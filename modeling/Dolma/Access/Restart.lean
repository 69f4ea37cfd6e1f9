import Dolma.Access.Defs

/-!
# Starting an access over

An unrestricted execution overwrites what earlier executions have left in an
instruction. Two versions of an instruction that differ in such leftovers only go
through every step alike, and are the same once their addresses are known.
-/

namespace Dolma
namespace Access

open Mem Tlb

/-- The same physical addresses and flags. -/
structure SameLocation (left right : Resolved) : Prop where
  low : left.physEffAddrLow = right.physEffAddrLow
  high : left.physEffAddrHigh = right.physEffAddrHigh
  flags : left.memReqFlags = right.memReqFlags

/-- Two versions of an instruction during a translation. They differ in leftovers,
and no longer in the fault and the location once the translation is complete. The
access is split or not, and the leftovers may be known to be the same. -/
structure Alike (split : Bool) (same : Prop) (left right : MemInst) : Prop where
  frame : left =
    { right with
      fault := left.fault, strictlyOrdered := left.strictlyOrdered
      resolved := left.resolved }
  high : split = false → left.resolved.physEffAddrHigh = right.resolved.physEffAddrHigh
  answered : right.translationCompleted = true →
    left.fault = right.fault ∧ left.strictlyOrdered = right.strictlyOrdered
  located : right.translationCompleted = true → right.fault = none →
    SameLocation left.resolved right.resolved
  kept : same → left.resolved = right.resolved

section Shape

variable {state : WholeTranslationState}

/-- An answer changes the requests of a translation, not whether it is split. -/
@[simp] theorem setPart_split (half : Half) (req : Request) :
    (state.setPart half req).reqs.split.isSome = state.reqs.split.isSome := by
  unfold WholeTranslationState.setPart
  cases shape : state.reqs.split with
  | none => rfl
  | some halves => cases half <;> rfl

/-- Finishing a half keeps whether a translation is split. -/
@[simp] theorem finish_split (half : Half) (fault : Option Tlb.Fault) :
    (state.finish half fault).reqs.split.isSome = state.reqs.split.isSome := by
  unfold WholeTranslationState.finish
  cases half
  all_goals
    dsimp only
    cases shape : state.reqs.split with
    | none => simp [shape]
    | some halves =>
        dsimp only
        split <;> simp [shape]

end Shape

namespace Alike

variable {split : Bool} {same : Prop} {left right : MemInst} {state : WholeTranslationState}

/-- The versions agree on the parts of the frame. -/
theorem frame_eq (alike : Alike split same left right) :
    left.translationCompleted = right.translationCompleted ∧ left.isStore = right.isStore ∧
      left.restricted = right.restricted := by
  rw [alike.frame]
  exact ⟨rfl, rfl, rfl⟩

/-- A complete translation without a fault overwrites the location. -/
theorem locate_same
    (alike : Alike split same left right) (shape : state.reqs.split.isSome = split) :
    SameLocation (state.locate left.resolved) (state.locate right.resolved) := by
  unfold WholeTranslationState.locate
  cases halves : state.reqs.split with
  | none =>
      rw [halves] at shape
      exact ⟨rfl, alike.high shape.symm, rfl⟩
  | some halves => exact ⟨rfl, rfl, rfl⟩

/-- An answer to a part of the translation keeps the versions alike. -/
theorem answer (alike : Alike split same left right) (shape : state.reqs.split.isSome = split) :
    Alike split same (left.answer state) (right.answer state) := by
  unfold MemInst.answer
  split
  case isFalse => exact alike
  case isTrue =>
    constructor
    case frame =>
      rw [alike.frame]
      rfl
    case high =>
      intro whole
      have high := alike.high whole
      simp only [MemInst.finishTranslation]
      split
      · have none : state.reqs.split = none := by
          rw [whole] at shape
          exact Option.isSome_eq_false_iff.mp shape |> Option.isNone_iff_eq_none.mp
        simp only [WholeTranslationState.locate, none]
        exact high
      · exact high
    case answered => exact fun _ => ⟨rfl, rfl⟩
    case located =>
      intro _ none
      have clear : state.getFault.isNone = true := by
        simpa [MemInst.finishTranslation] using none
      simp only [MemInst.finishTranslation, clear, if_true]
      exact alike.locate_same shape
    case kept =>
      intro equal
      simp only [MemInst.finishTranslation, alike.kept equal]

/-- After its translation has started the versions carry the same fault. -/
theorem save (alike : Alike split same left right) :
    Alike split same (left.save state) (right.save state) ∧
      (left.save state).fault = (right.save state).fault := by
  unfold MemInst.save
  rw [alike.frame_eq.1]
  split
  case isTrue completed => exact ⟨alike, (alike.answered completed).1⟩
  case isFalse pending =>
    refine ⟨?_, rfl⟩
    constructor
    case frame =>
      rw [alike.frame]
    case high => exact alike.high
    case answered => exact fun completed => absurd completed pending
    case located => exact fun completed => absurd completed pending
    case kept => exact alike.kept

end Alike

/-- Two versions of an unrestricted access during its translation. -/
structure Joined {σ : Type} (split : Bool) (same : Prop) (left right : Translation σ) :
    Prop where
  alike : Alike split same left.inst right.inst
  state : left.state = right.state
  world : left.world = right.world
  shape : right.state.reqs.split.isSome = split
  started : right.inst.translationStarted = true
  unrestricted : right.inst.restricted = false
  unstalled : right.inst.stalled = false
  invalid : right.inst.resolved.effAddrValid = false
  saved : ∀ state, right.inst.saved = some state → state.reqs.split.isSome = split

section Translate

variable {σ : Type} {params : Params σ} {split : Bool} {same : Prop}
  {left right : Translation σ}

/-- An answer leaves the fields that it does not concern. -/
theorem answer_frame (inst : MemInst) (state : WholeTranslationState) :
    (inst.answer state).translationStarted = inst.translationStarted ∧
      (inst.answer state).restricted = inst.restricted ∧
        (inst.answer state).stalled = inst.stalled ∧
          (inst.answer state).resolved.effAddrValid = inst.resolved.effAddrValid ∧
            (inst.answer state).saved = inst.saved := by
  unfold MemInst.answer
  split
  case isFalse => exact ⟨rfl, rfl, rfl, rfl, rfl⟩
  case isTrue =>
    refine ⟨rfl, rfl, rfl, ?_, rfl⟩
    simp only [MemInst.finishTranslation]
    split
    · unfold WholeTranslationState.locate
      split <;> rfl
    · rfl

/-- The translation of a part keeps two versions together. -/
theorem Joined.translateTiming (joined : Joined split same left right) (half : Half) :
    Option.Rel (Joined split same) (translateTiming params half left)
      (translateTiming params half right) := by
  have mode : left.inst.mode = right.inst.mode := by
    unfold MemInst.mode
    rw [joined.alike.frame_eq.2.1]
  unfold Access.translateTiming
  rw [mode, joined.state, joined.world]
  cases translate params.machine params.tc right.inst.mode (right.state.part half)
      right.world with
  | none => exact .none
  | some outcome =>
      refine .some ?_
      dsimp only
      split
      case isTrue =>
        exact
          { joined with
            state := rfl, world := rfl
            shape := (setPart_split half outcome.req).trans joined.shape }
      case isFalse =>
        have shape : ((right.state.setPart half outcome.req).finish half
            outcome.fault).reqs.split.isSome = split := by
          rw [finish_split, setPart_split]
          exact joined.shape
        obtain ⟨started, restricted, stalled, valid, saved⟩ := answer_frame right.inst
          ((right.state.setPart half outcome.req).finish half outcome.fault)
        constructor
        case alike => exact joined.alike.answer shape
        case state => rfl
        case world => rfl
        case shape => exact shape
        case started => exact started.trans joined.started
        case unrestricted => exact restricted.trans joined.unrestricted
        case unstalled => exact stalled.trans joined.unstalled
        case invalid => exact valid.trans joined.invalid
        case saved =>
          rw [saved]
          exact joined.saved

/-- Two versions that go on alike are translated alike, part by part. An
unrestricted access does not stall. -/
theorem Joined.translatePart
    (goesOn : ∀ left right, Joined split same left right →
      Option.Rel Result (next left) (next right))
    (joined : Joined split same left right) (half : Half) :
    Option.Rel Result (translatePart params half next left)
      (translatePart params half next right) := by
  have translated : Option.Rel (Joined split same) (Access.translateTiming params half left)
      (Access.translateTiming params half right) := joined.translateTiming half
  have calm : ∀ before after, left.inst.missed before after = false ∧
      right.inst.missed before after = false := by
    intro before after
    unfold MemInst.missed
    rw [joined.alike.frame_eq.2.2, joined.unrestricted]
    simp
  unfold Access.translatePart
  generalize Access.translateTiming params half left = first at translated
  generalize Access.translateTiming params half right = second at translated
  cases translated with
  | none => exact .none
  | some together =>
      simp only [Option.bind_some, calm, Bool.false_eq_true, if_false]
      exact goesOn _ _ together

/-- Keeping the requests leaves the fields that it does not concern. -/
theorem save_frame (inst : MemInst) (state : WholeTranslationState) :
    (inst.save state).translationStarted = inst.translationStarted ∧
      (inst.save state).restricted = inst.restricted ∧
        (inst.save state).stalled = inst.stalled ∧ (inst.save state).resolved = inst.resolved := by
  unfold MemInst.save
  split <;> exact ⟨rfl, rfl, rfl, rfl⟩

/-- Two versions of an access whose translation is complete or under way. -/
structure Translated (split : Bool) (same : Prop) (left right : Translation σ) : Prop
    extends Joined split same left right where
  fault : left.inst.fault = right.inst.fault
  faulted : right.inst.fault.isSome = true → right.inst.translationCompleted = true

/-- The requests of a translation that is not complete are kept. -/
theorem Joined.save (joined : Joined split same left right) :
    Translated split same { left with inst := left.inst.save left.state }
      { right with inst := right.inst.save right.state } := by
  have alike : Alike split same (left.inst.save right.state) (right.inst.save right.state) ∧
      (left.inst.save right.state).fault = (right.inst.save right.state).fault :=
    joined.alike.save
  obtain ⟨started, restricted, stalled, resolved⟩ := save_frame right.inst right.state
  rw [joined.state]
  constructor
  case toJoined =>
    constructor
    case alike => exact alike.1
    case state => rfl
    case world => exact joined.world
    case shape => exact joined.shape
    case started => exact started.trans joined.started
    case unrestricted => exact restricted.trans joined.unrestricted
    case unstalled => exact stalled.trans joined.unstalled
    case invalid => exact (congrArg Resolved.effAddrValid resolved).trans joined.invalid
    case saved =>
      intro state kept
      unfold MemInst.save at kept
      split at kept
      · exact joined.saved state kept
      · cases kept
        exact joined.shape
  case fault => exact alike.2
  case faulted =>
    unfold MemInst.save
    split
    case isTrue completed => exact fun _ => completed
    case isFalse => exact fun some => nomatch some

/-- An unrestricted access starts over, whatever was left. -/
theorem Alike.initiateTranslation
    {left right : MemInst} {reqs : Requests} {world : World σ}
    (alike : Alike reqs.split.isSome same left right) (unrestricted : right.restricted = false)
    (unstalled : right.stalled = false) (pending : right.translationCompleted = false)
    (invalid : right.resolved.effAddrValid = false) (unsaved : right.saved = none) :
    Option.Rel (Translated reqs.split.isSome same)
      (initiateTranslation params left reqs world)
      (initiateTranslation params right reqs world) := by
  have unmarked : left.isMarked params.config = false ∧ right.isMarked params.config = false := by
    unfold MemInst.isMarked
    rw [alike.frame_eq.2.2, unrestricted]
    exact ⟨rfl, rfl⟩
  have joined : Joined reqs.split.isSome same
      (⟨{ left with translationStarted := true }, .start reqs, world⟩ : Translation σ)
      ⟨{ right with translationStarted := true }, .start reqs, world⟩ := by
    constructor
    case alike =>
      constructor
      case frame => rw [alike.frame]
      case high => exact alike.high
      case answered => exact fun completed => nomatch pending.symm.trans completed
      case located => exact fun completed => nomatch pending.symm.trans completed
      case kept => exact alike.kept
    case state => rfl
    case world => rfl
    case shape => rfl
    case started => rfl
    case unrestricted => exact unrestricted
    case unstalled => exact unstalled
    case invalid => exact invalid
    case saved =>
      intro state kept
      cases unsaved.symm.trans kept
  have saves : ∀ left right : Translation σ, Joined reqs.split.isSome same left right →
      Option.Rel (Translated reqs.split.isSome same)
        (some { left with inst := left.inst.save left.state })
        (some { right with inst := right.inst.save right.state }) :=
    fun left right joined => .some joined.save
  unfold Access.initiateTranslation
  simp only [unmarked.1, unmarked.2, Bool.false_eq_true, if_false]
  split
  · exact joined.translatePart
      (fun left right joined => joined.translatePart saves .high) .low
  · exact joined.translatePart saves .low

end Translate

/-- Two versions of an instruction between the steps of an unrestricted access: its
translation is not complete or has faulted. -/
structure Pending (split : Bool) (same : Prop) (left right : MemInst) : Prop where
  alike : Alike split same left right
  fault : left.fault = right.fault
  faulted : right.fault.isSome = true → right.translationCompleted = true
  started : right.translationStarted = true
  unrestricted : right.restricted = false
  unstalled : right.stalled = false
  invalid : right.resolved.effAddrValid = false
  saved : ∀ state, right.saved = some state → state.reqs.split.isSome = split

/-- Two versions of an instruction are the same, or will be once their translation
completes without a fault. -/
def Converges (split : Bool) (same : Prop) (left right : MemInst) : Prop :=
  left = right ∨ Pending split same left right

section Execute

variable {σ : Type} {params : Params σ} {split : Bool} {same : Prop}

theorem Translated.pending (translated : Translated split same left right) :
    Pending split same left.inst right.inst where
  alike := translated.alike
  fault := translated.fault
  faulted := translated.faulted
  started := translated.started
  unrestricted := translated.unrestricted
  unstalled := translated.unstalled
  invalid := translated.invalid
  saved := translated.saved

variable {left right : MemInst}

/-- The rest of an access keeps the versions related. -/
theorem Pending.execute (pending : Pending split same left right) :
    Pending split same { left with executed := true } { right with executed := true } where
  alike :=
    { pending.alike with
      frame := by
        rw [pending.alike.frame] }
  fault := pending.fault
  faulted := pending.faulted
  started := pending.started
  unrestricted := pending.unrestricted
  unstalled := pending.unstalled
  invalid := pending.invalid
  saved := pending.saved

/-- The address overwrites what was left. -/
theorem Alike.setEffAddr
    (alike : Alike split same left right) (completed : right.translationCompleted = true)
    (clear : right.fault = none) (reqs : Requests) :
    left.setEffAddr reqs = right.setEffAddr reqs := by
  obtain ⟨fault, order⟩ := alike.answered completed
  obtain ⟨low, high, flags⟩ := alike.located completed clear
  rw [alike.frame]
  simp only [MemInst.setEffAddr, fault, order, low, high, flags]

/-- What an access makes of the instruction after its translation. -/
def concluded (outcome : ReadOutcome) (access : Translation σ) : MemInst :=
  (if access.inst.isStore then writeMem access else initiateMemRead outcome access).conclude

variable {access : Translation σ}

theorem concluded_delayed
    (outcome : ReadOutcome) (started : access.inst.translationStarted = true)
    (pending : access.inst.translationCompleted = false) (unstalled : access.inst.stalled = false)
    (clear : access.inst.fault = none) :
    concluded outcome access = access.inst := by
  have waits : access.inst.conclude = access.inst := by
    simp [MemInst.conclude, MemInst.isTranslationDelayed, started, pending, unstalled, clear]
  unfold concluded writeMem initiateMemRead
  simp [pending, waits]

/-- An access ends with the fault of its translation. -/
theorem concluded_faulted
    (outcome : ReadOutcome) (completed : access.inst.translationCompleted = true)
    (unstalled : access.inst.stalled = false) (faulted : access.inst.fault.isNone = false) :
    concluded outcome access = { access.inst with executed := true } := by
  unfold concluded writeMem initiateMemRead
  cases store : access.inst.isStore <;>
    simp [MemInst.conclude, MemInst.isTranslationDelayed, completed, unstalled, faulted, store]

theorem concluded_clear
    (outcome : ReadOutcome) (completed : access.inst.translationCompleted = true)
    (clear : access.inst.fault = none) :
    concluded outcome access =
      (if access.inst.isStore then
        { access.inst.setEffAddr access.state.reqs.clearUnsafe with fault := none }
      else (access.inst.setEffAddr access.state.reqs).read access.state.reqs outcome).conclude := by
  unfold concluded writeMem initiateMemRead
  simp [completed, clear]

/-- What an access does after its translation keeps the versions related. They are
the same once the translation is complete without a fault. -/
theorem Translated.concluded
    {left right : Translation σ} (translated : Translated split same left right)
    (outcome : ReadOutcome) :
    Converges split same (concluded outcome left) (concluded outcome right) ∧
      (right.inst.translationCompleted = true → right.inst.fault = none →
        concluded outcome left = concluded outcome right) := by
  have pending := translated.pending
  obtain ⟨completed, store, -⟩ := translated.alike.frame_eq
  have frame : left.inst.stalled = right.inst.stalled ∧
      left.inst.translationStarted = right.inst.translationStarted := by
    rw [translated.alike.frame]
    exact ⟨rfl, rfl⟩
  have stalled := frame.1.trans translated.unstalled
  have started := frame.2.trans translated.started
  cases complete : right.inst.translationCompleted with
  | false =>
      have clear : right.inst.fault = none := by
        cases fault : right.inst.fault with
        | none => rfl
        | some fault =>
            have := translated.faulted (by rw [fault]; rfl)
            rw [complete] at this
            cases this
      refine ⟨.inr ?_, fun impossible => nomatch impossible⟩
      rw [concluded_delayed outcome translated.started complete translated.unstalled clear,
        concluded_delayed outcome started (completed.trans complete) stalled
          (translated.fault.trans clear)]
      exact pending
  | true =>
      cases fault : right.inst.fault with
      | none =>
          -- nothing is left of the earlier executions
          have equal : Access.concluded outcome left = Access.concluded outcome right := by
            rw [concluded_clear outcome complete fault,
              concluded_clear outcome (completed.trans complete) (translated.fault.trans fault),
              store, translated.state]
            simp only [translated.alike.setEffAddr complete fault]
          exact ⟨.inl equal, fun _ _ => equal⟩
      | some faultFound =>
          refine ⟨.inr ?_, fun _ impossible => nomatch impossible⟩
          have faulted : right.inst.fault.isNone = false := by rw [fault]; rfl
          rw [concluded_faulted outcome complete translated.unstalled faulted,
            concluded_faulted outcome (completed.trans complete) stalled
              (by rw [translated.fault]; exact faulted)]
          exact pending.execute

/-- A part of a translation keeps the kind of the instruction, if what follows
does. -/
theorem translatePart_isStore
    (keeps : ∀ before after, next before = some after → after.inst.isStore = before.inst.isStore)
    (returned : translatePart params half next access = some after) :
    after.inst.isStore = access.inst.isStore := by
  obtain ⟨answered, translated, goesOn⟩ := Option.bind_eq_some_iff.mp returned
  have kept : answered.inst.isStore = access.inst.isStore := by
    obtain ⟨outcome, -, rfl⟩ := Option.map_eq_some_iff.mp translated
    dsimp only
    split
    · rfl
    · unfold MemInst.answer
      split <;> rfl
  split at goesOn
  · cases goesOn
    exact kept
  · exact (keeps _ _ goesOn).trans kept

theorem beginAccess_isStore (returned : beginAccess params inst world = some access) :
    access.inst.isStore = inst.isStore := by
  have saves : ∀ before after : Translation σ,
      some { before with inst := before.inst.save before.state } = some after →
        after.inst.isStore = before.inst.isStore := by
    intro before after saved
    cases saved
    dsimp only [MemInst.save]
    split <;> rfl
  unfold beginAccess at returned
  split at returned
  · obtain ⟨state, -, rfl⟩ := Option.map_eq_some_iff.mp returned
    rfl
  · unfold initiateTranslation at returned
    dsimp only at returned
    split at returned
    · exact translatePart_isStore (fun before after => translatePart_isStore saves) returned
    · exact translatePart_isStore saves returned

/-- An execution translates and goes on. -/
theorem execute_eq (inst : MemInst) (world : World σ) (outcome : ReadOutcome) :
    execute params inst world outcome = (beginAccess params inst world).map fun access =>
        (concluded outcome access, access.world) := by
  unfold execute
  cases begun : beginAccess params inst world with
  | none => rfl
  | some access =>
      rw [Option.map_some, Option.map_some]
      unfold concluded
      rw [beginAccess_isStore begun]

/-- A further execution keeps the versions related, and treats the machine alike. -/
theorem Converges.execute
    (converges : Converges split same left right) (world : World σ) (outcome : ReadOutcome) :
    Option.Rel (fun first second => Converges split same first.1 second.1 ∧ first.2 = second.2)
      (Access.execute params left world outcome)
      (Access.execute params right world outcome) := by
  rcases converges with rfl | pending
  · cases Access.execute params left world outcome with
    | none => exact .none
    | some result => exact .some ⟨.inl rfl, rfl⟩
  · have frame : left.translationStarted = right.translationStarted ∧ left.saved = right.saved := by
      rw [pending.alike.frame]
      exact ⟨rfl, rfl⟩
    rw [execute_eq, execute_eq]
    unfold beginAccess
    rw [frame.1, frame.2, pending.started, if_pos rfl, if_pos rfl]
    cases kept : right.saved with
    | none => exact .none
    | some state =>
        refine .some ⟨?_, rfl⟩
        have translated : Translated split same (⟨left, state, world⟩ : Translation σ)
            ⟨right, state, world⟩ :=
          { pending with state := rfl, world := rfl, shape := pending.saved state kept }
        exact (translated.concluded outcome).1

/-- The answer of a walk keeps the versions related. -/
theorem Converges.finishWalk
    (converges : Converges split same left right) (half : Half) (fault : Option Tlb.Fault)
    (req : Request) :
    Converges split same (Access.finishWalk left half fault req)
      (Access.finishWalk right half fault req) := by
  rcases converges with rfl | pending
  · exact .inl rfl
  · have kept : left.saved = right.saved := by
      rw [pending.alike.frame]
    unfold Access.finishWalk
    rw [kept]
    cases saved : right.saved with
    | none => exact .inr pending
    | some state =>
        have shape : ((state.setPart half req).finish half fault).reqs.split.isSome = split := by
          rw [finish_split, setPart_split]
          exact pending.saved state saved
        dsimp only
        generalize (state.setPart half req).finish half fault = finished at shape
        have alike := pending.alike.answer shape
        obtain ⟨started, restricted, stalled, valid, -⟩ := answer_frame right finished
        right
        constructor
        case alike =>
          exact
            { alike with
              frame := by
                rw [alike.frame] }
        case fault =>
          unfold MemInst.answer
          split
          · rfl
          · exact pending.fault
        case faulted =>
          unfold MemInst.answer
          split
          · exact fun _ => rfl
          · exact pending.faulted
        case started => exact started.trans pending.started
        case unrestricted => exact restricted.trans pending.unrestricted
        case unstalled => exact stalled.trans pending.unstalled
        case invalid => exact valid.trans pending.invalid
        case saved =>
          intro later same
          cases same
          exact shape

end Execute

end Access
end Dolma

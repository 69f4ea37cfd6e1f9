import Dolma.Tlb.Defs

/-!
# Restricted translations

A restricted translation reads the buffer and changes nothing but its own
request. Apart from misses it answers like the unrestricted translation of the
same request. The use it leaves out is recorded later, by code that derives the
address and the mode once more.
-/

namespace Dolma
namespace Tlb

open Mem

section Decisions

variable {σ : Type} (machine : Machine σ) (tc : ThreadContext) (mode : Mode)
  (req : Request)

@[simp] theorem segment_clearUnsafe : segment req.clearUnsafe = segment req := by
  rw [segment, segment, req.clearUnsafe_and _ (by decide)]

@[simp] theorem segmentFault_clearUnsafe :
    segmentFault tc mode req.clearUnsafe = segmentFault tc mode req := by
  simp only [segmentFault, segment_clearUnsafe,
    req.isSet_clearUnsafe storeCheckFlag (by decide),
    req.isSet_clearUnsafe addrSizeFlag (by decide), Request.clearUnsafe_vaddr,
    Request.clearUnsafe_size]

@[simp] theorem linearAddr_clearUnsafe : linearAddr tc req.clearUnsafe = linearAddr tc req := by
  simp only [linearAddr, req.isSet_clearUnsafe addrSizeFlag (by decide), Request.clearUnsafe_vaddr]

theorem finalizePhysical_clearUnsafe :
    finalizePhysical machine tc req.clearUnsafe =
      (finalizePhysical machine tc req).clearUnsafe := by
  unfold finalizePhysical
  rw [Request.clearUnsafe_paddr]
  split
  · rfl
  · split
    · rw [Request.setFlags_clearUnsafe _ _ (by decide), Request.setPaddr_clearUnsafe]
    · split
      · dsimp only
        split
        · rw [Request.setFlags_clearUnsafe _ _ (by decide), Request.setPaddr_clearUnsafe]
        · rfl
      · rfl

theorem translateInt_clearUnsafe :
    translateInt machine tc req.clearUnsafe = (translateInt machine tc req).map fun result =>
        (result.1, result.2.clearUnsafe) := by
  have mapped := req.setFlags_clearUnsafe MMAPPED_IPR (by decide)
  have device := req.setFlags_clearUnsafe (UNCACHEABLE ||| STRICT_ORDER) (by decide)
  unfold translateInt
  dsimp only
  rw [Request.clearUnsafe_vaddr, Request.clearUnsafe_size, mapped, device]
  split
  · rfl
  · split
    · split
      · rfl
      · rfl
    · split
      · split
        · rfl
        · split
          · rfl
          · split
            · rfl
            · rfl
      · rfl

theorem translateEntry_clearUnsafe (vaddr : Addr) (entry : TlbEntry) :
    translateEntry machine tc mode req.clearUnsafe vaddr entry =
      ((translateEntry machine tc mode req vaddr entry).1,
        (translateEntry machine tc mode req vaddr entry).2.clearUnsafe) := by
  simp only [translateEntry, req.isSet_clearUnsafe cpl0Flag (by decide),
    req.isSet_clearUnsafe storeCheckFlag (by decide)]
  split
  · rfl
  · split
    · rfl
    · rw [← finalizePhysical_clearUnsafe]
      split
      · rw [Request.setPaddr_clearUnsafe, Request.setFlags_clearUnsafe _ _ (by decide)]
      · rfl

/-- The checks of a page do not read when it was used. -/
theorem translateEntry_lruSeq (vaddr : Addr) (entry : TlbEntry) (lruSeq : BitVec 64) :
    translateEntry machine tc mode req vaddr { entry with lruSeq := lruSeq } =
      translateEntry machine tc mode req vaddr entry :=
  rfl

/-- The request gets as far as the pages. -/
def needsPaging : Bool :=
  segment req != SEGMENT_REG_MS && tc.m5Reg.prot &&
    !(tc.m5Reg.mode != LongMode && segmentFault tc mode req) && tc.m5Reg.paging

/-- The page of the request is in the buffer. -/
def isPresent (tlb : TLB) : Bool :=
  ((tlb.tries (tlbThread machine tc)).lookup (linearAddr tc req)).isSome

/-- The request misses the buffer. -/
def misses (tlb : TLB) : Bool :=
  needsPaging tc mode req && !isPresent machine tc req tlb

end Decisions

/-- What is seen of a translation apart from the buffer: the fault, whether the
response is delayed, and the request without its restriction. -/
def Outcome.seen {σ : Type} (outcome : Outcome σ) : Option Fault × Bool × Request :=
  (outcome.fault, outcome.delayedResponse, outcome.req.clearUnsafe)

section Restricted

variable {σ : Type} {machine : Machine σ} {tc : ThreadContext} {mode : Mode}
  {req : Request} {world : World σ}

/-- A lookup without a trace leaves the buffer. -/
theorem lookup_untraced (tlb : TLB) (tid : Nat) (va : Addr) :
    tlb.lookup tid va false = ((tlb.tries tid).lookup va, tlb) := by
  unfold TLB.lookup
  cases (tlb.tries tid).lookup va <;> rfl

/-- A lookup as a use finds the same entry, apart from its last use. -/
theorem lookup_traced (tlb : TLB) (tid : Nat) (va : Addr) :
    (tlb.lookup tid va true).1 = (tlb.tries tid).lookup va ∧
      ∀ index, (tlb.tries tid).lookup va = some index →
        (tlb.lookup tid va true).2.tlb index = { tlb.tlb index with lruSeq := tlb.nextSeq } := by
  unfold TLB.lookup
  cases (tlb.tries tid).lookup va with
  | none => exact ⟨rfl, fun index found => by cases found⟩
  | some found =>
      refine ⟨rfl, fun index same => ?_⟩
      cases same
      simp [TLB.modifyEntry]

/-- A restricted miss is a fault and lifts the restriction. -/
theorem translate_restricted_miss
    (restricted : req.isRestricted = true) (missed : misses machine tc mode req world.tlb = true) :
    translate machine tc mode req world =
      some
        { fault := some (.generalProtection 0), delayedResponse := false
          req := req.clearUnsafe, world := world } := by
  simp only [misses, needsPaging, isPresent, Bool.and_eq_true, Bool.not_eq_true',
    bne_iff_ne, Option.isSome_eq_false_iff, Option.isNone_iff_eq_none] at missed
  obtain ⟨⟨⟨⟨memory, prot⟩, checked⟩, paging⟩, absent⟩ := missed
  have passes : ¬ (tc.m5Reg.mode ≠ LongMode ∧ segmentFault tc mode req = true) := by
    intro fails
    simp [fails.1, fails.2] at checked
  unfold translate
  simp only [memory, if_false, prot, if_true, passes, paging, restricted,
    Bool.not_true, lookup_untraced, absent]

/-- A request that gets to the pages and does not miss finds its entry. -/
theorem found_of_hit
    (hit : misses machine tc mode req world.tlb = false) (memory : segment req ≠ SEGMENT_REG_MS)
    (prot : tc.m5Reg.prot = true)
    (passes : ¬ (tc.m5Reg.mode ≠ LongMode ∧ segmentFault tc mode req = true))
    (paging : tc.m5Reg.paging = true) :
    ∃ index, (world.tlb.tries (tlbThread machine tc)).lookup (linearAddr tc req) = some index := by
  have checked : (tc.m5Reg.mode != LongMode && segmentFault tc mode req) = false := by
    rw [Bool.eq_false_iff]
    intro fails
    rw [Bool.and_eq_true, bne_iff_ne] at fails
    exact passes fails
  have memory : (segment req != SEGMENT_REG_MS) = true := by simpa using memory
  have present : isPresent machine tc req world.tlb = true := by
    simpa [misses, needsPaging, memory, prot, checked, paging] using hit
  exact Option.isSome_iff_exists.mp present

/-- A restricted hit is seen as the unrestricted one. -/
theorem translate_restricted_seen
    (restricted : req.isRestricted = true) (hit : misses machine tc mode req world.tlb = false) :
    (translate machine tc mode req world).map Outcome.seen =
      (translate machine tc mode req.clearUnsafe world).map Outcome.seen := by
  unfold translate
  simp only [segment_clearUnsafe, segmentFault_clearUnsafe, linearAddr_clearUnsafe,
    Request.isRestricted_clearUnsafe, restricted, Bool.not_true, Bool.not_false,
    translateInt_clearUnsafe]
  split
  · simp only [Option.map_map]
    congr 1
    funext result
    simp [Outcome.seen]
  case isFalse memory =>
    split
    case isFalse =>
      simp only [Option.map_some, Outcome.seen, Request.setPaddr_clearUnsafe,
        finalizePhysical_clearUnsafe, Request.clearUnsafe_clearUnsafe,
        Request.clearUnsafe_vaddr]
    case isTrue prot =>
      split
      · simp [Outcome.seen]
      case isFalse passes =>
        split
        case isFalse =>
          simp only [Option.map_some, Outcome.seen, Request.setPaddr_clearUnsafe,
            finalizePhysical_clearUnsafe, Request.clearUnsafe_clearUnsafe]
        case isTrue paging =>
          obtain ⟨index, found⟩ := found_of_hit hit memory prot passes paging
          obtain ⟨same, entry⟩ :=
            lookup_traced world.tlb (tlbThread machine tc) (linearAddr tc req)
          simp only [lookup_untraced, same, found, entry index found,
            translateEntry_lruSeq, translateEntry_clearUnsafe, Option.map_some,
            Outcome.seen, Request.clearUnsafe_clearUnsafe]

/-- A restricted translation leaves buffer and walker. -/
theorem translate_restricted_world
    (restricted : req.isRestricted = true)
    (returned : translate machine tc mode req world = some outcome) :
    outcome.world = world := by
  unfold translate at returned
  simp only [restricted, Bool.not_true, lookup_untraced, if_true] at returned
  split at returned
  · obtain ⟨result, -, rfl⟩ := Option.map_eq_some_iff.mp returned
    rfl
  · split at returned
    · split at returned
      · cases returned
        rfl
      · split at returned
        · split at returned
          · cases returned
            rfl
          · cases returned
            rfl
        · cases returned
          rfl
    · cases returned
      rfl

theorem lookup_traced_ne (tlb : TLB) (present : ((tlb.tries tid).lookup va).isSome = true) :
    (tlb.lookup tid va true).2 ≠ tlb := by
  obtain ⟨index, found⟩ := Option.isSome_iff_exists.mp present
  intro same
  have counter := congrArg TLB.lruSeq same
  simp only [TLB.lookup, found, if_true, TLB.nextSeq] at counter
  have moves : ∀ seq : BitVec 64, seq + 1 ≠ seq := by
    intro seq equal
    simp at equal
  exact moves _ counter

end Restricted

/-- A call of the translation. -/
structure Call where
  tc : ThreadContext
  mode : Mode
  req : Request

/-- Translations one after the other. -/
def translations
    {σ : Type} (machine : Machine σ) : World σ → List Call → Option (List (Outcome σ))
  | _, [] => some []
  | world, call :: rest => do
      let outcome ← translate machine call.tc call.mode call.req world
      let outcomes ← translations machine outcome.world rest
      some (outcome :: outcomes)

/-- What a restricted translation returns in the given state. -/
structure Invisible
    {σ : Type} (machine : Machine σ) (world : World σ) (call : Call)
    (outcome : Outcome σ) : Prop where
  unchanged : outcome.world = world
  miss : misses machine call.tc call.mode call.req world.tlb = true →
    outcome.fault ≠ none ∧ outcome.req.isRestricted = false
  hit : misses machine call.tc call.mode call.req world.tlb = false →
    ∃ plain, translate machine call.tc call.mode call.req.clearUnsafe world =
        some plain ∧
      plain.fault = outcome.fault ∧ plain.req.paddr = outcome.req.paddr ∧
      plain.req.flags &&& ~~~RESTRICTED = outcome.req.flags &&& ~~~RESTRICTED

theorem translate_invisible
    (restricted : call.req.isRestricted = true)
    (returned : translate machine call.tc call.mode call.req world = some outcome) :
    Invisible machine world call outcome where
  unchanged := translate_restricted_world restricted returned
  miss := by
    intro missed
    rw [translate_restricted_miss restricted missed] at returned
    cases returned
    exact ⟨by simp, call.req.isRestricted_clearUnsafe⟩
  hit := by
    intro hit
    have seen := translate_restricted_seen restricted hit
    rw [returned, Option.map_some] at seen
    obtain ⟨plain, found, same⟩ := Option.map_eq_some_iff.mp seen.symm
    simp only [Outcome.seen, Prod.mk.injEq] at same
    refine ⟨plain, found, same.1, ?_, ?_⟩
    · have paddr := congrArg Request.paddr same.2.2
      exact paddr
    · have flags := congrArg Request.flags same.2.2
      exact flags

/-- Restricted translations leave the buffer as it was and start no walk. Each one that misses
ends with a fault and without its restriction; each other one returns what the unrestricted
translation returns there, and aborts only where that aborts. -/
theorem restricted_translations_invisible
    {σ : Type} (machine : Machine σ) (world : World σ) (calls : List Call)
    (restricted : ∀ call ∈ calls, call.req.isRestricted = true) :
    (∀ outcomes, translations machine world calls = some outcomes →
      List.Forall₂ (Invisible machine world) calls outcomes) ∧
      (translations machine world calls = none →
        ∃ call ∈ calls, translate machine call.tc call.mode call.req.clearUnsafe world = none) := by
  induction calls with
  | nil =>
      refine ⟨fun outcomes returned => ?_, fun aborted => by cases aborted⟩
      cases returned
      exact List.Forall₂.nil
  | cons call rest ih =>
      obtain ⟨sequence, abort⟩ := ih fun other member =>
        restricted other (List.mem_cons_of_mem _ member)
      have head := restricted call List.mem_cons_self
      cases first : translate machine call.tc call.mode call.req world with
      | none =>
          refine ⟨fun outcomes returned => ?_, fun _ => ⟨call, List.mem_cons_self, ?_⟩⟩
          · simp [translations, first] at returned
          · cases missed : misses machine call.tc call.mode call.req world.tlb with
            | true =>
                rw [translate_restricted_miss head missed] at first
                cases first
            | false =>
                have seen := translate_restricted_seen head missed
                rw [first] at seen
                exact Option.map_eq_none_iff.mp seen.symm
      | some outcome =>
          have step := translate_invisible head first
          constructor
          · intro outcomes returned
            simp only [translations, first, Option.bind_eq_bind, Option.bind_some,
              step.unchanged] at returned
            obtain ⟨others, found, same⟩ := Option.bind_eq_some_iff.mp returned
            cases same
            exact List.Forall₂.cons step (sequence others found)
          · intro aborted
            simp only [translations, first, Option.bind_eq_bind, Option.bind_some,
              step.unchanged] at aborted
            have stops : translations machine world rest = none := by
              cases found : translations machine world rest with
              | none => rfl
              | some others =>
                  rw [found] at aborted
                  cases aborted
            obtain ⟨other, member, fails⟩ := abort stops
            exact ⟨other, List.mem_cons_of_mem _ member, fails⟩

/-- A machine that emulates system calls, without any page. -/
def emulation : Machine Unit where
  fullSystem := false
  numThreadsPerCore := 1
  msrAddrToIndex _ := none
  pciConfigIndex := 0
  pTableLookup _ _ := none
  fixupStackFault _ _ := none

/-- A buffer with one page. -/
def onePage : World Unit where
  tlb :=
    { size := 1
      tlb := fun _ =>
        { vaddr := 0x1000, paddr := 0x5000, logBytes := 12, lruSeq := 1
          trieHandle := some 0 }
      freeList := []
      tries := fun _ =>
        .node 0 0 none (.node 0x1000 (~~~mask 12) (some 0) .nil .nil) .nil
      lruSeq := 1 }
  process := ()
  walks := []

/-- A thread in protected mode with paging. -/
def pagedThread (legacy : Bool) : ThreadContext where
  m5Reg := { mode := legacy, paging := true, prot := true, defAddr := 2 }
  segLimit _ := 0xffffffff

/-- A read through the flat segment. -/
def flatRead (vaddr : Addr) : Request where
  vaddr := vaddr
  size := 8
  flags := 9

/-- A restricted read of the page and one of another page. -/
def twoReads : List Call :=
  [⟨pagedThread false, .read, (flatRead 0x1010).setUnsafe⟩,
    ⟨pagedThread false, .read, (flatRead 0x2010).setUnsafe⟩]

/-- The reads of a page that is present and of one that is not. -/
theorem restricted_translations_invisible_reads :
    (∀ call ∈ twoReads, call.req.isRestricted = true) ∧ (twoReads.map fun call =>
        misses emulation call.tc call.mode call.req onePage.tlb) = [false, true] ∧
      ∃ outcomes, translations emulation onePage twoReads = some outcomes ∧
        List.Forall₂ (Invisible emulation onePage) twoReads outcomes := by
  have returns : (translations emulation onePage twoReads).isSome = true := by decide
  obtain ⟨outcomes, returned⟩ := Option.isSome_iff_exists.mp returns
  have invisible := restricted_translations_invisible emulation onePage twoReads (by decide)
  exact ⟨by decide, by decide, outcomes, returned, invisible.1 outcomes returned⟩

section Deferred

variable {σ : Type} {machine : Machine σ} {tc : ThreadContext} {mode : Mode}
  {req : Request} {world : World σ}

/-- Marking a request keeps whether it misses. -/
theorem misses_setUnsafe (tlb : TLB) :
    misses machine tc mode req.setUnsafe tlb = misses machine tc mode req tlb := by
  have segments : segment req.setUnsafe = segment req := by
    rw [← segment_clearUnsafe, Request.clearUnsafe_setUnsafe, segment_clearUnsafe]
  have checks : segmentFault tc mode req.setUnsafe = segmentFault tc mode req := by
    rw [← segmentFault_clearUnsafe, Request.clearUnsafe_setUnsafe, segmentFault_clearUnsafe]
  have addresses : linearAddr tc req.setUnsafe = linearAddr tc req := by
    rw [← linearAddr_clearUnsafe, Request.clearUnsafe_setUnsafe, linearAddr_clearUnsafe]
  simp only [misses, needsPaging, isPresent, segments, checks, addresses]

/-- An unrestricted translation of a present page is a use. -/
theorem translate_present_tlb
    (unrestricted : req.isRestricted = false) (present : isPresent machine tc req world.tlb = true)
    (returned : translate machine tc mode req world = some plain) :
    plain.world.tlb =
      if needsPaging tc mode req then
        (world.tlb.lookup (tlbThread machine tc) (linearAddr tc req) true).2
      else world.tlb := by
  obtain ⟨index, found⟩ := Option.isSome_iff_exists.mp present
  obtain ⟨same, -⟩ :=
    lookup_traced world.tlb (tlbThread machine tc) (linearAddr tc req)
  unfold translate at returned
  simp only [unrestricted, Bool.not_false, same, found] at returned
  split at returned
  case isTrue internal =>
    obtain ⟨result, -, rfl⟩ := Option.map_eq_some_iff.mp returned
    simp [needsPaging, internal]
  case isFalse memory =>
    split at returned
    case isFalse unprotected =>
      cases returned
      simp [needsPaging, unprotected]
    case isTrue prot =>
      split at returned
      case isTrue fails =>
        cases returned
        simp [needsPaging, fails]
      case isFalse passes =>
        have checked :
            (tc.m5Reg.mode != LongMode && segmentFault tc mode req) = false := by
          rw [Bool.eq_false_iff]
          intro fails
          rw [Bool.and_eq_true, bne_iff_ne] at fails
          exact passes fails
        split at returned
        case isTrue paging =>
          cases returned
          simp [needsPaging, memory, prot, checked, paging]
        case isFalse unpaged =>
          cases returned
          simp [needsPaging, unpaged]

/-- In long mode the deferred update is the use of a page, and in legacy mode it
is nothing. -/
theorem updateLRU_eq (tlb : TLB) :
    updateLRU machine tc req tlb =
      if needsPaging tc mode req && tc.m5Reg.mode == LongMode then
        (tlb.lookup (tlbThread machine tc) (linearAddr tc req) true).2
      else tlb := by
  unfold updateLRU
  split
  case isTrue internal => simp [needsPaging, internal]
  case isFalse memory =>
    split
    case isFalse unprotected => simp [needsPaging, unprotected]
    case isTrue prot =>
      split
      case isTrue legacy => simp [legacy]
      case isFalse long =>
        have long : tc.m5Reg.mode = LongMode := by simpa using long
        split
        case isTrue paging => simp [needsPaging, memory, prot, paging, long]
        case isFalse unpaged => simp [needsPaging, unpaged]

/-- A restricted translation of a present page, followed by the deferred update, leaves the
buffer as the unrestricted translation does, unless the request gets as far as the pages in
legacy mode. -/
theorem deferred_update_iff
    (machine : Machine σ) (tc : ThreadContext) (mode : Mode) (req : Request) (world : World σ)
    (unrestricted : req.isRestricted = false)
    (present : isPresent machine tc req world.tlb = true) :
    (translate machine tc mode req.setUnsafe world).map
        (fun outcome => updateLRU machine tc req outcome.world.tlb) =
      (translate machine tc mode req world).map (fun outcome => outcome.world.tlb) ↔
      ¬ (tc.m5Reg.mode ≠ LongMode ∧ needsPaging tc mode req = true) := by
  have hit : misses machine tc mode req.setUnsafe world.tlb = false := by
    rw [misses_setUnsafe, misses, present]
    simp
  have seen := translate_restricted_seen req.isRestricted_setUnsafe hit
  rw [Request.clearUnsafe_setUnsafe, Request.clearUnsafe_of_not_restricted _ unrestricted] at seen
  cases plain : translate machine tc mode req world with
  | none =>
      have aborted : translate machine tc mode req.setUnsafe world = none := by
        rw [plain] at seen
        exact Option.map_eq_none_iff.mp seen
      -- only a request to the internal address space aborts
      have internal : needsPaging tc mode req = false := by
        by_contra paged
        rw [Bool.not_eq_false] at paged
        simp only [needsPaging, Bool.and_eq_true, bne_iff_ne, Bool.not_eq_true'] at paged
        obtain ⟨index, found⟩ := Option.isSome_iff_exists.mp present
        have passes : ¬ (tc.m5Reg.mode ≠ LongMode ∧ segmentFault tc mode req = true) := by
          intro fails
          simp [fails.1, fails.2] at paged
        simp [translate, paged.1.1.1, paged.1.1.2, passes, paged.2, TLB.lookup,
          found, unrestricted] at plain
      rw [aborted]
      simp [internal]
  | some outcome =>
      rw [plain, Option.map_some] at seen
      obtain ⟨deferred, returned, -⟩ := Option.map_eq_some_iff.mp seen
      have world := translate_restricted_world req.isRestricted_setUnsafe returned
      rw [returned, Option.map_some, Option.map_some, Option.some.injEq, world,
        translate_present_tlb unrestricted present plain, updateLRU_eq]
      cases paged : needsPaging tc mode req with
      | false => simp
      | true =>
          by_cases long : tc.m5Reg.mode = LongMode
          · simp [long]
          · simp only [Bool.true_and, beq_iff_eq, long, if_false, if_true, ne_eq,
              not_false_eq_true, and_self, not_true_eq_false, iff_false]
            exact fun same => lookup_traced_ne _ present same.symm

/-- In long mode the deferred update is the one that was skipped. -/
theorem deferred_update_long :
    isPresent emulation (pagedThread false) (flatRead 0x1010) onePage.tlb = true ∧
      (translate emulation (pagedThread false) .read (flatRead 0x1010).setUnsafe
          onePage).map
          (fun outcome =>
            updateLRU emulation (pagedThread false) (flatRead 0x1010)
              outcome.world.tlb) =
        (translate emulation (pagedThread false) .read (flatRead 0x1010) onePage).map
          (fun outcome => outcome.world.tlb) :=
  ⟨by decide,
    (deferred_update_iff emulation (pagedThread false) .read (flatRead 0x1010)
      onePage (by decide) (by decide)).mpr (by decide)⟩

/-- In legacy mode the deferred update of a page that is present is lost. -/
theorem deferred_update_lost :
    isPresent emulation (pagedThread true) (flatRead 0x1010) onePage.tlb = true ∧
      (translate emulation (pagedThread true) .read (flatRead 0x1010).setUnsafe
          onePage).map
          (fun outcome =>
            updateLRU emulation (pagedThread true) (flatRead 0x1010)
              outcome.world.tlb) ≠
        (translate emulation (pagedThread true) .read (flatRead 0x1010) onePage).map
          (fun outcome => outcome.world.tlb) := by
  refine ⟨by decide, fun same => ?_⟩
  have counters := congrArg (Option.map TLB.lruSeq) same
  revert counters
  decide

end Deferred

section Erased

variable {σ : Type}

/-- What happens around a buffer: a translation, or anything else that the rest of the
machine does. -/
inductive Action (σ : Type) where
  | translate (call : Call)
  | other (change : World σ → Option (World σ))

/-- The action is a restricted translation. -/
def Action.isRestricted : Action σ → Bool
  | .translate call => call.req.isRestricted
  | .other _ => false

/-- The outcomes of the translations among some actions, and the state afterwards. -/
def actions (machine : Machine σ) :
    World σ → List (Action σ) → Option (List (Call × Outcome σ) × World σ)
  | world, [] => some ([], world)
  | world, .translate call :: rest => do
      let outcome ← translate machine call.tc call.mode call.req world
      let (outcomes, final) ← actions machine outcome.world rest
      return ((call, outcome) :: outcomes, final)
  | world, .other change :: rest => do
      let changed ← change world
      actions machine changed rest

/-- Without its restricted translations a sequence of actions ends in the same state, and
every other translation in it has the same outcome. -/
theorem actions_erase_restricted
    {machine : Machine σ} {world final : World σ} {acts : List (Action σ)}
    {outcomes : List (Call × Outcome σ)}
    (ran : actions machine world acts = some (outcomes, final)) :
    actions machine world (acts.filter fun act => !act.isRestricted) =
      some (outcomes.filter fun outcome => !outcome.1.req.isRestricted, final) := by
  induction acts generalizing world outcomes with
  | nil =>
      cases ran
      rfl
  | cons act rest ih =>
      cases act with
      | other change =>
          obtain ⟨changed, isChanged, ran⟩ := Option.bind_eq_some_iff.mp ran
          rw [List.filter_cons_of_pos (by rfl), actions, isChanged]
          exact ih ran
      | translate call =>
          obtain ⟨outcome, returned, ran⟩ := Option.bind_eq_some_iff.mp ran
          obtain ⟨⟨others, last⟩, ran, same⟩ := Option.bind_eq_some_iff.mp ran
          cases same
          have erased := ih ran
          cases restricted : call.req.isRestricted with
          | true =>
              -- the restricted translation leaves the state that it found
              rw [translate_restricted_world restricted returned] at erased
              rw [List.filter_cons_of_neg (by simp [Action.isRestricted, restricted]),
                List.filter_cons_of_neg (by simp [restricted])]
              exact erased
          | false =>
              rw [List.filter_cons_of_pos (by simp [Action.isRestricted, restricted]),
                List.filter_cons_of_pos (by simp [restricted]), actions, returned]
              change (actions machine outcome.world _).bind _ = _
              rw [erased]
              rfl

/-- Restricted reads of a page that is there and of one that is not, a read of the first
and a flush. -/
def mixedActions : List (Action Unit) :=
  twoReads.map .translate ++
    [.translate ⟨pagedThread false, .read, flatRead 0x1010⟩,
      .other fun world => some { world with tlb := world.tlb.flushAll }]

/-- The read and the flush do the same without the restricted reads. -/
theorem actions_erase_restricted_mixed :
    ∃ outcomes final,
      actions emulation onePage mixedActions = some (outcomes, final) ∧
        actions emulation onePage (mixedActions.filter fun act => !act.isRestricted) =
          some (outcomes.filter fun outcome => !outcome.1.req.isRestricted, final) := by
  have returns : (actions emulation onePage mixedActions).isSome = true := by decide +kernel
  obtain ⟨⟨outcomes, final⟩, ran⟩ := Option.isSome_iff_exists.mp returns
  exact ⟨outcomes, final, ran, actions_erase_restricted ran⟩

end Erased

end Tlb
end Dolma

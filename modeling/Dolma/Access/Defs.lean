import Dolma.Core.StaticInst
import Dolma.Tlb.Defs

/-!
# Memory accesses of an instruction

A load or store makes its requests, has them translated and goes on to the
load/store queue. A translation may be answered at once, after a page walk, or,
for a restricted request that misses, by a stall. An instruction that was stalled,
blocked or rescheduled starts over with new requests, but keeps the fields that its
earlier executions left in it.
-/

namespace Dolma
namespace Access

open Mem Tlb

/-- The requests of an access: one, and its two halves if it crosses a line. -/
structure Requests where
  req : Request
  split : Option (Request × Request) := none
deriving DecidableEq, Repr

namespace Requests

/-- Mark the requests restricted. -/
def setUnsafe (reqs : Requests) : Requests where
  req := reqs.req.setUnsafe
  split := reqs.split.map fun halves => (halves.1.setUnsafe, halves.2.setUnsafe)

/-- Lift the restriction of the requests. -/
def clearUnsafe (reqs : Requests) : Requests where
  req := reqs.req.clearUnsafe
  split := reqs.split.map fun halves => (halves.1.clearUnsafe, halves.2.clearUnsafe)

end Requests

/-- The line of the last byte of a request. -/
def splitAddr (cacheLineSize : Addr) (req : Request) : Addr :=
  (req.vaddr + BitVec.ofNat 64 req.size - 1) &&& ~~~(cacheLineSize - 1)

/-- Cut a request in two. -/
def splitOnVaddr (req : Request) (splitAddr : Addr) : Request × Request :=
  let lowSize := (splitAddr - req.vaddr).toNat
  ({ req with size := lowSize }, { req with vaddr := splitAddr, size := req.size - lowSize })

/-- Split a request that crosses a line. -/
def splitRequest (cacheLineSize : Addr) (req : Request) : Requests where
  req := req
  split :=
    if req.vaddr < splitAddr cacheLineSize req then
      some (splitOnVaddr req (splitAddr cacheLineSize req))
    else none

/-- The faults of an access. -/
inductive Fault where
  | translation (fault : Tlb.Fault)
  | strictlyOrderedLoad
deriving DecidableEq, Repr

/-- A half of a split request. A request that is not split is a low one. -/
inductive Half where
  | low
  | high
deriving DecidableEq, Repr

/-- The state of the translations of an access. -/
structure WholeTranslationState where
  reqs : Requests
  outstanding : Nat
  faultLow : Option Tlb.Fault := none
  faultHigh : Option Tlb.Fault := none
deriving DecidableEq, Repr

/-- What an access finds out about its addresses. -/
structure Resolved where
  effAddr : Addr := 0
  effSize : Nat := 0
  effAddrValid : Bool := false
  reqs : Option Requests := none
  physEffAddrLow : Option Addr := none
  physEffAddrHigh : Option Addr := none
  memReqFlags : BitVec 64 := 0
deriving DecidableEq, Repr

namespace WholeTranslationState

variable (state : WholeTranslationState)

/-- The state before any answer. -/
def start (reqs : Requests) : WholeTranslationState where
  reqs := reqs
  outstanding := if reqs.split.isSome then 2 else 1

/-- The request that a half is translated by. -/
def part : Half → Request
  | .low => (state.reqs.split.map Prod.fst).getD state.reqs.req
  | .high => (state.reqs.split.map Prod.snd).getD state.reqs.req

/-- A translation changes its request. -/
def setPart (half : Half) (req : Request) : WholeTranslationState :=
  { state with
    reqs :=
      match state.reqs.split, half with
      | none, _ => { req := req }
      | some halves, .low => { state.reqs with split := some (req, halves.2) }
      | some halves, .high => { state.reqs with split := some (halves.1, req) } }

/-- A translation is answered. The last answer to a split request copies some state
to the whole one. -/
def finish (half : Half) (fault : Option Tlb.Fault) : WholeTranslationState :=
  let answered : WholeTranslationState :=
    match half with
    | .low => { state with faultLow := fault, outstanding := state.outstanding - 1 }
    | .high => { state with faultHigh := fault, outstanding := state.outstanding - 1 }
  match answered.reqs.split with
  | none => answered
  | some (low, high) =>
      if answered.outstanding = 0 then
        let located :=
          if answered.faultLow.isNone then { answered.reqs.req with paddr := low.paddr }
          else answered.reqs.req
        { answered with
          reqs :=
            { answered.reqs with
              req := (located.setFlags low.flags).setFlags high.flags } }
      else answered

/-- The fault of the translation. -/
def getFault : Option Tlb.Fault :=
  if state.reqs.split.isSome then state.faultLow.or state.faultHigh
  else state.faultLow

/-- The physical addresses and flags that a translation without a fault gives. -/
def locate (resolved : Resolved) : Resolved :=
  match state.reqs.split with
  | none =>
      { resolved with
        physEffAddrLow := state.reqs.req.paddr, memReqFlags := state.reqs.req.flags }
  | some (low, high) =>
      { resolved with
        physEffAddrLow := low.paddr, physEffAddrHigh := high.paddr
        memReqFlags := state.reqs.req.flags }

end WholeTranslationState

/-- The fields of a load or store that its executions use. -/
structure MemInst where
  isStore : Bool
  addr : Addr
  size : Nat
  flags : BitVec 64
  atCommit : Bool := false
  restricted : Bool := false
  stalled : Bool := false
  executed : Bool := false
  fault : Option Fault := none
  strictlyOrdered : Bool := false
  translationStarted : Bool := false
  translationCompleted : Bool := false
  saved : Option WholeTranslationState := none
  dolmaVirtualReq : Option Requests := none
  dolmaPhysicalReq : Option Requests := none
  resolved : Resolved := {}
deriving DecidableEq, Repr

namespace MemInst

variable (inst : MemInst)

/-- The translation has started and is not complete. -/
def isTranslationDelayed : Bool :=
  inst.translationStarted && !inst.translationCompleted

/-- Stall the instruction. The requests kept for later updates are dropped. -/
def setDolmaStalled : MemInst :=
  { inst with
    stalled := true
    dolmaVirtualReq := none
    dolmaPhysicalReq := if inst.dolmaVirtualReq.isSome then none else inst.dolmaPhysicalReq }

/-- The next execution starts over. -/
def resetTranslation : MemInst :=
  { inst with translationStarted := false, translationCompleted := false }

/-- All translations of the access are answered. -/
def finishTranslation (state : WholeTranslationState) : MemInst :=
  { inst with
    fault := state.getFault.map .translation
    strictlyOrdered := state.reqs.req.isStrictlyOrdered
    resolved := if state.getFault.isNone then state.locate inst.resolved else inst.resolved
    translationCompleted := true }

/-- Part of the translation is answered. -/
def answer (state : WholeTranslationState) : MemInst :=
  if state.outstanding = 0 then inst.finishTranslation state else inst

/-- Keep the requests of a translation that is not complete. -/
def save (state : WholeTranslationState) : MemInst :=
  if inst.translationCompleted then inst
  else { inst with fault := none, saved := some state }

/-- The effective address is known, and the requests go to the load/store queue. -/
def setEffAddr (reqs : Requests) : MemInst :=
  { inst with
    resolved :=
      { inst.resolved with
        effAddr := reqs.req.vaddr, effSize := inst.size, effAddrValid := true
        reqs := some reqs } }

end MemInst

/-- How the load/store queue and the cache answer a load. -/
inductive ReadOutcome where
  | strictlyOrdered
  | forwards
  | reads
  /-- The cache refuses the request. It lifts the restriction of a request that
  misses. -/
  | refuses (lifted : Bool)
  | reschedules
deriving DecidableEq, Repr

/-- A restricted request of a restricted instruction came back unrestricted. -/
def MemInst.missed (inst : MemInst) (before after : Request) : Bool :=
  before.isRestricted && inst.restricted && !after.isRestricted

/-- Read through the load/store queue. -/
def MemInst.read (inst : MemInst) (reqs : Requests) : ReadOutcome → MemInst
  | .strictlyOrdered => { inst.resetTranslation with fault := some .strictlyOrderedLoad }
  | .forwards => { inst with fault := none }
  | .reads =>
      { inst with
        fault := none
        dolmaPhysicalReq := if inst.restricted then some reqs else inst.dolmaPhysicalReq }
  | .refuses lifted =>
      let failed := { inst with fault := none, dolmaPhysicalReq := none }
      if inst.missed reqs.req (if lifted then reqs.req.clearUnsafe else reqs.req) then
        failed.setDolmaStalled
      else failed.resetTranslation
  | .reschedules => { inst.resetTranslation with fault := none }

/-- The parts of the machine that an access works on. -/
structure Params (σ : Type) where
  config : Config
  machine : Machine σ
  tc : ThreadContext
  cacheLineSize : Addr

/-- An instruction with the state of its translation and of the machine. -/
structure Translation (σ : Type) where
  inst : MemInst
  state : WholeTranslationState
  world : World σ

section Execute

variable {σ : Type} (params : Params σ)

/-- The kind of the access. -/
def MemInst.mode (inst : MemInst) : Mode :=
  if inst.isStore then .write else .read

/-- Translate one part of an access. -/
def translateTiming (half : Half) (access : Translation σ) : Option (Translation σ) :=
  (translate params.machine params.tc access.inst.mode (access.state.part half)
    access.world).map fun outcome =>
      let changed := access.state.setPart half outcome.req
      if outcome.delayedResponse then
        { access with state := changed, world := outcome.world }
      else
        let finished := changed.finish half outcome.fault
        { inst := access.inst.answer finished, state := finished, world := outcome.world }

/-- Translate one part of an access, and stall on a restricted miss. -/
def translatePart
    (half : Half) (next : Translation σ → Option (Translation σ)) (access : Translation σ) :
    Option (Translation σ) :=
  (translateTiming params half access).bind fun answered =>
    if access.inst.missed (access.state.part half) (answered.state.part half) then
      some { answered with inst := answered.inst.setDolmaStalled }
    else next answered

/-- The instruction is restricted for its translation. -/
def MemInst.isMarked (config : Config) (inst : MemInst) : Bool :=
  inst.restricted && (!config.isSTT || !inst.isStore)

/-- Start the translation of an access. -/
def initiateTranslation (inst : MemInst) (reqs : Requests) (world : World σ) :
    Option (Translation σ) :=
  let marked := inst.isMarked params.config
  let access : Translation σ :=
    { inst :=
        { inst with
          translationStarted := true
          dolmaVirtualReq := if marked then some reqs else inst.dolmaVirtualReq }
      state := .start (if marked then reqs.setUnsafe else reqs)
      world := world }
  let save := fun answered : Translation σ =>
    some { answered with inst := answered.inst.save answered.state }
  if reqs.split.isSome then translatePart params .low (translatePart params .high save) access
  else translatePart params .low save access

/-- Take up the requests of the last execution, or make new ones and translate
them. -/
def beginAccess (inst : MemInst) (world : World σ) : Option (Translation σ) :=
  if inst.translationStarted then
    inst.saved.map fun state => { inst := inst, state := state, world := world }
  else
    initiateTranslation params inst
      (splitRequest params.cacheLineSize
        { vaddr := inst.addr, size := inst.size, flags := inst.flags }) world

/-- Go on to the load/store queue with a translation. -/
def initiateMemRead (outcome : ReadOutcome) (access : Translation σ) : MemInst :=
  let inst := access.inst
  if inst.translationCompleted then
    if inst.fault.isNone then (inst.setEffAddr access.state.reqs).read access.state.reqs outcome
    else if inst.stalled then inst
    else { inst with executed := true }
  else inst

/-- Write a store with its translation into the store queue. -/
def writeMem (access : Translation σ) : MemInst :=
  let inst := access.inst
  if inst.fault.isNone && inst.translationCompleted then
    -- the cache is written after commit
    { inst.setEffAddr access.state.reqs.clearUnsafe with fault := none }
  else inst

/-- What becomes of a load or store after its access. -/
def MemInst.conclude (inst : MemInst) : MemInst :=
  if inst.stalled then inst.resetTranslation
  else if inst.isTranslationDelayed && inst.fault.isNone then inst
  else if inst.isStore then { inst with executed := true }
  else if inst.fault.isSome && (!inst.strictlyOrdered || inst.atCommit) then
    { inst with executed := true }
  else inst

/-- Execute a load or store. -/
def execute (inst : MemInst) (world : World σ) (outcome : ReadOutcome) :
    Option (MemInst × World σ) :=
  (beginAccess params inst world).map fun access =>
    ((if inst.isStore then writeMem access else initiateMemRead outcome access).conclude,
      access.world)

/-- A page walk answers part of the translation. -/
def finishWalk (inst : MemInst) (half : Half) (fault : Option Tlb.Fault) (req : Request) :
    MemInst :=
  match inst.saved with
  | none => inst
  | some state =>
      let finished := (state.setPart half req).finish half fault
      { inst.answer finished with saved := some finished }

end Execute

end Access
end Dolma

import Dolma.Library.TransitionSystem
import Dolma.LsqUnit.Defs

/-!
# Loads, squashes and runs of the load/store queue unit

A load looks for its data in the older stores that are not yet sent, from the youngest
on. A store that has only part of the data makes the load wait, and only the oldest
such load is recorded. Stores and loads are checked against younger loads that have run
before them.
-/

namespace Dolma
namespace LsqUnit

open Library Lsq LSQUnit

/-- The request of a load whose address is known. -/
structure LoadAccess where
  effAddr : BitVec 64
  size : Nat
  strictlyOrdered : Bool := false
  isLLSC : Bool := false
  isMmappedIpr : Bool := false
deriving DecidableEq, Repr

/-- The size as the instruction keeps it. -/
def LoadAccess.effSize (request : LoadAccess) : BitVec 8 := .ofNat 8 request.size

/-- What becomes of an execution of a load. -/
inductive LoadAttempt where
  | noAccess (faulted : Bool)
  | delayed
  | stalled
  | access (request : LoadAccess) (outcome : CacheOutcome)
deriving DecidableEq, Repr

/-- The request of a store whose address is known. -/
structure StoreAccess where
  effAddr : BitVec 64
  size : Nat
  isSplit : Bool := false
  strictlyOrdered : Bool := false
  isMmappedIpr : Bool := false
  isCacheMaintenance : Bool := false
deriving DecidableEq, Repr

/-- The size as the instruction and the store queue keep it. -/
def StoreAccess.effSize (request : StoreAccess) : BitVec 8 := .ofNat 8 request.size

/-- What becomes of an execution of a store. -/
inductive StoreAttempt where
  /-- It faults, or its predicate is false. The translation tells whether the access is
  strictly ordered. -/
  | noAccess (faulted strictlyOrdered : Bool)
  | delayed
  | stalled
  | access (request : StoreAccess)
deriving DecidableEq, Repr

/-- An access has at least one byte. -/
def StoreAttempt.isProper : StoreAttempt → Bool
  | .access request => request.effSize != 0
  | _ => true

variable (params : Params) (lsq : LSQUnit)

/-! ### Reads -/

/-- What a load finds in an entry: its data, a part of its data, or nothing. -/
def overlap (request : LoadAccess) (storeAddr : BitVec 64) (storeSize : BitVec 8) : Option Bool :=
  let loadEnd := request.effAddr + .ofNat 64 request.size
  let storeEnd := storeAddr + storeSize.setWidth 64
  let storeHasLowerLimit := decide (storeAddr ≤ request.effAddr)
  let storeHasUpperLimit := decide (loadEnd ≤ storeEnd)
  let lowerLoadHasStorePart := decide (request.effAddr < storeEnd)
  let upperLoadHasStorePart := decide (storeAddr < loadEnd)
  if storeHasLowerLimit && storeHasUpperLimit && !request.isLLSC then some true
  else if
      (!request.isLLSC &&
        ((storeHasLowerLimit && lowerLoadHasStorePart) ||
          (storeHasUpperLimit && upperLoadHasStorePart) ||
          (lowerLoadHasStorePart && upperLoadHasStorePart))) ||
      (request.isLLSC &&
        ((storeHasLowerLimit || upperLoadHasStorePart) &&
          (storeHasUpperLimit || lowerLoadHasStorePart))) then some false
  else none

/-- What the scan of the store queue returns. -/
structure ScanResult where
  bypassed : Bool
  /-- The index of the store that holds data of the load, and whether it holds all. -/
  found : Option (Nat × Bool)
deriving DecidableEq, Repr

/-- Scan the stores before an index, down to the write-back index. -/
def scan (request : LoadAccess) : Nat → Nat → Bool → Option ScanResult
  | 0, _, bypassed => some ⟨bypassed, none⟩
  | bound + 1, idx, bypassed =>
      if idx = lsq.storeWBIdx then some ⟨bypassed, none⟩
      else
        let idx := Ring.prev params.sqEntries idx
        let entry := lsq.storeQueue idx
        match entry.inst with
        | none => none
        | some seq =>
            let store := lsq.insts seq
            if entry.size = 0 ∨ store.strictlyOrdered ∨ entry.isCacheMaintenance then
              if params.config.isDolma ∧ !params.config.isDolmaConservative ∧
                  !params.config.isSTT ∧ (entry.size = 0 ∨ store.strictlyOrdered) then
                if store.effAddrValid then none
                else scan request bound idx true
              else scan request bound idx bypassed
            else if !store.effAddrValid then none
            else
              match overlap request store.effAddr entry.size with
              | some true => some ⟨bypassed, some (idx, true)⟩
              | some false =>
                  if entry.completed then none
                  else some ⟨bypassed, some (idx, false)⟩
              | none => scan request bound idx bypassed

/-- The dependence unit keeps the instruction for a replay. -/
def rescheduleMemInst (seq : Nat) : LSQUnit :=
  { lsq with instsToReplay := lsq.instsToReplay ++ [seq] }

/-- The data of the load is on its way. -/
def owe (seq : Nat) : LSQUnit :=
  { lsq with owed := Function.update lsq.owed seq true }

/-- The load waits until the store is sent. It is recorded if it is the oldest load
that waits. -/
def stallLoad (seq storeIdx : Nat) : Option LSQUnit := do
  let store ← (lsq.storeQueue storeIdx).inst
  let older ←
    if lsq.stalled then
      (lsq.loadQueue lsq.stallingLoadIdx).map fun recorded => decide (seq < recorded)
    else some true
  let lsq :=
    if older then
      { lsq with
        stalled := true
        stallingStoreIsn := store
        stallingLoadIdx := lsq.lqIdx seq }
    else lsq
  return (rescheduleMemInst lsq seq).modify seq fun load => load.setStatus .issued false

/-- The load asks the cache, for its data or to hide a hit in the store queue. -/
def accessMemory
    (seq : Nat) (wasPartialStoreBufferHit : Bool) (storeIdx : Nat)
    (outcome : CacheOutcome) : Option LSQUnit :=
  let load := lsq.insts seq
  match outcome with
  | .accepted =>
      if load.status .totalStoreBufferHit then some (owe lsq seq)
      else if load.status .partialStoreBufferHit && !wasPartialStoreBufferHit then
        stallLoad lsq seq storeIdx
      else some (owe lsq seq)
  | .restrictedMiss =>
      if load.status .totalStoreBufferHit then none
      else
        some (lsq.modify seq fun load =>
          (load.setStatus .dataInducer false).setDolmaStalled.setStatus .issued false)
  | .blocked =>
      some (lsq.modify seq fun load =>
        let cleared :=
          ((load.setStatus .dataInducer false).setStatus
            .totalStoreBufferHit false).setStatus .issued false
        if load.status .partialStoreBufferHit && !wasPartialStoreBufferHit then
          cleared.setStatus .partialStoreBufferHit false
        else cleared)

/-- Mark a load that has passed a store without a known address. -/
def markBypass (seq : Nat) (bypassed : Bool) : LSQUnit :=
  if bypassed then lsq.modify seq fun load => load.setStatus .dataInducer true else lsq

/-- How a load goes on with the result of the scan. -/
def useScan (seq : Nat) (result : ScanResult) (outcome : CacheOutcome) : Option LSQUnit :=
  let load := lsq.insts seq
  let wasPartial := load.status .partialStoreBufferHit
  let lsq := markBypass lsq seq result.bypassed
  match result.found with
  | none => accessMemory lsq seq wasPartial 0 outcome
  | some (idx, covers) => do
      let store ← (lsq.storeQueue idx).inst
      let hides := params.config.isDolma && (lsq.insts store).isDolmaRestricted &&
        !load.isDolmaRestricted
      if covers then
        if hides then
          accessMemory
            (lsq.modify seq fun load => load.setStatus .totalStoreBufferHit true)
            seq wasPartial idx outcome
        else some (owe lsq seq)
      else if hides && !params.config.isSTT && !wasPartial then
        accessMemory
          (lsq.modify seq fun load => load.setStatus .partialStoreBufferHit true)
          seq wasPartial idx outcome
      else stallLoad lsq seq idx

/-- Read for a load whose address is known. -/
def read (seq : Nat) (request : LoadAccess) (outcome : CacheOutcome) : Option LSQUnit :=
  let load := lsq.insts seq
  if load.isExecuted then none
  else if request.strictlyOrdered ∧
      ¬(lsq.lqIdx seq = lsq.loadHead ∧ load.status .atCommit) then
    some (rescheduleMemInst lsq seq)
  else if request.isMmappedIpr then some (owe lsq seq)
  else do
    let result ←
      match lsq.sqIdx seq with
      | none => some ⟨false, none⟩
      | some idx => scan params lsq request params.sqEntries idx false
    useScan params lsq seq result outcome

/-! ### Violations -/

/-- Check an executed instruction against the loads from an index on. -/
def checkViolations (seq : Nat) : Nat → Nat → LSQUnit → Option LSQUnit
  | 0, _, lsq => some lsq
  | bound + 1, idx, lsq =>
      if idx = lsq.loadTail then some lsq
      else
        match lsq.loadQueue idx with
        | none => none
        | some other =>
            let inst := lsq.insts seq
            let load := lsq.insts other
            let next := Ring.next params.lqEntries idx
            if isChecked load && sameBlock params.config inst load then
              if inst.staticInst.isLoad then
                if load.hitExternalSnoop &&
                    lsq.memDepViolator.all fun violator => decide (other < violator) then
                  some { lsq with memDepViolator := some other }
                else
                  checkViolations seq bound next
                    { lsq with
                      possibleLoadViolation :=
                        Function.update lsq.possibleLoadViolation other true }
              else if lsq.memDepViolator.any fun violator => decide (violator < other) then
                some lsq
              else
                some { lsq with
                  memDepViolator := some other
                  insts :=
                    if params.config.isDolma && !params.config.isDolmaConservative &&
                        !params.config.isSTT then
                      lsq.insts.modify seq fun store => { store with violatorSeqNum := other }
                    else lsq.insts }
            else checkViolations seq bound next lsq

/-- An invalidated block hits some of the loads. Look at the loads from an index on. With total
store order all loads after a hit have to execute again. -/
def checkSnoopFrom (hits : List Nat) : Nat → Nat → Bool → LSQUnit → Option LSQUnit
  | 0, _, _, lsq => some lsq
  | bound + 1, idx, forceSquash, lsq =>
      if idx = lsq.loadTail then some lsq
      else
        match lsq.loadQueue idx with
        | none => none
        | some other =>
            let next := Ring.next params.lqEntries idx
            if isChecked (lsq.insts other) && (hits.contains other || forceSquash) then
              let forceSquash := forceSquash || params.needsTSO
              if lsq.possibleLoadViolation other || forceSquash then
                checkSnoopFrom hits bound next forceSquash
                  (lsq.modify other fun load => { load with fault := true })
              else
                checkSnoopFrom hits bound next forceSquash
                  (lsq.modify other fun load => { load with hitExternalSnoop := true })
            else checkSnoopFrom hits bound next forceSquash lsq

/-- A block is invalidated. The oldest load is not looked at. -/
def checkSnoop (hits : List Nat) : Option LSQUnit :=
  if lsq.loadHead = lsq.loadTail then some lsq
  else
    checkSnoopFrom params hits params.lqEntries (Ring.next params.lqEntries lsq.loadHead) false lsq

/-- Execute a load. -/
def executeLoad (seq : Nat) (attempt : LoadAttempt) : Option LSQUnit :=
  let load := lsq.insts seq
  if load.isDolmaStalled || params.config.isSTT && load.isDolmaRestricted then none
  else
    match attempt with
    | .delayed => some lsq
    | .stalled => some (lsq.modify seq fun load => load.setDolmaStalled)
    | .noAccess faulted =>
        -- a strictly ordered load goes to commit without being executed
        some (lsq.modify seq fun load =>
          { load.setStatus .executed (!load.strictlyOrdered || load.status .atCommit) with
            fault := faulted })
    | .access request outcome => do
        let lsq := lsq.modify seq fun load =>
          { load with
            effAddr := request.effAddr
            effSize := request.effSize
            effAddrValid := true
            strictlyOrdered := request.strictlyOrdered }
        let waits := request.strictlyOrdered &&
          !(lsq.lqIdx seq == lsq.loadHead && (lsq.insts seq).status .atCommit)
        let lsq ← read params lsq seq request outcome
        if (lsq.insts seq).isDolmaStalled || waits || !params.config.checkLoads then return lsq
        else
          checkViolations params seq params.lqEntries
            (Ring.next params.lqEntries (lsq.lqIdx seq)) lsq

/-- Write the data of a store to the store queue. -/
def write (storeIdx : Nat) (request : StoreAccess) : LSQUnit :=
  let entry := lsq.storeQueue storeIdx
  lsq.setEntry storeIdx
    { entry with
      size := request.effSize
      isSplit := entry.isSplit || request.isSplit
      isMmappedIpr := request.isMmappedIpr
      isCacheMaintenance := request.isCacheMaintenance }

/-- A store that gets its address writes to its entry and is checked against the younger
loads. -/
def accessStore (seq : Nat) (request : StoreAccess) : Option LSQUnit := do
  let idx ← lsq.sqIdx seq
  let lsq := write
    (lsq.modify seq fun store =>
      { store with
        effAddr := request.effAddr
        effSize := request.effSize
        effAddrValid := true
        strictlyOrdered := request.strictlyOrdered }) idx request
  if (lsq.storeQueue idx).size = 0 then return lsq
  else checkViolations params seq params.lqEntries (lsq.lqIdx seq) lsq

/-- Execute a store. -/
def executeStore (seq : Nat) (attempt : StoreAttempt) : Option LSQUnit :=
  if (lsq.insts seq).isDolmaStalled then none
  else
    match attempt with
    | .delayed => some lsq
    | .stalled => some (lsq.modify seq fun store => store.setDolmaStalled)
    | .noAccess faulted strictlyOrdered =>
        some (lsq.modify seq fun store =>
          { store with fault := faulted, strictlyOrdered := strictlyOrdered })
    | .access request => accessStore params lsq seq request

/-! ### Squashes -/

/-- Squash the load at an index, which is the last one. If it is the load that waits
for a store, the record is cleared. -/
def squashLoad (idx seq : Nat) : LSQUnit :=
  let clears := lsq.stalled ∧ idx = lsq.stallingLoadIdx
  { lsq.modify seq DynInst.setSquashed with
    stalled := if clears then false else lsq.stalled
    stallingStoreIsn := if clears then 0 else lsq.stallingStoreIsn
    stallingLoadIdx := if clears then 0 else lsq.stallingLoadIdx
    loadQueue := Function.update lsq.loadQueue idx none
    loads := lsq.loads - 1
    loadTail := idx }

/-- Squash the loads younger than a sequence number, from an index back. -/
def squashLoads (squashedNum : Nat) : Nat → Nat → LSQUnit → Option LSQUnit
  | 0, _, lsq => some lsq
  | bound + 1, idx, lsq =>
      if lsq.loads = 0 then some lsq
      else
        match lsq.loadQueue idx with
        | none => none
        | some seq =>
            if squashedNum < seq then
              squashLoads squashedNum bound (Ring.prev params.lqEntries idx)
                (squashLoad lsq idx seq)
            else some lsq

/-- Squash the store at an index, which is the last one. -/
def squashStore (idx seq : Nat) : LSQUnit :=
  { (lsq.modify seq DynInst.setSquashed).setEntry idx
      { lsq.storeQueue idx with inst := none, canWB := false } with
    stores := lsq.stores - 1
    storeTail := idx }

/-- Squash the stores younger than a sequence number that are not committed, from an index back.
The unit panics if the recorded load waits for such a store. -/
def squashStores (squashedNum : Nat) : Nat → Nat → LSQUnit → Option LSQUnit
  | 0, _, lsq => some lsq
  | bound + 1, idx, lsq =>
      if lsq.stores = 0 then some lsq
      else
        match (lsq.storeQueue idx).inst with
        | none => none
        | some seq =>
            if squashedNum < seq ∧ (lsq.storeQueue idx).canWB = false then
              if lsq.stalled ∧ seq = lsq.stallingStoreIsn then none
              else
                squashStores squashedNum bound (Ring.prev params.sqEntries idx)
                  (squashStore lsq idx seq)
            else some lsq

/-- Squash everything younger than a sequence number, in the dependence unit and in the
queues. -/
def squash (squashedNum : Nat) : Option LSQUnit := do
  let lsq := { lsq with
    instsToReplay := lsq.instsToReplay.filter fun seq => decide (seq ≤ squashedNum) }
  let lsq ← squashLoads params squashedNum params.lqEntries
    (Ring.prev params.lqEntries lsq.loadTail) lsq
  let lsq := { lsq with
    memDepViolator := lsq.memDepViolator.filter fun seq => decide (seq ≤ squashedNum) }
  squashStores params squashedNum params.sqEntries
    (Ring.prev params.sqEntries lsq.storeTail) lsq

/-! ### Runs -/

/-- What the surroundings do with the unit. -/
inductive Event where
  | insertLoad (seq : Nat)
  | insertStore (seq : Nat)
  | executeLoad (seq : Nat) (attempt : LoadAttempt)
  | executeStore (seq : Nat) (attempt : StoreAttempt)
  | writeback (seq : Nat)
  | status (seq : Nat) (flag : Status) (value : Bool)
  | getMemDepViolator
  /-- A block is invalidated that these loads have read. -/
  | checkSnoop (hits : List Nat)
  | commitLoads (youngestInst : Nat)
  | commitStores (youngestInst : Nat)
  /-- Commit has the strictly ordered load at its head replayed. -/
  | replayStrictlyOrdered (seq : Nat)
  | squash (squashedNum : Nat)
  | writebackStores (answers : List Bool)
  | recvRetry (answers : List Bool)
  | response (pkt : Packet)
deriving DecidableEq, Repr

/-- The marks that the core changes without the unit. -/
def isCoreFlag : Status → Bool
  | .robEntry | .issued | .canCommit | .controlInducer | .dataInducer
  | .controlRestricted | .dataRestricted | .pendingMemOrder | .pendingBranch
  | .dolmaStalled | .pendingMetadata => true
  | .executed | .atCommit | .committed | .squashed | .partialStoreBufferHit
  | .totalStoreBufferHit => false

/-- The surroundings may do this. -/
def enabled : Event → Bool
  | .insertLoad seq => decide (lsq.lastSeq < seq) && !lsq.lqFull params
  | .insertStore seq => decide (lsq.lastSeq < seq) && !lsq.sqFull params
  | .executeLoad seq _ =>
      lsq.hasLoad params seq && !(lsq.insts seq).isExecuted && !lsq.owed seq &&
        !lsq.instsToReplay.contains seq
  | .executeStore seq attempt =>
      lsq.hasStore params seq &&
        ((lsq.sqIdx seq).all fun idx => !(lsq.storeQueue idx).canWB) && attempt.isProper
  | .writeback seq => lsq.owed seq
  | .status _ flag _ => isCoreFlag flag
  | .replayStrictlyOrdered seq =>
      lsq.loadAt params 0 = some seq && (lsq.insts seq).strictlyOrdered &&
        !(lsq.insts seq).isExecuted && lsq.storesToWB == 0
  | .response pkt => lsq.inFlight.contains pkt
  | _ => true

/-- What the unit does. -/
def apply : Event → Option LSQUnit
  | .insertLoad seq => LsqUnit.insertLoad params lsq seq
  | .insertStore seq => LsqUnit.insertStore params lsq seq false
  | .executeLoad seq attempt => LsqUnit.executeLoad params lsq seq attempt
  | .executeStore seq attempt => LsqUnit.executeStore params lsq seq attempt
  | .writeback seq =>
      let lsq := { lsq with owed := Function.update lsq.owed seq false }
      if (lsq.insts seq).isSquashed then some lsq
      else some (lsq.modify seq fun load => load.setStatus .executed true)
  | .status seq flag value => some (lsq.modify seq fun inst => inst.setStatus flag value)
  | .getMemDepViolator => some { lsq with memDepViolator := none }
  | .checkSnoop hits => LsqUnit.checkSnoop params lsq hits
  | .commitLoads youngestInst =>
      LsqUnit.commitLoads params youngestInst params.lqEntries
        { lsq with doneSeqNum := max lsq.doneSeqNum youngestInst }
  | .commitStores youngestInst =>
      LsqUnit.commitStores params youngestInst params.sqEntries lsq.storeHead
        { lsq with doneSeqNum := max lsq.doneSeqNum youngestInst }
  | .replayStrictlyOrdered seq =>
      (replayMemInst lsq (some seq)).map fun lsq =>
        lsq.modify seq fun load => load.setStatus .atCommit true
  | .squash squashedNum => LsqUnit.squash params lsq squashedNum
  | .writebackStores answers => LsqUnit.writebackStores params lsq answers
  | .recvRetry answers => LsqUnit.recvRetry params lsq answers
  | .response pkt => completeDataAccess params lsq pkt

/-- One step of a run. -/
def step (lsq : LSQUnit) (event : Event) : Option LSQUnit :=
  if enabled params lsq event then apply params lsq event else none

/-- Every step is permitted. -/
def anyEvent (_ : LSQUnit) (_ : Event) : Prop := True

instance (lsq : LSQUnit) (event : Event) : Decidable (anyEvent lsq event) :=
  inferInstanceAs (Decidable True)

/-- The unit can get into this state. -/
abbrev Reached (lsq : LSQUnit) : Prop :=
  Reachable (step params) anyEvent {} lsq

/-- A unit of two loads and two stores with total store order. -/
def twoEach : Params where
  maxLQEntries := 2
  maxSQEntries := 2
  lqBound := by decide
  sqBound := by decide
  cacheStorePorts := 1
  needsTSO := true
  config := { mode := 1 }

end LsqUnit
end Dolma

import Dolma.Library.Ring
import Dolma.Lsq.Defs

/-!
# The load/store queue unit

The load and store rings of one thread with their indices and counters, the stores on their way
to memory, and the record of a load that waits for a store. A function returns `none` where the
unit fails an assertion, panics or follows a null pointer. Loops are bounded by their first
number. Together with the unit the model keeps what its surroundings know: which loads wait to be
replayed, which write-backs are owed to loads, which packets are unanswered, and what has
happened to stores.
-/

namespace Dolma
namespace LsqUnit

open Library

/-- The parameters of a unit. -/
structure Params where
  maxLQEntries : Nat
  maxSQEntries : Nat
  lqBound : maxLQEntries + 1 ≤ 256
  sqBound : maxSQEntries + 1 ≤ 256
  cacheStorePorts : Nat
  needsTSO : Bool
  config : Config

namespace Params

/-- The slots of the load queue, one of them free. -/
def lqEntries (params : Params) : Nat := params.maxLQEntries + 1

/-- The slots of the store queue, one of them free. -/
def sqEntries (params : Params) : Nat := params.maxSQEntries + 1

end Params

/-- An entry of the store queue. -/
structure SQEntry where
  inst : Option Nat := none
  /-- Size of the data; zero until the store has executed. -/
  size : BitVec 8 := 0
  isSplit : Bool := false
  isMmappedIpr : Bool := false
  isCacheMaintenance : Bool := false
  isDataPrefetch : Bool := false
  canWB : Bool := false
  committed : Bool := false
  completed : Bool := false
deriving DecidableEq, Repr

namespace SQEntry

/-- The sequence number of the store in an entry. -/
def seqNum (entry : SQEntry) : Nat := entry.inst.getD 0

/-- The store may write back. -/
@[simps] def setCanWB (entry : SQEntry) : SQEntry := { entry with canWB := true }

/-- The store is being written back. -/
@[simps] def setCommitted (entry : SQEntry) : SQEntry := { entry with committed := true }

/-- The store is completed. -/
@[simps] def setCompleted (entry : SQEntry) : SQEntry := { entry with completed := true }

end SQEntry

/-- The part of a store that a packet carries. -/
inductive Part where
  | whole
  | low
  | high
deriving DecidableEq, Repr

/-- A packet that writes a store, or a part of it, to memory. -/
structure Packet where
  inst : Nat
  part : Part
deriving DecidableEq, Repr

/-- The parts in which an entry goes to memory. -/
def SQEntry.parts (entry : SQEntry) : List Part :=
  if entry.size = 0 ∨ entry.isDataPrefetch ∨ entry.isMmappedIpr then []
  else if entry.isSplit then [.low, .high]
  else [.whole]

/-- What the packets of a store carry for the response. -/
structure LSQSenderState where
  pendingPacket : Option Packet := none
  idx : Nat := 0
  outstanding : Nat := 1
  isSplit : Bool := false
  pktToSend : Bool := false
deriving DecidableEq, Repr

/-- What happens to stores. -/
inductive Happening where
  | committed (store : Nat) (parts : List Part)
  | offered (pkt : Packet) (accepted : Bool)
  | completed (store : Nat)
deriving DecidableEq, Repr

/-- The unit, and what its surroundings know of it. -/
structure LSQUnit where
  insts : Heap := fun _ => {}
  lqIdx : Nat → Nat := fun _ => 0
  /-- For a store its index, for a load the index of the next store, or none if the
  store queue was empty. -/
  sqIdx : Nat → Option Nat := fun _ => none
  loadQueue : Nat → Option Nat := fun _ => none
  storeQueue : Nat → SQEntry := fun _ => {}
  loads : Int := 0
  stores : Int := 0
  storesToWB : Int := 0
  loadHead : Nat := 0
  loadTail : Nat := 0
  storeHead : Nat := 0
  storeWBIdx : Nat := 0
  storeTail : Nat := 0
  usedStorePorts : Nat := 0
  stalled : Bool := false
  stallingStoreIsn : Nat := 0
  stallingLoadIdx : Nat := 0
  retryPkt : Option Packet := none
  isStoreBlocked : Bool := false
  storeInFlight : Bool := false
  memDepViolator : Option Nat := none
  /-- An older load of the same block has executed after the load. -/
  possibleLoadViolation : Nat → Bool := fun _ => false
  hasPendingPkt : Bool := false
  pendingPkt : Option Packet := none
  /-- What the packets of each store carry. -/
  senderState : Nat → LSQSenderState := fun _ => {}
  instsToReplay : List Nat := []
  /-- The load has got its data, which is to be written back. -/
  owed : Nat → Bool := fun _ => false
  answers : List Bool := []
  inFlight : List Packet := []
  trace : List Happening := []
  lastSeq : Nat := 0
  doneSeqNum : Nat := 0

namespace LSQUnit

/-- The load at a distance from the head. -/
def loadAt (params : Params) (lsq : LSQUnit) (offset : Nat) : Option Nat :=
  lsq.loadQueue ((lsq.loadHead + offset) % params.lqEntries)

/-- The store at a distance from the head. -/
def storeAt (params : Params) (lsq : LSQUnit) (offset : Nat) : SQEntry :=
  lsq.storeQueue ((lsq.storeHead + offset) % params.sqEntries)

/-- The load is in the queue. -/
def hasLoad (params : Params) (lsq : LSQUnit) (seq : Nat) : Bool :=
  (List.range lsq.loads.toNat).any fun offset => lsq.loadAt params offset = some seq

/-- The store is in the queue. -/
def hasStore (params : Params) (lsq : LSQUnit) (seq : Nat) : Bool :=
  (List.range lsq.stores.toNat).any fun offset =>
    (lsq.storeAt params offset).inst = some seq

/-- The load queue is full. -/
def lqFull (params : Params) (lsq : LSQUnit) : Bool :=
  decide ((params.lqEntries : Int) - 1 ≤ lsq.loads)

/-- The store queue is full. -/
def sqFull (params : Params) (lsq : LSQUnit) : Bool :=
  decide ((params.sqEntries : Int) - 1 ≤ lsq.stores)

/-- Change an instruction. -/
def modify (lsq : LSQUnit) (seq : Nat) (change : DynInst → DynInst) : LSQUnit :=
  { lsq with insts := lsq.insts.modify seq change }

/-- Change an entry of the store queue. -/
def setEntry (lsq : LSQUnit) (idx : Nat) (entry : SQEntry) : LSQUnit :=
  { lsq with storeQueue := Function.update lsq.storeQueue idx entry }

/-- Change what the packets of a store carry. -/
def setSender (lsq : LSQUnit) (seq : Nat) (sender : LSQSenderState) : LSQUnit :=
  { lsq with senderState := Function.update lsq.senderState seq sender }

end LSQUnit

open LSQUnit

variable (params : Params) (lsq : LSQUnit)

/-! ### Insertion and commit -/

/-- Insert a load. -/
def insertLoad (seq : Nat) : Option LSQUnit :=
  if (lsq.loadTail + 1) % params.lqEntries = lsq.loadHead ∨
      (params.lqEntries : Int) ≤ lsq.loads then none
  else
    some { lsq with
      insts := Function.update lsq.insts seq { staticInst := { isLoad := true } }
      lqIdx := Function.update lsq.lqIdx seq lsq.loadTail
      sqIdx := Function.update lsq.sqIdx seq
        (if lsq.stores = 0 then none else some lsq.storeTail)
      loadQueue := Function.update lsq.loadQueue lsq.loadTail (some seq)
      loadTail := Ring.next params.lqEntries lsq.loadTail
      loads := lsq.loads + 1
      lastSeq := seq }

/-- Insert a store. -/
def insertStore (seq : Nat) (isDataPrefetch : Bool) : Option LSQUnit :=
  if (lsq.storeTail + 1) % params.sqEntries = lsq.storeHead ∨
      (params.sqEntries : Int) ≤ lsq.stores then none
  else
    some { lsq with
      insts := Function.update lsq.insts seq { staticInst := { isStore := true } }
      lqIdx := Function.update lsq.lqIdx seq lsq.loadTail
      sqIdx := Function.update lsq.sqIdx seq (some lsq.storeTail)
      storeQueue := Function.update lsq.storeQueue lsq.storeTail
        { inst := some seq, isDataPrefetch := isDataPrefetch }
      storeTail := Ring.next params.sqEntries lsq.storeTail
      stores := lsq.stores + 1
      lastSeq := seq }

/-- Remove the oldest load. -/
def commitLoad : LSQUnit :=
  { lsq with
    loadQueue := Function.update lsq.loadQueue lsq.loadHead none
    loadHead := Ring.next params.lqEntries lsq.loadHead
    loads := lsq.loads - 1 }

/-- Remove the loads up to the youngest committed instruction. -/
def commitLoads (youngestInst : Nat) : Nat → LSQUnit → Option LSQUnit
  | 0, lsq => some lsq
  | bound + 1, lsq =>
      if lsq.loads = 0 then some lsq
      else
        match lsq.loadQueue lsq.loadHead with
        | none => none
        | some seq =>
            if seq ≤ youngestInst then
              commitLoads youngestInst bound (commitLoad params lsq)
            else some lsq

/-- Mark the store at an index as able to write back. -/
def markStore (storeIdx seq : Nat) : LSQUnit :=
  { lsq.setEntry storeIdx (lsq.storeQueue storeIdx).setCanWB with
    storesToWB := lsq.storesToWB + 1
    trace := lsq.trace ++ [.committed seq (lsq.storeQueue storeIdx).parts] }

/-- Mark the stores from an index on, up to the youngest committed instruction. -/
def commitStores (youngestInst : Nat) : Nat → Nat → LSQUnit → Option LSQUnit
  | 0, _, lsq => some lsq
  | bound + 1, storeIdx, lsq =>
      if storeIdx = lsq.storeTail then some lsq
      else
        match (lsq.storeQueue storeIdx).inst with
        | none => none
        | some seq =>
            if (lsq.storeQueue storeIdx).canWB then
              commitStores youngestInst bound (Ring.next params.sqEntries storeIdx) lsq
            else if youngestInst < seq then some lsq
            else
              commitStores youngestInst bound (Ring.next params.sqEntries storeIdx)
                (markStore lsq storeIdx seq)

/-! ### Completion and replay -/

/-- The dependence unit makes all waiting memory instructions ready. The replayed
instruction has to exist. -/
def replayMemInst (load : Option Nat) : Option LSQUnit :=
  load.map fun _ => { lsq with instsToReplay := [] }

/-- If a load waits for the store, it is replayed. -/
def unstall (store : Nat) : Option LSQUnit :=
  if lsq.stalled ∧ store = lsq.stallingStoreIsn then
    replayMemInst { lsq with stalled := false, stallingStoreIsn := 0 }
      (lsq.loadQueue lsq.stallingLoadIdx)
  else some lsq

/-- The oldest store leaves the queue, and the completed ones after it. -/
def drainHead : Nat → LSQUnit → LSQUnit
  | 0, lsq => lsq
  | bound + 1, lsq =>
      let lsq := { lsq with
        storeHead := Ring.next params.sqEntries lsq.storeHead
        stores := lsq.stores - 1 }
      if (lsq.storeQueue lsq.storeHead).completed ∧ lsq.storeHead ≠ lsq.storeTail then
        drainHead bound lsq
      else lsq

/-- Mark the store at an index as completed. -/
def markCompleted (storeIdx seq : Nat) : LSQUnit :=
  { lsq.setEntry storeIdx (lsq.storeQueue storeIdx).setCompleted with
    storesToWB := lsq.storesToWB - 1
    trace := lsq.trace ++ [.completed seq] }

/-- Complete the store at an index. -/
def completeStore (storeIdx : Nat) : Option LSQUnit := do
  let seq ← (lsq.storeQueue storeIdx).inst
  let lsq := markCompleted lsq storeIdx seq
  let lsq := if storeIdx = lsq.storeHead then drainHead params params.sqEntries lsq else lsq
  let lsq ← unstall lsq seq
  return { lsq with storeInFlight := if params.needsTSO then false else lsq.storeInFlight }

/-! ### Stores on their way to memory -/

/-- Offer a packet to the memory port, which answers as it likes. -/
def sendTimingReq (pkt : Packet) : Bool × LSQUnit :=
  let accepted := lsq.answers.headD false
  (accepted,
    { lsq with
      answers := lsq.answers.tail
      inFlight := if accepted then lsq.inFlight ++ [pkt] else lsq.inFlight
      trace := lsq.trace ++ [.offered pkt accepted] })

/-- Send a packet of a store, or keep it for a retry. -/
def sendStore (pkt : Packet) : Option (Bool × LSQUnit) :=
  let (accepted, lsq) := sendTimingReq lsq pkt
  if accepted then some (true, lsq)
  else if lsq.retryPkt.isSome then none
  else some (false, { lsq with isStoreBlocked := true, retryPkt := some pkt })

/-- The last packet of the store at the write-back index is sent. -/
def storePostSend : Option LSQUnit := do
  let seq ← (lsq.storeQueue lsq.storeWBIdx).inst
  let lsq ← unstall lsq seq
  return { lsq with
    storeInFlight := if params.needsTSO then true else lsq.storeInFlight
    storeWBIdx := Ring.next params.sqEntries lsq.storeWBIdx }

/-- Send the second packet of a split store for which there was no port. -/
def writebackPendingStore : Option LSQUnit :=
  if lsq.hasPendingPkt then do
    let pkt ← lsq.pendingPkt
    let (sent, lsq) ← sendStore lsq pkt
    let lsq ← if sent then storePostSend params lsq else some lsq
    return { lsq with pendingPkt := none, hasPendingPkt := false }
  else some lsq

/-- The second packet of a split store is sent, or waits for a port. -/
def sendSecond (pkt : Packet) : Option LSQUnit :=
  if lsq.usedStorePorts < params.cacheStorePorts then do
    let (sent, lsq) ←
      sendStore { lsq with usedStorePorts := lsq.usedStorePorts + 1 } pkt
    if sent then storePostSend params lsq else return lsq
  else if lsq.pendingPkt.isSome then none
  else some { lsq with pendingPkt := some pkt, hasPendingPkt := true }

/-- What the packets of a store carry at first. -/
def newSender (entry : SQEntry) : LSQSenderState :=
  { idx := lsq.storeWBIdx % 256
    outstanding := if entry.isSplit then 2 else 1
    isSplit := entry.isSplit }

/-- Write back the store at the write-back index, which is not empty. -/
def writebackStore (entry : SQEntry) (seq : Nat) : Option LSQUnit :=
  if entry.committed then none
  else
    let lsq := lsq.setEntry lsq.storeWBIdx entry.setCommitted
    if entry.isMmappedIpr then do
      let lsq ← completeStore params lsq lsq.storeWBIdx
      return { lsq with storeWBIdx := Ring.next params.sqEntries lsq.storeWBIdx }
    else do
      let sender := newSender lsq entry
      let (sent, lsq) ←
        sendStore (lsq.setSender seq sender) ⟨seq, if entry.isSplit then .low else .whole⟩
      if entry.isSplit then
        if sent then sendSecond params lsq ⟨seq, .high⟩
        else
          return lsq.setSender seq
            { sender with pktToSend := true, pendingPacket := some ⟨seq, .high⟩ }
      else if sent then storePostSend params lsq
      else return lsq

/-- The store at the write-back index may be written back now. -/
def mayWriteback : Bool :=
  let entry := lsq.storeQueue lsq.storeWBIdx
  decide (0 < lsq.storesToWB) && decide (lsq.storeWBIdx ≠ lsq.storeTail) &&
    entry.inst.isSome && entry.canWB && (!params.needsTSO || !lsq.storeInFlight) &&
    decide (lsq.usedStorePorts < params.cacheStorePorts) && !lsq.isStoreBlocked

/-- Write back stores while possible. -/
def writebackLoop : Nat → LSQUnit → Option LSQUnit
  | 0, lsq => some lsq
  | bound + 1, lsq =>
      if mayWriteback params lsq then do
        let entry := lsq.storeQueue lsq.storeWBIdx
        let seq ← entry.inst
        if entry.size = 0 then
          let lsq ← completeStore params lsq lsq.storeWBIdx
          writebackLoop bound
            { lsq with storeWBIdx := Ring.next params.sqEntries lsq.storeWBIdx }
        else
          let lsq := { lsq with usedStorePorts := lsq.usedStorePorts + 1 }
          if entry.isDataPrefetch then
            writebackLoop bound
              { lsq with storeWBIdx := Ring.next params.sqEntries lsq.storeWBIdx }
          else
            let lsq ← writebackStore params lsq entry seq
            writebackLoop bound lsq
      else some lsq

/-- Write back the committed stores of a cycle. -/
def writebackStores (answers : List Bool) : Option LSQUnit := do
  let lsq ← writebackPendingStore params { lsq with answers := answers }
  let lsq ← writebackLoop params params.sqEntries lsq
  return { lsq with usedStorePorts := 0, answers := [] }

/-- The port asks for the refused packet again. -/
def recvRetry (answers : List Bool) : Option LSQUnit :=
  if lsq.isStoreBlocked then do
    let pkt ← lsq.retryPkt
    let sender := lsq.senderState pkt.inst
    let (accepted, lsq) := sendTimingReq { lsq with answers := answers } pkt
    if accepted then
      if !sender.pktToSend || sender.pendingPacket == some pkt then
        let lsq ← storePostSend params
          (lsq.setSender pkt.inst { sender with pktToSend := false })
        return { lsq with retryPkt := none, isStoreBlocked := false, answers := [] }
      else
        let second ← sender.pendingPacket
        let (sent, lsq) ←
          sendStore { lsq with retryPkt := none, isStoreBlocked := false } second
        let lsq ← if sent then storePostSend params lsq else some lsq
        return { lsq with answers := [] }
    else return { lsq with answers := [] }
  else some lsq

/-- A packet of a store is answered. -/
def completeDataAccess (pkt : Packet) : Option LSQUnit :=
  let sender := lsq.senderState pkt.inst
  let outstanding := (sender.outstanding + 255) % 256
  let lsq :=
    { lsq.setSender pkt.inst { sender with outstanding := outstanding } with
      inFlight := lsq.inFlight.erase pkt }
  if outstanding ≠ 0 then some lsq
  else if (lsq.insts pkt.inst).isSquashed then some lsq
  else completeStore params lsq sender.idx

end LsqUnit
end Dolma

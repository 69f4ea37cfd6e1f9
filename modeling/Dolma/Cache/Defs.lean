import Dolma.Cache.Packet

/-!
# The first-level data cache

The tag store, the access path and the port of the core. A restricted read finds its block
without a trace. A miss of a restricted read only lifts the restriction of its request, and a
deferred update of replacement metadata ends once the block is touched. A function has no result
where the source aborts.
-/

namespace Dolma
namespace Cache

open Mem

/-- A block. -/
structure CacheBlk (ρ : Type) where
  tag : Addr
  valid : Bool
  readable : Bool
  writable : Bool
  dirty : Bool
  secure : Bool
  data : Nat → BitVec 8
  refCount : BitVec 32
  replacementData : ρ
  whenReady : Nat
  lockList : List Addr

namespace CacheBlk

variable {ρ : Type} (blk : CacheBlk ρ)

/-- The block is valid and may be read. -/
def isReadable : Bool := blk.readable && blk.valid
/-- The block is valid and may be written. -/
def isWritable : Bool := blk.writable && blk.valid

end CacheBlk

/-- The place of a block: its set and its way. -/
abbrev Place := Nat × Nat

/-- An entry of the miss queue. -/
structure Mshr where
  blkAddr : Addr
  isSecure : Bool
  isUncacheable : Bool
  targets : List Packet
deriving DecidableEq, Repr

/-- Why the cache refuses requests. -/
inductive BlockedCause where
  | noMSHRs
  | noWBBuffers
  | noTargets
deriving DecidableEq, Repr

/-- The port of the core. -/
structure CpuSidePort where
  blocked : Bool
  mustSendRetry : Bool
  responses : List (Packet × Nat)
deriving DecidableEq, Repr

/-- The cache and its port. -/
structure L1 (ρ : Type) where
  blks : Place → CacheBlk ρ
  mshrQueue : List Mshr
  writeBuffer : List Packet
  blocked : List BlockedCause
  port : CpuSidePort

/-- The parameters of the cache, its clock, its replacement policy, and the parts
of the cache that only stores and other caches use. -/
structure Config (ρ : Type) where
  bypassCaches : Bool
  blkSize : Nat
  assoc : Nat
  setShift : Nat
  setMask : Addr
  tagShift : Nat
  lookupLatency : Nat
  accessLatency : Nat
  fillLatency : Nat
  numMSHR : Nat
  numTarget : Nat
  numWriteBuffers : Nat
  curTick : Nat
  ticksToCycles : Nat → Nat
  clockEdge : Nat → Nat
  touch : Nat → ρ → ρ
  checkWrite : Packet → CacheBlk ρ → Bool × CacheBlk ρ
  allocateBlock : Packet → L1 ρ → Option (Place × L1 ρ × List Packet)
  evictBlock : Place → L1 ρ → L1 ρ × List Packet
  /-- Satisfy exchanges, upgrades, cleaning, invalidation and reads of caches. -/
  satisfySpecial : Packet → Place → L1 ρ → Packet × L1 ρ

section Access

variable {ρ : Type} (config : Config ρ)

/-- The set of an address. -/
def extractSet (addr : Addr) : Nat :=
  ((addr >>> config.setShift) &&& config.setMask).toNat

/-- The tag of an address. -/
def extractTag (addr : Addr) : Addr :=
  addr >>> config.tagShift

/-- The offset of an address in its block. -/
def getOffset (addr : Addr) : Nat :=
  addr.toNat % config.blkSize

/-- The address of the block of a packet. -/
def getBlockAddr (pkt : Packet) : Addr :=
  pkt.getAddr - BitVec.ofNat 64 (getOffset config pkt.getAddr)

/-- An entry of the miss queue for the block of a packet. -/
def Mshr.findMatch (pkt : Packet) (mshr : Mshr) : Bool :=
  !mshr.isUncacheable && mshr.blkAddr == getBlockAddr config pkt &&
    mshr.isSecure == pkt.req.isSecure

/-- A packet of the write buffer for the block of a packet. -/
def Packet.findMatch (pkt held : Packet) : Bool :=
  !held.req.isUncacheable && getBlockAddr config held == pkt.getAddr &&
    held.req.isSecure == pkt.req.isSecure

namespace L1

variable (l1 : L1 ρ)

/-- Refuse requests for one more cause. -/
def setBlocked (cause : BlockedCause) : L1 ρ :=
  { l1 with blocked := cause :: l1.blocked, port := { l1.port with blocked := true } }

/-- A cause of refusal is gone. -/
def clearBlocked (cause : BlockedCause) : L1 ρ :=
  let left := l1.blocked.filter (· != cause)
  { l1 with
    blocked := left
    port := { l1.port with blocked := l1.port.blocked && !left.isEmpty } }

/-- Change one block. -/
def modifyBlk (place : Place) (change : CacheBlk ρ → CacheBlk ρ) : L1 ρ :=
  { l1 with
    blks := fun other =>
      if other = place then change (l1.blks other) else l1.blks other }

/-- The place of a block, found without a trace. -/
def findBlock (addr : Addr) (isSecure : Bool) : Option Place :=
  let set := extractSet config addr
  ((List.range config.assoc).find? fun way =>
    let blk := l1.blks (set, way)
    blk.tag == extractTag config addr && blk.valid && blk.secure == isSecure).map
    fun way => (set, way)

/-- Count a use of a block. -/
def touchBlk (place : Place) : L1 ρ :=
  l1.modifyBlk place fun blk =>
    { blk with
      refCount := blk.refCount + 1
      replacementData := config.touch config.curTick blk.replacementData }

/-- The latency of a hit. -/
def hitLatency (place : Place) : Nat :=
  let whenReady := (l1.blks place).whenReady
  let wait := config.ticksToCycles (whenReady - config.curTick)
  if config.curTick < whenReady ∧ config.accessLatency < wait then
    wait + config.accessLatency
  else config.accessLatency

/-- Find a block, and count the use unless it must leave no trace. -/
def accessBlock (addr : Addr) (isSecure updateMetadata : Bool) : Option Place × Nat × L1 ρ :=
  match l1.findBlock config addr isSecure with
  | none => (none, config.lookupLatency, l1)
  | some place =>
      (some place, l1.hitLatency config place,
        if updateMetadata then l1.touchBlk config place else l1)

/-- Remove the writeback of a block from the write buffer. -/
def markInService (pkt : Packet) : L1 ρ :=
  let removed :=
    { l1 with writeBuffer := l1.writeBuffer.eraseP (pkt.findMatch config) }
  if config.numWriteBuffers ≤ l1.writeBuffer.length ∧
      removed.writeBuffer.length < config.numWriteBuffers then
    removed.clearBlocked .noWBBuffers
  else removed

/-- Put a packet into the write buffer. -/
def allocateWriteBuffer (pkt : Packet) : L1 ρ :=
  let buffered := { l1 with writeBuffer := l1.writeBuffer ++ [pkt] }
  if config.numWriteBuffers ≤ buffered.writeBuffer.length then
    buffered.setBlocked .noWBBuffers
  else buffered

/-- Put a packet into the miss queue. -/
def allocateMissBuffer (pkt : Packet) : L1 ρ :=
  let queued :=
    { l1 with
      mshrQueue := l1.mshrQueue ++
        [⟨getBlockAddr config pkt, pkt.req.isSecure, pkt.req.isUncacheable, [pkt]⟩] }
  if config.numMSHR ≤ queued.mshrQueue.length then queued.setBlocked .noMSHRs
  else queued

/-- Schedule a response. -/
def schedTimingResp (pkt : Packet) (time : Nat) : L1 ρ :=
  { l1 with port := { l1.port with responses := l1.port.responses ++ [(pkt, time)] } }

end L1

/-- What the access path returns. -/
structure AccessResult (ρ : Type) where
  satisfied : Bool
  blk : Option Place
  lat : Nat
  pkt : Packet
  writebacks : List Packet
  l1 : L1 ρ

/-- Write the bytes of a packet into a block. -/
def writeDataToBlock (pkt : Packet) (blk : CacheBlk ρ) : CacheBlk ρ :=
  let offset := getOffset config pkt.getAddr
  { blk with
    data := fun byte =>
      if offset ≤ byte then (pkt.data[byte - offset]?).getD (blk.data byte)
      else blk.data byte }

/-- The bytes of a packet in its block. -/
def setDataFromBlock (pkt : Packet) (blk : CacheBlk ρ) : Packet :=
  let offset := getOffset config pkt.getAddr
  { pkt with data := (List.range pkt.req.size).map fun byte => blk.data (offset + byte) }

/-- Satisfy a packet from its block. -/
def satisfyRequest (pkt : Packet) (place : Place) (l1 : L1 ρ) : Option (Packet × L1 ρ) :=
  let blk := l1.blks place
  if !blk.valid || decide (config.blkSize < getOffset config pkt.getAddr + pkt.req.size) then none
  else if pkt.cmd == .swapReq then some (config.satisfySpecial pkt place l1)
  else if pkt.cmd.isWrite then
    if !blk.isWritable then none
    else
      some (pkt, l1.modifyBlk place fun held =>
        let checked := config.checkWrite pkt held
        { (if checked.1 then writeDataToBlock config pkt checked.2 else checked.2) with
          dirty := true })
  else if pkt.cmd.isRead then
    let tracked :=
      if pkt.cmd.isLLSC then
        l1.modifyBlk place fun held =>
          { held with lockList := pkt.getAddr :: held.lockList }
      else l1
    let filled := setDataFromBlock config pkt blk
    -- a cache above may take the block over
    if pkt.cmd.fromCache then some (config.satisfySpecial filled place tracked)
    else some (filled, tracked)
  else some (config.satisfySpecial pkt place l1)

/-- Write a block that comes from a cache above. -/
def writeBlock (pkt : Packet) (place : Place) (fresh dirties : Bool) (l1 : L1 ρ) : L1 ρ :=
  l1.modifyBlk place fun held =>
    { writeDataToBlock config pkt held with
      valid := held.valid || fresh
      readable := held.readable || fresh
      dirty := held.dirty || dirties
      writable := held.writable || (pkt.cmd.isWriteback && !pkt.hasSharers)
      whenReady := config.clockEdge config.fillLatency }

/-- A write of a whole block finds its block or makes room for it. -/
def writeOrAllocate
    (pkt : Packet) (blk : Option Place) (lat : Nat) (dirties : Bool) (l1 : L1 ρ) : AccessResult ρ :=
  match blk with
  | some place =>
      ⟨!pkt.writeThrough, blk, lat, pkt, [], writeBlock config pkt place false dirties l1⟩
  | none =>
      match config.allocateBlock pkt l1 with
      | none => ⟨false, none, lat, pkt, [], l1⟩
      | some (place, room, writebacks) =>
          ⟨!pkt.writeThrough, some place, lat, pkt, writebacks,
            writeBlock config pkt place true dirties room⟩

/-- The access path of a cacheable packet once its block is looked up. -/
def accessFound
    (pkt : Packet) (blk : Option Place) (lat : Nat) (l1 : L1 ρ) : Option (AccessResult ρ) :=
  let restricted := pkt.req.isRestricted
  if pkt.req.metadataUpdate then some ⟨true, blk, lat, pkt, [], l1⟩
  else if pkt.req.isCacheMaintenance then
    if restricted then none else some ⟨false, blk, lat, pkt, [], l1⟩
  else if pkt.cmd.isEviction && restricted then none
  else if pkt.cmd.isEviction && pkt.cmd != .writebackDirty &&
      l1.writeBuffer.any (pkt.findMatch config) then
    -- no other cache above has the block, so the writeback is the last of it
    some ⟨true, blk, lat, pkt, [],
      { l1 with
        writeBuffer := l1.writeBuffer.map fun held =>
          if pkt.findMatch config held then { held with blockCached := false }
          else held }⟩
  else
    -- a dirty writeback from above trumps our own
    let l1 :=
      if pkt.cmd == .writebackDirty && l1.writeBuffer.any (pkt.findMatch config) then
        l1.markInService config pkt
      else l1
    if pkt.cmd.isWriteback then
      if pkt.cmd == .writebackClean && l1.mshrQueue.any (Mshr.findMatch config pkt) then
        some ⟨true, blk, lat, pkt, [], l1⟩
      else
        some (writeOrAllocate config { pkt with writeThrough := false } blk lat
          (pkt.cmd == .writebackDirty) l1)
    else if pkt.cmd == .cleanEvict then some ⟨blk.isSome, blk, lat, pkt, [], l1⟩
    else if pkt.cmd == .writeClean then
      if restricted then none
      else if blk.isNone && pkt.writeThrough then some ⟨false, blk, lat, pkt, [], l1⟩
      else some (writeOrAllocate config pkt blk lat (!pkt.writeThrough) l1)
    else
      let usable := blk.filter fun place =>
        if pkt.cmd.needsWritable then (l1.blks place).isWritable
        else (l1.blks place).isReadable
      match usable with
      | some place =>
          (satisfyRequest config pkt place l1).map fun satisfied =>
            ⟨true, blk, lat, satisfied.1, [], satisfied.2⟩
      | none =>
          -- the access cannot be satisfied, and a restricted one ends here
          let lifted :=
            if restricted then { pkt with req := pkt.req.clearUnsafe } else pkt
          some ⟨blk.isNone && pkt.cmd.isLLSC && pkt.cmd.isWrite, blk, lat, lifted, [], l1⟩

/-- The access path. An uncacheable access throws its block out. -/
def access (pkt : Packet) (l1 : L1 ρ) : Option (AccessResult ρ) :=
  if pkt.req.isUncacheable then
    let evicted :=
      match l1.findBlock config pkt.getAddr pkt.req.isSecure with
      | some place => config.evictBlock place l1
      | none => (l1, [])
    some ⟨false, none, config.lookupLatency, pkt, evicted.2, evicted.1⟩
  else
    let found := l1.accessBlock config pkt.getAddr pkt.req.isSecure (!pkt.req.isRestricted)
    accessFound config pkt found.1 found.2.1 found.2.2

end Access

section Timing

variable {ρ : Type} (config : Config ρ)

/-- A packet whose block is in the miss queue or has to be fetched. -/
def allocateMiss (pkt : Packet) (blk : Option Place) (l1 : L1 ρ) : Option (L1 ρ) :=
  if pkt.req.isRestricted then none
  else if l1.mshrQueue.any (Mshr.findMatch config pkt) then
    if pkt.cmd == .cleanEvict then some l1
    else if pkt.cmd == .writeClean then some (l1.allocateWriteBuffer config pkt)
    else
      let joined := l1.mshrQueue.map fun mshr =>
        if mshr.findMatch config pkt then { mshr with targets := mshr.targets ++ [pkt] }
        else mshr
      let coalesced := { l1 with mshrQueue := joined }
      some
        (if joined.any fun mshr =>
            mshr.findMatch config pkt && decide (mshr.targets.length = config.numTarget) then
          coalesced.setBlocked .noTargets
        else coalesced)
  else if pkt.cmd.isEviction || pkt.cmd == .writeClean then
    some (l1.allocateWriteBuffer config pkt)
  else
    match blk.filter fun place => (l1.blks place).valid with
    | none => some (l1.allocateMissBuffer config pkt)
    | some place =>
        -- reads wait while a write miss is outstanding
        if (pkt.cmd.needsWritable && !(l1.blks place).isWritable) ||
            pkt.req.isCacheMaintenance then
          some
            ((l1.modifyBlk place fun held => { held with readable := false }).allocateMissBuffer
              config pkt)
        else none

/-- The miss of a packet. -/
def handleTimingReqMiss
    (pkt : Packet) (blk : Option Place) (requestTime : Nat) (l1 : L1 ρ) : Option (L1 ρ) :=
  if pkt.req.isUncacheable then
    some
      (if pkt.cmd.isWrite then l1.allocateWriteBuffer config pkt
      else l1.allocateMissBuffer config pkt)
  else if pkt.cmd.isSWPrefetch then
    -- the core is answered at once, and the prefetch goes on without it
    let answered := l1.schedTimingResp pkt requestTime
    if l1.mshrQueue.any (Mshr.findMatch config pkt) then some answered
    else allocateMiss config pkt blk answered
  else allocateMiss config pkt blk l1

/-- The hit of a packet. -/
def handleTimingReqHit (pkt : Packet) (requestTime : Nat) (l1 : L1 ρ) : L1 ρ :=
  if pkt.cmd.needsResponse then l1.schedTimingResp pkt requestTime else l1

/-- The write of a whole block needs no data of the block. -/
def promoteWholeLineWrites (pkt : Packet) : Packet :=
  if pkt.cmd == .writeReq && decide (pkt.req.size = config.blkSize) &&
      decide (getOffset config pkt.getAddr = 0) then
    { pkt with cmd := .writeLineReq }
  else pkt

/-- The cache receives a packet. It also returns the request of the packet. -/
def recvTimingReq (received : Packet) (l1 : L1 ρ) : Option (Request × L1 ρ) :=
  let pkt := promoteWholeLineWrites config received
  if pkt.cacheResponding then
    -- a cache above answers
    if pkt.cmd.needsWritable then some (pkt.req, l1) else none
  else
    let wasUnsafe := pkt.req.isRestricted
    if wasUnsafe && (!pkt.cmd.isRead || pkt.req.isUncacheable) then none
    else
      match access config pkt l1 with
      | none => none
      | some result =>
          let req := result.pkt.req
          if wasUnsafe && result.satisfied == !req.isRestricted then none
          else if wasUnsafe && !result.satisfied then some (req, result.l1)
          else if req.metadataUpdate then some (req, result.l1)
          else
            let written :=
              result.writebacks.foldl (fun l1 wb => l1.allocateWriteBuffer config wb)
                result.l1
            let requestTime := config.clockEdge result.lat
            if result.satisfied then
              some (req, handleTimingReqHit result.pkt requestTime written)
            else
              (handleTimingReqMiss config result.pkt result.blk requestTime written).map
                fun missed => (req, missed)

/-- The port accepts a packet unless it is blocked or owes a retry. -/
def CpuSidePort.tryTiming (pkt : Packet) (port : CpuSidePort) : Bool × CpuSidePort :=
  if config.bypassCaches || pkt.isExpressSnoop then (true, port)
  else if port.blocked || port.mustSendRetry then
    (false, { port with mustSendRetry := true })
  else (true, { port with mustSendRetry := false })

/-- What the port answers. -/
structure PortResult (ρ : Type) where
  accepted : Bool
  req : Request
  l1 : L1 ρ

/-- The port receives a packet. -/
def CpuSidePort.recvTimingReq (pkt : Packet) (l1 : L1 ρ) : Option (PortResult ρ) :=
  if config.bypassCaches then some ⟨true, pkt.req, l1⟩
  else
    let tried := l1.port.tryTiming config pkt
    let entered := { l1 with port := tried.2 }
    if tried.1 then
      (Cache.recvTimingReq config pkt entered).map fun result =>
        ⟨!(pkt.req.isRestricted && !result.1.isRestricted) && !result.1.metadataUpdate,
          result.1, result.2⟩
    else some ⟨false, pkt.req, entered⟩

/-- Send one deferred request. The source asserts that it is refused. -/
def sendDeferred (req : Request) (l1 : L1 ρ) : Option (L1 ρ) :=
  match CpuSidePort.recvTimingReq config
      (Packet.createRead req.clearUnsafe.setMetadataUpdate) l1 with
  | some ⟨false, _, sent⟩ => some sent
  | _ => none

/-- The deferred cache access of a load that retires, in one packet or two. -/
def dolmaLoad (req : Request) (sreqs : Option (Request × Request)) (l1 : L1 ρ) : Option (L1 ρ) :=
  match sreqs with
  | none => sendDeferred config req l1
  | some (sreqLow, sreqHigh) =>
      (sendDeferred config sreqLow l1).bind (sendDeferred config sreqHigh)

end Timing

end Cache
end Dolma

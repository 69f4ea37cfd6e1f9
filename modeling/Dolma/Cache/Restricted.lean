import Dolma.Cache.Defs

/-!
# Restricted reads

A restricted read of the core hits without a trace, misses by lifting the
restriction of its request, or is refused by the port.
-/

namespace Dolma
namespace Cache

open Mem

variable {ρ : Type} (config : Config ρ)

/-- A cacheable read of the core that lies in one block. -/
structure IsCoreRead (req : Request) : Prop where
  cacheable : req.isUncacheable = false
  unlocked : req.isLLSC = false
  reads : req.isCacheMaintenance = false
  demands : req.metadataUpdate = false
  fits : getOffset config (Packet.createRead req).getAddr + req.size ≤ config.blkSize

/-- The block of a request. -/
def L1.blockOf (l1 : L1 ρ) (req : Request) : Option Place :=
  l1.findBlock config (Packet.createRead req).getAddr req.isSecure

/-- The port refuses packets. -/
def CpuSidePort.refuses (port : CpuSidePort) : Bool :=
  port.blocked || port.mustSendRetry

/-- What the cache finds out about the command of a read that locks nothing. -/
structure IsPlainRead (cmd : MemCmd) : Prop where
  isRead : cmd.isRead = true
  isWrite : cmd.isWrite = false
  needsWritable : cmd.needsWritable = false
  isEviction : cmd.isEviction = false
  isWriteback : cmd.isWriteback = false
  fromCache : cmd.fromCache = false
  needsResponse : cmd.needsResponse = true
  isLLSC : cmd.isLLSC = false
  plain : ∀ other ∈ [MemCmd.writeReq, .swapReq, .cleanEvict, .writeClean, .writebackDirty],
    (cmd == other) = false

/-- A read that locks nothing is a plain read. -/
theorem createRead_plain (unlocked : req.isLLSC = false) :
    IsPlainRead (Packet.createRead req).cmd := by
  have command : (Packet.createRead req).cmd = Packet.makeReadCmd req := rfl
  rw [command, Packet.makeReadCmd, unlocked]
  cases req.isPrefetch <;> constructor <;> decide

section Read

variable {config : Config ρ} {req : Request} {l1 : L1 ρ} {lat : Nat}
variable {place : Place}

/-- A plain read takes its bytes from its block. -/
theorem satisfyRequest_plainRead
    (plain : IsPlainRead pkt.cmd) (valid : (l1.blks place).valid = true)
    (fits : getOffset config pkt.getAddr + pkt.req.size ≤ config.blkSize) :
    satisfyRequest config pkt place l1 =
      some (setDataFromBlock config pkt (l1.blks place), l1) := by
  have inside :
      decide (config.blkSize < getOffset config pkt.getAddr + pkt.req.size) = false :=
    decide_eq_false (Nat.not_lt.mpr fits)
  have noSwap : (pkt.cmd == .swapReq) = false := plain.plain _ (by simp)
  unfold satisfyRequest
  simp only [valid, inside, noSwap, plain.isWrite, plain.isRead, plain.isLLSC, plain.fromCache]
  rfl

/-- A plain read is satisfied if its block is readable, and otherwise it only
loses the restriction of its request. -/
theorem accessFound_plainRead (read : IsCoreRead config req) :
    accessFound config (Packet.createRead req) blk lat l1 =
      match blk.filter fun place => (l1.blks place).isReadable with
      | some place =>
          some ⟨true, blk, lat,
            setDataFromBlock config (Packet.createRead req) (l1.blks place), [], l1⟩
      | none =>
          some ⟨false, blk, lat,
            { Packet.createRead req with req := req.clearUnsafe }, [], l1⟩ := by
  have plain := createRead_plain read.unlocked
  have noDirty := plain.plain .writebackDirty (by simp)
  have noEvict := plain.plain .cleanEvict (by simp)
  have noClean := plain.plain .writeClean (by simp)
  have request : (Packet.createRead req).req = req := rfl
  unfold accessFound
  simp only [request, read.demands, read.reads, plain.isEviction, plain.isWriteback, noDirty,
    noEvict, noClean, plain.needsWritable, plain.isLLSC, Bool.false_and, Bool.and_false,
    Bool.false_eq_true, if_false]
  cases usable : blk.filter fun place => (l1.blks place).isReadable
  case some place =>
    obtain ⟨-, readable⟩ := Option.filter_eq_some_iff.mp usable
    have valid : (l1.blks place).valid = true := (Bool.and_eq_true_iff.mp readable).2
    have fits := read.fits
    dsimp only
    rw [satisfyRequest_plainRead plain valid fits]
    rfl
  case none =>
    dsimp only
    split
    case isTrue => rfl
    case isFalse unrestricted =>
      rw [Request.clearUnsafe_of_not_restricted req (Bool.eq_false_iff.mpr unrestricted)]
      rfl

theorem promoteWholeLineWrites_createRead (unlocked : req.isLLSC = false) :
    promoteWholeLineWrites config (Packet.createRead req) = Packet.createRead req := by
  have noWrite := (createRead_plain unlocked).plain .writeReq (by simp)
  unfold promoteWholeLineWrites
  rw [noWrite]
  rfl

end Read

section Port

variable {config} {req : Request} {l1 : L1 ρ}

/-- The answer of a port that refuses packets. -/
theorem recvTimingReq_refused
    (cached : config.bypassCaches = false) (refuses : l1.port.refuses = true) :
    CpuSidePort.recvTimingReq config (Packet.createRead req) l1 =
      some ⟨false, req, { l1 with port := { l1.port with mustSendRetry := true } }⟩ := by
  have busy : (l1.port.blocked || l1.port.mustSendRetry) = true := refuses
  have snoop : (Packet.createRead req).isExpressSnoop = false := rfl
  unfold CpuSidePort.recvTimingReq CpuSidePort.tryTiming
  simp only [cached, snoop, busy]
  rfl

/-- A port that takes packets stays as it is. -/
theorem tryTiming_accepts
    {port : CpuSidePort} (cached : config.bypassCaches = false) (accepts : port.refuses = false) :
    port.tryTiming config (Packet.createRead req) = (true, port) := by
  have paid : port.mustSendRetry = false := (Bool.or_eq_false_iff.mp accepts).2
  have idle : (port.blocked || port.mustSendRetry) = false := accepts
  have snoop : (Packet.createRead req).isExpressSnoop = false := rfl
  have same : { port with mustSendRetry := false } = port := by
    rw [← paid]
  unfold CpuSidePort.tryTiming
  rw [cached, snoop, idle]
  exact congrArg (Prod.mk true) same

theorem recvTimingReq_entered
    (req : Request) (cached : config.bypassCaches = false) (accepts : l1.port.refuses = false) :
    CpuSidePort.recvTimingReq config (Packet.createRead req) l1 =
      (recvTimingReq config (Packet.createRead req) l1).map fun result =>
        ⟨!(req.isRestricted && !result.1.isRestricted) && !result.1.metadataUpdate,
          result.1, result.2⟩ := by
  unfold CpuSidePort.recvTimingReq
  rw [cached, tryTiming_accepts cached accepts]
  rfl

end Port

section Samples

/-- A cache of one set of two ways with blocks of sixty-four bytes, whose
replacement policy keeps the time of the last use. -/
def twoWays : Config Nat where
  bypassCaches := false
  blkSize := 64
  assoc := 2
  setShift := 6
  setMask := 0
  tagShift := 6
  lookupLatency := 1
  accessLatency := 2
  fillLatency := 2
  numMSHR := 4
  numTarget := 8
  numWriteBuffers := 4
  curTick := 100
  ticksToCycles := id
  clockEdge := fun cycles => 100 + cycles
  touch := fun now _ => now
  checkWrite := fun _ blk => (true, blk)
  allocateBlock := fun _ _ => none
  evictBlock := fun _ l1 => (l1, [])
  satisfySpecial := fun pkt _ l1 => (pkt, l1)

/-- The cache holds the blocks of tags 0 and 1, used last at time 7. -/
def warm (blocked : Bool) : L1 Nat where
  blks := fun place =>
    { tag := BitVec.ofNat 64 place.2
      valid := true
      readable := true
      writable := false
      dirty := false
      secure := false
      data := fun byte => BitVec.ofNat 8 byte
      refCount := 0
      replacementData := 7
      whenReady := 0
      lockList := [] }
  mshrQueue := []
  writeBuffer := []
  blocked := []
  port := { blocked := blocked, mustSendRetry := false, responses := [] }

/-- A restricted read of eight bytes. -/
def eightBytes (paddr : Addr) : Request where
  vaddr := paddr
  size := 8
  flags := RESTRICTED
  paddr := some paddr

end Samples

end Cache
end Dolma

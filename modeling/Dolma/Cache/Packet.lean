import Dolma.Mem.Request

/-!
# Packets

The request commands a cache sees at its upper port, with the attributes the
access path tests, and the packets the core creates.
-/

namespace Dolma
namespace Cache

open Mem

/-- The commands of request packets. -/
inductive MemCmd where
  | readReq
  | writeReq
  | writebackDirty
  | writebackClean
  | writeClean
  | cleanEvict
  | softPFReq
  | hardPFReq
  | writeLineReq
  | upgradeReq
  | readExReq
  | readCleanReq
  | readSharedReq
  | loadLockedReq
  | storeCondReq
  | swapReq
  | cleanSharedReq
  | cleanInvalidReq
deriving DecidableEq, Repr

namespace MemCmd

/-- The command reads. -/
def isRead (cmd : MemCmd) : Bool :=
  [readReq, softPFReq, hardPFReq, readExReq, readCleanReq, readSharedReq,
    loadLockedReq, swapReq].contains cmd

/-- The command writes. -/
def isWrite (cmd : MemCmd) : Bool :=
  [writeReq, writebackDirty, writebackClean, writeClean, writeLineReq, storeCondReq,
    swapReq].contains cmd

/-- The command needs a writable block. -/
def needsWritable (cmd : MemCmd) : Bool :=
  [writeReq, writeLineReq, upgradeReq, readExReq, storeCondReq, swapReq].contains cmd

/-- The command evicts a block of a cache above. -/
def isEviction (cmd : MemCmd) : Bool :=
  [writebackDirty, writebackClean, cleanEvict].contains cmd

/-- An eviction that carries data. -/
def isWriteback (cmd : MemCmd) : Bool :=
  [writebackDirty, writebackClean].contains cmd

/-- The command comes from a cache. -/
def fromCache (cmd : MemCmd) : Bool :=
  [writebackDirty, writebackClean, writeClean, cleanEvict, hardPFReq, upgradeReq,
    readExReq, readCleanReq, readSharedReq, cleanSharedReq, cleanInvalidReq].contains cmd

/-- The command is answered. -/
def needsResponse (cmd : MemCmd) : Bool :=
  !([writebackDirty, writebackClean, writeClean, cleanEvict].contains cmd)

/-- A load locked or a store conditional. -/
def isLLSC (cmd : MemCmd) : Bool :=
  [loadLockedReq, storeCondReq].contains cmd

/-- A software prefetch. -/
def isSWPrefetch (cmd : MemCmd) : Bool :=
  cmd == softPFReq

end MemCmd

/-- A packet. -/
structure Packet where
  cmd : MemCmd
  req : Request
  hasSharers : Bool := false
  cacheResponding : Bool := false
  isExpressSnoop : Bool := false
  writeThrough : Bool := false
  blockCached : Bool := false
  data : List (BitVec 8) := []
deriving DecidableEq, Repr

namespace Packet

/-- The command of a read of the core. -/
def makeReadCmd (req : Request) : MemCmd :=
  if req.isLLSC then .loadLockedReq
  else if req.isPrefetch then .softPFReq
  else .readReq

/-- The packet of a read of the core. -/
def createRead (req : Request) : Packet where
  cmd := makeReadCmd req
  req := req

/-- The physical address. -/
def getAddr (pkt : Packet) : Addr :=
  pkt.req.paddr.getD 0

end Packet

end Cache
end Dolma

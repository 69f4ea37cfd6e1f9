import Dolma.Tlb.Trie

/-!
# The translation buffer

Entries live in a table and are found through one trie per thread. A lookup that counts as a use
gives the entry the next sequence number. A restricted request is looked up without that, and a
miss of a restricted request is turned into a fault before anything is fetched. A function has no
result where the source aborts.
-/

namespace Dolma
namespace Tlb

open Mem

/-- An entry of the buffer. -/
structure TlbEntry where
  tid : Nat := 0
  paddr : Addr := 0
  vaddr : Addr := 0
  logBytes : Nat := 0
  writable : Bool := false
  user : Bool := true
  uncacheable : Bool := false
  global : Bool := false
  lruSeq : BitVec 64 := 0
  trieHandle : Option Nat := none

/-- The state of the buffer. -/
structure TLB where
  size : Nat
  tlb : Nat → TlbEntry
  freeList : List Nat
  tries : Nat → Trie Nat
  lruSeq : BitVec 64

namespace TLB

variable (tlb : TLB)

/-- Change one entry. -/
def modifyEntry (index : Nat) (change : TlbEntry → TlbEntry) : TLB :=
  { tlb with
    tlb := fun other => if other = index then change (tlb.tlb other) else tlb.tlb other }

/-- The next sequence number. -/
def nextSeq : BitVec 64 := tlb.lruSeq + 1

/-- The entry with the lowest sequence number. -/
def leastRecent : Nat :=
  (List.range tlb.size).foldl
    (fun lru index =>
      if (tlb.tlb index).lruSeq < (tlb.tlb lru).lruSeq then index else lru) 0

/-- Take the least recently used entry out of its trie. -/
def evictLRU : Option TLB :=
  let lru := tlb.leastRecent
  match (tlb.tlb lru).trieHandle with
  | none => none
  | some tid =>
      some
        { tlb with
          tlb := (tlb.modifyEntry lru fun entry => { entry with trieHandle := none }).tlb
          tries := fun other =>
            if other = tid then ((tlb.tries other).remove true lru).1
            else tlb.tries other
          freeList := tlb.freeList ++ [lru] }

/-- Look up an address, as a use or without a trace. -/
def lookup (tid : Nat) (va : Addr) (updateLru : Bool) : Option Nat × TLB :=
  match (tlb.tries tid).lookup va with
  | none => (none, tlb)
  | some index =>
      if updateLru then
        (some index,
          { tlb.modifyEntry index fun entry => { entry with lruSeq := tlb.nextSeq } with
            lruSeq := tlb.nextSeq })
      else (some index, tlb)

/-- Enter a page, unless somebody was faster. -/
def insert (vpn : Addr) (entry : TlbEntry) : Option (Nat × TLB) :=
  match (tlb.tries entry.tid).lookup vpn with
  | some index => some (index, tlb)
  | none => do
      let room ← if tlb.freeList.isEmpty then tlb.evictLRU else some tlb
      match room.freeList with
      | [] => none
      | index :: rest =>
          let newMask := ~~~mask entry.logBytes
          let trie ←
            (room.tries entry.tid).insert (vpn &&& newMask) newMask index
          some (index,
            { room with
              freeList := rest
              lruSeq := room.nextSeq
              tlb := fun other =>
                if other = index then
                  { entry with
                    lruSeq := room.nextSeq
                    vaddr := vpn
                    trieHandle := some entry.tid }
                else room.tlb other
              tries := fun other =>
                if other = entry.tid then trie else room.tries other })

/-- Take an entry out of its trie and put it on the free list. -/
def release (tid index : Nat) : TLB :=
  { tlb with
    tlb := (tlb.modifyEntry index fun entry => { entry with trieHandle := none }).tlb
    tries := fun other =>
      if other = tid then ((tlb.tries other).remove true index).1
      else tlb.tries other
    freeList := tlb.freeList ++ [index] }

/-- Invalidate the selected entries, slot by slot. -/
def flush (selected : TlbEntry → Bool) : TLB :=
  (List.range tlb.size).foldl
    (fun buffer index =>
      match (buffer.tlb index).trieHandle with
      | none => buffer
      | some tid =>
          if selected (buffer.tlb index) then buffer.release tid index
          else buffer) tlb

/-- Invalidate all entries. -/
def flushAll : TLB := tlb.flush fun _ => true

/-- Invalidate all entries that are not global. -/
def flushNonGlobal : TLB := tlb.flush fun entry => !entry.global

/-- Invalidate the page of an address. Only the first thread is asked, since
whole systems have no other. -/
def demapPage (va : Addr) : Option TLB :=
  match (tlb.tries 0).lookup va with
  | none => some tlb
  | some index =>
      -- the handle leads to its node, in whichever trie that is
      match (tlb.tlb index).trieHandle with
      | none => none
      | some tid => some (tlb.release tid index)

/-- A new buffer, which must have an entry. -/
def new (size : Nat) : Option TLB :=
  if size = 0 then none
  else
    some
      { size := size
        tlb := fun _ => {}
        freeList := List.range size
        tries := fun _ => .empty
        lruSeq := 0 }

end TLB

/-- The kind of an access. -/
inductive Mode where
  | read
  | write
  | execute
deriving DecidableEq, Repr

/-- The faults of a translation. -/
inductive Fault where
  | generalProtection (errorCode : Nat)
  | pageFault (addr : Addr) (present : Bool) (mode : Mode) (user reserved : Bool)
deriving DecidableEq, Repr

/-- The attributes of a segment that are checked. -/
structure SegAttr where
  writable : Bool := false
  readable : Bool := false
  expandDown : Bool := false

/-- The operating mode as translation reads it. -/
structure HandyM5Reg where
  mode : Bool := false
  submode : BitVec 3 := 0
  cpl : BitVec 2 := 0
  paging : Bool := false
  prot : Bool := false
  defAddr : BitVec 2 := 0
  altAddr : BitVec 2 := 0

/-- The registers of a thread that translation reads. -/
structure ThreadContext where
  threadId : Nat := 0
  contextId : BitVec 8 := 0
  m5Reg : HandyM5Reg := {}
  segSel : Nat → BitVec 64 := fun _ => 0
  segAttr : Nat → SegAttr := fun _ => {}
  segBase : Nat → Addr := fun _ => 0
  segLimit : Nat → Addr := fun _ => 0
  cr0wp : Bool := false
  apicBase : Addr := 0
  pciConfigAddress : BitVec 64 := 0

/-- Long mode. -/
def LongMode : Bool := false
/-- The 64-bit submode. -/
def SixtyFourBitMode : BitVec 3 := 0

/-- Segment registers by number. -/
def SEGMENT_REG_ES : Nat := 0
/-- The temporary descriptor. -/
def SEGMENT_REG_HS : Nat := 6
/-- The global descriptor table. -/
def SEGMENT_REG_TSG : Nat := 8
/-- The flat segment. -/
def SEGMENT_REG_LS : Nat := 9
/-- Emulation memory. -/
def SEGMENT_REG_MS : Nat := 10
/-- The interrupt descriptor table. -/
def SYS_SEGMENT_REG_IDTR : Nat := 12

/-- The access is made at privilege level zero. -/
def cpl0Flag : BitVec 64 := 1 <<< 4
/-- The access uses the alternate address size. -/
def addrSizeFlag : BitVec 64 := 2 <<< 4
/-- A read that must be allowed to write. -/
def storeCheckFlag : BitVec 64 := 4 <<< 4

/-- The segment of a request. -/
def segment (req : Request) : Nat :=
  (req.flags &&& mask 4).toNat

/-- The upper half of an internal address. -/
def IntAddrPrefixMask : Addr := 0xffffffff00000000

/-- An entry of an emulated page table. -/
structure PageTableEntry where
  paddr : Addr
  uncacheable : Bool
  readOnly : Bool
deriving DecidableEq, Repr

/-- What the buffer needs of the machine around it. -/
structure Machine (σ : Type) where
  fullSystem : Bool
  numThreadsPerCore : Nat
  msrAddrToIndex : Addr → Option (BitVec 64)
  pciConfigIndex : BitVec 64
  pTableLookup : σ → Addr → Option PageTableEntry
  fixupStackFault : σ → Addr → Option σ

/-- The state a translation works on. -/
structure World (σ : Type) where
  tlb : TLB
  process : σ
  walks : List (Request × Mode)

/-- What a translation returns. -/
structure Outcome (σ : Type) where
  fault : Option Fault
  delayedResponse : Bool
  req : Request
  world : World σ

section Translate

variable {σ : Type} (machine : Machine σ) (tc : ThreadContext) (mode : Mode)

/-- Translate a request to the internal address space. -/
def translateInt (req : Request) : Option (Option Fault × Request) :=
  let vaddr := req.vaddr
  let intPrefix := (vaddr >>> 3) &&& IntAddrPrefixMask
  if intPrefix = 0x100000000 then none
  else if intPrefix = 0x200000000 then
    let mapped := req.setFlags MMAPPED_IPR
    match machine.msrAddrToIndex ((vaddr >>> 3) &&& ~~~IntAddrPrefixMask) with
    | none => some (some (.generalProtection 0), mapped)
    | some regNum => some (none, mapped.setPaddr (regNum * 8))
  else if intPrefix = 0x300000000 then
    let ioPort := vaddr &&& ~~~IntAddrPrefixMask
    if ioPort &&& ~~~0xFFFF ≠ 0 then none
    else if ioPort = 0xCF8 ∧ req.size = 4 then
      some (none, (req.setFlags MMAPPED_IPR).setPaddr (machine.pciConfigIndex * 8))
    else
      let device := req.setFlags (UNCACHEABLE ||| STRICT_ORDER)
      let configAddress := tc.pciConfigAddress
      if ioPort &&& ~~~mask 2 = 0xCFC ∧ configAddress.getLsbD 31 then
        some (none, device.setPaddr
          (0xC000000000000000 ||| (configAddress &&& (mask 31 &&& ~~~mask 2)) |||
            (ioPort &&& mask 2)))
      else some (none, device.setPaddr (0x8000000000000000 ||| ioPort))
  else some (some (.generalProtection 0), req)

/-- Move special physical addresses to their places. -/
def finalizePhysical (req : Request) : Request :=
  match req.paddr with
  | none => req
  | some paddr =>
      if 0xFFFF0000 ≤ paddr ∧ paddr ≤ 0xFFFFFFFF then
        (req.setFlags (MMAPPED_IPR ||| GENERIC_IPR ||| STRICT_ORDER)).setPaddr
          ((((paddr >>> 8) &&& 0xFF) <<< 8) ||| (paddr &&& 0xFF))
      else if machine.fullSystem then
        let start := tc.apicBase * 0x1000
        if start ≤ paddr ∧ paddr ≤ (tc.apicBase + 1) * 0x1000 - 1 then
          (req.setFlags (UNCACHEABLE ||| STRICT_ORDER)).setPaddr
            (0x2000000000000000 ||| (tc.contextId.setWidth 64 * 0x1000) |||
              (paddr - start))
        else req
      else req

/-- The protection and limit checks of a segment fail. -/
def segmentFault (req : Request) : Bool :=
  let seg := segment req
  let storeCheck := req.isSet storeCheckFlag
  let attr := tc.segAttr seg
  let isData := decide (SEGMENT_REG_ES ≤ seg) && decide (seg ≤ SEGMENT_REG_HS)
  let logSize :=
    if req.isSet addrSizeFlag then tc.m5Reg.altAddr.toNat else tc.m5Reg.defAddr.toNat
  let offset := (req.vaddr - tc.segBase seg) &&& mask ((1 <<< logSize) * 8)
  let endOffset := offset + BitVec.ofNat 64 req.size - 1
  let limit := tc.segLimit seg
  (!(seg == SEGMENT_REG_TSG || seg == SYS_SEGMENT_REG_IDTR ||
      seg == SEGMENT_REG_HS || seg == SEGMENT_REG_LS) && tc.segSel seg == 0) ||
    (isData && !attr.writable && (mode == .write || storeCheck)) ||
    (isData && !attr.readable && mode == .read) ||
    (if isData && attr.expandDown then
      decide (offset ≤ limit) || decide (endOffset ≤ limit)
    else decide (limit < offset) || decide (limit < endOffset))

/-- The address that is translated. -/
def linearAddr (req : Request) : Addr :=
  if tc.m5Reg.submode ≠ SixtyFourBitMode ∨ req.isSet addrSizeFlag then
    req.vaddr &&& mask 32
  else req.vaddr

/-- The thread whose trie is used. -/
def tlbThread : Nat :=
  tc.threadId % machine.numThreadsPerCore

/-- The protection checks of a page, and the physical address. -/
def translateEntry (req : Request) (vaddr : Addr) (entry : TlbEntry) : Option Fault × Request :=
  let inUser := tc.m5Reg.cpl == 3 && !req.isSet cpl0Flag
  let badWrite := !entry.writable && (inUser || tc.cr0wp)
  if (inUser && !entry.user) || (mode == .write && badWrite) then
    (some (.pageFault vaddr true mode inUser false), req)
  else if req.isSet storeCheckFlag && badWrite then
    (some (.pageFault vaddr true .write inUser false), req)
  else
    let mapped := req.setPaddr (entry.paddr ||| (vaddr &&& mask entry.logBytes))
    let cached :=
      if entry.uncacheable then mapped.setFlags (UNCACHEABLE ||| STRICT_ORDER)
      else mapped
    (none, finalizePhysical machine tc cached)

/-- Fetch the page of an address that missed. -/
def serviceMiss (req : Request) (vaddr : Addr) (world : World σ) : Option (Outcome σ) :=
  if machine.fullSystem then
    some
      { fault := none, delayedResponse := true, req := req
        world := { world with walks := world.walks ++ [(req, mode)] } }
  else
    let found : σ × Option PageTableEntry :=
      match machine.pTableLookup world.process vaddr with
      | some pte => (world.process, some pte)
      | none =>
          if mode = .execute then (world.process, none)
          else
            match machine.fixupStackFault world.process vaddr with
            | some grown => (grown, machine.pTableLookup grown vaddr)
            | none => (world.process, none)
    let process := { world with process := found.1 }
    match found.2 with
    | none =>
        some
          { fault := some (.pageFault vaddr true mode true false)
            delayedResponse := false, req := req, world := process }
    | some pte =>
        (world.tlb.insert (vaddr &&& ~~~mask 12)
          { tid := tlbThread machine tc, paddr := pte.paddr, logBytes := 12
            writable := !pte.readOnly, uncacheable := pte.uncacheable }).map
          fun inserted =>
            let checked :=
              translateEntry machine tc mode req vaddr (inserted.2.tlb inserted.1)
            { fault := checked.1, delayedResponse := false, req := checked.2
              world := { process with tlb := inserted.2 } }

/-- Translate a request, with timing. -/
def translate (req : Request) (world : World σ) : Option (Outcome σ) :=
  let unpaged := fun (result : Option Fault × Request) =>
    ({ fault := result.1, delayedResponse := false, req := result.2
       world := world } : Outcome σ)
  if segment req = SEGMENT_REG_MS then
    (translateInt machine tc req).map unpaged
  else if tc.m5Reg.prot then
    if tc.m5Reg.mode ≠ LongMode ∧ segmentFault tc mode req then
      some (unpaged (some (.generalProtection 0), req))
    else
      let vaddr := linearAddr tc req
      if tc.m5Reg.paging then
        -- metadata is not updated for a restricted request
        let found := world.tlb.lookup (tlbThread machine tc) vaddr (!req.isRestricted)
        match found.1 with
        | some index =>
            let checked :=
              translateEntry machine tc mode req vaddr (found.2.tlb index)
            some
              { fault := checked.1, delayedResponse := false, req := checked.2
                world := { world with tlb := found.2 } }
        | none =>
            if req.isRestricted then
              some (unpaged (some (.generalProtection 0), req.clearUnsafe))
            else serviceMiss machine tc mode req vaddr world
      else
        some (unpaged (none, finalizePhysical machine tc (req.setPaddr vaddr)))
  else
    some (unpaged (none, finalizePhysical machine tc (req.setPaddr req.vaddr)))

/-- The use a restricted translation did not record, recorded later. -/
def updateLRU (req : Request) (tlb : TLB) : TLB :=
  if segment req = SEGMENT_REG_MS then tlb
  else if tc.m5Reg.prot then
    if tc.m5Reg.mode ≠ LongMode then tlb
    else
      let vaddr := linearAddr tc req
      if tc.m5Reg.paging then (tlb.lookup (tlbThread machine tc) vaddr true).2
      else tlb
  else tlb

end Translate

end Tlb
end Dolma

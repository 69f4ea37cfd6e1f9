import Dolma.Cache.Restricted

/-!
# Deferred touches

When a load that hit while restricted retires, its requests are sent once more to
touch their blocks. The port answers a touch as it answers a refusal, so a touch
that meets a blocked port is lost.
-/

namespace Dolma
namespace Cache

open Mem

variable {ρ : Type} (config : Config ρ)

/-- What is kept about the uses of a block. -/
def L1.usage (l1 : L1 ρ) (place : Place) : BitVec 32 × ρ :=
  ((l1.blks place).refCount, (l1.blks place).replacementData)

/-- The requests of a load, one for each half if it crosses a line. -/
def requestsOf (req : Request) (sreqs : Option (Request × Request)) : List Request :=
  match sreqs with
  | none => [req]
  | some (sreqLow, sreqHigh) => [sreqLow, sreqHigh]

/-- An ordinary read of each request, with what it does to the cache. -/
def ordinaryReads (reqs : List Request) (l1 : L1 ρ) : Option (L1 ρ) :=
  reqs.foldlM
    (fun l1 req => (access config (Packet.createRead req.clearUnsafe) l1).map (·.l1)) l1

/-- A use of the block of a request, if the cache holds it. -/
def L1.touched (l1 : L1 ρ) (req : Request) : L1 ρ :=
  match l1.blockOf config req with
  | none => l1
  | some place => l1.touchBlk config place

variable {l1 : L1 ρ}

section

variable {config} {req : Request}

theorem IsCoreRead.clearUnsafe (read : IsCoreRead config req) :
    IsCoreRead config req.clearUnsafe := by
  constructor
  case cacheable =>
    exact (req.isSet_clearUnsafe UNCACHEABLE (by decide)).trans read.cacheable
  case unlocked => exact (req.isSet_clearUnsafe LLSC (by decide)).trans read.unlocked
  case reads =>
    exact (req.isSet_clearUnsafe (CLEAN ||| INVALIDATE) (by decide)).trans read.reads
  case demands => exact read.demands
  case fits => exact read.fits

/-- Requests for the same bytes touch the same block. -/
theorem touched_congr
    (paddr : other.paddr = req.paddr) (secure : other.isSecure = req.isSecure) (l1 : L1 ρ) :
    l1.touched config other = l1.touched config req := by
  have addr : (Packet.createRead other).getAddr = (Packet.createRead req).getAddr :=
    congrArg (·.getD 0) paddr
  unfold L1.touched L1.blockOf
  rw [addr, secure]

theorem isSecure_clearUnsafe : req.clearUnsafe.isSecure = req.isSecure :=
  req.isSet_clearUnsafe SECURE (by decide)

/-- An unrestricted access touches its block. -/
theorem access_unrestricted
    (config : Config ρ) (l1 : L1 ρ) (cacheable : req.isUncacheable = false)
    (unrestricted : req.isRestricted = false) :
    ∃ lat, access config (Packet.createRead req) l1 =
      accessFound config (Packet.createRead req) (l1.blockOf config req) lat
        (l1.touched config req) := by
  have request : (Packet.createRead req).req = req := rfl
  unfold access L1.accessBlock L1.touched L1.blockOf
  simp only [request, cacheable, unrestricted]
  cases l1.findBlock config (Packet.createRead req).getAddr req.isSecure
  case none => exact ⟨config.lookupLatency, rfl⟩
  case some place => exact ⟨l1.hitLatency config place, rfl⟩

/-- All an ordinary read does is to touch its block. -/
theorem ordinaryRead_eq (read : IsCoreRead config req) (l1 : L1 ρ) :
    (access config (Packet.createRead req.clearUnsafe) l1).map (·.l1) =
      some (l1.touched config req) := by
  have same : l1.touched config req.clearUnsafe = l1.touched config req := by
    apply touched_congr
    case paddr => rfl
    case secure => exact isSecure_clearUnsafe
  obtain ⟨lat, accessed⟩ :=
    access_unrestricted config l1 read.clearUnsafe.cacheable req.isRestricted_clearUnsafe
  rw [accessed, accessFound_plainRead read.clearUnsafe, same]
  split <;> rfl

/-- A deferred request only touches its block. -/
theorem recvTimingReq_metadataUpdate
    (config : Config ρ) (l1 : L1 ρ) (cacheable : req.isUncacheable = false)
    (unlocked : req.isLLSC = false) (unrestricted : req.isRestricted = false)
    (deferred : req.metadataUpdate = true) :
    recvTimingReq config (Packet.createRead req) l1 = some (req, l1.touched config req) := by
  obtain ⟨lat, accessed⟩ := access_unrestricted config l1 cacheable unrestricted
  have request : (Packet.createRead req).req = req := rfl
  have responding : (Packet.createRead req).cacheResponding = false := rfl
  have found : accessFound config (Packet.createRead req) (l1.blockOf config req) lat
      (l1.touched config req) =
        some ⟨true, l1.blockOf config req, lat, Packet.createRead req, [],
          l1.touched config req⟩ := by
    unfold accessFound
    rw [request, deferred]
    rfl
  unfold recvTimingReq
  simp only [promoteWholeLineWrites_createRead unlocked, accessed, found, request, responding,
    unrestricted, deferred]
  rfl

/-- A deferred request that is taken touches its block. -/
theorem sendDeferred_entered
    (cached : config.bypassCaches = false) (accepts : l1.port.refuses = false)
    (read : IsCoreRead config req) :
    sendDeferred config req l1 = some (l1.touched config req) := by
  have received := recvTimingReq_metadataUpdate config l1
    (show req.clearUnsafe.setMetadataUpdate.isUncacheable = false from
      read.clearUnsafe.cacheable)
    read.clearUnsafe.unlocked req.isRestricted_clearUnsafe rfl
  have same : l1.touched config req.clearUnsafe.setMetadataUpdate = l1.touched config req := by
    apply touched_congr
    case paddr => rfl
    case secure => exact isSecure_clearUnsafe
  unfold sendDeferred
  rw [recvTimingReq_entered _ cached accepts, received, same]
  simp [Request.setMetadataUpdate]

/-- A deferred request that is refused touches nothing. -/
theorem sendDeferred_refused
    (cached : config.bypassCaches = false) (refuses : l1.port.refuses = true) :
    sendDeferred config req l1 =
      some { l1 with port := { l1.port with mustSendRetry := true } } := by
  unfold sendDeferred
  rw [recvTimingReq_refused cached refuses]

@[simp] theorem touched_port (l1 : L1 ρ) : (l1.touched config req).port = l1.port := by
  unfold L1.touched
  cases l1.blockOf config req <;> rfl

@[simp] theorem blockOf_touched (l1 : L1 ρ) (other : Request) :
    (l1.touched config req).blockOf config other = l1.blockOf config other := by
  unfold L1.touched
  cases l1.blockOf config req
  case none => rfl
  case some place =>
    have tests : ∀ place', ∀ tag : Addr, ∀ secure : Bool,
        (((l1.touchBlk config place).blks place').tag == tag &&
            ((l1.touchBlk config place).blks place').valid &&
            ((l1.touchBlk config place).blks place').secure == secure) =
          ((l1.blks place').tag == tag && (l1.blks place').valid &&
            (l1.blks place').secure == secure) := by
      intro place' tag secure
      unfold L1.touchBlk L1.modifyBlk
      dsimp only
      split <;> rfl
    unfold L1.blockOf L1.findBlock
    simp only [tests]

/-- A touch counts for the block of its request. -/
theorem refCount_touched (l1 : L1 ρ) (place : Place) :
    ((l1.touched config req).blks place).refCount =
      (l1.blks place).refCount + (if l1.blockOf config req = some place then 1 else 0) := by
  unfold L1.touched
  cases found : l1.blockOf config req
  case none => simp
  case some own =>
    simp only [L1.touchBlk, L1.modifyBlk, Option.some.injEq, eq_comm]
    split <;> simp

end

variable {req : Request} {sreqs : Option (Request × Request)}

/-- A load whose touches are taken touches all its blocks. -/
theorem dolmaLoad_entered
    (cached : config.bypassCaches = false) (accepts : l1.port.refuses = false)
    (reads : ∀ sent ∈ requestsOf req sreqs, IsCoreRead config sent) :
    dolmaLoad config req sreqs l1 =
      some ((requestsOf req sreqs).foldl (fun l1 sent => l1.touched config sent) l1) := by
  cases sreqs
  case none => exact sendDeferred_entered cached accepts (reads req (by simp [requestsOf]))
  case some halves =>
    obtain ⟨sreqLow, sreqHigh⟩ := halves
    have low : IsCoreRead config sreqLow := reads sreqLow (by simp [requestsOf])
    have high : IsCoreRead config sreqHigh := reads sreqHigh (by simp [requestsOf])
    have still : (l1.touched config sreqLow).port.refuses = false := by
      rw [touched_port]
      exact accepts
    unfold dolmaLoad
    dsimp only
    rw [sendDeferred_entered cached accepts low, Option.bind_some,
      sendDeferred_entered cached still high]
    rfl

/-- A load whose touches are refused touches nothing. -/
theorem dolmaLoad_refused
    (req : Request) (sreqs : Option (Request × Request)) (cached : config.bypassCaches = false)
    (refuses : l1.port.refuses = true) :
    dolmaLoad config req sreqs l1 =
      some { l1 with port := { l1.port with mustSendRetry := true } } := by
  cases sreqs
  case none => exact sendDeferred_refused cached refuses
  case some halves =>
    obtain ⟨sreqLow, sreqHigh⟩ := halves
    have still : CpuSidePort.refuses { l1.port with mustSendRetry := true } = true :=
      Bool.or_true _
    unfold dolmaLoad
    dsimp only
    rw [sendDeferred_refused cached refuses, Option.bind_some, sendDeferred_refused cached still]

/-- Ordinary reads touch the block of each request. -/
theorem ordinaryReads_eq
    (reqs : List Request) (l1 : L1 ρ) (reads : ∀ sent ∈ reqs, IsCoreRead config sent) :
    ordinaryReads config reqs l1 =
      some (reqs.foldl (fun l1 sent => l1.touched config sent) l1) := by
  induction reqs generalizing l1 with
  | nil => rfl
  | cons req rest ih =>
      unfold ordinaryReads
      rw [List.foldlM_cons, ordinaryRead_eq (reads req List.mem_cons_self)]
      exact ih (l1.touched config req) fun sent mem => reads sent (List.mem_cons_of_mem _ mem)

theorem refCount_foldl_touched (reqs : List Request) (l1 : L1 ρ) (place : Place) :
    ((reqs.foldl (fun l1 sent => l1.touched config sent) l1).blks place).refCount =
      (l1.blks place).refCount +
        BitVec.ofNat 32 (reqs.countP fun sent => l1.blockOf config sent = some place) := by
  induction reqs generalizing l1 with
  | nil => simp
  | cons req rest ih =>
      rw [List.foldl_cons, ih, refCount_touched, List.countP_cons]
      simp only [blockOf_touched, decide_eq_true_eq]
      split
      case isTrue =>
        rw [BitVec.add_assoc, BitVec.add_comm 1, BitVec.ofNat_add]
        rfl
      case isFalse => simp

theorem usage_foldl_touched_ne
    (mem : sent ∈ requestsOf req sreqs) (held : (l1.blockOf config sent).isSome) :
    l1.usage ≠ ((requestsOf req sreqs).foldl (fun l1 sent => l1.touched config sent) l1).usage := by
  intro same
  obtain ⟨place, found⟩ := Option.isSome_iff_exists.mp held
  have counted : (l1.blks place).refCount =
      (((requestsOf req sreqs).foldl (fun l1 sent => l1.touched config sent) l1).blks
        place).refCount :=
    congrArg Prod.fst (congrFun same place)
  rw [refCount_foldl_touched] at counted
  have none : BitVec.ofNat 32
      ((requestsOf req sreqs).countP fun sent => l1.blockOf config sent = some place) = 0 := by
    simpa using counted
  have positive : 0 < (requestsOf req sreqs).countP
      fun sent => l1.blockOf config sent = some place :=
    List.countP_pos_iff.mpr ⟨sent, mem, by simpa using found⟩
  -- a load has at most two requests, too few for the count to come round
  have few : (requestsOf req sreqs).countP
      (fun sent => l1.blockOf config sent = some place) ≤ 2 := by
    refine le_trans List.countP_le_length ?_
    unfold requestsOf
    split <;> simp
  have wrapped := congrArg BitVec.toNat none
  rw [BitVec.toNat_ofNat, Nat.mod_eq_of_lt (by omega)] at wrapped
  exact absurd wrapped positive.ne'

/-- A retiring load leaves the reference counts and the replacement data as
ordinary reads would, exactly when the port is neither blocked nor owes a
retry. -/
theorem dolmaLoad_usage_iff
    (req : Request) (sreqs : Option (Request × Request)) (l1 : L1 ρ)
    (cached : config.bypassCaches = false)
    (reads : ∀ sent ∈ requestsOf req sreqs, IsCoreRead config sent)
    (present : ∃ sent ∈ requestsOf req sreqs, (l1.blockOf config sent).isSome) :
    ∃ deferred ordinary,
      dolmaLoad config req sreqs l1 = some deferred ∧
        ordinaryReads config (requestsOf req sreqs) l1 = some ordinary ∧
          (deferred.usage = ordinary.usage ↔
            l1.port.blocked = false ∧ l1.port.mustSendRetry = false) := by
  have ordinary := ordinaryReads_eq config (requestsOf req sreqs) l1 reads
  have idle : (l1.port.blocked = false ∧ l1.port.mustSendRetry = false) ↔
      l1.port.refuses = false := Bool.or_eq_false_iff.symm
  rw [idle]
  cases refuses : l1.port.refuses
  case false => exact ⟨_, _, dolmaLoad_entered config cached refuses reads, ordinary, by simp⟩
  case true =>
    obtain ⟨sent, mem, held⟩ := present
    refine ⟨_, _, dolmaLoad_refused config req sreqs cached refuses, ordinary, ?_⟩
    exact iff_of_false (usage_foldl_touched_ne config mem held) (by simp)

/-- A load across two lines touches both while the port is free. -/
theorem dolmaLoad_usage_split :
    ∃ deferred ordinary,
      dolmaLoad twoWays (eightBytes 60) (some (eightBytes 56, eightBytes 64)) (warm false) =
          some deferred ∧
        ordinaryReads twoWays [eightBytes 56, eightBytes 64] (warm false) = some ordinary ∧
          (deferred.usage = ordinary.usage ↔
            (warm false).port.blocked = false ∧ (warm false).port.mustSendRetry = false) :=
  dolmaLoad_usage_iff twoWays (eightBytes 60) (some (eightBytes 56, eightBytes 64))
    (warm false) rfl
    (by
      intro sent mem
      rcases List.mem_pair.mp mem with rfl | rfl <;> constructor <;> decide)
    ⟨eightBytes 56, List.mem_cons_self, by decide⟩

/-- The port receives packets one after the other. -/
def recvAll (reqs : List Request) (l1 : L1 ρ) : Option (L1 ρ) :=
  reqs.foldlM
    (fun l1 req =>
      (CpuSidePort.recvTimingReq config (Packet.createRead req) l1).map (·.l1)) l1

/-- A restricted read hits, four misses fill the miss queue, and the touch of the
read is lost. -/
theorem dolmaLoad_usage_blocked :
    ((CpuSidePort.recvTimingReq twoWays (Packet.createRead (eightBytes 16))
        (warm false)).map (·.accepted) = some true) ∧
      ∃ l1 deferred ordinary,
        recvAll twoWays
            (eightBytes 16 :: [128, 192, 256, 320].map fun paddr =>
              (eightBytes paddr).clearUnsafe) (warm false) = some l1 ∧
          dolmaLoad twoWays (eightBytes 16) none l1 = some deferred ∧
          ordinaryReads twoWays [eightBytes 16] l1 = some ordinary ∧
          l1.blockOf twoWays (eightBytes 16) = some (0, 0) ∧
          deferred.usage (0, 0) = (0, 7) ∧ ordinary.usage (0, 0) = (1, 100) :=
  ⟨by decide, _, _, _, rfl, rfl, rfl, by decide, by decide, by decide⟩

end Cache
end Dolma

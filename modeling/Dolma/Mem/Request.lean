import Mathlib.Data.BitVec
import Mathlib.Tactic.Simps.Basic

/-!
# Memory requests

A request carries a word of flags that the core, the translation buffer and the
caches read and set. DOLMA adds one flag for requests that must leave no trace.
-/

namespace Dolma
namespace Mem

/-- An address. -/
abbrev Addr := BitVec 64

/-- A mask of the given number of low bits. -/
def mask (bits : Nat) : BitVec 64 :=
  BitVec.ofNat 64 (2 ^ bits - 1)

/-- The request is to an uncacheable address. -/
def UNCACHEABLE : BitVec 64 := 0x400
/-- The request is strictly ordered. -/
def STRICT_ORDER : BitVec 64 := 0x800
/-- The request is to a memory mapped register. -/
def MMAPPED_IPR : BitVec 64 := 0x2000
/-- The request must leave no trace. -/
def RESTRICTED : BitVec 64 := 0x4000
/-- The request is a load locked or a store conditional. -/
def LLSC : BitVec 64 := 0x200000
/-- The request is a prefetch. -/
def PREFETCH : BitVec 64 := 0x1000000
/-- The request is handled by generic register code. -/
def GENERIC_IPR : BitVec 64 := 0x8000000
/-- The request targets the secure memory space. -/
def SECURE : BitVec 64 := 0x10000000
/-- The request invalidates a memory location. -/
def INVALIDATE : BitVec 64 := 0x100000000
/-- The request cleans a memory location. -/
def CLEAN : BitVec 64 := 0x200000000

/-- A request to memory. -/
structure Request where
  vaddr : Addr
  size : Nat
  flags : BitVec 64
  paddr : Option Addr := none
  metadataUpdate : Bool := false
deriving DecidableEq, Repr

namespace Request

variable (req : Request)

/-- One of the given flags is set. -/
def isSet (flags : BitVec 64) : Bool :=
  req.flags &&& flags != 0

/-- Set flags. -/
@[simps] def setFlags (flags : BitVec 64) : Request :=
  { req with flags := req.flags ||| flags }

/-- Set the physical address. -/
@[simps] def setPaddr (paddr : Addr) : Request :=
  { req with paddr := some paddr }

/-- The request must leave no trace. -/
def isRestricted : Bool := req.isSet RESTRICTED
/-- The request is to an uncacheable address. -/
def isUncacheable : Bool := req.isSet UNCACHEABLE
/-- The request is strictly ordered. -/
def isStrictlyOrdered : Bool := req.isSet STRICT_ORDER
/-- The request is a load locked or a store conditional. -/
def isLLSC : Bool := req.isSet LLSC
/-- The request is a prefetch. -/
def isPrefetch : Bool := req.isSet PREFETCH
/-- The request targets the secure memory space. -/
def isSecure : Bool := req.isSet SECURE
/-- The request maintains caches. -/
def isCacheMaintenance : Bool := req.isSet (CLEAN ||| INVALIDATE)

/-- Mark the request restricted. -/
@[simps] def setUnsafe : Request :=
  { req with flags := req.flags ||| RESTRICTED }

/-- Lift the restriction of the request. -/
@[simps] def clearUnsafe : Request :=
  { req with flags := req.flags &&& ~~~RESTRICTED }

/-- A deferred update of replacement metadata. -/
@[simps] def setMetadataUpdate : Request :=
  { req with metadataUpdate := true }

theorem clearUnsafe_and (flags : BitVec 64) (other : ~~~RESTRICTED &&& flags = flags) :
    req.clearUnsafe.flags &&& flags = req.flags &&& flags := by
  rw [clearUnsafe_flags, BitVec.and_assoc, other]

/-- Lifting the restriction keeps every other flag. -/
theorem isSet_clearUnsafe (flags : BitVec 64) (other : ~~~RESTRICTED &&& flags = flags) :
    req.clearUnsafe.isSet flags = req.isSet flags := by
  rw [isSet, isSet, req.clearUnsafe_and flags other]

theorem setFlags_clearUnsafe (flags : BitVec 64) (other : flags &&& ~~~RESTRICTED = flags) :
    req.clearUnsafe.setFlags flags = (req.setFlags flags).clearUnsafe := by
  have distributed :
      (req.flags ||| flags) &&& ~~~RESTRICTED =
        (req.flags &&& ~~~RESTRICTED) ||| (flags &&& ~~~RESTRICTED) := by
    ext bit
    simp only [BitVec.getElem_and, BitVec.getElem_or]
    cases (~~~RESTRICTED)[bit] <;> simp
  simp only [setFlags, clearUnsafe]
  rw [distributed, other]

theorem setPaddr_clearUnsafe (paddr : Addr) :
    req.clearUnsafe.setPaddr paddr = (req.setPaddr paddr).clearUnsafe :=
  rfl

@[simp] theorem clearUnsafe_clearUnsafe : req.clearUnsafe.clearUnsafe = req.clearUnsafe := by
  simp only [clearUnsafe]
  rw [BitVec.and_assoc, BitVec.and_self]

/-- A request whose restriction is lifted has none. -/
@[simp] theorem isRestricted_clearUnsafe : req.clearUnsafe.isRestricted = false := by
  have none : ~~~RESTRICTED &&& RESTRICTED = 0#64 := by decide
  simp [isRestricted, isSet, BitVec.and_assoc, none]

@[simp] theorem isRestricted_setUnsafe : req.setUnsafe.isRestricted = true := by
  have absorbed : (req.flags ||| RESTRICTED) &&& RESTRICTED = RESTRICTED := by
    ext bit
    simp only [BitVec.getElem_and, BitVec.getElem_or]
    cases RESTRICTED[bit] <;> simp
  have nonzero : (RESTRICTED != 0#64) = true := by decide
  simp [isRestricted, isSet, absorbed, nonzero]

@[simp] theorem clearUnsafe_setUnsafe : req.setUnsafe.clearUnsafe = req.clearUnsafe := by
  have cleared : (req.flags ||| RESTRICTED) &&& ~~~RESTRICTED = req.flags &&& ~~~RESTRICTED := by
    ext bit
    simp only [BitVec.getElem_and, BitVec.getElem_or, BitVec.getElem_not]
    cases RESTRICTED[bit] <;> simp
  simp only [setUnsafe, clearUnsafe]
  rw [cleared]

/-- An unrestricted request has nothing to lift. -/
theorem clearUnsafe_of_not_restricted (unrestricted : req.isRestricted = false) :
    req.clearUnsafe = req := by
  have none : req.flags &&& RESTRICTED = 0#64 := by
    simpa [isRestricted, isSet] using unrestricted
  have same : req.flags &&& ~~~RESTRICTED = req.flags := by
    ext bit bound
    have zero : (req.flags &&& RESTRICTED)[bit] = false := by
      simp [none]
    rw [BitVec.getElem_and] at zero
    rw [BitVec.getElem_and, BitVec.getElem_not]
    cases flag : req.flags[bit] with
    | false => rfl
    | true =>
        rw [flag, Bool.true_and] at zero
        rw [zero]
        rfl
  simp only [clearUnsafe]
  rw [same]

end Request

end Mem
end Dolma

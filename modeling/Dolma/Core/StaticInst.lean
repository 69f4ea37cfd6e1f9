import Mathlib.Logic.Basic

/-!
# Static instructions, program counters and protection modes

The part of a decoded instruction that the out-of-order core reads, the x86
program-counter state with its micro-program counter, and the DOLMA mode
parameters of the core.
-/

namespace Dolma

/-- The DOLMA parameters of the core. -/
structure Config where
  /-- The protection mode; a mode that is not positive switches DOLMA off. -/
  mode : Int
  stt : Bool := false
  squashWidth : Nat := 8
  /-- Number of low address bits that dependence checks ignore. -/
  depCheckShift : Nat := 4
  /-- Whether loads are checked against younger loads. -/
  checkLoads : Bool := true
deriving DecidableEq, Repr

namespace Config

/-- Some DOLMA mode is on. -/
def isDolma (config : Config) : Bool :=
  decide (config.mode > 0)

/-- The even modes are the conservative ones. -/
def isDolmaConservative (config : Config) : Bool :=
  config.isDolma && decide (config.mode % 2 = 0)

/-- The modes above two protect memory only. -/
def isDolmaMemOnly (config : Config) : Bool :=
  config.isDolma && decide (config.mode > 2)

/-- The STT variant is active. -/
def isSTT (config : Config) : Bool :=
  config.isDolma && config.stt

end Config

/-- The x86 program-counter state: program counter, micro-program counter, their
successors and the size of the current instruction. -/
structure PCState where
  pc : BitVec 64
  npc : BitVec 64
  upc : BitVec 16
  nupc : BitVec 16
  size : BitVec 8
deriving DecidableEq, Repr

namespace PCState

/-- The comparison of program-counter states, which leaves the size out. -/
def same (left right : PCState) : Bool :=
  left.pc == right.pc && left.npc == right.npc && left.upc == right.upc && left.nupc == right.nupc

/-- Advance to the next macro-instruction. -/
def advance (state : PCState) : PCState :=
  { state with pc := state.npc, npc := state.npc + 8, size := 0 }

/-- Advance to the next micro-instruction. -/
def uAdvance (state : PCState) : PCState :=
  { state with upc := state.nupc, nupc := state.nupc + 1 }

/-- Leave the microcode of a macro-instruction. -/
def uEnd (state : PCState) : PCState :=
  { state.advance with upc := 0, nupc := 1 }

/-- Control does not fall through to the next instruction. -/
def branching (state : PCState) : Bool :=
  state.npc != state.pc + state.size.setWidth 64 || state.nupc.toNat != state.upc.toNat + 1

end PCState

/-- The properties of a decoded instruction that the core consults. -/
structure StaticInst where
  isLoad : Bool := false
  isStore : Bool := false
  isControl : Bool := false
  isCall : Bool := false
  isReturn : Bool := false
  isDirectCtrl : Bool := false
  isIndirectCtrl : Bool := false
  isCondCtrl : Bool := false
  isUncondCtrl : Bool := false
  isNonSpeculative : Bool := false
  isMemBarrier : Bool := false
  isWriteBarrier : Bool := false
  isStoreConditional : Bool := false
  isNop : Bool := false
  isSquashAfter : Bool := false
  isMicroop : Bool := false
  isLastMicroop : Bool := false
  /-- No interrupt is taken between it and the next micro-instruction. -/
  isDelayedCommit : Bool := false
  disassembly : List Char := []
deriving DecidableEq, Repr

namespace StaticInst

/-- Accesses memory. -/
def isMemRef (inst : StaticInst) : Bool :=
  inst.isLoad || inst.isStore

/-- Move a program-counter state past the instruction. -/
def advancePC (inst : StaticInst) (state : PCState) : PCState :=
  if inst.isMicroop then
    if inst.isLastMicroop then state.uEnd else state.uAdvance
  else state.advance

end StaticInst

end Dolma

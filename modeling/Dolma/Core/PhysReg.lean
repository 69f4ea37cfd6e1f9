import Mathlib.Logic.Basic

/-!
# Register classes and physical register identifiers

A register identifier names a class and an index in it. A physical register
identifier adds the flat index that the unified tables of the core are indexed
with. Miscellaneous registers are never renamed: they keep a fixed mapping.
-/

namespace Dolma

/-- The classes of registers. -/
inductive RegClass where
  | int
  | float
  | vec
  | vecElem
  | cc
  | misc
deriving DecidableEq, Repr

/-- The index of the integer zero register: `NUM_INTREGS` of the x86 headers. -/
def zeroReg : Nat := 16

/-- An architectural register. -/
structure RegId where
  regClass : RegClass
  regIdx : Nat
  elemIdx : Nat := 0
deriving DecidableEq, Repr

namespace RegId

/-- Every register but the miscellaneous ones can be renamed. -/
def isRenameable (reg : RegId) : Bool :=
  reg.regClass != .misc

end RegId

/-- A physical register: an identifier together with its flat index. -/
structure PhysRegId extends RegId where
  flatIdx : Nat
deriving DecidableEq, Repr

namespace PhysRegId

/-- The register always belongs to the same architectural register. -/
def isFixedMapping (reg : PhysRegId) : Bool :=
  !reg.isRenameable

end PhysRegId

end Dolma

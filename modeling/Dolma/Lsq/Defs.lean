import Dolma.Core.Heap

/-!
# Loads and stores

What the load/store queue shares with the other stages: how the cache answers a
load, and which loads the check for memory-order violations compares.
-/

namespace Dolma
namespace Lsq

/-- How the cache answers the request of a load. -/
inductive CacheOutcome where
  | accepted
  | restrictedMiss
  | blocked
deriving DecidableEq, Repr

/-- The dependence check compares the blocks of the first and of the last bytes. -/
def sameBlock (config : Config) (inst load : DynInst) : Bool :=
  load.effAddr >>> config.depCheckShift ≤
      (inst.effAddr + inst.effSize.setWidth 64 - 1) >>> config.depCheckShift &&
    inst.effAddr >>> config.depCheckShift ≤
      (load.effAddr + load.effSize.setWidth 64 - 1) >>> config.depCheckShift

/-- The load takes part in violation checks. -/
def isChecked (load : DynInst) : Bool :=
  load.effAddrValid && !load.strictlyOrdered && !load.isDolmaStalled

end Lsq
end Dolma

import Dolma.Access.Lines
import Dolma.Access.Transparent
import Dolma.Cache.Deferred
import Dolma.Commit.Decision
import Dolma.Commit.InOrder
import Dolma.Commit.Redirect
import Dolma.Dispatch.Occupancy
import Dolma.Dispatch.Order
import Dolma.Iew.Conserves
import Dolma.LsqUnit.Bypass
import Dolma.LsqUnit.Order
import Dolma.LsqUnit.Recorded
import Dolma.LsqUnit.Resize
import Dolma.LsqUnit.WellFormed
import Dolma.MemDep.Barrier
import Dolma.MemDep.StoreSet
import Dolma.Rename.CommitMap
import Dolma.RenameMap.SwitchMode
import Dolma.Rob.Idempotent
import Dolma.Rob.Release
import Dolma.Rob.Walk
import Dolma.Sched.Coverage
import Dolma.Sched.Cycle
import Dolma.Sched.Stalled
import Dolma.Smt.FetchPolicy
import Dolma.Smt.Sharing
import Dolma.Tlb.Slots

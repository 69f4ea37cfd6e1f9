import Dolma.LsqUnit.Stalls

/-!
# Loads have bytes

The core asks for at least one byte whenever a load accesses memory. So every load in the queue
whose address is known has bytes.
-/

namespace Dolma
namespace LsqUnit

open Library Lsq LSQUnit

/-- A load that accesses memory asks for at least one byte. -/
def hasBytes : Event → Bool
  | .executeLoad _ (.access request _) => request.effSize != 0
  | _ => true

/-- If the address of an instruction is known, it has bytes. -/
def HasSize (inst : DynInst) : Prop :=
  inst.effAddrValid = true → inst.effSize ≠ 0

/-- The loads whose addresses are known have bytes. -/
def Sized (lsq : LSQUnit) (queue : Queue) : Prop :=
  ∀ load ∈ queue.loads, HasSize (lsq.insts load)

variable {params : Params} {lsq next : LSQUnit} {queue queue' : Queue} {written seq : Nat}

theorem SameStand.hasSize (stand : SameStand before after) (sized : HasSize before) :
    HasSize after := by
  unfold HasSize
  rw [stand.effAddrValid, stand.effSize]
  exact sized

variable {mid : LSQUnit}

theorem access_hasSize
    (known : addressed = lsq.modify seq fun load =>
      { load with
        effAddr := request.effAddr
        effSize := request.effSize
        effAddrValid := true
        strictlyOrdered := request.strictlyOrdered })
    (asks : request.effSize ≠ 0) (reads : read params addressed seq request outcome = some mid)
    (checked : CheckEffect mid seq next) :
    HasSize (next.insts seq) := by
  have stand := (read_effect reads).1.self.trans checked.self
  refine stand.hasSize fun _ => ?_
  rw [known, modify_insts_self]
  exact asks

theorem executeLoad_hasSize
    (asks : hasBytes (.executeLoad seq attempt) = true)
    (ended : executeLoad params lsq seq attempt = some next) (sized : HasSize (lsq.insts seq)) :
    HasSize (next.insts seq) := by
  unfold executeLoad at ended
  dsimp only at ended
  obtain ⟨-, ended⟩ := Option.ite_none_left_eq_some.mp ended
  cases attempt with
  | noAccess faulted =>
      cases ended
      rw [modify_insts_self]
      exact sized
  | delayed =>
      cases ended
      exact sized
  | stalled =>
      cases ended
      rw [modify_insts_self]
      exact sized
  | access request outcome =>
      have asks : request.effSize ≠ 0 := bne_iff_ne.mp asks
      dsimp only at ended
      obtain ⟨mid, reads, ended⟩ := Option.bind_eq_some_iff.mp ended
      split at ended
      case isTrue =>
        cases ended
        exact access_hasSize rfl asks reads ⟨rfl, fun _ _ => rfl, SameStand.refl _, rfl⟩
      case isFalse => exact access_hasSize rfl asks reads (checkViolations_effect _ ended)

namespace Sized

section

variable (sized : Sized lsq queue)
include sized

theorem congr
    (loads : queue'.loads = queue.loads)
    (insts : ∀ load ∈ queue.loads, next.insts load = lsq.insts load) :
    Sized next queue' := by
  intro load member
  rw [loads] at member
  rw [insts load member]
  exact sized load member

theorem setStatus (seq : Nat) (flag : Status) (value : Bool) :
    Sized (lsq.modify seq fun inst => inst.setStatus flag value) queue := by
  intro load member
  by_cases same : load = seq
  · rw [same, modify_insts_self]
    exact sized seq (same ▸ member)
  · rw [LSQUnit.modify_insts_of_ne _ same]
    exact sized load member

theorem insertLoad (inserted : insertLoad params lsq seq = some next) :
    Sized next { queue with loads := queue.loads ++ [seq] } := by
  rw [LsqUnit.insertLoad, Option.ite_none_left_eq_some, Option.some.injEq] at inserted
  obtain ⟨-, rfl⟩ := inserted
  intro load member
  dsimp only
  by_cases same : load = seq
  · rw [same, Function.update_self]
    intro unknown
    cases unknown
  · rw [Function.update_of_ne same]
    refine sized load ((List.mem_append.mp member).resolve_right fun new => ?_)
    exact same (List.mem_singleton.mp new)

theorem insertStore
    (whole : Whole params lsq queue written) (fresh : lsq.lastSeq < seq)
    (inserted : insertStore params lsq seq false = some next) :
    Sized next { queue with stores := queue.stores ++ [{ inst := some seq }] } := by
  rw [LsqUnit.insertStore, Option.ite_none_left_eq_some, Option.some.injEq] at inserted
  obtain ⟨-, rfl⟩ := inserted
  refine sized.congr rfl fun load member => Function.update_of_ne ?_ _ _
  exact Nat.ne_of_lt (Nat.lt_of_le_of_lt (whole.rings.loadBound load member) fresh)

theorem squash
    (whole : Whole params lsq queue written)
    (taken : TakenBack params squashedNum lsq queue mid next kept kept') :
    Sized next
      { queue with
        loads := queue.loads.take kept
        stores := queue.stores.take kept' } := by
  intro load member
  obtain ⟨i, inside, rfl⟩ := List.mem_take_iff_getElem.mp member
  have present : i < queue.loads.length := by omega
  rw [whole.load_of_kept taken present (by omega)]
  exact sized _ (List.getElem_mem present)

theorem step
    (whole : Whole params lsq queue written) (asks : hasBytes event = true)
    (stepped : step params lsq event = some next)
    (moves : Whole.Moves params lsq queue written event next queue' written') :
    Sized next queue' := by
  have store {entry : SQEntry} (member : entry ∈ queue.stores) :
      ∀ load ∈ queue.loads, load ≠ entry.seqNum := fun load isLoad =>
    whole.disjoint load isLoad entry member
  cases moves with
  | insertLoad _ inserted => exact sized.insertLoad inserted
  | insertStore fresh inserted => exact sized.insertStore whole fresh inserted
  | @executeLoad i _ _ inside _ _ _ _ effect _ =>
      rw [LsqUnit.step, Option.ite_none_right_eq_some] at stepped
      intro load member
      by_cases same : load = queue.loads[i]
      · rw [same]
        exact executeLoad_hasSize asks stepped.2 (sized _ (List.getElem_mem inside))
      · rw [effect.others _ same]
        exact sized load member
  | accessStore inside _ effect =>
      exact sized.congr rfl fun load member =>
        effect.others _ (store (List.getElem_mem inside) load member)
  | storeMoves inside moves =>
      exact sized.congr rfl fun load member =>
        moves.others _ (store (List.getElem_mem inside) load member)
  | ignore => exact sized.congr rfl fun _ _ => rfl
  | @writeback seq _ =>
      have kept : Sized { lsq with owed := Function.update lsq.owed seq false } queue :=
        sized.congr rfl fun _ _ => rfl
      exact kept.setStatus seq .executed true
  | @status seq flag value _ _ => exact sized.setStatus seq flag value
  | getMemDepViolator => exact sized.congr rfl fun _ _ => rfl
  | checkSnoop effect => exact fun load member => (effect.stand load).hasSize (sized load member)
  | commitLoads left => exact sized.congr rfl fun _ _ => by rw [left.frame]
  | commitStores marked => exact sized.congr rfl fun _ _ => by rw [marked.frame]
  | @replayStrictlyOrdered seq _ =>
      have kept : Sized { lsq with instsToReplay := [] } queue :=
        sized.congr rfl fun _ _ => rfl
      exact kept.setStatus seq .atCommit true
  | squash loadsTaken storesTaken => exact sized.squash whole ⟨loadsTaken, storesTaken⟩
  | settles passed => exact sized.congr passed.loads fun _ _ => by rw [passed.frame.insts]

end

end Sized

end LsqUnit
end Dolma

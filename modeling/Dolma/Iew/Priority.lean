import Dolma.Iew.Exchange

/-!
# Priority for write-back

The oldest instructions are meant to be written back first. Whether the queue gives them
priority after an insertion can be read off the queue before it: every cycle that the search
leaves has to be left with instructions that are no contenders of the one that goes on, nor of
one in a later cycle. The search does not see to that: it exchanges an instruction with the
last contender of a cycle rather than the youngest one, does so even if the contender was found
in an earlier cycle, and does not do so on its way into an empty cycle.
-/

namespace Dolma
namespace Writeback

/-- No instruction of a row is a contender of one in a cycle after the given one. -/
def Calm (insts : Nat → Nat → Option Inst) (cycle : Nat) (row : Nat → Option Inst) : Prop :=
  ∀ later, cycle < later → ∀ slot other contender inst, row slot = some contender →
    insts later other = some inst → contender.isUnsafeContender inst = false

/-- From a cycle on, no instruction is in a later cycle than a younger restricted
instruction of its thread. -/
def Prioritised (insts : Nat → Nat → Option Inst) (start : Nat) : Prop :=
  ∀ cycle later, start ≤ cycle → cycle < later →
    ∀ slot other contender inst, insts cycle slot = some contender →
      insts later other = some inst → contender.isUnsafeContender inst = false

/-- A row holds no contender of an instruction. -/
def Uncontended (row : Nat → Option Inst) (inst : Inst) : Prop :=
  ∀ slot contender, row slot = some contender → contender.isUnsafeContender inst = false

/-- The cycle as the search leaves it, and the instruction that goes on. -/
def leaves
    (params : Params) (insts : Nat → Nat → Option Inst) (cycle slot : Nat) (inst : Inst)
    (before : Option Nat) : (Nat → Option Inst) × Inst :=
  match exchanged params insts cycle slot inst before with
  | some (idx, contender) => (setSlot insts cycle idx inst cycle, contender)
  | none => (insts cycle, inst)

/-- Every cycle on the way to a free slot is left with instructions that are no contenders
of the one that goes on, nor of one in a later cycle. From the free slot on the cycles are in
order, and the last instruction is no contender of one in a later cycle. -/
inductive LeftUncontended (params : Params) (insts : Nat → Nat → Option Inst) :
    Nat → Nat → Inst → Option Nat → Prop where
  | found {cycle slot free : Nat} {inst : Inst} (before : Option Nat) :
      freeSlot (insts cycle) slot (params.wbWidth - slot) = some free →
      Prioritised insts cycle →
      Calm insts cycle (fun _ => some inst) →
      LeftUncontended params insts cycle slot inst before
  | left {cycle slot : Nat} {inst : Inst} {before : Option Nat} :
      freeSlot (insts cycle) slot (params.wbWidth - slot) = none →
      Calm insts cycle (leaves params insts cycle slot inst before).1 →
      Uncontended (leaves params insts cycle slot inst before).1
        (leaves params insts cycle slot inst before).2 →
      LeftUncontended params insts (cycle + 1) 0 (leaves params insts cycle slot inst before).2
        (remembered params (insts cycle) slot inst before) →
      LeftUncontended params insts cycle slot inst before

section Order

variable {params : Params} {insts after : Nat → Nat → Option Inst} {cycle slot : Nat}
  {inst contender occupant : Inst} {before : Option Nat} {row : Nat → Option Inst}

variable {other : Nat}

theorem setSlot_of_ne {row : Nat} (apart : ¬ (row = cycle ∧ other = slot)) :
    setSlot insts cycle slot inst row other = insts row other :=
  if_neg apart

/-- A write changes one cycle only. -/
theorem setSlot_row {row : Nat} (apart : row ≠ cycle) :
    setSlot insts cycle slot inst row = insts row := by
  funext other
  exact setSlot_of_ne fun same => apart same.1

/-- The cycles before the search stay as they are. -/
theorem Inserted.unchanged
    (inserted : Inserted params insts cycle slot inst before after) {row : Nat}
    (earlier : row < cycle) :
    after row = insts row := by
  induction inserted with
  | free => exact setSlot_row (by omega)
  | exchange full exchanged rest ih => exact (ih (by omega)).trans (setSlot_row (by omega))
  | goOn full exchanged rest ih => exact ih (by omega)

theorem Calm.congr
    {other : Nat → Nat → Option Inst} (calm : Calm insts cycle row)
    (same : ∀ row, cycle ≤ row → other row = insts row) :
    Calm other cycle row := by
  intro later below
  rw [same later (by omega)]
  exact calm later below

/-- The condition is about the cycles to come. -/
theorem LeftUncontended.congr
    {other : Nat → Nat → Option Inst}
    (uncontended : LeftUncontended params insts cycle slot inst before)
    (same : ∀ row, cycle ≤ row → other row = insts row) :
    LeftUncontended params other cycle slot inst before := by
  induction uncontended with
  | @found cycle slot free inst before there ordered harmless =>
      refine .found before (same cycle (Nat.le_refl _) ▸ there) ?_ (harmless.congr same)
      intro row later above below
      rw [same row above, same later (by omega)]
      exact ordered row later above below
  | @left cycle slot inst before full calm clear rest ih =>
      have here := same cycle (Nat.le_refl _)
      have taken : ∀ idx, setSlot other cycle idx inst cycle = setSlot insts cycle idx inst cycle := by
        intro idx
        funext place
        rw [setSlot, setSlot, here]
      have left : leaves params other cycle slot inst before =
          leaves params insts cycle slot inst before := by
        unfold leaves exchanged
        simp only [here, same (cycle + 1) (by omega), taken]
      refine .left (here ▸ full) ?_ ?_ ?_
      · rw [left]
        exact calm.congr same
      · rw [left]
        exact clear
      · rw [left, here]
        exact ih fun row above => same row (by omega)

end Order

section Samples

/-- A queue of given cycles. -/
def Queue.ofRows (rows : List (List Inst)) : Queue where
  insts cycle slot := rows[cycle]?.bind fun row => row[slot]?
  size cycle := rows[cycle]?.elim 0 List.length
  depth := rows.length
  beyond cycle above slot := by rw [List.getElem?_eq_none above]; rfl

/-- The mode protects everything, and instructions are written back in pairs. -/
def pairs : Params where
  config := { mode := 1 }
  wbWidth := 2
  positive := by decide

/-- A search that starts at the current cycle. -/
def State.ofRows (rows : List (List Inst)) : State pairs where
  queue := .ofRows rows
  wbCycle := 0
  wbNumInst := 0
  inside := by decide

variable {rows : List (List Inst)}

end Samples

end Writeback
end Dolma

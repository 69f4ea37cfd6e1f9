import Dolma.Iew.Writeback

/-!
# Insertion cycle by cycle

The search for a slot passes whole cycles. In each of them it finds a free slot, or
remembers the last contender of the instruction that it carries. On its way into a
cycle that is not empty it exchanges the two.
-/

namespace Dolma
namespace Writeback

variable {found idx : Nat}

section Rows

variable (params : Params)

/-- The first free slot among a number of slots. -/
def freeSlot (row : Nat → Option Inst) : Nat → Nat → Option Nat
  | _, 0 => none
  | slot, count + 1 =>
      match row slot with
      | none => some slot
      | some _ => freeSlot row (slot + 1) count

/-- The last contender of an instruction among a number of slots, or the one that
was found before. -/
def lastContender (row : Nat → Option Inst) (inst : Inst) :
    Nat → Nat → Option Nat → Option Nat
  | _, 0, before => before
  | slot, count + 1, before =>
      lastContender row inst (slot + 1) count
        (match row slot with
        | none => before
        | some occupant =>
            if !params.config.isSTT && occupant.isUnsafeContender inst then some slot
            else before)

/-- The contender that is remembered when the search leaves a cycle. -/
def remembered (row : Nat → Option Inst) (slot : Nat) (inst : Inst) (before : Option Nat) :
    Option Nat :=
  lastContender params row inst slot (params.wbWidth - slot) before

/-- The slot that changes hands when the search leaves a cycle, and the instruction
that loses it. Nothing changes hands when the next cycle is empty. -/
def exchanged
    (insts : Nat → Nat → Option Inst) (cycle slot : Nat) (inst : Inst) (before : Option Nat) :
    Option (Nat × Inst) :=
  match remembered params (insts cycle) slot inst before, insts (cycle + 1) 0 with
  | some idx, some _ => (insts cycle idx).map fun contender => (idx, contender)
  | _, _ => none

/-- An insertion, cycle by cycle. -/
inductive Inserted : (Nat → Nat → Option Inst) → Nat → Nat → Inst → Option Nat →
    (Nat → Nat → Option Inst) → Prop where
  | free {insts : Nat → Nat → Option Inst} {cycle slot found : Nat} (inst : Inst)
      (before : Option Nat) :
      freeSlot (insts cycle) slot (params.wbWidth - slot) = some found →
      Inserted insts cycle slot inst before (setSlot insts cycle found inst)
  /-- The instruction takes the slot of another one, which goes on. -/
  | exchange {insts after : Nat → Nat → Option Inst} {cycle slot idx : Nat}
      {inst contender : Inst} {before : Option Nat} :
      freeSlot (insts cycle) slot (params.wbWidth - slot) = none →
      exchanged params insts cycle slot inst before = some (idx, contender) →
      Inserted (setSlot insts cycle idx inst) (cycle + 1) 0 contender
        (remembered params (insts cycle) slot inst before) after →
      Inserted insts cycle slot inst before after
  | goOn {insts after : Nat → Nat → Option Inst} {cycle slot : Nat} {inst : Inst}
      {before : Option Nat} :
      freeSlot (insts cycle) slot (params.wbWidth - slot) = none →
      exchanged params insts cycle slot inst before = none →
      Inserted insts (cycle + 1) 0 inst
        (remembered params (insts cycle) slot inst before) after →
      Inserted insts cycle slot inst before after

variable {params} {row : Nat → Option Inst} {inst : Inst}
variable {slot count : Nat}

end Rows

section Refinement

variable {params : Params}

/-- The search at the first slot of the next cycle, with a contender to exchange
with. -/
def Search.nextCycle (search : Search) (idx : Option Nat) : Search :=
  { search with
    wbCycle := search.wbCycle + 1
    wbNumInst := 0
    unsafeContention := idx.isSome
    unsafeContenderIdx := idx }

variable {search : Search}

/-- The search at the first slot of the next cycle, after an exchange. -/
def Search.exchange (search : Search) (idx : Nat) (contender : Inst) : Search :=
  { search.nextCycle (some idx) with
    queue := search.queue.put search.wbCycle idx search.instToInsert
    instToInsert := contender
    unsafeContention := false }

end Refinement

end Writeback
end Dolma

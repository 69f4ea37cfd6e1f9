import Dolma.Library.Loop
import Dolma.Library.TransitionSystem
import Mathlib.Data.List.Basic
import Mathlib.Logic.Function.Basic

/-!
# The store set predictor

Loads and stores that once collided are put into a common set through a table indexed by
their addresses. Each set remembers the store fetched last, and a map holds the stores in
flight with their sets, the youngest first. A squash takes stores off the map from its front;
it looks at the store fetched last of the set, and makes no progress if that store is kept.
-/

namespace Dolma
namespace MemDep

open Library

/-- The sizes of the predictor. -/
structure StoreSetParams where
  clearPeriod : Nat
  ssitSize : Nat
  lfstSize : Nat

/-- The store set predictor. -/
structure StoreSet where
  ssit : Nat → Nat := fun _ => 0
  validSSIT : Nat → Bool := fun _ => false
  lfst : Nat → Nat := fun _ => 0
  validLFST : Nat → Bool := fun _ => false
  /-- The stores in flight and their sets, the youngest first. -/
  storeList : List (Nat × Nat) := []
  memOpsPred : Nat := 0

/-- Assign to a key of an ordered map, the largest key first. -/
def assign (key value : Nat) : List (Nat × Nat) → List (Nat × Nat)
  | [] => [(key, value)]
  | (other, kept) :: rest =>
      if other < key then (key, value) :: (other, kept) :: rest
      else if key = other then (key, value) :: rest
      else (other, kept) :: assign key value rest

namespace StoreSet

variable (params : StoreSetParams) (store : StoreSet)

/-- The entry of the table of sets for an address. -/
def calcIndex (pc : Nat) : Nat :=
  (pc >>> 2) &&& (params.ssitSize - 1)

/-- The set an address begins with. -/
def calcSSID (pc : Nat) : Nat :=
  (pc ^^^ (pc >>> 10)) % params.lfstSize

/-- Put an entry of the table into a set. -/
def setSSIT (index set : Nat) : StoreSet :=
  { store with
    ssit := Function.update store.ssit index set
    validSSIT := Function.update store.validSSIT index true }

/-- A load and a store have collided. The set with the lower number wins. -/
def violation (storePC loadPC : Nat) : StoreSet :=
  let loadIndex := calcIndex params loadPC
  let storeIndex := calcIndex params storePC
  match store.validSSIT loadIndex, store.validSSIT storeIndex with
  | false, false =>
      let set := calcSSID params loadPC
      (store.setSSIT loadIndex set).setSSIT storeIndex set
  | true, false => store.setSSIT storeIndex (store.ssit loadIndex)
  | false, true => store.setSSIT loadIndex (store.ssit storeIndex)
  | true, true =>
      if store.ssit loadIndex < store.ssit storeIndex then
        { store with ssit := Function.update store.ssit storeIndex (store.ssit loadIndex) }
      else { store with ssit := Function.update store.ssit loadIndex (store.ssit storeIndex) }

/-- Clear all tables. -/
def clear : StoreSet :=
  { store with
    validSSIT := fun _ => false
    validLFST := fun _ => false
    storeList := [] }

/-- Count a memory operation, and clear the tables every so often. -/
def checkClear : StoreSet :=
  if params.clearPeriod < store.memOpsPred + 1 then clear { store with memOpsPred := 0 }
  else { store with memOpsPred := store.memOpsPred + 1 }

/-- A load is only counted. -/
def insertLoad : StoreSet :=
  store.checkClear params

/-- Insert a store. -/
def insertStore (pc seq : Nat) : StoreSet :=
  let index := calcIndex params pc
  let checked := store.checkClear params
  if checked.validSSIT index then
    let set := checked.ssit index
    { checked with
      lfst := Function.update checked.lfst set seq
      validLFST := Function.update checked.validLFST set true
      storeList := assign seq set checked.storeList }
  else checked

/-- An instruction has issued. -/
def issued (pc seq : Nat) (isStore : Bool) : StoreSet :=
  if isStore then
    let index := calcIndex params pc
    let erased := { store with storeList := store.storeList.filter fun entry => entry.1 != seq }
    let set := store.ssit index
    if store.validSSIT index && store.validLFST set && store.lfst set == seq then
      { erased with validLFST := Function.update store.validLFST set false }
    else erased
  else store

/-- The body of the loop of a squash. The iterator is always at the front of the map. -/
def squashBody (keep : Nat) (store : StoreSet) : StoreSet ⊕ StoreSet :=
  match store.storeList with
  | [] => .inl store
  | (seq, set) :: rest =>
      if seq ≤ keep then .inl store
      else if store.validLFST set && decide (keep < store.lfst set) then
        .inr { store with
          validLFST := Function.update store.validLFST set false
          storeList := rest }
      else if !store.validLFST set && decide (keep < store.lfst set) then
        .inr { store with storeList := rest }
      else .inr store

/-- Squash the stores younger than a number, if the loop returns. -/
def squash (keep : Nat) : Option StoreSet :=
  loop (squashBody keep) (store.storeList.length + 1) store

end StoreSet

/-! ## Runs -/

/-- The predictor and the last store inserted. -/
structure Predictor where
  tables : StoreSet := {}
  lastStore : Nat := 0

/-- What happens to the predictor. -/
inductive StoreSetEvent where
  | insertLoad
  | insertStore (pc seq : Nat)
  | issued (pc seq : Nat) (isStore : Bool)
  | violation (storePC loadPC : Nat)
  | clear
  | squash (keep : Nat)

namespace Predictor

/-- The step function. Stores are inserted in program order; a squash that does not return
has no next state. -/
def step (params : StoreSetParams) (predictor : Predictor) : StoreSetEvent → Option Predictor
  | .insertLoad => some { predictor with tables := predictor.tables.insertLoad params }
  | .insertStore pc seq =>
      if predictor.lastStore < seq then
        some { tables := predictor.tables.insertStore params pc seq, lastStore := seq }
      else none
  | .issued pc seq isStore =>
      some { predictor with tables := predictor.tables.issued params pc seq isStore }
  | .violation storePC loadPC =>
      some { predictor with tables := predictor.tables.violation params storePC loadPC }
  | .clear => some { predictor with tables := predictor.tables.clear }
  | .squash keep =>
      (predictor.tables.squash keep).map fun tables => { predictor with tables := tables }

end Predictor

/-! ## The invariant -/

/-- No store in flight is younger than the store of its set fetched last. -/
structure Fetched (tables : StoreSet) (last : Nat) : Prop where
  ordered : (tables.storeList.map Prod.fst).Pairwise (· > ·)
  fetched : ∀ entry ∈ tables.storeList, entry.1 ≤ tables.lfst entry.2
  bounded : ∀ set, tables.lfst set ≤ last

namespace Fetched

variable {tables next : StoreSet} {last : Nat}

theorem sublist
    (holds : Fetched tables last) (fewer : next.storeList.Sublist tables.storeList)
    (same : next.lfst = tables.lfst) :
    Fetched next last := by
  constructor
  case ordered => exact holds.ordered.sublist (fewer.map Prod.fst)
  case fetched =>
    rw [same]
    exact fun entry member => holds.fetched entry (fewer.subset member)
  case bounded =>
    rw [same]
    exact holds.bounded

variable {seq keep : Nat}

/-- The youngest store goes to the front of the map. -/
theorem assign_eq_cons
    {list : List (Nat × Nat)} {set : Nat} (youngest : ∀ entry ∈ list, entry.1 < seq) :
    assign seq set list = (seq, set) :: list := by
  cases list with
  | nil => rfl
  | cons entry rest => exact if_pos (youngest entry List.mem_cons_self)

theorem insert
    (holds : Fetched tables last) (younger : last < seq) (set : Nat)
    (same : next.lfst = Function.update tables.lfst set seq)
    (list : next.storeList = assign seq set tables.storeList) :
    Fetched next seq := by
  have youngest : ∀ entry ∈ tables.storeList, entry.1 < seq := by
    intro entry member
    exact Nat.lt_of_le_of_lt (Nat.le_trans (holds.fetched entry member) (holds.bounded entry.2))
      younger
  have raised : ∀ other, tables.lfst other ≤ next.lfst other ∧ next.lfst other ≤ seq := by
    intro other
    have bound := holds.bounded other
    rw [same]
    by_cases own : other = set
    · subst own
      rw [Function.update_self]
      omega
    · rw [Function.update_of_ne own]
      omega
  rw [assign_eq_cons youngest] at list
  constructor
  case ordered =>
    rw [list, List.map_cons, List.pairwise_cons]
    refine ⟨?_, holds.ordered⟩
    intro other member
    obtain ⟨entry, isIn, rfl⟩ := List.mem_map.mp member
    exact youngest entry isIn
  case fetched =>
    rw [list]
    intro entry member
    rcases List.mem_cons.mp member with rfl | old
    · apply Nat.le_of_eq
      rw [same, Function.update_self]
    · exact Nat.le_trans (holds.fetched entry old) (raised entry.2).1
  case bounded => exact fun other => (raised other).2

/-- Tables may be cleared when a memory operation is counted. -/
theorem checkClear (params : StoreSetParams) (holds : Fetched tables last) :
    Fetched (tables.checkClear params) last := by
  unfold StoreSet.checkClear
  split
  · exact holds.sublist (List.nil_sublist _) rfl
  · exact holds.sublist (List.Sublist.refl _) rfl

/-- What the loop does to the last store. -/
theorem squashBody_eq (holds : Fetched tables last) :
    (StoreSet.squashBody keep tables = .inl tables ∧
        ∀ entry ∈ tables.storeList, entry.1 ≤ keep) ∨
      ∃ entry rest validLFST, tables.storeList = entry :: rest ∧ keep < entry.1 ∧
        StoreSet.squashBody keep tables =
          .inr { tables with validLFST := validLFST, storeList := rest } := by
  unfold StoreSet.squashBody
  cases list : tables.storeList with
  | nil => exact .inl ⟨rfl, fun _ member => absurd member List.not_mem_nil⟩
  | cons entry rest =>
      obtain ⟨seq, set⟩ := entry
      have ordered := holds.ordered
      have fetched := holds.fetched (seq, set) (list ▸ List.mem_cons_self)
      rw [list, List.map_cons, List.pairwise_cons] at ordered
      dsimp only at fetched ⊢
      by_cases kept : seq ≤ keep
      · rw [if_pos kept]
        refine .inl ⟨rfl, ?_⟩
        intro entry member
        rcases List.mem_cons.mp member with rfl | older
        · exact kept
        · exact Nat.le_trans (Nat.le_of_lt (ordered.1 entry.1 (List.mem_map_of_mem older))) kept
      · -- the store of the set fetched last is not older, so that it is not kept either
        have younger : keep < tables.lfst set := by omega
        rw [if_neg kept, decide_eq_true younger]
        right
        cases valid : tables.validLFST set with
        | true => exact ⟨(seq, set), rest, _, rfl, Nat.lt_of_not_le kept, rfl⟩
        | false => exact ⟨(seq, set), rest, tables.validLFST, rfl, Nat.lt_of_not_le kept, rfl⟩

/-- A squash in progress: the stores that are old enough are still there. -/
def Keeps (tables : StoreSet) (last keep : Nat) (state : StoreSet) : Prop :=
  Fetched state last ∧
    state.storeList.filter (fun entry => decide (entry.1 ≤ keep)) =
      tables.storeList.filter (fun entry => decide (entry.1 ≤ keep))

/-- Each iteration takes a store that is too young off the map. -/
theorem Keeps.iterate
    (keeps : Keeps tables last keep state) (stepped : StoreSet.squashBody keep state = .inr after) :
    Keeps tables last keep after ∧ after.storeList.length < state.storeList.length := by
  obtain ⟨fetched, same⟩ := keeps
  rcases fetched.squashBody_eq with ⟨returned, -⟩ | ⟨entry, rest, valid, list, young, goesOn⟩
  · rw [returned] at stepped
    cases stepped
  · rw [goesOn] at stepped
    cases stepped
    rw [list] at same ⊢
    refine ⟨⟨fetched.sublist ?_ rfl, ?_⟩, Nat.lt_succ_self _⟩
    · rw [list]
      exact List.sublist_cons_self entry rest
    · rw [← same, List.filter_cons_of_neg]
      simpa using young

/-- A squash returns, and leaves the stores that are old enough. -/
theorem squash (holds : Fetched tables last) (keep : Nat) :
    ∃ final, tables.squash keep = some final ∧
      final.storeList = tables.storeList.filter (fun entry => decide (entry.1 ≤ keep)) ∧
      Fetched final last := by
  have start : Keeps tables last keep tables := ⟨holds, rfl⟩
  obtain ⟨state, final, ⟨fetched, same⟩, returned, result⟩ :=
    exists_loop (fun state : StoreSet => state.storeList.length)
      (fun _ _ keeps stepped => keeps.iterate stepped) (Nat.lt_succ_self _) start
  refine ⟨final, result, ?_⟩
  rcases fetched.squashBody_eq with ⟨stays, old⟩ | ⟨_, _, _, _, _, goesOn⟩
  · rw [stays] at returned
    cases returned
    rw [← same, List.filter_eq_self.mpr fun entry member => decide_eq_true (old entry member)]
    exact ⟨rfl, fetched⟩
  · rw [goesOn] at returned
    cases returned

theorem step
    {params : StoreSetParams} {predictor after : Predictor}
    (holds : Fetched predictor.tables predictor.lastStore) {event : StoreSetEvent}
    (stepped : predictor.step params event = some after) :
    Fetched after.tables after.lastStore := by
  cases event with
  | insertLoad =>
      cases stepped
      exact holds.checkClear params
  | insertStore pc seq =>
      obtain ⟨younger, rest⟩ := Option.ite_none_right_eq_some.mp stepped
      cases rest
      have checked := holds.checkClear params
      change Fetched (predictor.tables.insertStore params pc seq) seq
      unfold StoreSet.insertStore
      dsimp only
      split
      · exact checked.insert younger _ rfl rfl
      · obtain ⟨ordered, fetched, bounded⟩ := checked
        exact ⟨ordered, fetched, fun set => Nat.le_trans (bounded set) (Nat.le_of_lt younger)⟩
  | issued pc seq isStore =>
      cases stepped
      change Fetched (predictor.tables.issued params pc seq isStore) _
      unfold StoreSet.issued
      dsimp only
      split
      · split
        · exact holds.sublist List.filter_sublist rfl
        · exact holds.sublist List.filter_sublist rfl
      · exact holds
  | violation storePC loadPC =>
      cases stepped
      change Fetched (predictor.tables.violation params storePC loadPC) _
      unfold StoreSet.violation
      dsimp only
      split
      · exact holds.sublist (List.Sublist.refl _) rfl
      · exact holds.sublist (List.Sublist.refl _) rfl
      · exact holds.sublist (List.Sublist.refl _) rfl
      · split
        · exact holds.sublist (List.Sublist.refl _) rfl
        · exact holds.sublist (List.Sublist.refl _) rfl
  | clear =>
      cases stepped
      exact holds.sublist (List.nil_sublist _) rfl
  | squash keep =>
      obtain ⟨final, squashed, -, fetched⟩ := holds.squash keep
      obtain ⟨tables, result, rfl⟩ := Option.map_eq_some_iff.mp stepped
      rw [squashed] at result
      cases result
      exact fetched

end Fetched

/-- In every run with stores inserted in program order, a squash returns, leaves no younger
store, keeps the others, and no store that is left is younger than the store of its set fetched
last. -/
theorem squash_returns
    {params : StoreSetParams} {predictor : Predictor}
    (reachable : Reachable (Predictor.step params) (fun _ _ => True) {} predictor) (keep : Nat) :
    ∃ final, Returns (StoreSet.squashBody keep) predictor.tables final ∧
      final.storeList = predictor.tables.storeList.filter (fun entry => decide (entry.1 ≤ keep)) ∧
      ∀ entry ∈ final.storeList, entry.1 ≤ final.lfst entry.2 := by
  have holds : Fetched predictor.tables predictor.lastStore := by
    induction reachable with
    | init => exact ⟨List.Pairwise.nil, fun _ member => absurd member List.not_mem_nil,
        fun _ => Nat.le_refl 0⟩
    | step event _ _ stepped ih => exact ih.step stepped
  obtain ⟨final, squashed, list, fetched⟩ := holds.squash keep
  exact ⟨final, ⟨_, squashed⟩, list, fetched.fetched⟩

/-- Two stores of one set are in flight when another collision moves the address of the
second store to a lower set, and a third store is inserted. -/
def mergedSets : List StoreSetEvent :=
  [.violation 4 2048, .insertStore 4 1, .insertStore 4 2, .violation 12 16, .violation 4 16,
    .insertStore 4 3, .issued 4 1 true]

/-- A squash in a run in which a set was merged while its stores were in flight. -/
theorem squash_returns_mergedSets :
    ∃ predictor, Reachable (Predictor.step ⟨100, 16, 16⟩) (fun _ _ => True) {} predictor ∧
      predictor.tables.storeList.map Prod.fst = [3, 2] ∧
      ∃ final, Returns (StoreSet.squashBody 2) predictor.tables final ∧
        final.storeList.map Prod.fst = [2] := by
  refine Reachable.exists_imp_of_replay mergedSets
    (fun predictor => predictor.tables.storeList = [(3, 0), (2, 2)]) (by decide) ?_
  intro predictor reachable list
  obtain ⟨final, returns, left, -⟩ := squash_returns reachable 2
  rw [list] at left
  refine ⟨?_, final, returns, ?_⟩
  · rw [list]
    rfl
  · rw [left]
    rfl

end MemDep
end Dolma

import Dolma.Lsq.Overlap
import Dolma.LsqUnit.Sized

/-!
# The oldest violator

A store that executes is checked against the loads that were inserted after it, from the
index it has noted at its insertion on. The check ends at the first load that it takes to
overlap. As loads are in program order, this is the oldest one; and if an older violator is
recorded already, no load further on could replace it. The check misses the loads that overlap
the store if they, or the store, run past the top of the address space. So the oldest load may
be missed.
-/

namespace Dolma
namespace LsqUnit

open Library Lsq LSQUnit

/-- The core reports the committed stores before the committed loads. -/
def storesFirst (params : Params) (lsq : LSQUnit) : Event → Bool
  | .commitLoads youngestInst =>
      (List.range lsq.stores.toNat).all fun offset =>
        (lsq.storeAt params offset).canWB ||
          decide (youngestInst < (lsq.storeAt params offset).seqNum)
  | _ => true

/-- The store with its address. -/
def StoreAccess.inst (request : StoreAccess) : DynInst :=
  { effAddr := request.effAddr, effSize := request.effSize }

/-- The load is younger than the store that executes, has a valid address, and is neither
strictly ordered nor stalled. -/
structure Eligible (params : Params) (lsq : LSQUnit) (seq load : Nat) : Prop where
  present : lsq.hasLoad params load = true
  younger : seq < load
  checked : isChecked (lsq.insts load) = true

section

variable (params : Params) (lsq : LSQUnit) (seq : Nat) (request : StoreAccess)

/-- The load has bytes in a common block with the store. -/
def Offends (load : Nat) : Prop :=
  Eligible params lsq seq load ∧ Overlaps params.config request.inst (lsq.insts load)

/-- The check takes the load to overlap the store. -/
def Found (load : Nat) : Prop :=
  Eligible params lsq seq load ∧ sameBlock params.config request.inst (lsq.insts load) = true

/-- The violator that was recorded before, and the loads that offend. -/
def candidates : Set Nat :=
  { load | lsq.memDepViolator = some load ∨ Offends params lsq seq request load }

/-- Every load that offends is recorded, or offends below the top of the address space, or is
younger than such a load. -/
def BelowTop : Prop :=
  ∀ load, Offends params lsq seq request load → ∃ first ≤ load,
    lsq.memDepViolator = some first ∨
      Offends params lsq seq request first ∧ ¬RunsPastTop request.inst ∧
        ¬RunsPastTop (lsq.insts first)

end

/-- A default mode without the taint tracking of STT. -/
def Params.isDefault (params : Params) : Bool :=
  params.config.isDolma && !params.config.isDolmaConservative && !params.config.isSTT

/-- The store takes note of the violator. -/
structure NotesViolator
    (params : Params) (lsq : LSQUnit) (seq : Nat) (request : StoreAccess)
    (next : LSQUnit) : Prop where
  kept : params.isDefault = true → ∀ load, next.memDepViolator = some load →
    Found params lsq seq request load → (next.insts seq).violatorSeqNum = load
  unchanged : (params.isDefault = true → ∀ load, next.memDepViolator = some load →
      ¬Found params lsq seq request load) →
    (next.insts seq).violatorSeqNum = (lsq.insts seq).violatorSeqNum

/-- What the check for violations of a store has to do. -/
structure FindsOldest
    (params : Params) (lsq : LSQUnit) (seq : Nat) (request : StoreAccess)
    (next : LSQUnit) : Prop where
  oldest : ∀ load, next.memDepViolator = some load ↔
    IsLeast (candidates params lsq seq request) load
  notes : NotesViolator params lsq seq request next

/-- A store knows the loads after it, none of which has left the queue. -/
structure Ahead (params : Params) (lsq : LSQUnit) (queue : Queue) (seq : Nat) : Prop where
  place : ∃ place, queue.loadHead ≤ place ∧ place ≤ queue.loads.length ∧
    lsq.lqIdx seq = place % params.lqEntries ∧
    ∀ i (inside : i < queue.loads.length), i < place ↔ queue.loads[i] < seq
  store : (lsq.insts seq).staticInst.isLoad = false

/-- Every store that is not committed knows the loads after it. -/
def AllAhead (params : Params) (lsq : LSQUnit) (queue : Queue) : Prop :=
  ∀ k (inside : k < queue.stores.length), queue.stores[k].canWB = false →
    Ahead params lsq queue queue.stores[k].seqNum

variable {params : Params} {lsq next : LSQUnit} {queue queue' : Queue} {written seq : Nat}

/-! ### The check -/

/-- The violator that a check finds is recorded unless an older one is. -/
def recordViolator (params : Params) (lsq : LSQUnit) (seq : Nat) : Option Nat → LSQUnit
  | none => lsq
  | some other =>
      if lsq.memDepViolator.any fun violator => decide (violator < other) then lsq
      else
        { lsq with
          memDepViolator := some other
          insts :=
            if params.isDefault then
              lsq.insts.modify seq fun store => { store with violatorSeqNum := other }
            else lsq.insts }

/-- The load overlaps an instruction and takes part in checks. -/
def collides (params : Params) (lsq : LSQUnit) (seq other : Nat) : Bool :=
  isChecked (lsq.insts other) && sameBlock params.config (lsq.insts seq) (lsq.insts other)

variable {request : StoreAccess} {mid : LSQUnit}
  {load i squashedNum kept place k youngestInst head : Nat}

/-- The check finds the first load that collides. -/
theorem checkViolations_eq
    (ring : Ring.Holds params.lqEntries lsq.loadQueue lsq.loadHead lsq.loadTail lsq.loads
      queue.loadHead (queue.loads.map some))
    (store : (lsq.insts seq).staticInst.isLoad = false) (bound : Nat)
    (fromHead : queue.loadHead ≤ place) (upTo : place ≤ queue.loads.length)
    (enough : queue.loads.length < place + bound) :
    checkViolations params seq bound (place % params.lqEntries) lsq =
      some (recordViolator params lsq seq
        ((queue.loads.drop place).find? (collides params lsq seq))) := by
  have room := ring.room
  have tail := ring.tail_eq
  rw [List.length_map] at room tail
  induction bound generalizing place with
  | zero => omega
  | succ bound ih =>
      rw [checkViolations]
      by_cases last : place = queue.loads.length
      · rw [if_pos (by rw [tail, last]), last, List.drop_length]
        rfl
      · have inside : place < queue.loads.length := by omega
        have apart : place % params.lqEntries ≠ lsq.loadTail := by
          rw [tail]
          exact Ring.mod_ne inside (by omega)
        have slot : lsq.loadQueue (place % params.lqEntries) = some queue.loads[place] :=
          (ring.slot place (by rwa [List.length_map]) fromHead).trans (List.getElem_map some)
        rw [if_neg apart, slot, List.drop_eq_getElem_cons inside]
        dsimp only
        by_cases hit : collides params lsq seq queue.loads[place] = true
        · rw [List.find?_cons_of_pos hit]
          unfold collides at hit
          rw [if_pos hit, if_neg (by rw [store]; exact Bool.false_ne_true), recordViolator]
          split
          · rfl
          · rfl
        · rw [List.find?_cons_of_neg hit]
          unfold collides at hit
          rw [if_neg hit, Ring.next_mod ring.positive]
          exact ih (Nat.le_succ_of_le fromHead) inside (by omega)

/-- The older violator is recorded. -/
theorem memDepViolator_recordViolator (found : Option Nat) (load : Nat) :
    (recordViolator params lsq seq found).memDepViolator = some load ↔
      IsLeast { other | lsq.memDepViolator = some other ∨ found = some other } load := by
  cases found with
  | none =>
      rw [recordViolator]
      refine ⟨fun recorded => ⟨.inl recorded, ?_⟩, fun least => least.1.resolve_right (by simp)⟩
      rintro other (same | absent)
      · exact Nat.le_of_eq (Option.some.inj (recorded.symm.trans same))
      · cases absent
  | some first =>
      unfold recordViolator
      cases before : lsq.memDepViolator with
      | none =>
          simp only [Option.any_none, Bool.false_eq_true, if_false, Option.some.injEq]
          refine ⟨fun same => ⟨.inr same, ?_⟩, fun least => least.1.resolve_left (by simp)⟩
          rintro other (absent | found)
          · cases absent
          · exact Nat.le_of_eq (same.symm.trans found)
      | some violator =>
          simp only [Option.any_some, decide_eq_true_eq, Option.some.injEq]
          split
          case isTrue older =>
            rw [before, Option.some.injEq]
            constructor
            · rintro rfl
              refine ⟨.inl rfl, ?_⟩
              rintro other (rfl | rfl)
              · exact Nat.le_refl _
              · exact Nat.le_of_lt older
            · rintro ⟨rfl | rfl, least⟩
              · rfl
              · exact absurd (least (.inl rfl)) (Nat.not_le.mpr older)
          case isFalse notOlder =>
            dsimp only
            rw [Option.some.injEq]
            constructor
            · rintro rfl
              refine ⟨.inr rfl, ?_⟩
              rintro other (rfl | rfl)
              · exact Nat.le_of_not_lt notOlder
              · exact Nat.le_refl _
            · rintro ⟨rfl | rfl, least⟩
              · exact Nat.le_antisymm (Nat.le_of_not_lt notOlder) (least (.inr rfl))
              · rfl

/-- The store keeps the violator that is found. -/
theorem violatorSeqNum_of_recorded
    (default : params.isDefault = true)
    (recorded : (recordViolator params lsq seq (some load)).memDepViolator = some load) :
    ((recordViolator params lsq seq (some load)).insts seq).violatorSeqNum = load := by
  unfold recordViolator at recorded ⊢
  dsimp only at recorded ⊢
  split
  case isTrue older =>
    rw [if_pos older] at recorded
    rw [recorded, Option.any_some, decide_eq_true_eq] at older
    exact absurd older (Nat.lt_irrefl _)
  case isFalse =>
    dsimp only
    rw [Heap.modify_self]

theorem violatorSeqNum_of_not_recorded
    (other : params.isDefault = true → ∀ load, found = some load →
      (recordViolator params lsq seq found).memDepViolator ≠ some load) :
    ((recordViolator params lsq seq found).insts seq).violatorSeqNum =
      (lsq.insts seq).violatorSeqNum := by
  unfold recordViolator at other ⊢
  split
  case h_1 => rfl
  case h_2 load =>
    dsimp only at other ⊢
    split
    case isTrue => rfl
    case isFalse younger =>
      dsimp only
      by_cases keeps : params.isDefault = true
      · rw [if_neg younger] at other
        exact absurd rfl (other keeps load rfl)
      · rw [if_neg keeps]

/-- A load that has not left is in the queue. -/
theorem Whole.hasLoad_of_getElem
    (whole : Whole params lsq queue written) (inside : i < queue.loads.length)
    (fromHead : queue.loadHead ≤ i) :
    lsq.hasLoad params queue.loads[i] = true := by
  have count := whole.rings.loads_eq
  rw [LSQUnit.hasLoad, List.any_eq_true]
  refine ⟨i - queue.loadHead, List.mem_range.mpr (by omega), decide_eq_true ?_⟩
  rw [whole.loadAt_eq (by omega)]
  congr 2
  omega

theorem Whole.find_first
    (whole : Whole params lsq queue written) (fromHead : queue.loadHead ≤ place)
    (younger : ∀ i (inside : i < queue.loads.length), i < place ↔ queue.loads[i] < seq)
    (insts : ∀ load ∈ queue.loads, mid.insts load = lsq.insts load)
    (address : (mid.insts seq).effAddr = request.effAddr)
    (size : (mid.insts seq).effSize = request.effSize) (notLoad : seq ∉ queue.loads) :
    (∀ load, (queue.loads.drop place).find? (collides params mid seq) = some load →
      IsLeast { load | Found params lsq seq request load } load) ∧
    ((queue.loads.drop place).find? (collides params mid seq) = none →
      ∀ load, ¬Found params lsq seq request load) := by
  have collides_iff : ∀ load ∈ queue.loads, collides params mid seq load = true ↔
      isChecked (lsq.insts load) = true ∧
        sameBlock params.config request.inst (lsq.insts load) = true := by
    intro load member
    unfold collides sameBlock StoreAccess.inst
    rw [insts load member, address, size, Bool.and_eq_true]
  have found_mem : ∀ load, Found params lsq seq request load →
      load ∈ queue.loads.drop place ∧ collides params mid seq load = true := by
    rintro load ⟨eligible, overlaps⟩
    obtain ⟨i, inside, fromHead, rfl⟩ := whole.exists_load eligible.present
    have after : place ≤ i := by
      by_contra before
      have older := (younger i inside).mp (Nat.lt_of_not_le before)
      exact Nat.lt_asymm older eligible.younger
    refine ⟨List.mem_drop_iff_getElem.mpr ⟨i - place, by omega, ?_⟩,
      (collides_iff _ (List.getElem_mem inside)).mpr ⟨eligible.checked, overlaps⟩⟩
    congr 1
    omega
  refine ⟨fun load found => ⟨?_, fun other hits => ?_⟩, fun none load hits => ?_⟩
  · have member := List.mem_of_find?_eq_some found
    have hit := List.find?_some found
    obtain ⟨i, inside, same⟩ := List.mem_drop_iff_getElem.mp member
    have listed : load ∈ queue.loads := List.mem_of_mem_drop member
    have distinct : load ≠ seq := fun equal => notLoad (equal ▸ listed)
    have notOlder : ¬load < seq := by
      rw [← same, ← younger (place + i) (by omega)]
      omega
    obtain ⟨checked, overlaps⟩ := (collides_iff load listed).mp hit
    refine ⟨⟨?_, by omega, checked⟩, overlaps⟩
    rw [← same]
    exact whole.hasLoad_of_getElem (by omega) (by omega)
  · obtain ⟨member, hit⟩ := found_mem other hits
    have sorted : (queue.loads.drop place).Pairwise (· < ·) :=
      whole.rings.loadOrder.sublist (List.drop_sublist _ _)
    obtain ⟨hit', before, after, split, misses⟩ := List.find?_eq_some_iff_append.mp found
    rw [split] at member sorted
    rcases List.mem_append.mp member with early | late
    · have missed := misses other early
      rw [hit] at missed
      cases missed
    · rcases List.mem_cons.mp late with rfl | later
      · exact Nat.le_refl _
      · have ordered := (List.pairwise_append.mp sorted).2.1
        exact Nat.le_of_lt ((List.pairwise_cons.mp ordered).1 other later)
  · obtain ⟨member, hit⟩ := found_mem load hits
    exact List.find?_eq_none.mp none load member hit

theorem size_write (storeIdx : Nat) (request : StoreAccess) :
    ((write lsq storeIdx request).storeQueue storeIdx).size = request.effSize := by
  unfold write LSQUnit.setEntry
  dsimp only
  rw [Function.update_self]

section

variable (whole : Whole params lsq queue written)
include whole

/-- The check records the oldest of the loads that it finds, unless an older violator is
recorded. -/
theorem Whole.accessStore_checks
    (inside : i < queue.stores.length) (fromHead : queue.storeHead ≤ i)
    (ahead : Ahead params lsq queue queue.stores[i].seqNum) (writes : request.effSize ≠ 0) :
    ∃ next, LsqUnit.accessStore params lsq queue.stores[i].seqNum request = some next ∧
      (∀ load, next.memDepViolator = some load ↔
        IsLeast { other | lsq.memDepViolator = some other ∨
          Found params lsq queue.stores[i].seqNum request other } load) ∧
      NotesViolator params lsq queue.stores[i].seqNum request next := by
  have notLoad : queue.stores[i].seqNum ∉ queue.loads := fun member =>
    whole.disjoint _ member _ (List.getElem_mem inside) rfl
  have sqIdx := whole.rings.sqIdx i inside fromHead
  generalize queue.stores[i].seqNum = seq at *
  unfold LsqUnit.accessStore
  rw [sqIdx]
  simp only [Option.bind_eq_bind, Option.bind_some]
  rw [if_neg (by rw [size_write]; exact writes)]
  obtain ⟨⟨place, fromHead, upTo, idx, younger⟩, store⟩ := ahead
  have room := whole.rings.loadRing.room
  rw [List.length_map] at room
  -- The unit once the store has its address and its data.
  generalize known : write (lsq.modify seq fun store =>
    { store with
      effAddr := request.effAddr
      effSize := request.effSize
      effAddrValid := true
      strictlyOrdered := request.strictlyOrdered }) (i % params.sqEntries) request = mid
  have self : mid.insts seq =
      { lsq.insts seq with
        effAddr := request.effAddr
        effSize := request.effSize
        effAddrValid := true
        strictlyOrdered := request.strictlyOrdered } := by
    rw [← known, write, LSQUnit.setEntry]
    dsimp only
    rw [modify_insts_self]
  have others : ∀ load ∈ queue.loads, mid.insts load = lsq.insts load := by
    intro load member
    have apart : load ≠ seq := fun same => notLoad (same ▸ member)
    rw [← known]
    exact if_neg apart
  have violator : mid.memDepViolator = lsq.memDepViolator := by
    rw [← known]
    rfl
  have ring : Ring.Holds params.lqEntries mid.loadQueue mid.loadHead mid.loadTail mid.loads
      queue.loadHead (queue.loads.map some) := by
    rw [← known]
    exact whole.rings.loadRing
  have start : mid.lqIdx seq = place % params.lqEntries := by
    rw [← known]
    exact idx
  rw [start, checkViolations_eq ring (by rw [self]; exact store) params.lqEntries fromHead upTo
    (by omega)]
  obtain ⟨first, none⟩ := whole.find_first fromHead younger others
    (by rw [self]) (by rw [self]) notLoad
  generalize (queue.loads.drop place).find? (collides params mid seq) = found at first none
  have recorded : ∀ load, (recordViolator params mid seq found).memDepViolator = some load ↔
      IsLeast { other | lsq.memDepViolator = some other ∨ found = some other } load := by
    rw [← violator]
    exact memDepViolator_recordViolator found
  have kept : (mid.insts seq).violatorSeqNum = (lsq.insts seq).violatorSeqNum := by
    rw [self]
  refine ⟨_, rfl, fun load => (recorded load).trans ?_, ?_, ?_⟩
  · refine (isLeast_iff_of_subset ?_).mpr ?_ load
    · exact fun other isIn => isIn.imp_right fun same => (first other same).1
    · rintro other (before | hits)
      · exact ⟨other, .inl before, Nat.le_refl _⟩
      · cases found with
        | none => exact absurd hits (none rfl other)
        | some oldest => exact ⟨oldest, .inr rfl, (first oldest rfl).2 hits⟩
  · intro keeps load chosen hits
    cases found with
    | none => exact absurd hits (none rfl load)
    | some oldest =>
        have least := (recorded load).mp chosen
        obtain rfl : load = oldest :=
          Nat.le_antisymm (least.2 (.inr rfl)) ((first oldest rfl).2 hits)
        exact violatorSeqNum_of_recorded keeps chosen
  · intro other
    rw [← kept]
    exact violatorSeqNum_of_not_recorded fun keeps load found chosen =>
      other keeps load chosen (first load found).1

/-- The check finds the loads that offend below the top. -/
theorem found_iff
    (sized : Sized lsq queue) (shift : params.config.depCheckShift < 63)
    (writes : request.effSize ≠ 0) :
    Found params lsq seq request load ↔
      Offends params lsq seq request load ∧ ¬RunsPastTop request.inst ∧
        ¬RunsPastTop (lsq.insts load) := by
  unfold Found Offends
  rw [and_assoc]
  refine and_congr_right fun eligible => ?_
  obtain ⟨i, inside, -, rfl⟩ := whole.exists_load eligible.present
  have known : (lsq.insts queue.loads[i]).effAddrValid = true := by
    have checked := eligible.checked
    rw [isChecked, Bool.and_eq_true, Bool.and_eq_true] at checked
    exact checked.1.1
  exact sameBlock_iff shift writes (sized _ (List.getElem_mem inside) known)

/-- A violator that is the oldest load found is the oldest load that offends if and only if no
load before it runs past the top. -/
theorem findsOldest_iff
    (sized : Sized lsq queue) (shift : params.config.depCheckShift < 63)
    (writes : request.effSize ≠ 0)
    (first : ∀ load, next.memDepViolator = some load ↔
      IsLeast { other | lsq.memDepViolator = some other ∨ Found params lsq seq request other } load)
    (notes : NotesViolator params lsq seq request next) :
    FindsOldest params lsq seq request next ↔ BelowTop params lsq seq request := by
  have found {load : Nat} : Found params lsq seq request load ↔ _ :=
    found_iff whole sized shift writes
  have subset : { other | lsq.memDepViolator = some other ∨ Found params lsq seq request other } ⊆
      candidates params lsq seq request :=
    fun load isIn => isIn.imp_right fun hits => (found.mp hits).1
  have same := isLeast_iff_of_subset subset
  constructor
  · intro finds load offends
    have least := same.mp (fun load => (first load).symm.trans (finds.oldest load))
    obtain ⟨oldest, isIn, le⟩ := least load (.inr offends)
    exact ⟨oldest, le, isIn.imp_right found.mp⟩
  · intro below
    refine ⟨fun load => (first load).trans (same.mpr ?_ load), notes⟩
    rintro other (before | offends)
    · exact ⟨other, .inl before, Nat.le_refl _⟩
    · obtain ⟨oldest, le, isIn⟩ := below other offends
      exact ⟨oldest, isIn.imp_right found.mpr, le⟩

/-! ### Stores know the loads after them -/

/-- A store that is not committed is in the queue. -/
theorem Whole.storeHead_le_of_forbidden
    (inside : k < queue.stores.length) (forbidden : queue.stores[k].canWB = false) :
    queue.storeHead ≤ k := by
  have sent := whole.writeback.head_le
  by_contra before
  have allowed := (whole.writeback.marks k inside).sent (by omega)
  exact Bool.false_ne_true (forbidden.symm.trans allowed)

theorem Whole.seqNum_le_of_kept
    {loads : List Nat}
    (taken : StoresTaken params squashedNum mid { queue with loads := loads } next kept)
    (before : k < kept) (inside : k < queue.stores.length)
    (forbidden : queue.stores[k].canWB = false) :
    queue.stores[k].seqNum ≤ squashedNum := by
  have upTo : kept ≤ queue.stores.length := taken.upTo
  have reached := whole.storeHead_le_of_forbidden inside forbidden
  have last := taken.older (kept - 1) (by dsimp only; omega) (by dsimp only; omega) (by omega)
  dsimp only at last
  rcases Nat.eq_or_lt_of_le (Nat.le_sub_one_of_lt before) with same | earlier
  · subst same
    exact last.resolve_right (by rw [forbidden]; exact Bool.false_ne_true)
  · have allowed := List.pairwise_iff_getElem.mp whole.writeback.allowed k (kept - 1)
      (by rw [List.length_map]; exact inside) (by rw [List.length_map]; omega) earlier
    have order := List.pairwise_iff_getElem.mp whole.rings.storeOrder k (kept - 1)
      (by rw [List.length_map]; exact inside) (by rw [List.length_map]; omega) earlier
    rw [List.getElem_map, List.getElem_map] at allowed order
    rcases last with older | committed
    · omega
    · exact absurd (allowed committed) (by rw [forbidden]; exact Bool.false_ne_true)

end

namespace Ahead

theorem congr
    (ahead : Ahead params lsq queue seq) (loads : queue'.loads = queue.loads)
    (loadHead : queue'.loadHead = queue.loadHead) (lqIdx : next.lqIdx seq = lsq.lqIdx seq)
    (kind : (next.insts seq).staticInst = (lsq.insts seq).staticInst) :
    Ahead params next queue' seq := by
  obtain ⟨⟨place, bounds⟩, store⟩ := ahead
  refine ⟨⟨place, ?_⟩, kind ▸ store⟩
  rw [loadHead, lqIdx]
  simpa only [loads] using bounds

theorem insertLoad
    (ahead : Ahead params lsq queue seq) (younger : seq < load)
    (lqIdx : next.lqIdx seq = lsq.lqIdx seq) (insts : next.insts seq = lsq.insts seq) :
    Ahead params next { queue with loads := queue.loads ++ [load] } seq := by
  obtain ⟨⟨place, fromHead, upTo, idx, older⟩, store⟩ := ahead
  refine ⟨⟨place, fromHead, ?_, lqIdx.trans idx, ?_⟩, insts ▸ store⟩
  · rw [List.length_append]
    omega
  · refine forall_append (fun i other => i < place ↔ other < seq) older ?_
    exact iff_of_false (by omega) (by omega)

theorem commitLoads
    (ahead : Ahead params lsq queue seq) (left : LoadsLeft params youngestInst lsq queue next head)
    (uncommitted : youngestInst < seq) :
    Ahead params next { queue with loadHead := head } seq := by
  obtain ⟨⟨place, fromHead, upTo, idx, older⟩, store⟩ := ahead
  have inside := left.rings.loadRing.first_le
  rw [List.length_map] at inside
  dsimp only at inside
  refine ⟨⟨place, ?_, upTo, ?_, older⟩, ?_⟩
  · by_contra beyond
    dsimp only at beyond
    have committed := left.upTo place (by omega) fromHead (by omega)
    have before := (older place (by omega)).mpr (by omega)
    exact Nat.lt_irrefl _ before
  · rw [left.frame]
    exact idx
  · rw [left.frame]
    exact store

theorem squash
    (ahead : Ahead params lsq queue seq)
    (younger : ∀ i (inside : i < queue.loads.length), kept ≤ i → squashedNum < queue.loads[i])
    (stays : seq ≤ squashedNum) (lqIdx : next.lqIdx seq = lsq.lqIdx seq)
    (insts : next.insts seq = lsq.insts seq) :
    Ahead params next { queue with loads := queue.loads.take kept } seq := by
  obtain ⟨⟨place, ahead, upTo, idx, older⟩, store⟩ := ahead
  have before : place ≤ kept := by
    by_contra beyond
    have taken := younger kept (by omega) (Nat.le_refl _)
    have first := (older kept (by omega)).mp (by omega)
    omega
  refine ⟨⟨place, ahead, ?_, lqIdx.trans idx, fun i inside => ?_⟩, insts ▸ store⟩
  · rw [List.length_take]
    omega
  · rw [List.length_take] at inside
    rw [List.getElem_take]
    exact older i (by omega)

end Ahead

namespace AllAhead

theorem init : AllAhead params {} {} := fun _ inside => absurd inside (Nat.not_lt_zero _)

section

variable (ahead : AllAhead params lsq queue)
include ahead

theorem congr
    (loads : queue'.loads = queue.loads) (loadHead : queue'.loadHead = queue.loadHead)
    (seqNums : queue'.stores.map SQEntry.seqNum = queue.stores.map SQEntry.seqNum)
    (canWBs : ∀ k (inside : k < queue.stores.length) (inside' : k < queue'.stores.length),
      queue'.stores[k].canWB = false → queue.stores[k].canWB = false)
    (lqIdx : next.lqIdx = lsq.lqIdx)
    (kinds : ∀ entry ∈ queue.stores,
      (next.insts entry.seqNum).staticInst = (lsq.insts entry.seqNum).staticInst) :
    AllAhead params next queue' := by
  intro k inside' forbidden
  have lengths := congrArg List.length seqNums
  rw [List.length_map, List.length_map] at lengths
  have inside : k < queue.stores.length := lengths ▸ inside'
  have same : queue'.stores[k].seqNum = queue.stores[k].seqNum := by
    have at' := congrArg (fun list => list[k]?) seqNums
    simpa [inside, inside'] using at'
  rw [same]
  exact (ahead k inside (canWBs k inside inside' forbidden)).congr loads loadHead (by rw [lqIdx])
    (kinds _ (List.getElem_mem inside))

/-- Only instructions change, and none changes its kind. -/
theorem insts
    (lqIdx : next.lqIdx = lsq.lqIdx)
    (kinds : ∀ entry ∈ queue.stores,
      (next.insts entry.seqNum).staticInst = (lsq.insts entry.seqNum).staticInst) :
    AllAhead params next queue :=
  ahead.congr rfl rfl rfl (fun _ _ _ same => same) lqIdx kinds

theorem setStatus (seq : Nat) (flag : Status) (value : Bool) :
    AllAhead params (lsq.modify seq fun inst => inst.setStatus flag value) queue := by
  refine ahead.insts rfl fun entry _ => ?_
  by_cases same : entry.seqNum = seq
  · rw [same, modify_insts_self]
    rfl
  · rw [LSQUnit.modify_insts_of_ne _ same]

theorem insertLoad
    (whole : Whole params lsq queue written) (fresh : lsq.lastSeq < seq)
    (inserted : insertLoad params lsq seq = some next) :
    AllAhead params next { queue with loads := queue.loads ++ [seq] } := by
  intro k inside forbidden
  have bound := whole.rings.storeBound _ (List.getElem_mem inside)
  have older : queue.stores[k].seqNum < seq := Nat.lt_of_le_of_lt bound fresh
  rw [LsqUnit.insertLoad, Option.ite_none_left_eq_some, Option.some.injEq] at inserted
  obtain ⟨-, rfl⟩ := inserted
  exact (ahead k inside forbidden).insertLoad older
    (Function.update_of_ne (Nat.ne_of_lt older) _ _)
    (Function.update_of_ne (Nat.ne_of_lt older) _ _)

theorem insertStore
    (whole : Whole params lsq queue written) (fresh : lsq.lastSeq < seq)
    (inserted : insertStore params lsq seq false = some next) :
    AllAhead params next { queue with stores := queue.stores ++ [{ inst := some seq }] } := by
  have ring := whole.rings.loadRing
  have tail := ring.tail_eq
  have first := ring.first_le
  rw [List.length_map] at tail first
  rw [LsqUnit.insertStore, Option.ite_none_left_eq_some, Option.some.injEq] at inserted
  obtain ⟨-, rfl⟩ := inserted
  refine forall_append (fun _ (entry : LsqUnit.SQEntry) =>
    entry.canWB = false → Ahead _ _ _ entry.seqNum) ?_ ?_
  · intro k inside forbidden
    have bound := whole.rings.storeBound _ (List.getElem_mem inside)
    have distinct : queue.stores[k].seqNum ≠ seq := Nat.ne_of_lt (Nat.lt_of_le_of_lt bound fresh)
    refine (ahead k inside forbidden).congr rfl rfl (Function.update_of_ne distinct _ _) ?_
    exact congrArg _ (Function.update_of_ne distinct _ _)
  · refine fun _ => ⟨⟨queue.loads.length, first, Nat.le_refl _, ?_, fun i inside => ?_⟩, ?_⟩
    · exact (Function.update_self _ _ _).trans tail
    · have bound := whole.rings.loadBound _ (List.getElem_mem inside)
      exact iff_of_true inside (Nat.lt_of_le_of_lt bound fresh)
    · change (Function.update lsq.insts seq _ seq).staticInst.isLoad = false
      rw [Function.update_self]

theorem accessStore
    (inside : i < queue.stores.length)
    (effect : StoreEffect lsq queue.stores[i].seqNum idx request next) :
    AllAhead params next
      { queue with stores := queue.stores.set i (queue.stores[i].setData request) } := by
  refine ahead.congr rfl rfl (map_set_eq _ inside rfl) ?_ (by rw [effect.frame]) ?_
  · intro k inside _ forbidden
    rw [List.getElem_set] at forbidden
    split at forbidden
    case isTrue same =>
      subst same
      exact forbidden
    case isFalse => exact forbidden
  · intro entry _
    by_cases same : entry.seqNum = queue.stores[i].seqNum
    · rw [same, effect.staticInst]
    · rw [effect.others _ same]

/-- Committed loads leave after the committed stores are reported. -/
theorem commitLoads
    (whole : Whole params lsq queue written)
    (first : storesFirst params lsq (.commitLoads youngestInst) = true)
    (left : LoadsLeft params youngestInst
      { lsq with doneSeqNum := max lsq.doneSeqNum youngestInst } queue next head) :
    AllAhead params next { queue with loadHead := head } := by
  intro k inside forbidden
  have reached := whole.storeHead_le_of_forbidden inside forbidden
  have count := whole.rings.storeRing.count_eq
  dsimp only at inside forbidden
  have here : queue.storeHead + (k - queue.storeHead) = k := by omega
  have entry : lsq.storeAt params (k - queue.storeHead) = queue.stores[k] := by
    rw [whole.storeAt_eq (by rw [here]; exact inside)]
    congr 1
  rw [storesFirst, List.all_eq_true] at first
  have uncommitted := first (k - queue.storeHead) (List.mem_range.mpr (by omega))
  rw [entry, forbidden, Bool.false_or, decide_eq_true_eq] at uncommitted
  have before : Ahead params { lsq with doneSeqNum := max lsq.doneSeqNum youngestInst } queue
      queue.stores[k].seqNum := (ahead k inside forbidden).congr rfl rfl rfl rfl
  exact before.commitLoads left uncommitted

theorem squash
    (whole : Whole params lsq queue written)
    (taken : TakenBack params squashedNum lsq queue mid next kept kept') :
    AllAhead params next
      { queue with
        loads := queue.loads.take kept
        stores := queue.stores.take kept' } := by
  intro k inside forbidden
  dsimp only at inside forbidden ⊢
  rw [List.length_take] at inside
  have inside' : k < queue.stores.length := by omega
  rw [List.getElem_take] at forbidden ⊢
  have stays := whole.seqNum_le_of_kept taken.stores (by omega) inside' forbidden
  have insts := whole.insts_of_kept taken inside' (by omega)
  have lqIdx : next.lqIdx = lsq.lqIdx := by
    rw [taken.stores.frame, taken.loads.frame]
  exact ((ahead k inside' forbidden).squash taken.loads.younger stays (by rw [lqIdx])
    insts).congr rfl rfl rfl rfl

theorem passed (passed : Passed lsq queue written next queue' written') :
    AllAhead params next queue' := by
  refine ahead.congr passed.loads passed.loadHead passed.seqNums ?_
    passed.frame.lqIdx fun entry _ => by rw [passed.frame.insts]
  intro k inside inside' forbidden
  have same := congrArg (fun list => list[k]?) passed.canWBs
  have canWB : queue'.stores[k].canWB = queue.stores[k].canWB := by
    simpa [inside, inside'] using same
  rw [← canWB]
  exact forbidden

theorem step
    (whole : Whole params lsq queue written) (first : storesFirst params lsq event = true)
    (moves : Whole.Moves params lsq queue written event next queue' written') :
    AllAhead params next queue' := by
  cases moves with
  | insertLoad fresh inserted => exact ahead.insertLoad whole fresh inserted
  | insertStore fresh inserted => exact ahead.insertStore whole fresh inserted
  | executeLoad inside _ _ _ _ effect _ =>
      refine ahead.insts (by rw [effect.frame]) ?_
      intro entry member
      have distinct := whole.disjoint _ (List.getElem_mem inside) entry member
      rw [effect.others _ distinct.symm]
  | accessStore inside _ effect => exact ahead.accessStore inside effect
  | @storeMoves i _ _ inside moves =>
      refine ahead.insts (by rw [moves.frame]) ?_
      intro entry _
      by_cases same : entry.seqNum = queue.stores[i].seqNum
      · rw [same, moves.staticInst]
      · rw [moves.others _ same]
  | ignore => exact ahead.insts rfl fun _ _ => rfl
  | @writeback seq _ =>
      have kept : AllAhead params { lsq with owed := Function.update lsq.owed seq false } queue :=
        ahead.insts rfl fun _ _ => rfl
      exact kept.setStatus seq .executed true
  | @status seq flag value _ _ => exact ahead.setStatus seq flag value
  | getMemDepViolator => exact ahead.insts rfl fun _ _ => rfl
  | checkSnoop effect =>
      exact ahead.insts (by rw [effect.frame]) fun _ _ => (effect.stand _).staticInst
  | commitLoads left => exact ahead.commitLoads whole first left
  | commitStores marked =>
      refine ahead.congr rfl rfl ?_ ?_ (by rw [marked.frame])
        fun entry _ => by rw [marked.frame]
      · rw [List.map_map]
        exact List.map_congr_left fun entry _ => entry.seqNum_mark _
      · intro k inside _ forbidden
        rw [List.getElem_map] at forbidden
        by_contra committed
        rw [SQEntry.mark_of_canWB (by simpa using committed)] at forbidden
        exact committed forbidden
  | @replayStrictlyOrdered seq _ =>
      have kept : AllAhead params { lsq with instsToReplay := [] } queue :=
        ahead.insts rfl fun _ _ => rfl
      exact kept.setStatus seq .atCommit true
  | squash loadsTaken storesTaken => exact ahead.squash whole ⟨loadsTaken, storesTaken⟩
  | settles passed => exact ahead.passed passed

end

end AllAhead

/-- The core reports committed stores first, and loads ask for bytes. -/
def storesFirstWithBytes (params : Params) (lsq : LSQUnit) (event : Event) : Prop :=
  storesFirst params lsq event = true ∧ hasBytes event = true

instance (params : Params) (lsq : LSQUnit) (event : Event) :
    Decidable (storesFirstWithBytes params lsq event) :=
  inferInstanceAs (Decidable (_ ∧ _))

/-- A store that is not committed knows the loads after it. -/
theorem allAhead_reached
    (reachable : Reachable (step params) (storesFirstWithBytes params) {} lsq) :
    ∃ queue written, Whole params lsq queue written ∧ AllAhead params lsq queue ∧
      Sized lsq queue := by
  induction reachable with
  | init => exact ⟨{}, 0, .init, .init, fun _ member => absurd member List.not_mem_nil⟩
  | step event _ orderly stepped ih =>
      obtain ⟨queue, written, whole, ahead, sized⟩ := ih
      obtain ⟨queue', written', whole', moves⟩ := whole.step_cases stepped
      exact ⟨queue', written', whole', ahead.step whole orderly.1 moves,
        sized.step whole orderly.2 stepped moves⟩

/-- A store that executes records the oldest violator if and only if neither it nor a load before
the one it finds runs past the top of the address space. -/
theorem executeStore_findsOldest_iff
    {request : StoreAccess}
    (reachable : Reachable (step params) (storesFirstWithBytes params) {} lsq)
    (shift : params.config.depCheckShift < 63)
    (may : enabled params lsq (.executeStore seq (.access request)) = true)
    (running : (lsq.insts seq).isDolmaStalled = false) :
    ∃ next, step params lsq (.executeStore seq (.access request)) = some next ∧
      (FindsOldest params lsq seq request next ↔ BelowTop params lsq seq request) := by
  obtain ⟨queue, written, whole, ahead, sized⟩ := allAhead_reached reachable
  obtain ⟨i, inside, fromHead, rfl, forbidden⟩ := whole.exists_uncommitted may
  have writes := size_ne_zero_of_enabled may
  obtain ⟨next, ended, first, notes⟩ := whole.accessStore_checks inside fromHead
    (ahead i inside forbidden) writes
  refine ⟨next, ?_, findsOldest_iff whole sized shift writes first notes⟩
  rw [step, if_pos may, apply, executeStore, if_neg (by rw [running]; exact Bool.false_ne_true)]
  exact ended

/-- Load 1 leaves, so that load 5 is behind load 4 in a ring that has wrapped around. Both
have read the line that store 2 is about to write. -/
def wrappedLoads : List Event :=
  [.insertLoad 1, .insertStore 2, .insertStore 3, .insertLoad 4,
    .executeLoad 1 (.access { effAddr := 128, size := 8 } .accepted), .writeback 1,
    .commitStores 1, .commitLoads 1, .insertLoad 5,
    .executeLoad 5 (.access { effAddr := 64, size := 8 } .accepted),
    .executeLoad 4 (.access { effAddr := 68, size := 4 } .accepted)]

theorem belowTop_of_forall
    (store : ¬RunsPastTop request.inst)
    (loads : ∀ offset < lsq.loads.toNat, ∀ load ∈ lsq.loadAt params offset,
      ¬RunsPastTop (lsq.insts load)) :
    BelowTop params lsq seq request := by
  intro load offends
  have present := offends.1.present
  rw [LSQUnit.hasLoad, List.any_eq_true] at present
  obtain ⟨offset, inside, found⟩ := present
  exact ⟨load, Nat.le_refl _, .inr ⟨offends, store,
    loads offset (List.mem_range.mp inside) load (of_decide_eq_true found)⟩⟩

theorem executeStore_findsOldest_iff_wrappedLoads :
    ∃ lsq, Reachable (step twoEach) (storesFirstWithBytes twoEach) {} lsq ∧
      lsq.loadTail < lsq.loadHead ∧
      ∃ next, step twoEach lsq (.executeStore 2 (.access { effAddr := 64, size := 8 })) = some next ∧
        FindsOldest twoEach lsq 2 { effAddr := 64, size := 8 } next := by
  refine Reachable.exists_imp_of_replay wrappedLoads
    (fun lsq =>
      enabled twoEach lsq (.executeStore 2 (.access { effAddr := 64, size := 8 })) = true ∧
        (lsq.insts 2).isDolmaStalled = false ∧ lsq.loadTail < lsq.loadHead ∧
        ∀ offset < lsq.loads.toNat, ∀ load ∈ lsq.loadAt twoEach offset,
          ¬RunsPastTop (lsq.insts load)) (by decide +kernel) ?_
  rintro lsq reached ⟨may, running, wraps, loads⟩
  obtain ⟨next, stepped, finds⟩ := executeStore_findsOldest_iff reached (by decide) may running
  exact ⟨wraps, next, stepped, finds.mpr (belowTop_of_forall (by decide) loads)⟩

/-- A store of the last four bytes below the top and the first four bytes of memory. -/
def topStore : StoreAccess := { effAddr := 0xFFFFFFFFFFFFFFFC, size := 8, isSplit := true }

/-- Load 2 reads these bytes before store 1 writes them. -/
def topLoad : List Event :=
  [.insertStore 1, .insertLoad 2,
    .executeLoad 2 (.access { effAddr := 0xFFFFFFFFFFFFFFFC, size := 8 } .accepted)]

/-- The load has read the bytes that the store writes, and the check does not find it. -/
theorem not_findsOldest_topLoad :
    ∃ lsq, Reachable (step twoEach) (storesFirstWithBytes twoEach) {} lsq ∧
      Offends twoEach lsq 1 topStore 2 ∧
      ∃ next, step twoEach lsq (.executeStore 1 (.access topStore)) = some next ∧
        next.memDepViolator = none ∧ ¬FindsOldest twoEach lsq 1 topStore next := by
  refine Reachable.exists_imp_of_replay topLoad
    (fun lsq => (lsq.hasLoad twoEach 2 = true ∧ isChecked (lsq.insts 2) = true) ∧
      ((lsq.insts 2).effAddr = topStore.effAddr ∧ (lsq.insts 2).effSize = 8) ∧
      (step twoEach lsq (.executeStore 1 (.access topStore))).any
        (fun next => next.memDepViolator.isNone) = true) (by decide +kernel) ?_
  rintro lsq - ⟨⟨present, checked⟩, ⟨address, size⟩, misses⟩
  obtain ⟨next, stepped, misses⟩ := (Option.any_eq_true _ _).mp misses
  have offends : Offends twoEach lsq 1 topStore 2 := by
    refine ⟨⟨present, by decide, checked⟩, topStore.effAddr, ⟨0, by decide, by decide⟩,
      topStore.effAddr, ⟨0, ?_, ?_⟩, rfl⟩
    · rw [size]
      decide
    · rw [address]
      decide
  refine ⟨offends, next, stepped, Option.isNone_iff_eq_none.mp misses, ?_⟩
  intro finds
  have least : IsLeast (candidates twoEach lsq 1 topStore)
      (sInf (candidates twoEach lsq 1 topStore)) :=
    ⟨Nat.sInf_mem ⟨2, .inr offends⟩, fun _ => Nat.sInf_le⟩
  have recorded := (finds.oldest _).mpr least
  rw [Option.isNone_iff_eq_none.mp misses] at recorded
  cases recorded

end LsqUnit
end Dolma

import Dolma.Library.ListFold
import Dolma.Library.TransitionSystem
import Dolma.Tlb.Restricted

/-!
# The slots of a translation buffer

A slot is on the free list, or its handle names the one thread whose trie leads
to it. The order in which slots were used is kept in sequence numbers, which a
restricted lookup does not move. Beside the buffer the list of the slots that were
used is kept, latest first, and the sequence number of a slot counts the uses up
to its last one. The counter has 64 bits, so the order is right as long as
it has not wrapped.
-/

namespace Dolma
namespace Tlb

open Mem

variable {index tid : Nat} {next : TLB} {vpn : Addr} {entry : TlbEntry}

namespace TLB

/-- Every slot is free or in one trie. -/
structure Partitioned (tlb : TLB) : Prop where
  freeNodup : tlb.freeList.Nodup
  mem_freeList : ∀ index,
    index ∈ tlb.freeList ↔ index < tlb.size ∧ (tlb.tlb index).trieHandle = none
  valuesNodup : ∀ tid, (tlb.tries tid).values.Nodup
  mem_values : ∀ tid index,
    index ∈ (tlb.tries tid).values ↔ index < tlb.size ∧ (tlb.tlb index).trieHandle = some tid

namespace Partitioned

variable {tlb : TLB}

/-- Where a slot is depends on the free list, the tries and the handles only. -/
theorem congr
    (partitioned : tlb.Partitioned) (size : next.size = tlb.size)
    (freeList : next.freeList = tlb.freeList) (tries : next.tries = tlb.tries)
    (handles : ∀ index, (next.tlb index).trieHandle = (tlb.tlb index).trieHandle) :
    next.Partitioned where
  freeNodup := freeList ▸ partitioned.freeNodup
  mem_freeList index := by
    rw [freeList, size, handles]
    exact partitioned.mem_freeList index
  valuesNodup tid := tries ▸ partitioned.valuesNodup tid
  mem_values tid index := by
    rw [tries, size, handles]
    exact partitioned.mem_values tid index

/-- A slot that is taken out of its trie is free. -/
theorem release
    (partitioned : tlb.Partitioned) (inRange : index < tlb.size)
    (handle : (tlb.tlb index).trieHandle = some tid) :
    (tlb.release tid index).Partitioned where
  freeNodup := by
    refine List.nodup_append.mpr ⟨partitioned.freeNodup, List.nodup_singleton index, ?_⟩
    rintro other member _ (_ | ⟨_, ⟨⟩⟩) rfl
    rw [partitioned.mem_freeList, handle] at member
    cases member.2
  mem_freeList other := by
    simp only [TLB.release, modifyEntry, List.mem_append, List.mem_singleton,
      partitioned.mem_freeList]
    split
    · next same => simp [same, inRange]
    · next different => simp [different]
  valuesNodup other := by
    dsimp only [TLB.release]
    split
    · rw [Trie.values_remove _ _ (partitioned.valuesNodup other)]
      exact (partitioned.valuesNodup other).filter _
    · exact partitioned.valuesNodup other
  mem_values other slot := by
    dsimp only [TLB.release, modifyEntry]
    by_cases same : slot = index
    · subst same
      simp only [↓reduceIte, reduceCtorEq, and_false, iff_false]
      split
      · rw [Trie.values_remove _ _ (partitioned.valuesNodup other)]
        simp
      · next different =>
          rw [partitioned.mem_values, handle, Option.some.injEq]
          exact fun member => different member.2.symm
    · rw [if_neg same, ← partitioned.mem_values]
      split
      · rw [Trie.values_remove _ _ (partitioned.valuesNodup other)]
        simp [same]
      · exact Iff.rfl

theorem flush (partitioned : tlb.Partitioned) (selected : TlbEntry → Bool) :
    (tlb.flush selected).Partitioned ∧ (tlb.flush selected).size = tlb.size := by
  refine List.foldlRecOn (motive := fun buffer : TLB =>
    buffer.Partitioned ∧ buffer.size = tlb.size) (List.range tlb.size) _
    ⟨partitioned, rfl⟩ ?_
  intro buffer holds index member
  split
  · exact holds
  · next tid handle =>
      split
      · refine ⟨holds.1.release ?_ handle, holds.2⟩
        rw [holds.2]
        exact List.mem_range.mp member
      · exact holds

end Partitioned

variable {tlb : TLB}

/-- The slot of an evicted entry is released. -/
theorem evictLRU_eq (handle : (tlb.tlb tlb.leastRecent).trieHandle = some tid) :
    tlb.evictLRU = some (tlb.release tid tlb.leastRecent) := by
  simp only [evictLRU, handle]
  rfl

/-- The buffer after an entry was written to the first slot of its free list. -/
def placed
    (tlb : TLB) (vpn : Addr) (entry : TlbEntry) (index : Nat) (rest : List Nat)
    (trie : Trie Nat) : TLB :=
  { tlb with
    freeList := rest
    lruSeq := tlb.nextSeq
    tlb := fun other =>
      if other = index then
        { entry with
          lruSeq := tlb.nextSeq
          vaddr := vpn
          trieHandle := some entry.tid }
      else tlb.tlb other
    tries := fun other => if other = entry.tid then trie else tlb.tries other }

/-- What an insertion can do. -/
inductive Inserts (tlb : TLB) (vpn : Addr) (entry : TlbEntry) : Nat → TLB → Prop where
  | present {index : Nat} :
      (tlb.tries entry.tid).lookup vpn = some index →
      Inserts tlb vpn entry index tlb
  | absent {index : Nat} {room : TLB} {rest : List Nat} {trie : Trie Nat} :
      (tlb.tries entry.tid).lookup vpn = none →
      (if tlb.freeList.isEmpty then tlb.evictLRU else some tlb) = some room →
      room.freeList = index :: rest →
      (room.tries entry.tid).insert
          (vpn &&& ~~~mask entry.logBytes) (~~~mask entry.logBytes) index = some trie →
      Inserts tlb vpn entry index (room.placed vpn entry index rest trie)

theorem exists_of_ite_bind
    [Decidable condition]
    (returned :
      (if condition then first.bind continuation else second.bind continuation) = some result) :
    ∃ value, (if condition then first else second) = some value ∧
      continuation value = some result := by
  split at returned
  · next holds => simpa [holds] using Option.bind_eq_some_iff.mp returned
  · next fails => simpa [fails] using Option.bind_eq_some_iff.mp returned

theorem insert_cases (inserted : tlb.insert vpn entry = some (index, next)) :
    Inserts tlb vpn entry index next := by
  unfold insert at inserted
  split at inserted
  · next found =>
      cases inserted
      exact .present found
  · next missed =>
      obtain ⟨room, isRoom, inserted⟩ := exists_of_ite_bind inserted
      dsimp only at inserted
      split at inserted
      · cases inserted
      · next slot rest isFree =>
          obtain ⟨trie, isTrie, inserted⟩ := Option.bind_eq_some_iff.mp inserted
          cases inserted
          exact .absent missed isRoom isFree isTrie

namespace Partitioned

variable {tlb : TLB}

/-- A slot that is not free is in use. -/
theorem handle_of_not_mem
    (partitioned : tlb.Partitioned) (inRange : index < tlb.size) (notFree : index ∉ tlb.freeList) :
    ∃ tid, (tlb.tlb index).trieHandle = some tid := by
  rw [partitioned.mem_freeList] at notFree
  exact Option.ne_none_iff_exists'.mp fun unused => notFree ⟨inRange, unused⟩

/-- A slot from the free list belongs to the trie it is entered in. -/
theorem placed
    (partitioned : tlb.Partitioned) (isFree : tlb.freeList = index :: rest)
    (entered : trie.values.Perm (index :: (tlb.tries entry.tid).values)) :
    (tlb.placed vpn entry index rest trie).Partitioned := by
  have nodup := partitioned.freeNodup
  rw [isFree, List.nodup_cons] at nodup
  have unused := (partitioned.mem_freeList index).mp (by simp [isFree])
  have absent (tid : Nat) : index ∉ (tlb.tries tid).values := by
    rw [partitioned.mem_values, unused.2]
    simp
  refine ⟨nodup.2, fun other => ?_, fun tid => ?_, fun tid other => ?_⟩
  · dsimp only [TLB.placed]
    split
    · next same => simp [same, nodup.1]
    · next different =>
        rw [← partitioned.mem_freeList, isFree]
        simp [different]
  · dsimp only [TLB.placed]
    split
    · next same =>
        rw [entered.nodup_iff, List.nodup_cons]
        exact ⟨absent _, partitioned.valuesNodup _⟩
    · exact partitioned.valuesNodup tid
  · dsimp only [TLB.placed]
    by_cases same : other = index
    · subst same
      rw [if_pos rfl]
      split
      · next own => simp [entered.mem_iff, own, unused.1]
      · next foreign => simpa [absent tid] using fun _ equal => foreign equal.symm
    · rw [if_neg same, ← partitioned.mem_values]
      split
      · next own => simp [entered.mem_iff, same, own]
      · exact Iff.rfl

end Partitioned

section LeastRecent

variable (tlb : TLB) (nonempty : 0 < tlb.size)
include nonempty

/-- The least recent slot has the lowest sequence number. -/
theorem leastRecent_spec :
    tlb.leastRecent < tlb.size ∧
      ∀ index < tlb.size, (tlb.tlb tlb.leastRecent).lruSeq ≤ (tlb.tlb index).lruSeq := by
  have lowest : tlb.leastRecent < tlb.size ∧
      ∀ index ∈ List.range tlb.size, (tlb.tlb tlb.leastRecent).lruSeq ≤ (tlb.tlb index).lruSeq := by
    unfold leastRecent
    refine Library.foldl_processed
      (motive := fun (processed : List Nat) lru =>
        lru < tlb.size ∧ ∀ index ∈ processed, (tlb.tlb lru).lruSeq ≤ (tlb.tlb index).lruSeq)
      (List.range tlb.size) ⟨nonempty, by simp⟩ ?_
    intro processed index rest lru isRange holds
    have inRange : index < tlb.size := by
      rw [← List.mem_range, isRange]
      simp
    split
    · next lower =>
        refine ⟨inRange, fun other member => ?_⟩
        rcases List.mem_append.mp member with before | now
        · exact Nat.le_trans (Nat.le_of_lt lower) (holds.2 other before)
        · rw [List.mem_singleton.mp now]
          exact Nat.le_refl _
    · next notLower =>
        refine ⟨holds.1, fun other member => ?_⟩
        rcases List.mem_append.mp member with before | now
        · exact holds.2 other before
        · rw [List.mem_singleton.mp now]
          exact Nat.le_of_not_lt notLower
  exact ⟨lowest.1, fun index inRange => lowest.2 index (List.mem_range.mpr inRange)⟩

end LeastRecent

/-- The number of uses up to the last one of a slot. The latest use is the first
of the list. -/
def lastUse (uses : List Nat) (index : Nat) : Nat :=
  uses.length - uses.idxOf index

theorem lastUse_cons_self (uses : List Nat) (index : Nat) :
    lastUse (index :: uses) index = uses.length + 1 := by
  simp [lastUse]

theorem lastUse_cons_of_ne (uses : List Nat) (different : other ≠ index) :
    lastUse (index :: uses) other = lastUse uses other := by
  simp only [lastUse, List.idxOf_cons_ne uses different.symm, List.length_cons]
  omega

theorem lastUse_le (uses : List Nat) (index : Nat) : lastUse uses index ≤ uses.length :=
  Nat.sub_le _ _

/-- The sequence numbers count the uses. -/
structure Stamped (tlb : TLB) (uses : List Nat) : Prop where
  counter : tlb.lruSeq = BitVec.ofNat 64 uses.length
  stamp : ∀ index, (tlb.tlb index).lruSeq = BitVec.ofNat 64 (lastUse uses index)
  mem_uses : ∀ index tid, (tlb.tlb index).trieHandle = some tid → index ∈ uses

namespace Stamped

variable {tlb next : TLB} {uses : List Nat}

/-- A slot that goes out of use keeps its sequence number. -/
theorem release (stamped : tlb.Stamped uses) (tid index : Nat) :
    (tlb.release tid index).Stamped uses where
  counter := stamped.counter
  stamp other := by
    rw [← stamped.stamp other]
    dsimp only [TLB.release, modifyEntry]
    split <;> rfl
  mem_uses other thread handle := by
    dsimp only [TLB.release, modifyEntry] at handle
    split at handle
    · cases handle
    · exact stamped.mem_uses other thread handle

/-- A slot that is used takes the next sequence number. -/
theorem use
    (stamped : tlb.Stamped uses) (counter : next.lruSeq = tlb.nextSeq)
    (stamp : (next.tlb index).lruSeq = tlb.nextSeq)
    (others : ∀ other, other ≠ index → next.tlb other = tlb.tlb other) :
    next.Stamped (index :: uses) := by
  have nextSeq : tlb.nextSeq = BitVec.ofNat 64 (uses.length + 1) := by
    rw [TLB.nextSeq, stamped.counter, BitVec.ofNat_add]
    rfl
  refine ⟨counter.trans nextSeq, fun other => ?_, fun other tid handle => ?_⟩
  · by_cases same : other = index
    · rw [same, stamp, nextSeq, lastUse_cons_self]
    · rw [others other same, lastUse_cons_of_ne uses same]
      exact stamped.stamp other
  · by_cases same : other = index
    · simp [same]
    · rw [others other same] at handle
      exact List.mem_cons_of_mem index (stamped.mem_uses other tid handle)

theorem flush (stamped : tlb.Stamped uses) (selected : TlbEntry → Bool) :
    (tlb.flush selected).Stamped uses := by
  refine List.foldlRecOn (motive := fun buffer : TLB => buffer.Stamped uses)
    (List.range tlb.size) _ stamped ?_
  intro buffer holds index _
  split
  · exact holds
  · split
    · exact holds.release _ index
    · exact holds

end Stamped

/-- The last use of one slot is before that of another. -/
def UsedBefore (uses : List Nat) (older younger : Nat) : Prop :=
  older ∈ uses ∧ younger ∈ uses ∧ uses.idxOf younger < uses.idxOf older

/-- As long as the counter has not wrapped, the slot with the lowest sequence
number was not used for the longest time. -/
theorem Stamped.usedBefore
    (stamped : tlb.Stamped uses) (unwrapped : uses.length < 2 ^ 64) (olderUsed : older ∈ uses)
    (youngerUsed : younger ∈ uses) (different : younger ≠ older)
    (lower : (tlb.tlb older).lruSeq ≤ (tlb.tlb younger).lruSeq) :
    UsedBefore uses older younger := by
  refine ⟨olderUsed, youngerUsed, ?_⟩
  have toNat (index : Nat) :
      (tlb.tlb index).lruSeq.toNat = lastUse uses index := by
    rw [stamped.stamp, BitVec.toNat_ofNat]
    exact Nat.mod_eq_of_lt (Nat.lt_of_le_of_lt (lastUse_le uses index) unwrapped)
  have order : lastUse uses older ≤ lastUse uses younger := by
    rw [← toNat, ← toNat]
    exact lower
  have olderBound := List.idxOf_lt_length_of_mem olderUsed
  have apart : uses.idxOf younger ≠ uses.idxOf older := fun equal =>
    different (List.idxOf_inj youngerUsed |>.mp equal)
  simp only [lastUse] at order
  omega

end TLB

namespace Slots

open TLB

/-- The buffer and the slots that were used, latest first. -/
structure State where
  tlb : TLB
  uses : List Nat

/-- What is done to the buffer. -/
inductive Event where
  | insert (vpn : Addr) (entry : TlbEntry)
  | lookup (tid : Nat) (va : Addr) (isRestricted : Bool)
  /-- The use of a restricted request is recorded later. -/
  | updateLRU (tc : ThreadContext) (mode : Mode) (req : Request)
  | flushAll
  | flushNonGlobal
  | demapPage (va : Addr)

section

variable {σ : Type} (machine : Machine σ)

/-- The operations of the buffer. -/
def perform (tlb : TLB) : Event → Option TLB
  | .insert vpn entry => (tlb.insert vpn entry).map Prod.snd
  | .lookup tid va isRestricted => some (tlb.lookup tid va (!isRestricted)).2
  | .updateLRU tc _ req => some (Tlb.updateLRU machine tc req tlb)
  | .flushAll => some tlb.flushAll
  | .flushNonGlobal => some tlb.flushNonGlobal
  | .demapPage va => tlb.demapPage va

/-- The slot that is used. -/
def used (tlb : TLB) : Event → Option Nat
  | .insert vpn entry =>
      match (tlb.tries entry.tid).lookup vpn with
      | some _ => none
      | none => (tlb.insert vpn entry).map Prod.fst
  | .lookup tid va isRestricted =>
      if isRestricted then none else (tlb.tries tid).lookup va
  | .updateLRU tc mode req =>
      if needsPaging tc mode req && tc.m5Reg.mode == LongMode then
        (tlb.tries (tlbThread machine tc)).lookup (linearAddr tc req)
      else none
  | .flushAll | .flushNonGlobal | .demapPage _ => none

/-- One operation, with the slot it uses. -/
def step (state : State) (event : Event) : Option State :=
  (perform machine state.tlb event).map fun tlb =>
    { tlb := tlb, uses := (used machine state.tlb event).toList ++ state.uses }

/-- The states after any operations on a new buffer. -/
def Reaches (size : Nat) (state : State) : Prop :=
  ∃ tlb, TLB.new size = some tlb ∧
    Library.Reachable (step machine) (fun _ _ => True) { tlb := tlb, uses := [] } state

end

/-- What holds after any operations. -/
structure Invariant (size : Nat) (state : State) : Prop where
  nonempty : 0 < size
  size : state.tlb.size = size
  partitioned : state.tlb.Partitioned
  stamped : state.tlb.Stamped state.uses

namespace Invariant

variable {size : Nat} {tlb : TLB} {uses : List Nat}

theorem initial (isNew : TLB.new size = some tlb) : Invariant size { tlb := tlb, uses := [] } := by
  unfold TLB.new at isNew
  split at isNew
  · cases isNew
  · next nonzero =>
      cases isNew
      refine ⟨Nat.pos_of_ne_zero nonzero, rfl, ?_, ?_⟩
      · refine ⟨List.nodup_range, fun index => ?_, fun tid => ?_, fun tid index => ?_⟩
        · simp
        · simp [Trie.empty]
        · simp [Trie.empty]
      · refine ⟨rfl, fun index => rfl, fun index tid handle => ?_⟩
        cases handle

section

variable (invariant : Invariant size { tlb := tlb, uses := uses })
include invariant

theorem release (inRange : index < size) (handle : (tlb.tlb index).trieHandle = some tid) :
    Invariant size { tlb := tlb.release tid index, uses := uses } where
  nonempty := invariant.nonempty
  size := invariant.size
  partitioned := invariant.partitioned.release (invariant.size.symm ▸ inRange) handle
  stamped := invariant.stamped.release tid index

theorem lookup (tid : Nat) (va : Addr) (updateLru : Bool) :
    Invariant size
      { tlb := (tlb.lookup tid va updateLru).2
        uses := (if updateLru then (tlb.tries tid).lookup va else none).toList ++ uses } := by
  unfold TLB.lookup
  cases updateLru with
  | false => split <;> exact invariant
  | true =>
      split
      · next missed => simpa [missed] using invariant
      · next index found =>
          simp only [↓reduceIte, found, Option.toList, List.singleton_append]
          refine ⟨invariant.nonempty, invariant.size, ?_, ?_⟩
          · refine invariant.partitioned.congr rfl rfl rfl fun other => ?_
            dsimp only [modifyEntry]
            split <;> rfl
          · refine invariant.stamped.use rfl ?_ fun other different => ?_
            · simp [modifyEntry]
            · simp [modifyEntry, different]

theorem insert (inserted : tlb.insert vpn entry = some (index, next)) :
    Invariant size
      { tlb := next
        uses := (match (tlb.tries entry.tid).lookup vpn with
          | some _ => none
          | none => some index).toList ++ uses } := by
  cases insert_cases inserted with
  | present found => simpa [found] using invariant
  | @absent room rest trie missed isRoom isFree isTrie =>
      have withRoom : Invariant size { tlb := room, uses := uses } := by
        split at isRoom
        · unfold evictLRU at isRoom
          dsimp only at isRoom
          split at isRoom
          · cases isRoom
          · next tid handle =>
              cases isRoom
              exact invariant.release
                (invariant.size ▸ (tlb.leastRecent_spec
                  (invariant.size ▸ invariant.nonempty)).1) handle
        · cases isRoom
          exact invariant
      simp only [missed, Option.toList, List.singleton_append]
      refine ⟨invariant.nonempty, withRoom.size, ?_, ?_⟩
      · exact withRoom.partitioned.placed isFree (Trie.values_insert _ isTrie)
      · refine withRoom.stamped.use rfl ?_ fun other different => ?_
        · simp [TLB.placed]
        · simp [TLB.placed, different]

theorem flush (selected : TlbEntry → Bool) :
    Invariant size { tlb := tlb.flush selected, uses := uses } where
  nonempty := invariant.nonempty
  size := (invariant.partitioned.flush selected).2.trans invariant.size
  partitioned := (invariant.partitioned.flush selected).1
  stamped := invariant.stamped.flush selected

theorem demapPage (demapped : tlb.demapPage va = some next) :
    Invariant size { tlb := next, uses := uses } := by
  simp only [TLB.demapPage] at demapped
  split at demapped
  · cases demapped
    exact invariant
  · next index found =>
      split at demapped
      · cases demapped
      · next tid handle =>
          cases demapped
          have member := Trie.mem_values_of_lookup _ found
          have inRange := ((invariant.partitioned.mem_values 0 index).mp member).1
          exact invariant.release (invariant.size ▸ inRange) handle

end

variable {σ : Type} {machine : Machine σ} {state next : State}

theorem step
    (invariant : Invariant size state) (event : Event)
    (stepped : Slots.step machine state event = some next) :
    Invariant size next := by
  obtain ⟨tlb, performed, rfl⟩ := Option.map_eq_some_iff.mp stepped
  cases event with
  | insert vpn entry =>
      obtain ⟨⟨index, _⟩, inserted, rfl⟩ := Option.map_eq_some_iff.mp performed
      simpa [used, inserted] using invariant.insert inserted
  | lookup tid va isRestricted =>
      cases performed
      cases isRestricted with
      | false => exact invariant.lookup tid va true
      | true => exact invariant.lookup tid va false
  | updateLRU tc mode req =>
      cases performed
      dsimp only [used]
      rw [@updateLRU_eq _ machine tc mode req]
      split
      · exact invariant.lookup _ _ true
      · exact invariant
  | flushAll =>
      cases performed
      exact invariant.flush _
  | flushNonGlobal =>
      cases performed
      exact invariant.flush _
  | demapPage va => exact invariant.demapPage performed

theorem of_reaches (reached : Reaches machine size state) : Invariant size state := by
  obtain ⟨tlb, isNew, reachable⟩ := reached
  exact reachable.invariant (.initial isNew)
    fun _ event _ invariant _ stepped => invariant.step event stepped

/-- If the free list is empty, all slots are in use. -/
theorem handle_of_full
    (invariant : Invariant size state) (full : state.tlb.freeList = []) (inRange : index < size) :
    ∃ tid, (state.tlb.tlb index).trieHandle = some tid :=
  invariant.partitioned.handle_of_not_mem (invariant.size.symm ▸ inRange)
    (by simp [full])

end Invariant

/-- A slot is free, once and without a handle, or it is in the trie of one thread
and in no other. -/
def IsPlaced (tlb : TLB) (index : Nat) : Prop :=
  (tlb.freeList.count index = 1 ∧ (tlb.tlb index).trieHandle = none ∧
      ∀ tid, index ∉ (tlb.tries tid).values) ∨
    (index ∉ tlb.freeList ∧ ∃ tid, (tlb.tlb index).trieHandle = some tid ∧
      (tlb.tries tid).values.count index = 1 ∧
      ∀ other, other ≠ tid → index ∉ (tlb.tries other).values)

theorem Invariant.isPlaced
    {size : Nat} {state : State} (invariant : Invariant size state) (inRange : index < size) :
    IsPlaced state.tlb index := by
  have partitioned := invariant.partitioned
  have inBuffer : index < state.tlb.size := invariant.size.symm ▸ inRange
  cases handle : (state.tlb.tlb index).trieHandle with
  | none =>
      have member := (partitioned.mem_freeList index).mpr ⟨inBuffer, handle⟩
      refine .inl ⟨List.count_eq_one_of_mem partitioned.freeNodup member, handle, ?_⟩
      intro tid inTrie
      rw [partitioned.mem_values, handle] at inTrie
      cases inTrie.2
  | some tid =>
      refine .inr ⟨fun isFree => ?_, tid, handle, ?_, fun other different inTrie => ?_⟩
      · rw [partitioned.mem_freeList, handle] at isFree
        cases isFree.2
      · have member := (partitioned.mem_values tid index).mpr ⟨inBuffer, handle⟩
        exact List.count_eq_one_of_mem (partitioned.valuesNodup tid) member
      · rw [partitioned.mem_values, handle, Option.some.injEq] at inTrie
        exact different inTrie.2.symm

/-- An insertion finds neither its page nor a free slot. -/
def HasToEvict (tlb : TLB) (vpn : Addr) (entry : TlbEntry) : Prop :=
  (tlb.tries entry.tid).lookup vpn = none ∧ tlb.freeList = []

/-- An eviction takes a slot out of its trie. -/
def Evicts (tlb : TLB) (index : Nat) : Prop :=
  ∃ tid, (tlb.tlb index).trieHandle = some tid ∧ tlb.evictLRU = some (tlb.release tid index)

/-- After any operations every slot is free or in one trie. An insertion that evicts finds all
slots in use and evicts the one used least recently, as long as the counter of uses has not
wrapped. -/
theorem slots_placed_evicted_leastRecent
    {σ : Type} (machine : Machine σ) (size : Nat) (state : State)
    (reached : Reaches machine size state) :
    (∀ index < size, IsPlaced state.tlb index) ∧
      ∀ vpn entry, HasToEvict state.tlb vpn entry →
        (∀ index < size, (state.tlb.tlb index).trieHandle.isSome = true) ∧
          ∃ evicted < size, Evicts state.tlb evicted ∧
            (state.uses.length < 2 ^ 64 →
              ∀ other < size, other ≠ evicted → UsedBefore state.uses evicted other) := by
  have invariant := Invariant.of_reaches reached
  refine ⟨fun index inRange => invariant.isPlaced inRange, ?_⟩
  rintro vpn entry ⟨-, full⟩
  have inUse (index : Nat) (inRange : index < size) :
      ∃ tid, (state.tlb.tlb index).trieHandle = some tid :=
    invariant.handle_of_full full inRange
  have wasUsed (index : Nat) (inRange : index < size) : index ∈ state.uses := by
    obtain ⟨tid, handle⟩ := inUse index inRange
    exact invariant.stamped.mem_uses index tid handle
  have lowest := state.tlb.leastRecent_spec (invariant.size.symm ▸ invariant.nonempty)
  rw [invariant.size] at lowest
  obtain ⟨tid, handle⟩ := inUse _ lowest.1
  refine ⟨fun index inRange => Option.isSome_iff_exists.mpr (inUse index inRange),
    state.tlb.leastRecent, lowest.1, ⟨tid, handle, evictLRU_eq handle⟩, ?_⟩
  intro unwrapped other inRange different
  exact invariant.stamped.usedBefore unwrapped (wasUsed _ lowest.1)
    (wasUsed other inRange) different (lowest.2 other inRange)

section TwoSlots

/-- A page of the first thread. -/
def smallPage : TlbEntry where
  logBytes := 12

/-- A buffer with two slots. -/
def twoSlots : State where
  tlb :=
    { size := 2
      tlb := fun _ => {}
      freeList := List.range 2
      tries := fun _ => .empty
      lruSeq := 0 }
  uses := []

/-- Both slots of a buffer are in use, the second was used last, and a third page is
missing. -/
def isFull (state : State) : Bool :=
  state.tlb.freeList == [] && state.uses == [1, 0] &&
    (state.tlb.tries 0).lookup 0x2000 == some 1 &&
    (state.tlb.tries 0).lookup 0x3000 == none

theorem exists_full :
    ∃ state, Library.Reachable (step emulation) (fun _ _ => True) twoSlots state ∧
      isFull state = true :=
  Library.Reachable.exists_of_replay
    [.insert 0x1000 smallPage, .insert 0x2000 smallPage] isFull (by decide +kernel)

/-- With two pages in two slots, a third one takes the slot of the first. -/
theorem slots_placed_evicted_leastRecent_twoSlots :
    ∃ state, Reaches emulation 2 state ∧
      HasToEvict state.tlb 0x3000 smallPage ∧
      ∃ evicted < 2, Evicts state.tlb evicted ∧
        ∀ other < 2, other ≠ evicted → UsedBefore state.uses evicted other := by
  obtain ⟨state, reachable, full⟩ := exists_full
  simp only [isFull, Bool.and_eq_true, beq_iff_eq] at full
  obtain ⟨⟨⟨isEmpty, uses⟩, -⟩, missing⟩ := full
  have reached : Reaches emulation 2 state := ⟨_, rfl, reachable⟩
  have hasToEvict : HasToEvict state.tlb 0x3000 smallPage := ⟨missing, isEmpty⟩
  obtain ⟨-, evicted, inRange, evicts, oldest⟩ :=
    (slots_placed_evicted_leastRecent emulation 2 state reached).2
      0x3000 smallPage hasToEvict
  exact ⟨state, reached, hasToEvict, evicted, inRange, evicts, oldest (by rw [uses]; decide)⟩

theorem exists_hits (count : Nat) :
    ∃ state, Library.Reachable (step emulation) (fun _ _ => True) twoSlots state ∧
      state.tlb.freeList = [] ∧
      state.uses = List.replicate count 1 ++ [1, 0] ∧
      (state.tlb.tries 0).lookup 0x2000 = some 1 ∧
      (state.tlb.tries 0).lookup 0x3000 = none := by
  induction count with
  | zero =>
      obtain ⟨state, reachable, full⟩ := exists_full
      simp only [isFull, Bool.and_eq_true, beq_iff_eq] at full
      exact ⟨state, reachable, full.1.1.1, full.1.1.2, full.1.2, full.2⟩
  | succ count ih =>
      obtain ⟨state, reachable, isEmpty, uses, found, missing⟩ := ih
      have hit :
          step emulation state (.lookup 0 0x2000 false) =
            some { tlb := (state.tlb.lookup 0 0x2000 true).2, uses := 1 :: state.uses } := by
        simp only [step, perform, used, Bool.false_eq_true, ↓reduceIte, found]
        rfl
      refine ⟨_, .step _ reachable trivial hit, ?_⟩
      simp only [TLB.lookup, found, ↓reduceIte, modifyEntry]
      exact ⟨isEmpty, by simp [uses, List.replicate_succ], trivial, missing⟩

/-- After `2 ^ 64` uses the counter is back at zero, and the slot that was used last
is evicted. -/
theorem evicts_latest_after_wrap :
    ∃ state, Reaches emulation 2 state ∧
      HasToEvict state.tlb 0x3000 smallPage ∧
      Evicts state.tlb 1 ∧ UsedBefore state.uses 0 1 := by
  obtain ⟨count, isCount⟩ : ∃ count, count + 2 = 2 ^ 64 := ⟨2 ^ 64 - 2, by decide⟩
  obtain ⟨state, reachable, isEmpty, uses, -, missing⟩ := exists_hits count
  have reached : Reaches emulation 2 state := ⟨_, rfl, reachable⟩
  have invariant := Invariant.of_reaches reached
  have length : state.uses.length = count + 2 := by simp [uses]
  have first : state.uses.idxOf 0 = count + 1 := by
    rw [uses, List.idxOf_append_of_notMem (by simp), List.length_replicate]
    rfl
  have second : state.uses.idxOf 1 = 0 := by
    rw [uses]
    cases count <;> rfl
  have firstStamp : (state.tlb.tlb 0).lruSeq = 1 := by
    rw [invariant.stamped.stamp, lastUse, length, first, Nat.add_sub_add_left]
    rfl
  have secondStamp : (state.tlb.tlb 1).lruSeq = 0 := by
    rw [invariant.stamped.stamp, lastUse, length, second, isCount]
    rfl
  have lowest : state.tlb.leastRecent = 1 := by
    rw [leastRecent, invariant.size]
    simp [List.range_succ, firstStamp, secondStamp]
  obtain ⟨tid, handle⟩ := invariant.handle_of_full isEmpty (Nat.lt_add_one 1)
  have isEvicted : Evicts state.tlb 1 := by
    refine ⟨tid, handle, ?_⟩
    rw [evictLRU_eq (lowest.symm ▸ handle), lowest]
  refine ⟨state, reached, ⟨missing, isEmpty⟩, isEvicted, ?_, ?_, ?_⟩
  · simp [uses]
  · simp [uses]
  · rw [first, second]
    exact Nat.succ_pos count

end TwoSlots

end Slots

end Tlb
end Dolma

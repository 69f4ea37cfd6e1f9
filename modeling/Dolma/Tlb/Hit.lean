import Dolma.Tlb.Restricted

/-!
# Hits

A translation that hits changes nothing but when the entry was last used. What is
seen of it does not depend on the uses before, nor on its restriction.
-/

namespace Dolma
namespace Tlb

open Mem

/-- Two buffers with the same entries, apart from their last uses. -/
structure SameEntries (left right : TLB) : Prop where
  tries : left.tries = right.tries
  entries : ∀ index, ∃ lruSeq, left.tlb index = { right.tlb index with lruSeq := lruSeq }

namespace SameEntries

variable {left right : TLB}

theorem refl (tlb : TLB) : SameEntries tlb tlb where
  tries := rfl
  entries index := ⟨(tlb.tlb index).lruSeq, rfl⟩

theorem trans (first : SameEntries left middle) (second : SameEntries middle right) :
    SameEntries left right where
  tries := first.tries.trans second.tries
  entries index := by
    obtain ⟨lruSeq, leftEntry⟩ := first.entries index
    obtain ⟨_, middleEntry⟩ := second.entries index
    refine ⟨lruSeq, ?_⟩
    rw [leftEntry, middleEntry]

theorem lookup (tlb : TLB) (tid : Nat) (va : Addr) (updateLru : Bool) :
    SameEntries (tlb.lookup tid va updateLru).2 tlb := by
  unfold TLB.lookup
  split
  · exact refl tlb
  · split
    · refine ⟨rfl, fun index => ?_⟩
      dsimp only [TLB.modifyEntry]
      split
      · exact ⟨tlb.nextSeq, rfl⟩
      · exact ⟨(tlb.tlb index).lruSeq, rfl⟩
    · exact refl tlb

end SameEntries

section Hit

variable {σ : Type} {machine : Machine σ} {tc : ThreadContext} {mode : Mode}
  {req : Request} {world : World σ}

/-- A lookup finds the entry of the trie, as a use or not. -/
theorem lookup_fst (tlb : TLB) (tid : Nat) (va : Addr) (updateLru : Bool) :
    (tlb.lookup tid va updateLru).1 = (tlb.tries tid).lookup va := by
  unfold TLB.lookup
  split
  case h_1 absent => exact absent.symm
  case h_2 found =>
    rw [found]
    split <;> rfl

variable {outcome : Outcome σ}

/-- A translation that hits keeps the entries. -/
theorem translate_hit_entries
    (hit : misses machine tc mode req world.tlb = false)
    (returned : translate machine tc mode req world = some outcome) :
    SameEntries outcome.world.tlb world.tlb := by
  unfold translate at returned
  dsimp only at returned
  split at returned
  case isTrue =>
    obtain ⟨result, -, rfl⟩ := Option.map_eq_some_iff.mp returned
    exact .refl _
  case isFalse memory =>
    split at returned
    case isFalse =>
      cases returned
      exact .refl _
    case isTrue prot =>
      split at returned
      case isTrue =>
        cases returned
        exact .refl _
      case isFalse passes =>
        split at returned
        case isFalse =>
          cases returned
          exact .refl _
        case isTrue paging =>
          obtain ⟨index, found⟩ := found_of_hit hit memory prot passes paging
          rw [lookup_fst, found] at returned
          cases returned
          exact .lookup _ _ _ _

/-- What is seen of a hit depends on the entries only. -/
theorem translate_hit_seen
    (same : SameEntries other.tlb world.tlb) (hit : misses machine tc mode req world.tlb = false) :
    (translate machine tc mode req other).map Outcome.seen =
      (translate machine tc mode req world).map Outcome.seen := by
  unfold translate
  dsimp only
  split
  · rw [Option.map_map, Option.map_map]
    rfl
  case isFalse memory =>
    split
    case isFalse => rfl
    case isTrue prot =>
      split
      case isTrue => rfl
      case isFalse passes =>
        split
        case isFalse => rfl
        case isTrue paging =>
          obtain ⟨index, found⟩ := found_of_hit hit memory prot passes paging
          have entry : ∀ tlb : TLB, SameEntries tlb world.tlb →
              translateEntry machine tc mode req (linearAddr tc req) (tlb.tlb index) =
                translateEntry machine tc mode req (linearAddr tc req)
                  (world.tlb.tlb index) := by
            intro tlb kept
            obtain ⟨lruSeq, equal⟩ := kept.entries index
            rw [equal, translateEntry_lruSeq]
          have first := entry _ ((SameEntries.lookup other.tlb (tlbThread machine tc)
            (linearAddr tc req) (!req.isRestricted)).trans same)
          have second := entry _ (SameEntries.lookup world.tlb (tlbThread machine tc)
            (linearAddr tc req) (!req.isRestricted))
          simp only [lookup_fst, same.tries, found, first, second, Option.map_some, Outcome.seen]

/-- A hit is seen alike with and without a restriction. -/
theorem translate_hit_setUnsafe (hit : misses machine tc mode req world.tlb = false) :
    (translate machine tc mode req.setUnsafe world).map Outcome.seen =
      (translate machine tc mode req world).map Outcome.seen := by
  have marked :
      (translate machine tc mode req.setUnsafe world).map Outcome.seen =
        (translate machine tc mode req.setUnsafe.clearUnsafe world).map Outcome.seen :=
    translate_restricted_seen req.isRestricted_setUnsafe
      ((misses_setUnsafe world.tlb).trans hit)
  rw [marked, Request.clearUnsafe_setUnsafe]
  cases restricted : req.isRestricted with
  | false => rw [Request.clearUnsafe_of_not_restricted _ restricted]
  | true => exact (translate_restricted_seen restricted hit).symm

theorem setFlags_isRestricted (flags : BitVec 64) (restricted : req.isRestricted = true) :
    (req.setFlags flags).isRestricted = true := by
  have absorbed : (req.flags ||| flags) &&& RESTRICTED =
      (req.flags &&& RESTRICTED) ||| (flags &&& RESTRICTED) := by
    ext bit
    simp only [BitVec.getElem_and, BitVec.getElem_or]
    cases RESTRICTED[bit] <;> simp
  simp only [Request.isRestricted, Request.isSet, Request.setFlags, absorbed, bne_iff_ne,
    ne_eq] at restricted ⊢
  exact fun cleared => restricted (BitVec.or_eq_zero_iff.mp cleared).1

/-- Special physical addresses keep the restriction. -/
theorem finalizePhysical_isRestricted (restricted : req.isRestricted = true) :
    (finalizePhysical machine tc req).isRestricted = true := by
  unfold finalizePhysical
  split
  · exact restricted
  · split
    · exact setFlags_isRestricted _ restricted
    · split
      · dsimp only
        split
        · exact setFlags_isRestricted _ restricted
        · exact restricted
      · exact restricted

theorem translateInt_isRestricted
    (restricted : req.isRestricted = true) (returned : translateInt machine tc req = some result) :
    result.2.isRestricted = true := by
  unfold translateInt at returned
  dsimp only at returned
  split at returned
  · cases returned
  · split at returned
    · split at returned
      all_goals
        cases returned
        exact setFlags_isRestricted _ restricted
    · split at returned
      · split at returned
        · cases returned
        · split at returned
          · cases returned
            exact setFlags_isRestricted _ restricted
          · split at returned
            all_goals
              cases returned
              exact setFlags_isRestricted _ restricted
      · cases returned
        exact restricted

theorem translateEntry_isRestricted
    (vaddr : Addr) (entry : TlbEntry) (restricted : req.isRestricted = true) :
    (translateEntry machine tc mode req vaddr entry).2.isRestricted = true := by
  unfold translateEntry
  dsimp only
  split
  · exact restricted
  · split
    · exact restricted
    · refine finalizePhysical_isRestricted ?_
      split
      · exact setFlags_isRestricted _ restricted
      · exact restricted

/-- A restricted translation is answered at once, and keeps its restriction unless
it misses. -/
theorem translate_restricted_answer
    (restricted : req.isRestricted = true)
    (returned : translate machine tc mode req world = some outcome) :
    outcome.delayedResponse = false ∧
      (misses machine tc mode req world.tlb = false → outcome.req.isRestricted = true) := by
  cases hit : misses machine tc mode req world.tlb with
  | true =>
      rw [translate_restricted_miss restricted hit] at returned
      cases returned
      exact ⟨rfl, fun impossible => nomatch impossible⟩
  | false =>
      unfold translate at returned
      dsimp only at returned
      split at returned
      case isTrue =>
        obtain ⟨result, internal, rfl⟩ := Option.map_eq_some_iff.mp returned
        exact ⟨rfl, fun _ => translateInt_isRestricted restricted internal⟩
      case isFalse memory =>
        split at returned
        case isFalse =>
          cases returned
          exact ⟨rfl, fun _ => finalizePhysical_isRestricted restricted⟩
        case isTrue prot =>
          split at returned
          case isTrue =>
            cases returned
            exact ⟨rfl, fun _ => restricted⟩
          case isFalse passes =>
            split at returned
            case isFalse =>
              cases returned
              exact ⟨rfl, fun _ => finalizePhysical_isRestricted restricted⟩
            case isTrue paging =>
              obtain ⟨index, found⟩ := found_of_hit hit memory prot passes paging
              rw [lookup_fst, found] at returned
              cases returned
              exact ⟨rfl, fun _ => translateEntry_isRestricted _ _ restricted⟩

end Hit

end Tlb
end Dolma

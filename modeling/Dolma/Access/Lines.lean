import Dolma.Access.Defs

/-!
# Splitting at cache lines

An access that crosses a line is cut at the beginning of the line of its last byte. That
address is computed with 64 bits. For an access that runs past the top of the address
space it is zero, which is not above the beginning of the access, so that the access is
not split although it lies in two lines.
-/

namespace Dolma
namespace Access

open Mem

/-- The addresses of the bytes of a request. -/
def bytes (req : Request) : List Addr :=
  (List.range req.size).map fun offset => req.vaddr + BitVec.ofNat 64 offset

/-- All bytes of a request are in the same line. -/
def InOneLine (cacheLineSize : Addr) (req : Request) : Prop :=
  ∀ first ∈ bytes req, ∀ second ∈ bytes req,
    first.toNat / cacheLineSize.toNat = second.toNat / cacheLineSize.toNat

/-- Two requests, one after the other, are another request cut at the border of lines. -/
structure IsCut (cacheLineSize : Addr) (req low high : Request) : Prop where
  lowNonempty : 0 < low.size
  highNonempty : 0 < high.size
  adjacent : high.vaddr = low.vaddr + BitVec.ofNat 64 low.size
  covers : bytes low ++ bytes high = bytes req
  lowInOneLine : InOneLine cacheLineSize low
  highInOneLine : InOneLine cacheLineSize high

/-- A request in one line stays whole, and any other one is cut. -/
def SplitsExactly (cacheLineSize : Addr) (req : Request) : Prop :=
  match (splitRequest cacheLineSize req).split with
  | none => InOneLine cacheLineSize req
  | some (low, high) =>
      ¬InOneLine cacheLineSize req ∧ IsCut cacheLineSize req low high

variable {req : Request} {bits : Nat}

theorem toNat_lineSize (small : bits < 64) : (BitVec.ofNat 64 (2 ^ bits)).toNat = 2 ^ bits := by
  rw [BitVec.toNat_ofNat]
  exact Nat.mod_eq_of_lt (Nat.pow_lt_pow_right (by decide) small)

/-- Clearing the low bits leads to the beginning of the line. -/
theorem toNat_roundDown (small : bits < 64) (address : Addr) :
    (address &&& ~~~(BitVec.ofNat 64 (2 ^ bits) - 1)).toNat =
      address.toNat / 2 ^ bits * 2 ^ bits := by
  generalize isMask : BitVec.ofNat 64 (2 ^ bits) - 1 = lowBits
  have toNat : lowBits.toNat = 2 ^ bits - 1 := by
    rw [← isMask, BitVec.toNat_sub_of_le]
    · rw [toNat_lineSize small]
      rfl
    · rw [BitVec.le_def, toNat_lineSize small]
      exact Nat.two_pow_pos bits
  have disjoint : (address &&& ~~~lowBits) &&& (address &&& lowBits) = 0#64 := by
    ext index inside
    simp only [BitVec.getElem_and, BitVec.getElem_not, BitVec.getElem_zero]
    cases lowBits[index] <;> simp
  have join : (address &&& ~~~lowBits) ||| (address &&& lowBits) = address := by
    ext index inside
    simp only [BitVec.getElem_or, BitVec.getElem_and, BitVec.getElem_not]
    cases lowBits[index] <;> simp
  have sum :
      (address &&& ~~~lowBits).toNat + (address &&& lowBits).toNat = address.toNat := by
    rw [← BitVec.toNat_add_of_and_eq_zero disjoint,
      BitVec.add_eq_or_of_and_eq_zero _ _ disjoint, join]
  have low : (address &&& lowBits).toNat = address.toNat % 2 ^ bits := by
    rw [BitVec.toNat_and, toNat, Nat.and_two_pow_sub_one_eq_mod]
  have parts := Nat.div_add_mod' address.toNat (2 ^ bits)
  omega

theorem mem_bytes {address : Addr} :
    address ∈ bytes req ↔ ∃ offset < req.size, req.vaddr + BitVec.ofNat 64 offset = address := by
  simp [bytes]

/-- A request that does not run past the top has increasing addresses. -/
theorem toNat_byte (fits : req.vaddr.toNat + req.size ≤ 2 ^ 64) (inside : offset < req.size) :
    (req.vaddr + BitVec.ofNat 64 offset).toNat = req.vaddr.toNat + offset := by
  rw [BitVec.toNat_add, BitVec.toNat_ofNat]
  omega

/-- A request between two borders of lines is in one line. -/
theorem inOneLine_of_between
    (fits : req.vaddr.toNat + req.size ≤ 2 ^ 64) (line : Nat)
    (start : line * cacheLineSize.toNat ≤ req.vaddr.toNat)
    (finish : req.vaddr.toNat + req.size ≤ (line + 1) * cacheLineSize.toNat) :
    InOneLine cacheLineSize req := by
  have inLine : ∀ address ∈ bytes req, address.toNat / cacheLineSize.toNat = line := by
    intro address member
    obtain ⟨offset, inside, rfl⟩ := mem_bytes.mp member
    rw [toNat_byte fits inside]
    apply Nat.div_eq_of_lt_le
    · omega
    · omega
  intro first firstMember second secondMember
  rw [inLine first firstMember, inLine second secondMember]

/-- The two parts of a request cover it. -/
theorem bytes_splitOnVaddr
    (after : req.vaddr < address) (before : address.toNat - req.vaddr.toNat ≤ req.size) :
    bytes (splitOnVaddr req address).1 ++ bytes (splitOnVaddr req address).2 = bytes req := by
  have distance : (address - req.vaddr).toNat = address.toNat - req.vaddr.toNat :=
    BitVec.toNat_sub_of_le (BitVec.le_of_lt after)
  have sizes : req.size =
      (address - req.vaddr).toNat + (req.size - (address - req.vaddr).toNat) := by
    omega
  have reached : req.vaddr + BitVec.ofNat 64 (address - req.vaddr).toNat = address := by
    rw [BitVec.ofNat_toNat, BitVec.setWidth_eq, BitVec.add_comm, BitVec.sub_add_cancel]
  simp only [bytes, splitOnVaddr]
  conv_rhs => rw [sizes, List.range_add, List.map_append, List.map_map]
  congr 1
  refine List.map_congr_left fun offset _ => ?_
  rw [Function.comp_apply, BitVec.ofNat_add, ← BitVec.add_assoc, reached]

section Lines

variable {bits : Nat} (small : bits < 64) {req : Request} (sizeLe : req.size ≤ 2 ^ bits)
include small sizeLe

/-- A request that runs past the top is not split. -/
theorem toNat_splitAddr_of_wraps (wraps : 2 ^ 64 < req.vaddr.toNat + req.size) :
    (splitAddr (BitVec.ofNat 64 (2 ^ bits)) req).toNat = 0 := by
  have below : 2 ^ bits < 2 ^ 64 := Nat.pow_lt_pow_right (by decide) small
  have bound := req.vaddr.isLt
  have last : (req.vaddr + BitVec.ofNat 64 req.size - 1).toNat < 2 ^ bits := by
    have one : (1 : Addr).toNat = 1 := rfl
    rw [BitVec.toNat_sub, BitVec.toNat_add, BitVec.toNat_ofNat, one]
    omega
  rw [splitAddr, toNat_roundDown small, Nat.div_eq_of_lt last, Nat.zero_mul]

/-- The parts of a request that crosses a line. -/
theorem cut_of_crosses
    (fits : req.vaddr.toNat + req.size ≤ 2 ^ 64) (after : req.vaddr < border)
    (isBorder : border.toNat = line * 2 ^ bits)
    (lineStart : line * 2 ^ bits ≤ req.vaddr.toNat + req.size - 1)
    (lineEnd : req.vaddr.toNat + req.size - 1 < (line + 1) * 2 ^ bits) :
    IsCut (BitVec.ofNat 64 (2 ^ bits)) req (splitOnVaddr req border).1
      (splitOnVaddr req border).2 := by
  have lineSize := toNat_lineSize small
  have lowSize : (splitOnVaddr req border).1.size = line * 2 ^ bits - req.vaddr.toNat := by
    rw [← isBorder]
    exact BitVec.toNat_sub_of_le (BitVec.le_of_lt after)
  have highSize : (splitOnVaddr req border).2.size =
      req.size - (line * 2 ^ bits - req.vaddr.toNat) := by
    rw [← lowSize]
    rfl
  have lowStart : (splitOnVaddr req border).1.vaddr.toNat = req.vaddr.toNat := rfl
  have highStart : (splitOnVaddr req border).2.vaddr.toNat = line * 2 ^ bits := isBorder
  rw [BitVec.lt_def, isBorder] at after
  obtain ⟨earlier, rfl⟩ : ∃ earlier, line = earlier + 1 := by
    refine ⟨line - 1, (Nat.sub_add_cancel ?_).symm⟩
    exact Nat.pos_of_mul_pos_right (Nat.lt_of_le_of_lt (Nat.zero_le _) after)
  have step : (earlier + 1) * 2 ^ bits = earlier * 2 ^ bits + 2 ^ bits := Nat.succ_mul _ _
  constructor
  case lowNonempty => omega
  case highNonempty => omega
  case adjacent =>
    apply BitVec.eq_of_toNat_eq
    rw [BitVec.toNat_add, BitVec.toNat_ofNat, lowSize, lowStart, highStart]
    omega
  case covers =>
    apply bytes_splitOnVaddr
    · rw [BitVec.lt_def, isBorder]
      exact after
    · omega
  case lowInOneLine =>
    apply inOneLine_of_between (by omega) earlier
    · rw [lineSize]
      omega
    · rw [lineSize]
      omega
  case highInOneLine =>
    apply inOneLine_of_between (by omega) (earlier + 1)
    · rw [lineSize]
      omega
    · rw [lineSize]
      omega

variable (nonempty : 0 < req.size)
include nonempty

theorem toNat_splitAddr (fits : req.vaddr.toNat + req.size ≤ 2 ^ 64) :
    (splitAddr (BitVec.ofNat 64 (2 ^ bits)) req).toNat =
      (req.vaddr.toNat + req.size - 1) / 2 ^ bits * 2 ^ bits := by
  have below : 2 ^ bits < 2 ^ 64 := Nat.pow_lt_pow_right (by decide) small
  have last : (req.vaddr + BitVec.ofNat 64 req.size - 1).toNat =
      req.vaddr.toNat + req.size - 1 := by
    have one : (1 : Addr).toNat = 1 := rfl
    rw [BitVec.toNat_sub, BitVec.toNat_add, BitVec.toNat_ofNat, one]
    omega
  rw [splitAddr, toNat_roundDown small, last]

/-- A request that runs past the top has bytes in the last line and in the first. -/
theorem not_inOneLine_of_wraps (wraps : 2 ^ 64 < req.vaddr.toNat + req.size) :
    ¬InOneLine (BitVec.ofNat 64 (2 ^ bits)) req := by
  have half : 2 ^ bits ≤ 2 ^ 63 := Nat.pow_le_pow_right (by decide) (by omega)
  have positive : 0 < 2 ^ bits := Nat.two_pow_pos bits
  have bound := req.vaddr.isLt
  intro inOneLine
  have bottom : req.vaddr + BitVec.ofNat 64 (2 ^ 64 - req.vaddr.toNat) = 0 := by
    apply BitVec.eq_of_toNat_eq
    rw [BitVec.toNat_add, BitVec.toNat_ofNat]
    simp
    omega
  have same := inOneLine req.vaddr (mem_bytes.mpr ⟨0, nonempty, by simp⟩) 0
    (mem_bytes.mpr ⟨2 ^ 64 - req.vaddr.toNat, by omega, bottom⟩)
  rw [toNat_lineSize small] at same
  have top : 1 ≤ req.vaddr.toNat / 2 ^ bits := by
    rw [Nat.le_div_iff_mul_le positive]
    omega
  have zero : (0 : Addr).toNat / 2 ^ bits = 0 := Nat.zero_div _
  omega

/-- A request that does not run past the top is split exactly. -/
theorem splitsExactly_of_fits (fits : req.vaddr.toNat + req.size ≤ 2 ^ 64) :
    SplitsExactly (BitVec.ofNat 64 (2 ^ bits)) req := by
  have positive : 0 < 2 ^ bits := Nat.two_pow_pos bits
  have lineSize := toNat_lineSize small
  have border := toNat_splitAddr small sizeLe nonempty fits
  -- the line of the last byte
  generalize isLine : (req.vaddr.toNat + req.size - 1) / 2 ^ bits = line at border
  have lineStart : line * 2 ^ bits ≤ req.vaddr.toNat + req.size - 1 :=
    (Nat.le_div_iff_mul_le positive).mp isLine.ge
  have lineEnd : req.vaddr.toNat + req.size - 1 < (line + 1) * 2 ^ bits :=
    (Nat.div_lt_iff_lt_mul positive).mp (by omega)
  unfold SplitsExactly splitRequest
  dsimp only
  split
  · next unsplit =>
      rw [ite_eq_right_iff] at unsplit
      have notAfter : ¬req.vaddr < splitAddr (BitVec.ofNat 64 (2 ^ bits)) req :=
        fun after => by cases unsplit after
      rw [BitVec.lt_def, border] at notAfter
      apply inOneLine_of_between fits line
      · rw [lineSize]
        omega
      · rw [lineSize]
        omega
  · next low high isSplit =>
      obtain ⟨after, isCut⟩ := Option.ite_none_right_eq_some.mp isSplit
      have halves := Option.some.inj isCut
      obtain rfl := congrArg Prod.fst halves
      obtain rfl := congrArg Prod.snd halves
      refine ⟨?_, cut_of_crosses small sizeLe fits after border lineStart lineEnd⟩
      intro inOneLine
      rw [BitVec.lt_def, border] at after
      have same := inOneLine req.vaddr (mem_bytes.mpr ⟨0, nonempty, by simp⟩)
        (req.vaddr + BitVec.ofNat 64 (req.size - 1))
        (mem_bytes.mpr ⟨req.size - 1, by omega, rfl⟩)
      rw [toNat_byte fits (by omega), lineSize, ← Nat.add_sub_assoc nonempty, isLine] at same
      have earlier : req.vaddr.toNat / 2 ^ bits < line :=
        (Nat.div_lt_iff_lt_mul positive).mpr after
      omega

/-- The assertions on the split address hold, also for a request that runs past the
top. -/
theorem splitAddr_asserts :
    (splitAddr (BitVec.ofNat 64 (2 ^ bits)) req ≤ req.vaddr ∨
        splitAddr (BitVec.ofNat 64 (2 ^ bits)) req - req.vaddr < BitVec.ofNat 64 (2 ^ bits)) ∧
      (req.vaddr < splitAddr (BitVec.ofNat 64 (2 ^ bits)) req →
        splitAddr (BitVec.ofNat 64 (2 ^ bits)) req < req.vaddr + BitVec.ofNat 64 req.size) := by
  have positive : 0 < 2 ^ bits := Nat.two_pow_pos bits
  by_cases fits : req.vaddr.toNat + req.size ≤ 2 ^ 64
  · have border := toNat_splitAddr small sizeLe nonempty fits
    have lineStart := Nat.div_mul_le_self (req.vaddr.toNat + req.size - 1) (2 ^ bits)
    constructor
    · rw [or_iff_not_imp_left, BitVec.not_le]
      intro after
      rw [BitVec.lt_def, BitVec.toNat_sub_of_le (BitVec.le_of_lt after), border,
        toNat_lineSize small]
      omega
    · intro after
      rw [BitVec.lt_def, border] at after
      -- a request of at most a line that ends at the top does not cross a line
      have inside : req.vaddr.toNat + req.size ≠ 2 ^ 64 := by
        intro atTop
        have lines : 2 ^ (64 - bits) * 2 ^ bits = 2 ^ 64 := by
          rw [← Nat.pow_add, Nat.sub_add_cancel (by omega)]
        have line : (req.vaddr.toNat + req.size - 1) / 2 ^ bits < 2 ^ (64 - bits) :=
          (Nat.div_lt_iff_lt_mul positive).mpr (by omega)
        have last := Nat.mul_le_mul_right (2 ^ bits) line
        rw [Nat.succ_mul, lines] at last
        omega
      rw [BitVec.lt_def, border, BitVec.toNat_add, BitVec.toNat_ofNat]
      omega
  · have zero := toNat_splitAddr_of_wraps small sizeLe (Nat.lt_of_not_le fits)
    constructor
    · left
      rw [BitVec.le_def, zero]
      exact Nat.zero_le _
    · intro after
      rw [BitVec.lt_def, zero] at after
      exact absurd after (Nat.not_lt_zero _)

end Lines

/-- For every request of at most a line, the split is exact if and only if the request
does not run past the top of the address space. -/
theorem splitsExactly_iff
    {bits : Nat} (small : bits < 64) {req : Request} (nonempty : 0 < req.size)
    (sizeLe : req.size ≤ 2 ^ bits) :
    SplitsExactly (BitVec.ofNat 64 (2 ^ bits)) req ↔ req.vaddr.toNat + req.size ≤ 2 ^ 64 := by
  constructor
  · intro exact
    by_contra wraps
    have wraps : 2 ^ 64 < req.vaddr.toNat + req.size := Nat.lt_of_not_le wraps
    have unsplit : ¬req.vaddr < splitAddr (BitVec.ofNat 64 (2 ^ bits)) req := by
      rw [BitVec.lt_def, toNat_splitAddr_of_wraps small sizeLe wraps]
      exact Nat.not_lt_zero _
    rw [SplitsExactly, splitRequest, if_neg unsplit] at exact
    exact not_inOneLine_of_wraps small sizeLe nonempty wraps exact
  · exact splitsExactly_of_fits small sizeLe nonempty

/-- Two bytes, the last one of the address space and the first one. -/
def pastTop : Request where
  vaddr := 0xffffffffffffffff
  size := 2
  flags := 0

/-- An access that runs past the top lies in two lines and is not split. -/
theorem not_splitsExactly_pastTop :
    (splitRequest 64 pastTop).split = none ∧ ¬SplitsExactly 64 pastTop := by
  have unsplit : (splitRequest 64 pastTop).split = none := by decide
  refine ⟨unsplit, ?_⟩
  rw [SplitsExactly, unsplit]
  intro inOneLine
  have same := inOneLine 0xffffffffffffffff (by decide) 0 (by decide)
  revert same
  decide

/-- An access of eight bytes that crosses a line of 64 bytes. -/
def acrossLine : Request where
  vaddr := 0x103c
  size := 8
  flags := 0

theorem splitsExactly_iff_acrossLine :
    acrossLine.vaddr.toNat + acrossLine.size ≤ 2 ^ 64 ∧
      SplitsExactly (BitVec.ofNat 64 (2 ^ 6)) acrossLine := by
  have fits : acrossLine.vaddr.toNat + acrossLine.size ≤ 2 ^ 64 := by decide
  exact ⟨fits, (splitsExactly_iff (by decide) (by decide) (by decide)).mpr fits⟩

theorem splitAddr_asserts_acrossLine :
    acrossLine.vaddr < splitAddr (BitVec.ofNat 64 (2 ^ 6)) acrossLine ∧
      splitAddr (BitVec.ofNat 64 (2 ^ 6)) acrossLine <
        acrossLine.vaddr + BitVec.ofNat 64 acrossLine.size := by
  have after : acrossLine.vaddr < splitAddr (BitVec.ofNat 64 (2 ^ 6)) acrossLine := by decide
  exact ⟨after, (splitAddr_asserts (by decide) (by decide) (by decide)).2 after⟩

end Access
end Dolma

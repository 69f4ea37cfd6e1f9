import Mathlib.Data.List.Basic

/-!
# Undo logs

A log keeps, latest entry first, how to undo the changes of a state. Each entry belongs
to an owner, and owners are numbered upwards. The entries of young owners are undone
from the front of the log, those of old owners are dropped at its end.
-/

namespace Dolma
namespace Library

section Sorted

variable {α : Type*} (key : α → Nat)
variable {list : List α}

/-- If a test that fails once fails from there on, the items that pass it come first. -/
theorem takeWhile_dropWhile_eq_filter
    (falls : list.Pairwise fun first second => test second = true → test first = true) :
    list.takeWhile test = list.filter test ∧
      list.dropWhile test = list.filter fun item => !test item := by
  induction list with
  | nil => exact ⟨rfl, rfl⟩
  | cons item rest ih =>
      obtain ⟨first, falls⟩ := List.pairwise_cons.mp falls
      obtain ⟨taken, dropped⟩ := ih falls
      cases passes : test item with
      | true => simp [passes, taken, dropped]
      | false =>
          have fails : ∀ other ∈ rest, test other = false := by
            intro other member
            rw [Bool.eq_false_iff]
            intro later
            rw [first other member later] at passes
            cases passes
          have none : rest.filter test = [] := by simpa using fails
          have all : (rest.filter fun item => !test item) = rest := by simpa using fails
          simp [passes, none, all]

section

variable (sorted : list.Pairwise fun first second => key second ≤ key first)
include sorted

/-- Large keys come first. -/
theorem takeWhile_eq_filter_of_sorted (bound : Nat) :
    list.takeWhile (fun item => decide (bound < key item)) =
      list.filter fun item => decide (bound < key item) := by
  refine (takeWhile_dropWhile_eq_filter (sorted.imp ?_)).1
  intro first second below large
  rw [decide_eq_true_eq] at large ⊢
  omega

/-- Small keys come last. -/
theorem dropWhile_eq_filter_of_sorted (bound : Nat) :
    list.dropWhile (fun item => decide (bound < key item)) =
      list.filter fun item => decide (key item ≤ bound) := by
  have falls : list.Pairwise fun first second =>
      decide (bound < key second) = true → decide (bound < key first) = true := by
    refine sorted.imp fun below large => ?_
    rw [decide_eq_true_eq] at large ⊢
    omega
  rw [(takeWhile_dropWhile_eq_filter falls).2]
  simp only [← decide_not, Nat.not_lt]

/-- Dropping small keys at the end of a list with keys that do not increase leaves the
large ones. -/
theorem reverse_dropWhile_eq_filter_of_sorted (bound : Nat) :
    (list.reverse.dropWhile fun item => decide (key item ≤ bound)).reverse =
      list.filter fun item => decide (bound < key item) := by
  have falls : list.reverse.Pairwise fun first second =>
      decide (key second ≤ bound) = true → decide (key first ≤ bound) = true := by
    refine (List.pairwise_reverse.mpr sorted).imp fun above small => ?_
    rw [decide_eq_true_eq] at small ⊢
    omega
  rw [(takeWhile_dropWhile_eq_filter falls).2, List.filter_reverse, List.reverse_reverse]
  simp only [← decide_not, Nat.not_le]

end

end Sorted

section Logs

variable {ε ρ σ : Type*} (undo : ε → σ → σ)

/-- Undo the entries of a log, the latest one first. -/
def rollback (log : List ε) (state : σ) : σ :=
  log.foldl (fun state entry => undo entry state) state

theorem rollback_append (later older : List ε) (state : σ) :
    rollback undo (later ++ older) state = rollback undo older (rollback undo later state) :=
  List.foldl_append

variable (owner : ε → Nat) (number : ρ → Nat) (leaves : ρ → σ → σ → Prop)

/-- The log consists of the entries of the given owners, the youngest owner first. Undoing
the entries of an owner leads back to the state that the owner found, and what an owner
found and left are related. -/
def Chain (base : σ) : σ → List ε → List ρ → Prop
  | state, log, [] => log = [] ∧ state = base
  | state, log, young :: older =>
      ∃ own rest found, log = own ++ rest ∧ (∀ entry ∈ own, owner entry = number young) ∧
        rollback undo own state = found ∧ leaves young found state ∧ Chain base found rest older

variable {undo owner number leaves} {base mid state next : σ} {log own : List ε}
  {owners : List ρ} {young : ρ}

namespace Chain

theorem push
    (chain : Chain undo owner number leaves base state log owners)
    (owned : ∀ entry ∈ own, owner entry = number young) (undone : rollback undo own next = state)
    (left : leaves young state next) :
    Chain undo owner number leaves base next (own ++ log) (young :: owners) :=
  ⟨own, log, state, rfl, owned, undone, left, chain⟩

/-- Young and old owners share the log at a state between them. -/
theorem append_iff {older : List ρ} :
    Chain undo owner number leaves base state log (owners ++ older) ↔
      ∃ mid later rest, log = later ++ rest ∧
        Chain undo owner number leaves mid state later owners ∧
          Chain undo owner number leaves base mid rest older := by
  induction owners generalizing state log with
  | nil =>
      constructor
      · exact fun chain => ⟨state, [], log, rfl, ⟨rfl, rfl⟩, chain⟩
      · rintro ⟨mid, later, rest, rfl, ⟨rfl, rfl⟩, chain⟩
        exact chain
  | cons young owners ih =>
      constructor
      · rintro ⟨own, rest, found, rfl, owned, undone, left, chain⟩
        obtain ⟨mid, later, rest, rfl, first, second⟩ := ih.mp chain
        refine ⟨mid, own ++ later, rest, (List.append_assoc _ _ _).symm, ?_, second⟩
        exact ⟨own, later, found, rfl, owned, undone, left, first⟩
      · rintro ⟨mid, later, rest, rfl, ⟨own, later', found, rfl, owned, undone, left, first⟩,
          second⟩
        refine ⟨own, later' ++ rest, found, List.append_assoc _ _ _, owned, undone, left, ?_⟩
        exact ih.mpr ⟨mid, later', rest, rfl, first, second⟩

/-- Every entry belongs to one of the owners. -/
theorem exists_owner
    (chain : Chain undo owner number leaves base state log owners) (member : entry ∈ log) :
    ∃ young ∈ owners, owner entry = number young := by
  induction owners generalizing state log with
  | nil =>
      obtain ⟨rfl, -⟩ := chain
      cases member
  | cons young owners ih =>
      obtain ⟨own, rest, found, rfl, owned, -, -, chain⟩ := chain
      rcases List.mem_append.mp member with mine | others
      · exact ⟨young, List.mem_cons_self, owned entry mine⟩
      · obtain ⟨other, listed, same⟩ := ih chain others
        exact ⟨other, List.mem_cons_of_mem _ listed, same⟩

/-- Undoing the whole log leads back to its base. -/
theorem rollback_eq (chain : Chain undo owner number leaves base state log owners) :
    rollback undo log state = base := by
  induction owners generalizing state log with
  | nil =>
      obtain ⟨rfl, rfl⟩ := chain
      rfl
  | cons young owners ih =>
      obtain ⟨own, rest, found, rfl, -, undone, -, chain⟩ := chain
      rw [rollback_append, undone]
      exact ih chain

/-- Owners younger than a number come first. -/
theorem split
    (chain : Chain undo owner number leaves base state log owners)
    (ordered : owners.Pairwise fun first second => number second < number first) (bound : Nat) :
    ∃ mid, Chain undo owner number leaves mid state
        (log.filter fun entry => decide (bound < owner entry))
        (owners.filter fun young => decide (bound < number young)) ∧
      Chain undo owner number leaves base mid
        (log.filter fun entry => decide (owner entry ≤ bound))
        (owners.filter fun young => decide (number young ≤ bound)) := by
  have sorted : owners.Pairwise fun first second => number second ≤ number first :=
    ordered.imp Nat.le_of_lt
  have parts : owners = (owners.filter fun young => decide (bound < number young)) ++
      owners.filter fun young => decide (number young ≤ bound) := by
    rw [← takeWhile_eq_filter_of_sorted number sorted,
      ← dropWhile_eq_filter_of_sorted number sorted, List.takeWhile_append_dropWhile]
  rw [parts] at chain
  obtain ⟨mid, later, rest, rfl, first, second⟩ := append_iff.mp chain
  have large : ∀ entry ∈ later, bound < owner entry := by
    intro entry member
    obtain ⟨young, listed, same⟩ := first.exists_owner member
    have far := (List.mem_filter.mp listed).2
    rw [decide_eq_true_eq] at far
    omega
  have small : ∀ entry ∈ rest, owner entry ≤ bound := by
    intro entry member
    obtain ⟨young, listed, same⟩ := second.exists_owner member
    have near := (List.mem_filter.mp listed).2
    rw [decide_eq_true_eq] at near
    omega
  refine ⟨mid, ?_, ?_⟩
  · rw [List.filter_append, List.filter_eq_self.mpr fun entry member => by
        simpa using large entry member,
      List.filter_eq_nil_iff.mpr fun entry member => by simpa using small entry member,
      List.append_nil]
    exact first
  · rw [List.filter_append, List.filter_eq_nil_iff.mpr fun entry member => by
        simpa using large entry member,
      List.filter_eq_self.mpr fun entry member => by simpa using small entry member,
      List.nil_append]
    exact second

/-- The entries of a log are ordered. -/
theorem sorted
    (chain : Chain undo owner number leaves base state log owners)
    (ordered : owners.Pairwise fun first second => number second < number first) :
    log.Pairwise fun first second => owner second ≤ owner first := by
  induction owners generalizing state log with
  | nil =>
      obtain ⟨rfl, -⟩ := chain
      exact List.Pairwise.nil
  | cons young owners ih =>
      obtain ⟨least, ordered⟩ := List.pairwise_cons.mp ordered
      obtain ⟨own, rest, found, rfl, owned, -, -, chain⟩ := chain
      refine List.pairwise_append.mpr ⟨?_, ih chain ordered, fun mine first other second => ?_⟩
      · refine List.pairwise_of_forall_mem_list fun first mine second mine' => ?_
        exact Nat.le_of_eq ((owned second mine').trans (owned first mine).symm)
      · obtain ⟨older, listed, same⟩ := chain.exists_owner second
        have below := least older listed
        rw [owned mine first, same]
        exact Nat.le_of_lt below

end Chain

end Logs

end Library
end Dolma

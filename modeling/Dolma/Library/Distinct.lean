import Mathlib.Data.List.Perm.Basic
import Mathlib.Data.List.Dedup

/-!
# Resources spread over distinct keys

A list of distinct keys, each holding a list of resources. Changing what one key
holds changes the resources there only.
-/

namespace Dolma
namespace Library

section

variable {κ ρ : Type*} [DecidableEq κ] [DecidableEq ρ]
variable {keys : List κ} {key : κ}

theorem count_flatMap_erase (member : key ∈ keys) (held : κ → List ρ) (resource : ρ) :
    (keys.flatMap held).count resource =
      (held key).count resource + ((keys.erase key).flatMap held).count resource := by
  have moved := (List.perm_cons_erase member).flatMap_right held
  simpa using moved.count_eq resource

/-- If two ways of holding differ at one key, the difference of the resources is
the difference there. -/
theorem count_flatMap_add
    (distinct : keys.Nodup) (member : key ∈ keys) (before after : κ → List ρ)
    (same : ∀ other, other ≠ key → after other = before other) (resource : ρ) :
    (keys.flatMap after).count resource + (before key).count resource =
      (keys.flatMap before).count resource + (after key).count resource := by
  have others :
      (keys.erase key).flatMap after = (keys.erase key).flatMap before := by
    refine List.flatMap_congr ?_
    intro other remaining
    exact same other fun equal =>
      distinct.not_mem_erase (equal ▸ remaining)
  rw [count_flatMap_erase member after, count_flatMap_erase member before, others]
  omega

end

end Library
end Dolma

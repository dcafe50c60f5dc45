import Mathlib.Data.Set.Card

/-! Which keys of a partial map hold a value, and how many. -/
namespace Occupancy
variable {ι : Type} {α : ι → Type}

/-- The keys that hold a value. -/
def filled (f : (i : ι) → Option (α i)) : Set ι := {i | (f i).isSome}

theorem mem_filled {f : (i : ι) → Option (α i)} {i : ι} : i ∈ filled f ↔ f i ≠ none :=
  Option.ne_none_iff_isSome.symm

variable [DecidableEq ι] (f : (i : ι) → Option (α i)) (i : ι) (v : α i)

/-- A write adds its key. -/
theorem filled_update : filled (Function.update f i (some v)) = insert i (filled f) := by
  ext j
  rw [mem_filled, Set.mem_insert_iff, mem_filled]
  by_cases hj : j = i
  · subst hj
    simp
  · simp [hj]

variable {f i}

theorem filled_update_of_filled (h : f i ≠ none) :
    filled (Function.update f i (some v)) = filled f := by
  rw [filled_update, Set.insert_eq_of_mem (mem_filled.mpr h)]

theorem encard_update_of_free (h : f i = none) :
    (filled (Function.update f i (some v))).encard = (filled f).encard + 1 := by
  rw [filled_update, Set.encard_insert_of_notMem fun hi => mem_filled.mp hi h]

/-- Whether its key was free or not, a write fills one key at most. -/
theorem encard_update_le :
    (filled (Function.update f i (some v))).encard ≤ (filled f).encard + 1 := by
  rw [filled_update]
  exact Set.encard_insert_le _ _

end Occupancy

import Mathlib.Data.List.Induction
import Mathlib.Logic.Function.Basic

/-! A map changed one entry at a time holds, at each key, what was last written there. -/
namespace LastWrite
variable {K V : Type} [DecidableEq K]

/-- The map after a list of writes. -/
def apply (m : K → V) (writes : List (K × V)) : K → V :=
  writes.foldl (fun m w => Function.update m w.1 w.2) m

/-- The last value written at `k`. -/
def last (k : K) (writes : List (K × V)) : Option V :=
  ((writes.filter fun w => w.1 = k).map Prod.snd).getLast?

@[simp] theorem last_nil (k : K) : last k ([] : List (K × V)) = none := rfl

theorem last_append_self (k : K) (v : V) (writes : List (K × V)) :
    last k (writes ++ [(k, v)]) = some v := by
  simp [last]

theorem last_append_of_ne {k k' : K} (h : k' ≠ k) (v : V) (writes : List (K × V)) :
    last k (writes ++ [(k', v)]) = last k writes := by
  simp [last, h]

theorem mem_of_last {k : K} {v : V} {writes : List (K × V)} (h : last k writes = some v) :
    (k, v) ∈ writes := by
  have hv : v ∈ (writes.filter fun w => w.1 = k).map Prod.snd := List.mem_of_getLast? h
  obtain ⟨⟨k', v'⟩, hw, rfl⟩ := List.mem_map.mp hv
  obtain ⟨hmem, hk⟩ := List.mem_filter.mp hw
  have hkey : k' = k := by simpa using hk
  rw [← hkey]
  exact hmem

/-- A last value that changed was written since. -/
theorem mem_of_last_append {k : K} {v : V} {a b : List (K × V)} (h : last k (a ++ b) = some v)
    (ha : last k a ≠ some v) : (k, v) ∈ b := by
  have hsplit : last k (a ++ b) = (last k b).or (last k a) := by
    simp [last, List.getLast?_append]
  rw [hsplit] at h
  cases hb : last k b with
  | none =>
    rw [hb, Option.none_or] at h
    exact absurd h ha
  | some w =>
    rw [hb, Option.some_or] at h
    cases h
    exact mem_of_last hb

theorem apply_append (m : K → V) (a b : List (K × V)) : apply m (a ++ b) = apply (apply m a) b :=
  List.foldl_append

theorem apply_eq_last (m : K → V) (writes : List (K × V)) (k : K) :
    apply m writes k = (last k writes).getD (m k) := by
  induction writes using List.reverseRecOn with
  | nil => rfl
  | append_singleton writes w ih =>
    obtain ⟨k', v⟩ := w
    rw [apply_append]
    show Function.update (apply m writes) k' v k = _
    by_cases h : k' = k
    · subst h
      rw [Function.update_self, last_append_self]
      rfl
    · rw [Function.update_of_ne (Ne.symm h), last_append_of_ne h, ih]

/-! ### The last value a list names -/

section Latest
variable {ι α : Type} (f : ι → Option α)

/-- The last value that `f` reads in a list. -/
def latest (xs : List ι) : Option α := (xs.filterMap f).getLast?

@[simp] theorem latest_nil : latest f [] = none := rfl

theorem latest_snoc (xs : List ι) (x : ι) : latest f (xs ++ [x]) = (f x).or (latest f xs) := by
  unfold latest
  rw [List.filterMap_append]
  cases hx : f x <;> simp [hx]

theorem latest_eq_none {xs : List ι} : latest f xs = none ↔ ∀ x ∈ xs, f x = none := by
  simp [latest]

end Latest

end LastWrite

import EarnProof.Soroban.Contract
import Mathlib.Data.Set.Insert

/-! One call made on two storages that agree where it looks.

`Follows W t d₁ t₁` says that a call that led from some values to `d₁` leads from `t` to
`t₁` by the same writes, all of them in `W`. -/
namespace Soroban
variable {K : Type} {V : K → Type}

/-- `t` holds in the places of `F` what `d` holds. -/
def AgreeOn (F : Set (StorageClass × K)) (d t : Entries V) : Prop :=
  ∀ c k, (c, k) ∈ F → t c k = d c k

theorem AgreeOn.mono {F F' : Set (StorageClass × K)} {d t : Entries V} (h : AgreeOn F d t)
    (hF : F' ⊆ F) : AgreeOn F' d t :=
  fun c k hk => h c k (hF hk)

structure Follows (W : Set (StorageClass × K)) (t d₁ t₁ : Entries V) : Prop where
  writes : ∀ c k, (c, k) ∈ W → t₁ c k = d₁ c k
  frame : ∀ c k, (c, k) ∉ W → t₁ c k = t c k

variable {W : Set (StorageClass × K)} {t d₁ t₁ : Entries V}

theorem Follows.refl {d : Entries V} (h : AgreeOn W d t) : Follows W t d t :=
  ⟨h, fun _ _ _ => rfl⟩

theorem Follows.put [DecidableEq K] (h : Follows W t d₁ t₁) {c : StorageClass} {k : K}
    (o : Option (V k)) (hk : (c, k) ∈ W) : Follows W t (d₁.put c k o) (t₁.put c k o) := by
  constructor
  · intro c' k' hk'
    by_cases hkey : k' = k
    · subst hkey
      by_cases hclass : c' = c
      · subst hclass
        rw [Entries.put_self, Entries.put_self]
      · rw [Entries.put_class _ _ _ _ hclass, Entries.put_class _ _ _ _ hclass]
        exact h.writes c' k' hk'
    · rw [Entries.put_key _ _ _ _ hkey, Entries.put_key _ _ _ _ hkey]
      exact h.writes c' k' hk'
  · intro c' k' hk'
    by_cases hkey : k' = k
    · subst hkey
      have hclass : c' ≠ c := by
        intro heq
        subst heq
        exact hk' hk
      rw [Entries.put_class _ _ _ _ hclass]
      exact h.frame c' k' hk'
    · rw [Entries.put_key _ _ _ _ hkey]
      exact h.frame c' k' hk'

end Soroban

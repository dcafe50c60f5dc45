import EarnProof.Soroban.Transcript
import Mathlib.Data.Set.Basic

/-! Operations that look at a store, answer, and write.

A store gives every cell its content. An operation is a function of the store: its
reply, and the list of its writes. It is confined to what it sees and what it may write
when these sets bound it in every store. Operations that see nothing of what others
write are not affected by them (`machine_purges`), and operations apart from each other
commute (`Confined.commutes`). -/
namespace Updates
variable {ι κ ρ : Type} {β : ι → Type}

abbrev Store (β : ι → Type) := (i : ι) → β i

/-- What an operation does in each store: its reply and its writes, in order. -/
abbrev Operation (β : ι → Type) (ρ : Type) := Store β → ρ × List (Sigma β)

/-- The stores hold the same in the cells of `F`. -/
def Agree (F : Set ι) (s t : Store β) : Prop := ∀ i ∈ F, s i = t i

theorem Agree.refl {F : Set ι} (s : Store β) : Agree F s s := fun _ _ => rfl

theorem Agree.mono {F F' : Set ι} {s t : Store β} (h : Agree F s t) (hF : F' ⊆ F) : Agree F' s t :=
  fun i hi => h i (hF hi)

variable [DecidableEq ι]

def apply (s : Store β) : List (Sigma β) → Store β
  | [] => s
  | w :: rest => apply (Function.update s w.1 w.2) rest

/-- One operation for each input, one input at a time. -/
def machine (op : κ → Operation β ρ) : Soroban.Machine κ ρ (Store β) where
  step := fun k s => ((op k s).1, apply s (op k s).2)

theorem machine_reply (op : κ → Operation β ρ) (k : κ) (s : Store β) :
    (machine op).reply k s = (op k s).1 := rfl

theorem machine_next (op : κ → Operation β ρ) (k : κ) (s : Store β) :
    (machine op).next k s = apply s (op k s).2 := rfl

/-! ### What a list of writes does -/

section Apply
variable {ws : List (Sigma β)} {i : ι}

theorem apply_frame (s : Store β) (h : ∀ w ∈ ws, w.1 ≠ i) : apply s ws i = s i := by
  induction ws generalizing s with
  | nil => rfl
  | cons w rest ih =>
    have hw : i ≠ w.1 := (h w (List.mem_cons_self ..)).symm
    show apply (Function.update s w.1 w.2) rest i = s i
    rw [ih _ fun w' hw' => h w' (List.mem_cons_of_mem _ hw'), Function.update_of_ne hw]

/-- What is in a written cell does not depend on what was there. -/
theorem apply_written (s t : Store β) (h : ∃ w ∈ ws, w.1 = i) : apply s ws i = apply t ws i := by
  induction ws generalizing s t with
  | nil =>
    obtain ⟨w, hw, _⟩ := h
    cases hw
  | cons w rest ih =>
    show apply (Function.update s w.1 w.2) rest i = apply (Function.update t w.1 w.2) rest i
    by_cases hrest : ∃ w' ∈ rest, w'.1 = i
    · exact ih _ _ hrest
    · have hkept : ∀ w' ∈ rest, w'.1 ≠ i := fun w' hw' heq => hrest ⟨w', hw', heq⟩
      obtain ⟨w', hmem, rfl⟩ := h
      rcases List.mem_cons.mp hmem with rfl | hmem
      · rw [apply_frame _ hkept, apply_frame _ hkept, Function.update_self, Function.update_self]
      · exact absurd rfl (hkept w' hmem)

/-- The same writes keep the agreement of two stores. -/
theorem Agree.apply {F : Set ι} {s t : Store β} (h : Agree F s t) (ws : List (Sigma β)) :
    Agree F (apply s ws) (apply t ws) := by
  intro i hi
  by_cases hw : ∃ w ∈ ws, w.1 = i
  · exact apply_written s t hw
  · have hkept : ∀ w ∈ ws, w.1 ≠ i := fun w hmem heq => hw ⟨w, hmem, heq⟩
    rw [apply_frame _ hkept, apply_frame _ hkept]
    exact h i hi

end Apply

/-! ### Confined operations -/

/-- The operation decides from the cells of `R` and writes cells of `W` only. -/
structure Confined (f : Operation β ρ) (R W : Set ι) : Prop where
  sees : ∀ s t, Agree R s t → f s = f t
  writes : ∀ s, ∀ w ∈ (f s).2, w.1 ∈ W

namespace Confined
variable {op : κ → Operation β ρ} {k l : κ} {R R' W W' F : Set ι} {s t : Store β}

/-- It leaves alone what it may not write. -/
theorem frame (h : Confined (op k) R W) (s : Store β) {i : ι} (hi : i ∉ W) :
    (machine op).next k s i = s i :=
  apply_frame s fun w hw heq => hi (heq ▸ h.writes s w hw)

/-- Stores that agree where it looks, and perhaps elsewhere, still do after it. -/
theorem shown (h : Confined (op k) R W) (hR : R ⊆ F) (hagree : Agree F s t) :
    (machine op).reply k s = (machine op).reply k t ∧
      Agree F ((machine op).next k s) ((machine op).next k t) := by
  have hsame : op k s = op k t := h.sees s t (hagree.mono hR)
  rw [machine_reply, machine_reply, machine_next, machine_next, hsame]
  exact ⟨rfl, hagree.apply _⟩

/-- What it writes outside `F` is not noticed in `F`. -/
theorem hidden (h : Confined (op k) R W) (hW : ∀ i ∈ W, i ∉ F) (hagree : Agree F s t) :
    Agree F ((machine op).next k s) t := by
  intro i hi
  rw [h.frame s fun hmem => hW i hmem hi]
  exact hagree i hi

/-- It decides as before after an operation that writes elsewhere. -/
theorem unaffected (h : Confined (op k) R W) (h' : Confined (op l) R' W') (hW : ∀ i ∈ W, i ∉ R')
    (s : Store β) : op l ((machine op).next k s) = op l s :=
  h'.sees _ _ (h.hidden hW (.refl s))

/-- Operations apart from each other commute. -/
theorem commutes (h : Confined (op k) R W) (h' : Confined (op l) R' W') (hR : ∀ i ∈ W, i ∉ R')
    (hR' : ∀ i ∈ W', i ∉ R) (hW : ∀ i ∈ W, i ∉ W') : (machine op).Commutes k l := by
  have hsecond := h.unaffected h' hR
  have hfirst := h'.unaffected h hR'
  constructor
  case second =>
    intro s
    rw [machine_reply, machine_reply, hsecond]
  case first =>
    intro s
    rw [machine_reply, machine_reply, hfirst]
  intro s
  funext i
  have hkl : (machine op).next l ((machine op).next k s) =
      apply (apply s (op k s).2) (op l s).2 := by
    rw [machine_next, hsecond, machine_next]
  have hlk : (machine op).next k ((machine op).next l s) =
      apply (apply s (op l s).2) (op k s).2 := by
    rw [machine_next, hfirst, machine_next]
  rw [hkl, hlk]
  by_cases hl : ∃ w ∈ (op l s).2, w.1 = i
  · have hk : ∀ w ∈ (op k s).2, w.1 ≠ i := by
      intro w hw heq
      obtain ⟨w', hw', heq'⟩ := hl
      exact hW i (heq ▸ h.writes s w hw) (heq' ▸ h'.writes s w' hw')
    rw [apply_frame _ hk]
    exact apply_written _ _ hl
  · have hkept : ∀ w ∈ (op l s).2, w.1 ≠ i := fun w hw heq => hl ⟨w, hw, heq⟩
    rw [apply_frame _ hkept]
    exact Agree.apply (F := {i}) (fun j hj => by
      rw [hj]
      exact (apply_frame s hkept).symm) _ i rfl

end Confined

/-- Inputs outside `keep` write outside `F`, and the others look inside it. Then the run
without them gives the others the same replies and leaves the same in `F`. -/
theorem machine_purges {op : κ → Operation β ρ} {seen written : κ → Set ι} {F : Set ι}
    {keep : κ → Bool} (hop : ∀ k, Confined (op k) (seen k) (written k)) {ks : List κ}
    (hkeep : ∀ k ∈ ks, keep k = true → seen k ⊆ F)
    (hdrop : ∀ k ∈ ks, keep k = false → ∀ i ∈ written k, i ∉ F) (s : Store β) :
    ((machine op).transcript s ks).filter (fun e => keep e.1) =
        (machine op).transcript s (ks.filter keep) ∧
      Agree F ((machine op).run s ks) ((machine op).run s (ks.filter keep)) :=
  Soroban.Machine.purges (Agree F) keep (fun k hk hshown _ _ h => (hop k).shown (hkeep k hk hshown) h)
    (fun k hk hhidden _ _ h => (hop k).hidden (hdrop k hk hhidden) h) (.refl s)

end Updates

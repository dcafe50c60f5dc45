import Mathlib.Data.Set.Lattice
import Mathlib.Order.CompletePartialOrder

/-! Operations with separate footprints commute.

A state is seen through its cells. An operation is local at a state when it reads
`R`, writes `W` and nothing else matters: on every state that agrees with this one on
both, it replies the same, leaves the same in `W`, and leaves the rest alone. Two
operations that are local at one state, neither of which writes what the other reads
or writes, can be done in either order. -/
namespace Footprint
variable {σ ρ π ι : Type} {β : ι → Type} (look : σ → (i : ι) → β i)

/-- `t` has in the cells of `F` what `s` has. -/
def Agree (F : Set ι) (s t : σ) : Prop := ∀ i ∈ F, look t i = look s i

/-- From `s` the operation reads `R`, writes `W`, and does not see the rest. -/
structure Local (op : σ → ρ × σ) (R W : Set ι) (s : σ) : Prop where
  reply : ∀ t, Agree look (R ∪ W) s t → (op t).1 = (op s).1
  writes : ∀ t, Agree look (R ∪ W) s t → ∀ i ∈ W, look (op t).2 i = look (op s).2 i
  frame : ∀ t, Agree look (R ∪ W) s t → ∀ i, i ∉ W → look (op t).2 i = look t i

variable {look} {p : σ → ρ × σ} {q : σ → π × σ} {R R' W W' F : Set ι} {s : σ}

theorem Agree.refl : Agree look F s s := fun _ _ => rfl

/-- An operation leaves alone what is apart from its writes. -/
theorem Local.agree (hp : Local look p R W s) (h : Disjoint W F) : Agree look F s (p s).2 :=
  fun i hi => hp.frame s .refl i (Set.disjoint_right.mp h hi)

/-- The second of two operations replies as it would alone. -/
theorem Local.reply_after (hp : Local look p R W s) (hq : Local look q R' W' s)
    (h : Disjoint W (R' ∪ W')) : (q (p s).2).1 = (q s).1 :=
  hq.reply _ (hp.agree h)

/-- What the first wrote is there after the second, in either order. -/
theorem Local.written (hp : Local look p R W s) (hq : Local look q R' W' s)
    (h : Disjoint W (R' ∪ W')) (h' : Disjoint W' (R ∪ W)) {i : ι} (hi : i ∈ W) :
    look (q (p s).2).2 i = look (p (q s).2).2 i := by
  have hout : i ∉ W' := fun hi' => Set.disjoint_left.mp h' hi' (.inr hi)
  calc look (q (p s).2).2 i
      = look (p s).2 i := hq.frame _ (hp.agree h) i hout
    _ = look (p (q s).2).2 i := (hp.writes _ (hq.agree h') i hi).symm

theorem Local.commute (hp : Local look p R W s) (hq : Local look q R' W' s)
    (h : Disjoint W (R' ∪ W')) (h' : Disjoint W' (R ∪ W)) (i : ι) :
    look (q (p s).2).2 i = look (p (q s).2).2 i := by
  by_cases hi : i ∈ W
  · exact hp.written hq h h' hi
  · by_cases hi' : i ∈ W'
    · exact (hq.written hp h' h hi').symm
    · calc look (q (p s).2).2 i
          = look (p s).2 i := hq.frame _ (hp.agree h) i hi'
        _ = look s i := hp.frame s .refl i hi
        _ = look (q s).2 i := (hq.frame s .refl i hi').symm
        _ = look (p (q s).2).2 i := (hp.frame _ (hq.agree h') i hi).symm

end Footprint

import Mathlib.Data.List.Forall2
import Mathlib.Data.List.Induction
import Mathlib.Logic.Function.Basic

/-! Step machines and their runs.

A machine takes one input at a time, replies and moves. `run` is the state after a
list of inputs and `history` lists the steps taken, each with the states around it.
What one step preserves, every run preserves (`invariant_run`); a fact that ties the
state to the whole past is proved by adding one step at the end
(`history_induction`). -/
namespace Soroban

structure Machine (ι ο σ : Type) where
  step : ι → σ → ο × σ

namespace Machine
variable {ι ο σ : Type}

/-- One step taken: the input, the reply, and the states before and after. -/
structure Step (ι ο σ : Type) where
  pre : σ
  input : ι
  reply : ο
  post : σ

def next (m : Machine ι ο σ) (i : ι) (s : σ) : σ := (m.step i s).2

def reply (m : Machine ι ο σ) (i : ι) (s : σ) : ο := (m.step i s).1

def stepAt (m : Machine ι ο σ) (i : ι) (s : σ) : Step ι ο σ := ⟨s, i, m.reply i s, m.next i s⟩

def run (m : Machine ι ο σ) (s : σ) : List ι → σ
  | [] => s
  | i :: rest => m.run (m.next i s) rest

def history (m : Machine ι ο σ) (s : σ) : List ι → List (Step ι ο σ)
  | [] => []
  | i :: rest => m.stepAt i s :: m.history (m.next i s) rest

variable (m : Machine ι ο σ)

theorem run_append (s : σ) (a b : List ι) : m.run s (a ++ b) = m.run (m.run s a) b := by
  induction a generalizing s with
  | nil => rfl
  | cons i rest ih => exact ih _

theorem run_snoc (s : σ) (a : List ι) (i : ι) : m.run s (a ++ [i]) = m.next i (m.run s a) :=
  m.run_append s a [i]

theorem history_append (s : σ) (a b : List ι) :
    m.history s (a ++ b) = m.history s a ++ m.history (m.run s a) b := by
  induction a generalizing s with
  | nil => rfl
  | cons i rest ih => simp only [List.cons_append, history, run, ih]

theorem history_snoc (s : σ) (a : List ι) (i : ι) :
    m.history s (a ++ [i]) = m.history s a ++ [m.stepAt i (m.run s a)] :=
  m.history_append s a [i]

theorem history_inputs (s : σ) (is : List ι) : (m.history s is).map Step.input = is := by
  induction is generalizing s with
  | nil => rfl
  | cons i rest ih => exact congrArg (i :: ·) (ih _)

/-- A step of a run splits its inputs: those before it led to the state it started from. -/
theorem mem_history {s : σ} {is : List ι} {t : Step ι ο σ} (h : t ∈ m.history s is) :
    ∃ a b, is = a ++ t.input :: b ∧ t = m.stepAt t.input (m.run s a) := by
  induction is generalizing s with
  | nil => cases h
  | cons i rest ih =>
    rcases List.mem_cons.mp h with rfl | h
    · exact ⟨[], rest, rfl, rfl⟩
    · obtain ⟨a, b, hsplit, ht⟩ := ih h
      exact ⟨i :: a, b, by rw [hsplit]; rfl, ht⟩

/-- What a step preserves, a run preserves. -/
theorem invariant_run (I : σ → Prop) (hstep : ∀ i s, I s → I (m.next i s)) {s : σ} (h : I s)
    (is : List ι) : I (m.run s is) := by
  induction is generalizing s with
  | nil => exact h
  | cons i rest ih => exact ih (hstep i s h)

/-- A relation between the steps taken and the state reached holds of every run when
it holds at the start and one more step keeps it. -/
theorem history_induction (P : List ι → List (Step ι ο σ) → σ → Prop) {s : σ} (h : P [] [] s)
    (hstep : ∀ is i, P is (m.history s is) (m.run s is) →
      P (is ++ [i]) (m.history s is ++ [m.stepAt i (m.run s is)]) (m.next i (m.run s is)))
    (is : List ι) : P is (m.history s is) (m.run s is) := by
  induction is using List.reverseRecOn with
  | nil => exact h
  | append_singleton is i ih =>
    rw [history_snoc, run_snoc]
    exact hstep is i ih

/-! ### Time -/

/-- Inputs stamped by `time` whose stamps never decrease. -/
def Chronological (time : ι → UInt64) (is : List ι) : Prop :=
  is.Pairwise fun i j => time i ≤ time j

instance (time : ι → UInt64) (is : List ι) : Decidable (Chronological time is) :=
  inferInstanceAs (Decidable (List.Pairwise _ is))

theorem Chronological.snoc {time : ι → UInt64} {is : List ι} {i : ι} :
    Chronological time (is ++ [i]) ↔ Chronological time is ∧ ∀ j ∈ is, time j ≤ time i := by
  simp [Chronological, List.pairwise_append]

/-- An input may follow at the time of the last one. -/
theorem Chronological.snoc_same {time : ι → UInt64} {is : List ι} {i j : ι}
    (h : Chronological time (is ++ [i])) (hj : time j = time i) :
    Chronological time (is ++ [i] ++ [j]) := by
  refine Chronological.snoc.mpr ⟨h, fun k hk => ?_⟩
  rw [hj]
  rcases List.mem_append.mp hk with hk | hk
  · exact (Chronological.snoc.mp h).2 k hk
  · rw [List.mem_singleton.mp hk]
    exact UInt64.le_refl _

/-- The steps of a chronological run are stamped in order. -/
theorem Chronological.history {time : ι → UInt64} {is : List ι} (h : Chronological time is) (s : σ) :
    (m.history s is).Pairwise fun t t' => time t.input ≤ time t'.input := by
  rw [Chronological, ← m.history_inputs s is, List.pairwise_map] at h
  exact h

/-! ### Chosen steps -/

/-- `s'` is reached from `s` by steps that all satisfy `P`. -/
def Reaches (P : Step ι ο σ → Prop) (s s' : σ) : Prop :=
  ∃ is, (∀ t ∈ m.history s is, P t) ∧ m.run s is = s'

variable {m} {P : Step ι ο σ → Prop} {s s' s'' : σ}

theorem Reaches.refl : m.Reaches P s s := ⟨[], by simp [history], rfl⟩

theorem Reaches.step {i : ι} (h : P (m.stepAt i s)) : m.Reaches P s (m.next i s) :=
  ⟨[i], by simpa [history] using h, rfl⟩

theorem Reaches.trans (h : m.Reaches P s s') (h' : m.Reaches P s' s'') : m.Reaches P s s'' := by
  obtain ⟨is, his, rfl⟩ := h
  obtain ⟨js, hjs, rfl⟩ := h'
  refine ⟨is ++ js, fun t ht => ?_, m.run_append s is js⟩
  rw [history_append] at ht
  exact (List.mem_append.mp ht).elim (his t) (hjs t)

/-! ### Two machines in lockstep -/

section Lockstep
variable {κ π τ α : Type} {m : Machine ι ο σ} {m' : Machine κ π τ} {f : α → ι} {g : α → κ}
  {Q : Step ι ο σ → Step κ π τ → Prop}

/-- Two machines are fed from one list. If a step of the first that satisfies `P` keeps
their states related, and is matched by the step of the second, then such a run is matched
step by step. -/
theorem lockstep (R : σ → τ → Prop) (P : Step ι ο σ → Prop) {as : List α}
    (hstep : ∀ a ∈ as, ∀ s t, R s t → P (m.stepAt (f a) s) →
      R (m.next (f a) s) (m'.next (g a) t) ∧ Q (m.stepAt (f a) s) (m'.stepAt (g a) t))
    {s : σ} {t : τ} (h : R s t) (hP : ∀ u ∈ m.history s (as.map f), P u) :
    List.Forall₂ Q (m.history s (as.map f)) (m'.history t (as.map g)) := by
  induction as generalizing s t with
  | nil => exact .nil
  | cons a rest ih =>
    obtain ⟨hnext, hmatch⟩ := hstep a (List.mem_cons_self ..) s t h (hP _ (List.mem_cons_self ..))
    exact .cons hmatch (ih (fun b hb => hstep b (List.mem_cons_of_mem _ hb)) hnext
      fun u hu => hP u (List.mem_cons_of_mem _ hu))

end Lockstep

end Machine
end Soroban

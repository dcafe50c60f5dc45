import EarnProof.Soroban.Machine

/-! What the callers of a machine see.

The transcript of a run lists each input with its reply. Two machines fed through a
projection move together (`projects`): the steps of one that the projection shows are
the steps of the other. A machine whose hidden inputs change nothing the others look at
gives the others the same transcript without them (`purges`). When the inputs of
different sessions commute, only the order inside each session matters
(`sessions_agree`). -/
namespace Soroban.Machine
variable {ι ο σ κ π τ : Type}

/-- The inputs of a run, each with its reply. -/
def transcript (m : Machine ι ο σ) (s : σ) (is : List ι) : List (ι × ο) :=
  (m.history s is).map fun t => (t.input, t.reply)

section
variable (m : Machine ι ο σ)

theorem transcript_cons (s : σ) (i : ι) (is : List ι) :
    m.transcript s (i :: is) = (i, m.reply i s) :: m.transcript (m.next i s) is := rfl

theorem transcript_append (s : σ) (a b : List ι) :
    m.transcript s (a ++ b) = m.transcript s a ++ m.transcript (m.run s a) b := by
  simp only [transcript, history_append, List.map_append]

theorem transcript_inputs (s : σ) (is : List ι) : (m.transcript s is).map Prod.fst = is := by
  rw [transcript, List.map_map]
  exact m.history_inputs s is

end

/-! ### Two machines that reply alike -/

/-- Machines whose steps reply alike and keep their states related have the same transcript. -/
theorem transcript_eq {m : Machine ι ο σ} {m' : Machine ι ο τ} (R : σ → τ → Prop)
    (hstep : ∀ i s t, R s t → m.reply i s = m'.reply i t ∧ R (m.next i s) (m'.next i t)) {s : σ} {t : τ}
    (h : R s t) (is : List ι) :
    m.transcript s is = m'.transcript t is ∧ R (m.run s is) (m'.run t is) := by
  induction is generalizing s t with
  | nil => exact ⟨rfl, h⟩
  | cons i rest ih =>
    obtain ⟨hreply, hnext⟩ := hstep i s t h
    obtain ⟨htranscript, hrun⟩ := ih hnext
    refine ⟨?_, hrun⟩
    rw [transcript_cons, transcript_cons, hreply, htranscript]

/-! ### Projection -/

section Projection
variable {m : Machine ι ο σ} {n : Machine κ π τ} {f : Step ι ο σ → Option κ}
  {Q : Step ι ο σ → Step κ π τ → Prop}

/-- `f` shows some steps of `m`, each as an input of `n`. If `n` matches a shown step and
stays related to `m`, and a hidden step keeps the relation, then `n` runs on what is shown
as `m` runs on all of it. -/
theorem projects (R : σ → τ → Prop)
    (hshown : ∀ i s t k, R s t → f (m.stepAt i s) = some k →
      Q (m.stepAt i s) (n.stepAt k t) ∧ R (m.next i s) (n.next k t))
    (hhidden : ∀ i s t, R s t → f (m.stepAt i s) = none → R (m.next i s) t) {s : σ} {t : τ}
    (h : R s t) (is : List ι) :
    List.Forall₂ Q ((m.history s is).filter fun u => (f u).isSome)
        (n.history t ((m.history s is).filterMap f)) ∧
      R (m.run s is) (n.run t ((m.history s is).filterMap f)) := by
  induction is generalizing s t with
  | nil => exact ⟨.nil, h⟩
  | cons i rest ih =>
    cases hf : f (m.stepAt i s) with
    | none =>
      have hskip : (m.history s (i :: rest)).filterMap f =
          (m.history (m.next i s) rest).filterMap f := List.filterMap_cons_none hf
      have hfilter : (m.history s (i :: rest)).filter (fun u => (f u).isSome) =
          (m.history (m.next i s) rest).filter fun u => (f u).isSome :=
        List.filter_cons_of_neg (by simp [hf])
      rw [hskip, hfilter]
      exact ih (hhidden i s t h hf)
    | some k =>
      have htake : (m.history s (i :: rest)).filterMap f =
          k :: (m.history (m.next i s) rest).filterMap f := List.filterMap_cons_some hf
      have hfilter : (m.history s (i :: rest)).filter (fun u => (f u).isSome) =
          m.stepAt i s :: (m.history (m.next i s) rest).filter fun u => (f u).isSome :=
        List.filter_cons_of_pos (by simp [hf])
      obtain ⟨hmatch, hnext⟩ := hshown i s t k h hf
      obtain ⟨hsteps, hrun⟩ := ih hnext
      rw [htake, hfilter]
      exact ⟨.cons hmatch hsteps, hrun⟩

end Projection

/-! ### Hidden inputs -/

section Purge
variable {m : Machine ι ο σ}

/-- Inputs outside `keep` leave related what they start from; the others reply alike to
related states. Then a run and the run without those inputs agree on the rest. -/
theorem purges (R : σ → σ → Prop) (keep : ι → Bool) {is : List ι}
    (hkeep : ∀ i ∈ is, keep i = true → ∀ s t, R s t →
      m.reply i s = m.reply i t ∧ R (m.next i s) (m.next i t))
    (hdrop : ∀ i ∈ is, keep i = false → ∀ s t, R s t → R (m.next i s) t) {s t : σ} (h : R s t) :
    (m.transcript s is).filter (fun e => keep e.1) = m.transcript t (is.filter keep) ∧
      R (m.run s is) (m.run t (is.filter keep)) := by
  induction is generalizing s t with
  | nil => exact ⟨rfl, h⟩
  | cons i rest ih =>
    have ih := fun {s t} (h : R s t) => ih (fun j hj => hkeep j (List.mem_cons_of_mem _ hj))
      (fun j hj => hdrop j (List.mem_cons_of_mem _ hj)) h
    cases hi : keep i with
    | false =>
      have hskip : (i :: rest).filter keep = rest.filter keep :=
        List.filter_cons_of_neg (by simp [hi])
      rw [transcript_cons, List.filter_cons_of_neg (by simp [hi]), hskip]
      exact ih (hdrop i (List.mem_cons_self ..) hi s t h)
    | true =>
      have htake : (i :: rest).filter keep = i :: rest.filter keep :=
        List.filter_cons_of_pos (by simp [hi])
      obtain ⟨hreply, hnext⟩ := hkeep i (List.mem_cons_self ..) hi s t h
      obtain ⟨htranscript, hrun⟩ := ih hnext
      rw [transcript_cons, List.filter_cons_of_pos (by simp [hi]), htake, transcript_cons, hreply,
        htranscript]
      exact ⟨rfl, hrun⟩

end Purge

/-! ### Sessions -/

/-- In either order both inputs get the same reply and lead to the same state. -/
structure Commutes (m : Machine ι ο σ) (i j : ι) : Prop where
  state : ∀ s, m.next j (m.next i s) = m.next i (m.next j s)
  second : ∀ s, m.reply j (m.next i s) = m.reply j s
  first : ∀ s, m.reply i (m.next j s) = m.reply i s

/-- The machine fed through a labelling of its inputs. -/
def via (m : Machine ι ο σ) (f : κ → ι) : Machine κ ο σ where
  step := fun k s => m.step (f k) s

section Sessions
variable {m : Machine ι ο σ}

/-- An input that commutes with all those before it can be taken first. -/
theorem bubble {i : ι} {before : List ι} (h : ∀ j ∈ before, m.Commutes i j) (s : σ) :
    m.run (m.next i s) before = m.next i (m.run s before) ∧
      m.transcript (m.next i s) before = m.transcript s before ∧
      m.reply i (m.run s before) = m.reply i s := by
  induction before generalizing s with
  | nil => exact ⟨rfl, rfl, rfl⟩
  | cons j rest ih =>
    have hj : m.Commutes i j := h j (List.mem_cons_self ..)
    obtain ⟨hrun, htranscript, hreply⟩ := ih (fun k hk => h k (List.mem_cons_of_mem _ hk)) (m.next j s)
    refine ⟨?_, ?_, hreply.trans (hj.first s)⟩
    · show m.run (m.next j (m.next i s)) rest = m.next i (m.run (m.next j s) rest)
      rw [hj.state, hrun]
    · rw [transcript_cons, transcript_cons, hj.state, hj.second, htranscript]

/-- An element moves in front of the elements of other sessions without a session noticing. -/
theorem session_front [DecidableEq τ] {α : Type} (session : α → τ) {a : α} {before : List α}
    (h : ∀ j ∈ before, session j ≠ session a) (after : List α) (k : τ) :
    (before ++ a :: after).filter (fun i => session i = k) =
      (a :: (before ++ after)).filter fun i => session i = k := by
  by_cases ha : session a = k
  · have hnone : before.filter (fun i => session i = k) = [] := by
      refine List.filter_eq_nil_iff.mpr fun j hj => ?_
      simpa [ha] using h j hj
    rw [List.filter_append, hnone, List.filter_cons_of_pos (by simpa using ha),
      List.filter_cons_of_pos (by simpa using ha), List.filter_append, hnone]
    rfl
  · rw [List.filter_append, List.filter_cons_of_neg (by simpa using ha),
      List.filter_cons_of_neg (by simpa using ha), List.filter_append]

/-- When the inputs of different sessions commute, two interleavings of the same sessions
lead to the same state, and every session gets the same replies. -/
theorem sessions_agree [DecidableEq τ] (session : ι → τ) {as bs : List ι}
    (hcommutes : ∀ i ∈ as, ∀ j ∈ as, session i ≠ session j → m.Commutes i j)
    (h : ∀ k, as.filter (fun i => session i = k) = bs.filter fun i => session i = k) (s : σ) :
    m.run s as = m.run s bs ∧
      ∀ k, (m.transcript s as).filter (fun e => session e.1 = k) =
        (m.transcript s bs).filter fun e => session e.1 = k := by
  induction as generalizing bs s with
  | nil =>
    have hbs : bs = [] := by
      cases bs with
      | nil => rfl
      | cons b rest =>
        have hb := h (session b)
        rw [List.filter_nil, List.filter_cons_of_pos (by simp)] at hb
        cases hb
    subst hbs
    exact ⟨rfl, fun _ => rfl⟩
  | cons a as ih =>
    -- The first input of `a`'s session in the other run can be brought to its front.
    have ha := (h (session a)).symm
    rw [List.filter_cons_of_pos (by simp)] at ha
    obtain ⟨before, after, rfl, hbefore, -, -⟩ := List.filter_eq_cons_iff.mp ha
    have hsession : ∀ j ∈ before, session j ≠ session a := by
      intro j hj
      simpa using hbefore j hj
    have hmem : ∀ j ∈ before, j ∈ a :: as := by
      intro j hj
      have hfilter : j ∈ (before ++ a :: after).filter fun i => session i = session j := by
        simp [hj]
      rw [← h] at hfilter
      exact (List.mem_filter.mp hfilter).1
    obtain ⟨hrun, htranscript, hreply⟩ := bubble (s := s) fun j hj =>
      hcommutes a (List.mem_cons_self ..) j (hmem j hj) (hsession j hj).symm
    have hrest : ∀ k, as.filter (fun i => session i = k) =
        (before ++ after).filter fun i => session i = k := by
      intro k
      have hk := h k
      rw [session_front session hsession, List.filter_cons, List.filter_cons] at hk
      split at hk
      · exact (List.cons.inj hk).2
      · exact hk
    obtain ⟨hstate, hreplies⟩ := ih (fun i hi j hj => hcommutes i (List.mem_cons_of_mem _ hi) j
      (List.mem_cons_of_mem _ hj)) hrest (m.next a s)
    constructor
    · show m.run (m.next a s) as = _
      rw [hstate, run_append, run_append, hrun]
      rfl
    · intro k
      have hothers : ∀ e ∈ m.transcript s before, session e.1 ≠ session a := by
        intro e he
        refine hsession e.1 ?_
        rw [← m.transcript_inputs s before]
        exact List.mem_map_of_mem he
      have hfront : m.transcript (m.next a s) (before ++ after) =
          m.transcript s before ++ m.transcript (m.next a (m.run s before)) after := by
        rw [transcript_append, htranscript, hrun]
      calc (m.transcript s (a :: as)).filter (fun e => session e.1 = k)
          = ((a, m.reply a s) :: m.transcript (m.next a s) (before ++ after)).filter
              (fun e => session e.1 = k) := by
            rw [transcript_cons, List.filter_cons, List.filter_cons, hreplies k]
        _ = (m.transcript s before ++ (a, m.reply a s) ::
              m.transcript (m.next a (m.run s before)) after).filter
              (fun e => session e.1 = k) := by
            rw [hfront]
            exact (session_front (fun e : ι × ο => session e.1)
              (a := (a, m.reply a s)) hothers _ k).symm
        _ = (m.transcript s (before ++ a :: after)).filter (fun e => session e.1 = k) := by
            rw [transcript_append, transcript_cons, hreply]

end Sessions
end Soroban.Machine

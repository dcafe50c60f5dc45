import EarnProof.IssuerRegistry.Career
import EarnProof.System.Machine

/-! The successful calls of a run decide what is stored for an issuer.

`deeds` lists the successful calls of a run with their timestamps, and
`deeds_induction` adds them one at a time. The deeds on an issuer tell its record,
whatever the calls on other issuers and on the other two contracts. -/
namespace EarnProof.System
open Soroban
open IssuerRegistry (Told Chronicle)

/-- A call that succeeded, with its timestamp. -/
abbrev Deed := Call × UInt64

/-- The successful calls of a run. -/
def deeds (steps : List SystemStep) : List Deed :=
  (steps.filter fun t => t.reply.Succeeded).map fun t => (t.input.call, t.input.env.timestamp)

theorem deeds_append (a b : List SystemStep) : deeds (a ++ b) = deeds a ++ deeds b := by
  simp [deeds]

theorem mem_deeds {steps : List SystemStep} {c : Call} {now : UInt64} :
    (c, now) ∈ deeds steps ↔
      ∃ t ∈ steps, t.reply.Succeeded ∧ t.input.call = c ∧ t.input.env.timestamp = now := by
  simp [deeds, and_assoc]

variable (dep : Deployment)

/-- One more step adds its call when it succeeds. -/
theorem deeds_snoc (s : System) (is : List (Invocation Call)) (i : Invocation Call) :
    deeds ((machine dep).history s (is ++ [i])) = deeds ((machine dep).history s is) ++
      if ((machine dep).reply i ((machine dep).run s is)).Succeeded then
        [(i.call, i.env.timestamp)]
      else [] := by
  rw [Machine.history_snoc, deeds_append]
  congr 1
  split <;> simp_all [deeds, Machine.stepAt]

/-- What holds of the empty system and follows each effect, holds of every run and its
deeds. -/
theorem deeds_induction {P : List Deed → Values → Prop} (h : P [] empty.values)
    (hstep : ∀ {ds env x c v x'}, P ds x → Effect dep env x c v x' →
      P (ds ++ [(c, env.timestamp)]) x') (is : List (Invocation Call)) :
    P (deeds ((machine dep).history empty is)) ((machine dep).run empty is).values := by
  induction is using List.reverseRecOn with
  | nil => exact h
  | append_singleton is i ih =>
    rw [deeds_snoc, Machine.run_snoc]
    rcases step_cases dep i ((machine dep).run empty is) with ⟨v, hv, hE⟩ | ⟨e, hr, hnext, _⟩
    · rw [if_pos ⟨v, hv⟩]
      exact hstep ih hE
    · rw [if_neg (Receipt.not_succeeded hr), List.append_nil, hnext]
      exact ih

/-- The deeds of a chronological run come in order of time. -/
theorem deeds_pairwise {is : List (Invocation Call)}
    (h : Machine.Chronological (fun i => i.env.timestamp) is) (s : System) :
    (deeds ((machine dep).history s is)).Pairwise fun x y => x.2 ≤ y.2 :=
  List.pairwise_map.mpr (List.Pairwise.filter _ (Machine.Chronological.history (machine dep) h s))

/-! ### Issuers -/

/-- The deeds on the issuer `id`. -/
def issuerDeeds (id : BytesN 32) (ds : List Deed) : List IssuerRegistry.Deed :=
  ds.filterMap fun x =>
    match x.1 with
    | .issuers c => if c.target = some id then some (c, x.2) else none
    | _ => none

theorem issuerDeeds_snoc_of_target {id : BytesN 32} {ds : List Deed} {c : IssuerRegistry.Call}
    {t : UInt64} (h : c.target = some id) :
    issuerDeeds id (ds ++ [(.issuers c, t)]) = issuerDeeds id ds ++ [(c, t)] := by
  simp [issuerDeeds, h]

theorem issuerDeeds_snoc_of_other {id : BytesN 32} {ds : List Deed} {c : Call} {t : UInt64}
    (h : ∀ ic, c = .issuers ic → ic.target ≠ some id) :
    issuerDeeds id (ds ++ [(c, t)]) = issuerDeeds id ds := by
  cases c with
  | issuers ic => simp [issuerDeeds, h ic rfl]
  | _ => simp [issuerDeeds]

theorem mem_issuerDeeds {id : BytesN 32} {ds : List Deed} {c : IssuerRegistry.Call} {t : UInt64} :
    (c, t) ∈ issuerDeeds id ds ↔ c.target = some id ∧ (.issuers c, t) ∈ ds := by
  simp only [issuerDeeds, List.mem_filterMap]
  constructor
  · rintro ⟨⟨c', t'⟩, hmem, heq⟩
    cases c' with
    | issuers ic =>
      simp only at heq
      split at heq
      · rename_i htarget
        cases heq
        exact ⟨htarget, hmem⟩
      · cases heq
    | _ => cases heq
  · rintro ⟨htarget, hmem⟩
    exact ⟨_, hmem, by simp [htarget]⟩

/-- They come in the order of all the deeds. -/
theorem issuerDeeds_pairwise {id : BytesN 32} {ds : List Deed}
    (h : ds.Pairwise fun x y => x.2 ≤ y.2) :
    (issuerDeeds id ds).Pairwise fun x y => x.2 ≤ y.2 := by
  have htime : ∀ {x : Deed} {y : IssuerRegistry.Deed}, (match x.1 with
      | .issuers c => if c.target = some id then some (c, x.2) else none
      | _ => none) = some y → y.2 = x.2 := by
    intro x y heq
    split at heq
    · split at heq
      · cases heq
        rfl
      · cases heq
    · cases heq
  refine List.Pairwise.filterMap _ (fun x x' hle y hy y' hy' => ?_) h
  rw [htime hy, htime hy']
  exact hle

theorem Effect.told {dep : Deployment} {env : Env} {x x' : Values} {c : Call} {v : Value}
    (h : Effect dep env x c v x') {id : BytesN 32} {ds : List Deed}
    (hx : Told id (issuerDeeds id ds) (IssuerRegistry.records x.issuers id)) :
    Told id (issuerDeeds id (ds ++ [(c, env.timestamp)]))
      (IssuerRegistry.records x'.issuers id) := by
  rcases h.issuers_cases with ⟨ic, events, rfl, hE⟩ | ⟨hnot, hsame⟩
  · by_cases hc : ic.target = some id
    · rw [issuerDeeds_snoc_of_target hc]
      exact IssuerRegistry.Effect.career hE hc hx
    · rw [issuerDeeds_snoc_of_other fun ic' heq => by cases heq; exact hc,
        IssuerRegistry.Effect.record_frame hE hc]
      exact hx
  · rw [issuerDeeds_snoc_of_other fun ic heq => absurd heq (hnot ic), hsame]
    exact hx

/-- After every run the record of an issuer is the one its deeds tell. -/
theorem run_told (is : List (Invocation Call)) (id : BytesN 32) :
    Told id (issuerDeeds id (deeds ((machine dep).history empty is)))
      (IssuerRegistry.records ((machine dep).run empty is).values.issuers id) :=
  deeds_induction dep
    (P := fun ds x => Told id (issuerDeeds id ds) (IssuerRegistry.records x.issuers id))
    .absent (fun hx hE => hE.told hx) is

/-- The record of an issuer is what the successful calls on its id say: it is absent
exactly when there are none, its fields are the last ones given, it was registered once
and first, after a revocation it was only revoked, and two runs with the same calls on
it store the same. -/
theorem issuer_chronicle (is : List (Invocation Call)) (id : BytesN 32) :
    let m := machine dep
    let record := IssuerRegistry.records (m.run empty is).values.issuers id
    let told := issuerDeeds id (deeds (m.history empty is))
    (record = none ↔ told = []) ∧ (∀ r, record = some r → Chronicle id told r) ∧
      (∀ js, issuerDeeds id (deeds (m.history empty js)) = told →
        IssuerRegistry.records (m.run empty js).values.issuers id = record) ∧
      (Machine.Chronological (fun i => i.env.timestamp) is → ∀ r, record = some r →
        r.createdAt ≤ r.updatedAt ∧
          ∀ now, (∀ i ∈ is, i.env.timestamp ≤ now) → r.updatedAt ≤ now) := by
  intro m record told
  have htold : Told id told record := run_told dep is id
  refine ⟨htold.chronicle.1, htold.chronicle.2, fun js hjs => ?_, fun hchron r hr => ⟨?_, ?_⟩⟩
  · have hother := run_told dep js id
    rw [hjs] at hother
    exact hother.unique htold
  · exact (htold.chronicle.2 r hr).createdAt_le
      (issuerDeeds_pairwise (deeds_pairwise dep hchron empty))
  · intro now hnow
    obtain ⟨before, c, hlast⟩ := (htold.chronicle.2 r hr).updated
    have hmem : (c, r.updatedAt) ∈ told := by simp [hlast]
    obtain ⟨t, ht, _, _, htime⟩ := mem_deeds.mp (mem_issuerDeeds.mp hmem).2
    rw [← htime]
    refine hnow t.input ?_
    rw [← m.history_inputs empty is]
    exact List.mem_map_of_mem ht

end EarnProof.System

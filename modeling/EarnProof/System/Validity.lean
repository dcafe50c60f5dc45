import EarnProof.System.Machine

/-! Whether a proof is valid is decided by its own history.

In the system the record of a proof is the one its story tells (`run_life`), and its
story has only the proof registry's own successful calls on it. The answers of the
three proof queries are read off the story; nothing that happens in the other two
contracts enters it. -/
namespace EarnProof.System
open Soroban
open ProofRegistry (Life story validProof revokedProof)

/-- The successful proof-registry calls of a run. -/
def proofActs (steps : List SystemStep) : List ProofRegistry.Act :=
  steps.filterMap fun t =>
    match t.input.call with
    | .proofs c => if t.reply.Succeeded then some (c, t.input.env.timestamp) else none
    | _ => none

/-- A step that registers `id` until `e`. -/
def SystemStep.Registers (id : BytesN 32) (e : UInt64) (t : SystemStep) : Prop :=
  t.reply.Succeeded ∧ ∃ c a n, t.input.call = .proofs (.registerProof id c a n e)

/-- A step that revokes `id`. -/
def SystemStep.Revokes (id : BytesN 32) (t : SystemStep) : Prop :=
  t.reply.Succeeded ∧
    (t.input.call = .proofs (.revokeProof id) ∨ t.input.call = .proofs (.adminRevokeProof id))

theorem mem_proofActs {steps : List SystemStep} {c : ProofRegistry.Call} {now : UInt64} :
    (c, now) ∈ proofActs steps ↔
      ∃ t ∈ steps, t.reply.Succeeded ∧ t.input.call = .proofs c ∧ t.input.env.timestamp = now := by
  simp only [proofActs, List.mem_filterMap]
  constructor
  · rintro ⟨t, ht, heq⟩
    cases hcall : t.input.call with
    | proofs pc =>
      simp only [hcall] at heq
      split at heq
      · rename_i hok
        cases heq
        exact ⟨t, ht, hok, hcall, rfl⟩
      · cases heq
    | _ => simp [hcall] at heq
  · rintro ⟨t, ht, hok, hcall, rfl⟩
    exact ⟨t, ht, by simp [hcall, hok]⟩

theorem mem_story {id : BytesN 32} {steps : List SystemStep} {c : ProofRegistry.Call}
    {now : UInt64} : (c, now) ∈ story id (proofActs steps) ↔ c.writes id = true ∧
      ∃ t ∈ steps, t.reply.Succeeded ∧ t.input.call = .proofs c ∧ t.input.env.timestamp = now := by
  rw [story, List.mem_filter, mem_proofActs, and_comm]

/-- A step of the system continues the story of a proof or leaves its record alone. -/
theorem Effect.life {dep : Deployment} {env : Env} {x x' : Values} {c : Call} {v : Value}
    (h : Effect dep env x c v x') {s s' : System} {steps : List SystemStep}
    {reply : Receipt Event Value} (hok : reply.Succeeded) {id : BytesN 32}
    (hlife : Life id (story id (proofActs steps)) (ProofRegistry.proofs x.proofs id)) :
    Life id (story id (proofActs (steps ++ [⟨s, ⟨c, env⟩, reply, s'⟩]))) (ProofRegistry.proofs x'.proofs id) := by
  rcases h.proofs with ⟨pc, rfl, hchange⟩ | ⟨hnot, hsame⟩
  · have hacts : proofActs (steps ++ [⟨s, ⟨.proofs pc, env⟩, reply, s'⟩]) =
        proofActs steps ++ [(pc, env.timestamp)] := by
      simp [proofActs, hok]
    rw [hacts]
    exact hchange.life hlife
  · have hacts : proofActs (steps ++ [⟨s, ⟨c, env⟩, reply, s'⟩]) = proofActs steps := by
      cases c with
      | proofs pc => exact absurd rfl (hnot pc)
      | _ => simp [proofActs]
    rw [hacts, hsame]
    exact hlife

variable (dep : Deployment)

/-- After every run each proof record is the one its story tells. -/
theorem run_life (is : List (Invocation Call)) (id : BytesN 32) :
    Life id (story id (proofActs ((machine dep).history empty is)))
      (ProofRegistry.proofs ((machine dep).run empty is).values.proofs id) := by
  refine (machine dep).history_induction
    (fun _ steps s => Life id (story id (proofActs steps)) (ProofRegistry.proofs s.values.proofs id)) .absent
    (fun js i ih => ?_) is
  rcases step_cases dep i ((machine dep).run empty js) with ⟨v, hv, hE⟩ | ⟨e, hr, hnext, _⟩
  · exact hE.life ⟨v, hv⟩ ih
  · have hfail : ¬ ((machine dep).reply i ((machine dep).run empty js)).Succeeded :=
      Receipt.not_succeeded hr
    have hacts : proofActs ((machine dep).history empty js ++
        [(machine dep).stepAt i ((machine dep).run empty js)]) =
        proofActs ((machine dep).history empty js) := by
      cases hcall : i.call <;> simp [proofActs, Machine.stepAt, hcall, hfail]
    rw [hacts, hnext]
    exact ih

/-! ### The answers -/

section Answers
variable (env : Env) (s : System) (id : BytesN 32)

theorem isValidProof_outcome :
    ((machine dep).reply ⟨.proofs (.isValidProof id), env⟩ s).outcome =
      .ok (.bool (validProof s.values.proofs env.timestamp id)) :=
  query_outcome dep ⟨[], ⟨rfl, rfl, rfl, rfl⟩, rfl, rfl⟩

theorem isRevoked_outcome :
    ((machine dep).reply ⟨.proofs (.isRevoked id), env⟩ s).outcome =
      .ok (.bool (revokedProof s.values.proofs id)) :=
  query_outcome dep ⟨[], ⟨rfl, rfl, rfl, rfl⟩, rfl, rfl⟩

theorem getProof_outcome :
    ((machine dep).reply ⟨.proofs (.getProof id), env⟩ s).outcome =
      (ProofRegistry.proofs s.values.proofs id).elim
        (.error (.error ProofError.proofNotFound.code)) fun r => .ok (.proof r) := by
  have hinvoke : ((machine dep).reply ⟨.proofs (.getProof id), env⟩ s).outcome =
      (invoke (ProofRegistry.Call.program (clients dep) (.getProof id))
        {env with currentContract := dep.proofRegistry} s.proofs (s.config, s.issuers)).1.outcome :=
    rfl
  rw [hinvoke, invoke_outcome]
  simp only [ProofRegistry.Call.program, entry_outcome, ProofRegistry.getProof_run,
    Storage.entries_load, ProofRegistry.proofs, values]
  cases s.proofs.entries .persistent (.proof id) <;> rfl

theorem getProof_succeeded :
    ((machine dep).reply ⟨.proofs (.getProof id), env⟩ s).Succeeded ↔
      (ProofRegistry.proofs s.values.proofs id).isSome := by
  rw [Receipt.Succeeded, getProof_outcome]
  cases ProofRegistry.proofs s.values.proofs id <;> simp

end Answers

section Story
variable {id : BytesN 32} {steps : List SystemStep} {d : Entries ProofRegistry.DataKey.Value}

theorem registers_iff {e : UInt64} :
    (∃ t ∈ steps, SystemStep.Registers id e t) ↔
      ∃ c a n now, (.registerProof id c a n e, now) ∈ story id (proofActs steps) := by
  constructor
  · rintro ⟨t, ht, hok, c, a, n, hcall⟩
    exact ⟨c, a, n, _, mem_story.mpr ⟨by simp [ProofRegistry.Call.writes], t, ht, hok, hcall, rfl⟩⟩
  · rintro ⟨c, a, n, now, h⟩
    obtain ⟨_, t, ht, hok, hcall, _⟩ := mem_story.mp h
    exact ⟨t, ht, hok, c, a, n, hcall⟩

theorem revokes_iff :
    (∃ t ∈ steps, SystemStep.Revokes id t) ↔
      ∃ c now, c.Revokes id ∧ (c, now) ∈ story id (proofActs steps) := by
  constructor
  · rintro ⟨t, ht, hok, hcall⟩
    rcases hcall with hcall | hcall
    · exact ⟨_, _, .inl rfl, mem_story.mpr ⟨by simp [ProofRegistry.Call.writes], t, ht, hok, hcall,
        rfl⟩⟩
    · exact ⟨_, _, .inr rfl, mem_story.mpr ⟨by simp [ProofRegistry.Call.writes], t, ht, hok, hcall,
        rfl⟩⟩
  · rintro ⟨c, now, hc, h⟩
    obtain ⟨_, t, ht, hok, hcall, _⟩ := mem_story.mp h
    exact ⟨t, ht, hok, hc.imp (fun h => by rw [hcall, h]) (fun h => by rw [hcall, h])⟩

end Story

theorem proofActs_append (a b : List SystemStep) :
    proofActs (a ++ b) = proofActs a ++ proofActs b :=
  List.filterMap_append

/-- A later state still holds a proof record, unchanged or revoked by a step since. -/
theorem run_keeps_record {is : List (Invocation Call)} {id : BytesN 32} {r : ProofRecord}
    (hr : ProofRegistry.proofs ((machine dep).run empty is).values.proofs id = some r)
    (js : List (Invocation Call)) :
    ProofRegistry.proofs ((machine dep).run empty (is ++ js)).values.proofs id = some r ∨
      (r.status = .active ∧
        (∃ t ∈ (machine dep).history ((machine dep).run empty is) js, SystemStep.Revokes id t) ∧
        ∃ t, ProofRegistry.proofs ((machine dep).run empty (is ++ js)).values.proofs id =
          some {r with status := .revoked, revokedAt := t}) := by
  have hbefore := run_life dep is id
  have hafter := run_life dep (is ++ js) id
  rw [Machine.history_append, proofActs_append, story, List.filter_append] at hafter
  rw [hr] at hbefore
  rcases hbefore.extend hafter with hsame | ⟨hactive, c, t, hc, hmem, hrev⟩
  · exact .inl hsame
  · exact .inr ⟨hactive, revokes_iff.mpr ⟨c, t, hc, hmem⟩, t, hrev⟩

/-- What was valid and no longer is stays invalid. -/
theorem invalid_stays {is js ks : List (Invocation Call)} {id : BytesN 32} {t₁ t₂ t₃ : UInt64}
    (h23 : t₂ ≤ t₃) (hvalid : validProof ((machine dep).run empty is).values.proofs t₁ id = true)
    (hinvalid : validProof ((machine dep).run empty (is ++ js)).values.proofs t₂ id = false) :
    validProof ((machine dep).run empty (is ++ js ++ ks)).values.proofs t₃ id = false := by
  -- A revoked record stays as it is, so it stays invalid.
  have hrevoked : ∀ {r : ProofRecord}, r.status = .revoked →
      ProofRegistry.proofs ((machine dep).run empty (is ++ js)).values.proofs id = some r →
      validProof ((machine dep).run empty (is ++ js ++ ks)).values.proofs t₃ id = false := by
    intro r hst hr
    rcases run_keeps_record dep hr ks with hsame | ⟨hactive, _⟩
    · exact (congrArg (Option.any _) hsame).trans (by simp [hst])
    · rw [hst] at hactive
      cases hactive
  obtain ⟨r, hfound, _⟩ := (Option.any_eq_true _ _).mp hvalid
  have hr : ProofRegistry.proofs ((machine dep).run empty is).values.proofs id = some r := hfound
  rcases run_keeps_record dep hr js with hsame | ⟨_, _, t, hrev⟩
  · have hpast : (r.status == .active && decide (t₂ ≤ r.expiresAt)) = false :=
      (congrArg (Option.any _) hsame).symm.trans hinvalid
    rcases run_keeps_record dep hsame ks with hlast | ⟨hactive, _, t, hrev⟩
    · refine (congrArg (Option.any _) hlast).trans ?_
      cases hst : r.status with
      | revoked => simp [hst]
      | active =>
        have hlt : ¬ t₂ ≤ r.expiresAt := by simpa [hst] using hpast
        have hlt' : ¬ t₃ ≤ r.expiresAt := fun h => hlt (UInt64.le_trans h23 h)
        simp [hlt']
    · exact (congrArg (Option.any _) hrev).trans (by simp)
  · exact hrevoked rfl hrev

/-- The three answers of the proof registry about `id`: valid exactly when registered,
not revoked and not past the expiry; revoked exactly when a revocation succeeded; found
exactly when registered. They depend on the story of `id` alone, and a proof that has
stopped being valid is never valid again. -/
theorem validity_history (is : List (Invocation Call)) (id : BytesN 32) :
    let m := machine dep
    let s := m.run empty is
    (∀ env, (m.reply ⟨.proofs (.isValidProof id), env⟩ s).outcome = .ok (.bool true) ↔
      (∃ e, (∃ t ∈ m.history empty is, SystemStep.Registers id e t) ∧ env.timestamp ≤ e) ∧
        ¬ ∃ t ∈ m.history empty is, SystemStep.Revokes id t) ∧
    (∀ env, (m.reply ⟨.proofs (.isRevoked id), env⟩ s).outcome = .ok (.bool true) ↔
      ∃ t ∈ m.history empty is, SystemStep.Revokes id t) ∧
    (∀ env, (m.reply ⟨.proofs (.getProof id), env⟩ s).Succeeded ↔
      ∃ e, ∃ t ∈ m.history empty is, SystemStep.Registers id e t) ∧
    (∀ js, story id (proofActs (m.history empty js)) = story id (proofActs (m.history empty is)) →
      ∀ c ∈ [ProofRegistry.Call.isValidProof id, .isRevoked id, .getProof id], ∀ env,
        (m.reply ⟨.proofs c, env⟩ (m.run empty js)).outcome =
          (m.reply ⟨.proofs c, env⟩ s).outcome) ∧
    ∀ js ks env₁ env₂ env₃, env₂.timestamp ≤ env₃.timestamp →
      (m.reply ⟨.proofs (.isValidProof id), env₁⟩ s).outcome = .ok (.bool true) →
      (m.reply ⟨.proofs (.isValidProof id), env₂⟩ (m.run empty (is ++ js))).outcome =
        .ok (.bool false) →
      (m.reply ⟨.proofs (.isValidProof id), env₃⟩ (m.run empty (is ++ js ++ ks))).outcome =
        .ok (.bool false) := by
  intro m s
  have hlife := run_life dep is id
  refine ⟨fun env => ?_, fun env => ?_, fun env => ?_, fun js hstory c hc env => ?_,
    fun js ks env₁ env₂ env₃ h23 hvalid hinvalid => ?_⟩
  · rw [isValidProof_outcome, revokes_iff]
    simp only [Except.ok.injEq, Value.bool.injEq, registers_iff]
    exact hlife.valid_iff env.timestamp
  · rw [isRevoked_outcome, revokes_iff]
    simp only [Except.ok.injEq, Value.bool.injEq]
    exact hlife.revoked_iff
  · rw [getProof_succeeded]
    simp only [registers_iff]
    exact hlife.isSome_iff
  · have hlife' := run_life dep js id
    rw [hstory] at hlife'
    have hsame := hlife'.unique hlife
    have hany : ∀ p : ProofRecord → Bool, (ProofRegistry.proofs (m.run empty js).values.proofs id).any p =
        (ProofRegistry.proofs s.values.proofs id).any p := fun p => congrArg (Option.any p) hsame
    simp only [List.mem_cons, List.not_mem_nil, or_false] at hc
    rcases hc with rfl | rfl | rfl
    · rw [isValidProof_outcome, isValidProof_outcome]
      exact congrArg (fun b => Except.ok (Value.bool b)) (hany _)
    · rw [isRevoked_outcome, isRevoked_outcome]
      exact congrArg (fun b => Except.ok (Value.bool b)) (hany _)
    · rw [getProof_outcome, getProof_outcome, hsame]
  · rw [isValidProof_outcome] at hvalid hinvalid ⊢
    simp only [Except.ok.injEq, Value.bool.injEq] at hvalid hinvalid ⊢
    exact invalid_stays dep h23 hvalid hinvalid

end EarnProof.System

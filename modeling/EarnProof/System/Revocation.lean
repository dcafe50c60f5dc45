import EarnProof.System.Gate
import EarnProof.System.Validity

/-! A revoked issuer stays revoked.

Its record can only have its time moved, so its address stays bound to it. Every call
that would put an issuer or a proof at that address finds it taken or inactive
(`Effect.not_engages`), and the proofs already there are left to their own history. -/
namespace EarnProof.System
open Soroban
open IssuerRegistry (records index Keeps IssuerDirectory)

/-- The calls that put an issuer or a proof at the address `a`. -/
def Call.Engages (a : Address) : Call → Prop
  | .issuers c => ∃ id, c.Binds id a
  | .proofs (.registerProof _ _ issuerAddress _ _) => issuerAddress = a
  | _ => False

/-- The record of `id` is `r`, up to the time of its last change. -/
def HasIssuer (x : Values) (id : BytesN 32) (r : IssuerRecord) : Prop :=
  ∃ t, records x.issuers id = some {r with updatedAt := t}

section Step
variable {dep : Deployment} {env : Env} {x x' : Values} {c : Call} {v : Value} {id : BytesN 32}
  {r : IssuerRecord}

/-- A step leaves a revoked record alone, or is its revocation once more. -/
theorem Effect.revoked (h : Effect dep env x c v x') (hr : records x.issuers id = some r)
    (hst : r.status = .revoked) :
    records x'.issuers id = some r ∨ (c = .issuers (.revokeIssuer id) ∧
      records x'.issuers id = some {r with updatedAt := env.timestamp}) := by
  rcases h.issuers with ⟨ic, rfl, hchange⟩ | ⟨_, hsame⟩
  · rcases hchange.revoked hr hst with hkept | ⟨rfl, hagain⟩
    · exact .inl hkept
    · exact .inr ⟨rfl, hagain⟩
  · rw [hsame]
    exact .inl hr

theorem Effect.hasIssuer (h : Effect dep env x c v x') (hst : r.status = .revoked)
    (hx : HasIssuer x id r) : HasIssuer x' id r := by
  obtain ⟨t, ht⟩ := hx
  rcases h.revoked ht hst with hkept | ⟨_, hagain⟩
  · exact ⟨t, hkept⟩
  · exact ⟨_, hagain⟩

theorem HasIssuer.not_activeIssuer (hx : HasIssuer x id r) (hst : r.status = .revoked) :
    IssuerRegistry.activeIssuer x.issuers id = false := by
  obtain ⟨t, ht⟩ := hx
  have hr : x.issuers .persistent (.issuer id) = some {r with updatedAt := t} := ht
  simp [IssuerRegistry.activeIssuer, hr, hst]

variable {D : IssuerDirectory} (hD : Keeps x.issuers D)
include hD

theorem HasIssuer.index (hx : HasIssuer x id r) : index x.issuers r.issuerAddress = some id := by
  obtain ⟨t, ht⟩ := hx
  rw [hD.records] at ht
  rw [hD.index]
  have hidx : D.index ({r with updatedAt := t} : IssuerRecord).issuerAddress = some id :=
    D.indexed ht
  exact hidx

/-- The address of a revoked issuer is not active: the only record there is the revoked one. -/
theorem HasIssuer.not_activeAddress (hx : HasIssuer x id r) (hst : r.status = .revoked) :
    IssuerRegistry.activeAddress x.issuers r.issuerAddress = false := by
  obtain ⟨t, ht⟩ := hx
  rw [hD.records] at ht
  have hfind : D.find r.issuerAddress = some {r with updatedAt := t} :=
    D.find_eq_some.mpr ⟨id, ht, rfl⟩
  rw [Bool.eq_false_iff]
  intro hactive
  obtain ⟨r', hr', hst'⟩ := hD.activeAddress.mp hactive
  rw [hfind] at hr'
  cases hr'
  rw [hst] at hst'
  cases hst'

/-- Nothing registers or rotates to the address of a revoked issuer, and nothing is proved
there. -/
theorem Effect.not_engages (hwiring : ProofRegistry.Wiring x.proofs) (h : Effect dep env x c v x')
    (hx : HasIssuer x id r) (hst : r.status = .revoked) : ¬ c.Engages r.issuerAddress := by
  intro hc
  have hbound : index x.issuers r.issuerAddress = some id := hx.index hD
  unfold Call.Engages at hc
  split at hc
  · obtain ⟨_, hE, _⟩ := h
    obtain ⟨_, hbinds⟩ := hc
    exact absurd ((hE.binds_free hbinds).symm.trans hbound) (by simp)
  · subst hc
    have hactive := (Effect.admits dep hD hwiring h).1.activeIssuer
    rw [← activeAddress_iff hD, hx.not_activeAddress hD hst] at hactive
    cases hactive
  · exact hc

end Step

section Answers
variable (dep : Deployment) (env : Env) (s : System)

theorem isActiveIssuer_outcome (id : BytesN 32) :
    ((machine dep).reply ⟨.issuers (.isActiveIssuer id), env⟩ s).outcome =
      .ok (.bool (IssuerRegistry.activeIssuer s.values.issuers id)) :=
  query_outcome dep ⟨[], ⟨rfl, rfl, rfl⟩, rfl, rfl⟩

theorem isActiveAddress_outcome (a : Address) :
    ((machine dep).reply ⟨.issuers (.isActiveAddress a), env⟩ s).outcome =
      .ok (.bool (IssuerRegistry.activeAddress s.values.issuers a)) :=
  query_outcome dep ⟨[], ⟨rfl, rfl, rfl⟩, rfl, rfl⟩

end Answers

section Runs
variable (dep : Deployment)

theorem run_hasIssuer {s : System} {id : BytesN 32} {r : IssuerRecord} (hst : r.status = .revoked)
    (h : HasIssuer s.values id r) (js : List (Invocation Call)) :
    HasIssuer ((machine dep).run s js).values id r :=
  run_invariant dep (fun x => HasIssuer x id r) (fun _ _ _ _ _ hE hx => hE.hasIssuer hst hx) h js

/-- The validity of a stored proof is what it was, unless the proof itself is revoked. -/
theorem run_keeps_validity {is : List (Invocation Call)} {pid : BytesN 32}
    (hstored : (ProofRegistry.proofs ((machine dep).run empty is).values.proofs pid).isSome)
    {js : List (Invocation Call)}
    (hno : ¬ ∃ t ∈ (machine dep).history ((machine dep).run empty is) js,
      SystemStep.Revokes pid t) (env : Env) :
    ((machine dep).reply ⟨.proofs (.isValidProof pid), env⟩
        ((machine dep).run empty (is ++ js))).outcome =
      ((machine dep).reply ⟨.proofs (.isValidProof pid), env⟩
        ((machine dep).run empty is)).outcome := by
  obtain ⟨p, hp⟩ := Option.isSome_iff_exists.mp hstored
  have hkept : ProofRegistry.proofs ((machine dep).run empty (is ++ js)).values.proofs pid =
      some p := by
    rcases run_keeps_record dep hp js with hsame | ⟨_, hrevoked, _⟩
    · exact hsame
    · exact absurd hrevoked hno
  rw [isValidProof_outcome, isValidProof_outcome]
  exact congrArg (fun o : Option ProofRecord => Except.ok (Value.bool (o.any _)))
    (hkept.trans hp.symm)

/-- Once an issuer is revoked, at whatever state of a run: its record changes in its time
only and by being revoked again; its address stays bound to it, so that no issuer and no
proof is ever put there again; it and its address are inactive; and the proofs at its
address, whenever they were registered, keep their validity until they are revoked
themselves. -/
theorem revocation_terminal (is js : List (Invocation Call)) (id : BytesN 32) (r : IssuerRecord)
    (hr : records ((machine dep).run empty is).values.issuers id = some r)
    (hrevoked : r.status = .revoked) :
    let m := machine dep
    let start := m.run empty is
    let final := m.run empty (is ++ js)
    HasIssuer final.values id r ∧
    (∀ t ∈ m.history start js,
      records t.post.values.issuers id ≠ records t.pre.values.issuers id →
        t.input.call = .issuers (.revokeIssuer id)) ∧
    index final.values.issuers r.issuerAddress = some id ∧
    (∀ t ∈ m.history start js, t.input.call.Engages r.issuerAddress → ¬ t.reply.Succeeded) ∧
    (∀ env, (m.reply ⟨.issuers (.isActiveIssuer id), env⟩ final).outcome = .ok (.bool false) ∧
      (m.reply ⟨.issuers (.isActiveAddress r.issuerAddress), env⟩ final).outcome =
        .ok (.bool false)) ∧
    ∀ ks ls, ks ++ ls = is ++ js → ∀ pid p,
      ProofRegistry.proofs (m.run empty ks).values.proofs pid = some p →
      p.issuerAddress = r.issuerAddress →
      (∀ t ∈ m.history (m.run empty ks) ls, ¬ SystemStep.Revokes pid t) →
      ∀ env, (m.reply ⟨.proofs (.isValidProof pid), env⟩ final).outcome =
        (m.reply ⟨.proofs (.isValidProof pid), env⟩ (m.run empty ks)).outcome := by
  intro m start final
  have hstart : HasIssuer start.values id r := ⟨r.updatedAt, hr⟩
  have hfinal : HasIssuer final.values id r := by
    show HasIssuer (m.run empty (is ++ js)).values id r
    rw [Machine.run_append]
    exact run_hasIssuer dep hrevoked hstart js
  obtain ⟨D, hD⟩ := run_keeps dep (is ++ js)
  -- The record is still there before every later step.
  have hpre : ∀ t ∈ m.history start js, HasIssuer t.pre.values id r ∧
      (∃ D, Keeps t.pre.values.issuers D) ∧ ProofRegistry.Wiring t.pre.values.proofs := by
    intro t ht
    obtain ⟨a, _, _, heq⟩ := m.mem_history ht
    have hkeeps := run_keeps dep (is ++ a)
    have hwiring := run_wiring dep (is ++ a)
    rw [Machine.run_append] at hkeeps hwiring
    rw [heq]
    exact ⟨run_hasIssuer dep hrevoked hstart a, hkeeps, hwiring⟩
  refine ⟨hfinal, fun t ht hne => ?_, hfinal.index hD, fun t ht hengages hok => ?_,
    fun env => ⟨?_, ?_⟩, fun ks ls hsplit pid p hp _ hno env => ?_⟩
  · obtain ⟨⟨u, hu⟩, _⟩ := hpre t ht
    rcases history_cases dep ht with ⟨_, v, hE⟩ | ⟨_, hsame⟩
    · rcases hE.revoked hu hrevoked with hkept | ⟨hcall, _⟩
      · exact absurd (hkept.trans hu.symm) hne
      · exact hcall
    · exact absurd (by rw [hsame]) hne
  · obtain ⟨hx, ⟨D', hD'⟩, hwiring⟩ := hpre t ht
    rcases history_cases dep ht with ⟨_, v, hE⟩ | ⟨hfail, _⟩
    · exact Effect.not_engages hD' hwiring hE hx hrevoked hengages
    · exact hfail hok
  · rw [isActiveIssuer_outcome, hfinal.not_activeIssuer hrevoked]
  · rw [isActiveAddress_outcome, hfinal.not_activeAddress hD hrevoked]
  · have hstored : (ProofRegistry.proofs (m.run empty ks).values.proofs pid).isSome := by
      rw [hp]
      rfl
    have hno' : ¬ ∃ t ∈ m.history (m.run empty ks) ls, SystemStep.Revokes pid t :=
      fun ⟨t, ht, hrev⟩ => hno t ht hrev
    show (m.reply _ (m.run empty (is ++ js))).outcome = _
    rw [← hsplit]
    exact run_keeps_validity dep hstored hno' env

end Runs

/-- The registered issuer is revoked after a proof: the next proof at its address is
refused and the first one stays valid. -/
theorem revocation_terminal_example :
    let m := machine Example.deployment
    let is := Example.setup ++ [Example.registration,
      ⟨.issuers (.revokeIssuer (.fill 32 21)), Example.signedBy 3 [Example.admin]⟩]
    let next : Invocation Call :=
      ⟨.proofs (.registerProof (.fill 32 42) (.fill 32 52) Example.issuer 1 10),
        Example.signedBy 4 [Example.issuer]⟩
    ¬ (m.reply next (m.run empty is)).Succeeded ∧
      (m.reply ⟨.proofs (.isValidProof Example.proof), Example.signedBy 4 []⟩
        (m.run empty (is ++ [next]))).outcome = .ok (.bool true) := by
  intro m is next
  have hr : records (m.run empty is).values.issuers (.fill 32 21) =
      some (⟨.fill 32 21, Example.issuer, .fill 32 31, .revoked, 1, 3⟩ : IssuerRecord) := by
    decide +kernel
  have hengages : next.call.Engages Example.issuer := rfl
  have hrefused := (revocation_terminal Example.deployment is [next] _ _ hr rfl).2.2.2.1
    (m.stepAt next (m.run empty is)) (List.mem_cons_self ..) hengages
  exact ⟨hrefused, by decide +kernel⟩

end EarnProof.System

import EarnProof.System.Gate
import EarnProof.System.Validity

/-! Whom a proof is attributed to.

A proof names an address, and the address leads to the issuer that is bound to it now.
The binding an address has at a registration lasts until its issuer is rotated away
(`run_binding`); after that, and only then, the address can lead to another issuer
(`run_rebinding`). -/
namespace EarnProof.System
open Soroban
open IssuerRegistry (records index Keeps IssuerDirectory)

/-- A step that rotates the issuer `id` to another address than `a`. -/
def SystemStep.Releases (id : BytesN 32) (a : Address) (t : SystemStep) : Prop :=
  t.reply.Succeeded ∧ ∃ b, b ≠ a ∧ t.input.call = .issuers (.rotateIssuerAddress id b)

/-- A step that binds the address `a` to the issuer `id`. -/
def SystemStep.Binds (id : BytesN 32) (a : Address) (t : SystemStep) : Prop :=
  t.reply.Succeeded ∧ ∃ c, t.input.call = .issuers c ∧ c.Binds id a

variable (dep : Deployment)

/-- A step from a reachable state leaves the binding of an address alone, releases it, or
binds it while it is free. -/
theorem step_binding (is : List (Invocation Call)) (i : Invocation Call) (a : Address) :
    let s := (machine dep).run empty is
    let t := (machine dep).stepAt i s
    index t.post.values.issuers a = index s.values.issuers a ∨
    (∃ id, SystemStep.Releases id a t ∧ index s.values.issuers a = some id ∧
      index t.post.values.issuers a = none) ∨
    ∃ id, SystemStep.Binds id a t ∧ index s.values.issuers a = none ∧
      index t.post.values.issuers a = some id := by
  intro s t
  obtain ⟨D, hD⟩ := run_keeps dep is
  rcases step_cases dep i s with ⟨v, hv, hE⟩ | ⟨_, _, hnext, _⟩
  · have hok : t.reply.Succeeded := ⟨v, hv⟩
    rcases hE.issuers with ⟨c, hc, hchange⟩ | ⟨_, hsame⟩
    · rcases hchange.binding hD a with hkept | ⟨id, b, rfl, hne, hbound, hfree⟩ |
        ⟨id, hbinds, hfree, hbound⟩
      · exact .inl hkept
      · exact .inr (.inl ⟨id, ⟨hok, b, hne, hc⟩, hbound, hfree⟩)
      · exact .inr (.inr ⟨id, ⟨hok, c, hc, hbinds⟩, hfree, hbound⟩)
    · exact .inl (congrArg (index · a) hsame)
  · exact .inl (congrArg (fun u : System => index u.values.issuers a) hnext)

/-- An address stays bound to its issuer until that issuer is rotated away. -/
theorem run_binding {is : List (Invocation Call)} {a : Address} {id : BytesN 32}
    (hbound : index ((machine dep).run empty is).values.issuers a = some id)
    (js : List (Invocation Call)) :
    index ((machine dep).run empty (is ++ js)).values.issuers a = some id ∨
      ∃ t ∈ (machine dep).history ((machine dep).run empty is) js, SystemStep.Releases id a t := by
  induction js using List.reverseRecOn with
  | nil =>
    rw [List.append_nil]
    exact .inl hbound
  | append_singleton js i ih =>
    rw [Machine.history_snoc, ← List.append_assoc, Machine.run_snoc]
    rcases ih with hkept | ⟨t, ht, hreleases⟩
    · rcases step_binding dep (is ++ js) i a with hsame | ⟨id', hreleases, hid, _⟩ |
        ⟨_, _, hfree, _⟩
      · exact .inl (hsame.trans hkept)
      · rw [hkept] at hid
        cases hid
        rw [Machine.run_append] at hreleases
        exact .inr ⟨_, List.mem_append_right _ (List.mem_singleton.mpr rfl), hreleases⟩
      · rw [hkept] at hfree
        cases hfree
    · exact .inr ⟨t, List.mem_append_left _ ht, hreleases⟩

/-- An address leads to another issuer only after it was released and bound again. -/
theorem run_rebinding {is : List (Invocation Call)} {a : Address} {id : BytesN 32}
    (hbound : index ((machine dep).run empty is).values.issuers a = some id)
    (js : List (Invocation Call)) {id' : BytesN 32}
    (hend : index ((machine dep).run empty (is ++ js)).values.issuers a = some id') :
    id' = id ∨ ∃ t t', [t, t'].Sublist ((machine dep).history ((machine dep).run empty is) js) ∧
      SystemStep.Releases id a t ∧ SystemStep.Binds id' a t' := by
  induction js using List.reverseRecOn with
  | nil =>
    rw [List.append_nil, hbound] at hend
    exact .inl (Option.some.inj hend).symm
  | append_singleton js i ih =>
    rw [← List.append_assoc, Machine.run_snoc] at hend
    rw [Machine.history_snoc]
    rcases step_binding dep (is ++ js) i a with hsame | ⟨_, _, _, hfree⟩ |
      ⟨id'', hbinds, hfree, hnew⟩
    · rcases ih (hsame.symm.trans hend) with rfl | ⟨t, t', hsub, hreleases, hbinds⟩
      · exact .inl rfl
      · exact .inr ⟨t, t', hsub.trans (List.sublist_append_left ..), hreleases, hbinds⟩
    · cases hfree.symm.trans hend
    · cases hnew.symm.trans hend
      -- The address was bound at the start and is free now, so it was released between.
      rcases run_binding dep hbound js with hkept | ⟨t, ht, hreleases⟩
      · cases hfree.symm.trans hkept
      · rw [Machine.run_append] at hbinds
        exact .inr ⟨t, _, (List.singleton_sublist.mpr ht).append (List.Sublist.refl _), hreleases,
          hbinds⟩

/-! ### The answer of the lookup -/

theorem getIssuerByAddress_outcome {D : IssuerDirectory} {s : System}
    (hD : Keeps s.values.issuers D) (env : Env) (a : Address) :
    ((machine dep).reply ⟨.issuers (.getIssuerByAddress a), env⟩ s).outcome =
      (D.find a).elim (.error (.error IssuerError.issuerAddressNotFound.code))
        fun r => .ok (.issuer r) :=
  hD.getIssuerByAddress dep.issuerRegistry env s.issuers rfl a

/-- `get_issuer_by_address` answers with the record the address is bound to. -/
theorem lookup_of_index {s : System} {D : IssuerDirectory} (hD : Keeps s.values.issuers D)
    {a : Address} {id : BytesN 32} (h : index s.values.issuers a = some id) (env : Env) :
    ∃ r, ((machine dep).reply ⟨.issuers (.getIssuerByAddress a), env⟩ s).outcome =
      .ok (.issuer r) ∧ r.issuerIdHash = id ∧ r.issuerAddress = a := by
  rw [hD.index] at h
  obtain ⟨r, hr, ha⟩ := D.grounded h
  have hfind : D.find a = some r := D.find_eq_some.mpr ⟨id, hr, ha⟩
  refine ⟨r, ?_, D.ident_of hr, ha⟩
  rw [getIssuerByAddress_outcome dep hD, hfind]
  rfl

theorem lookup_of_free {s : System} {D : IssuerDirectory} (hD : Keeps s.values.issuers D)
    {a : Address} (h : index s.values.issuers a = none) (env : Env) :
    ((machine dep).reply ⟨.issuers (.getIssuerByAddress a), env⟩ s).outcome =
      .error (.error IssuerError.issuerAddressNotFound.code) := by
  rw [hD.index] at h
  rw [getIssuerByAddress_outcome dep hD, Directory.find, h]
  rfl

/-! ### Proofs and their issuers -/

/-- After `before`, the call of `i` registers the proof `pid` at the address `a`. -/
structure RegisteredAt (before : List (Invocation Call)) (i : Invocation Call) (pid : BytesN 32)
    (a : Address) : Prop where
  call : ∃ c n e, i.call = .proofs (.registerProof pid c a n e)
  succeeded : ((machine dep).reply i ((machine dep).run empty before)).Succeeded

/-- Every stored proof was registered at the address it names. -/
theorem stored_registeredAt {is : List (Invocation Call)} {pid : BytesN 32} {p : ProofRecord}
    (hp : ProofRegistry.proofs ((machine dep).run empty is).values.proofs pid = some p) :
    ∃ before i after, is = before ++ i :: after ∧ RegisteredAt dep before i pid p.issuerAddress := by
  have hlife := run_life dep is pid
  rw [hp] at hlife
  obtain ⟨c, n, e, now, hmem⟩ := hlife.registration
  obtain ⟨_, t, ht, hok, hcall, _⟩ := mem_story.mp hmem
  obtain ⟨before, after, hsplit, heq⟩ := (machine dep).mem_history ht
  rw [heq] at hok
  exact ⟨before, t.input, after, hsplit, ⟨c, n, e, hcall⟩, hok⟩

section Registered
variable {dep} {before : List (Invocation Call)} {i : Invocation Call} {pid : BytesN 32} {a : Address}
  (h : RegisteredAt dep before i pid a)
include h

/-- The address of a registration is bound to an issuer. -/
theorem RegisteredAt.bound :
    ∃ id, index ((machine dep).run empty before).values.issuers a = some id := by
  obtain ⟨D, hD⟩ := run_keeps dep before
  obtain ⟨c, n, e, hcall⟩ := h.call
  obtain ⟨v, x', hE⟩ := (succeeded_iff dep).mp h.succeeded
  rw [hcall] at hE
  obtain ⟨id, r, hr, ha, _⟩ := (Effect.admits dep hD (run_wiring dep before) hE).1.activeIssuer
  have hrec : D.records id = some r := (congrFun hD.records id).symm.trans hr
  exact ⟨id, by rw [hD.index, ← ha, D.indexed hrec]⟩

/-- A registered proof stays stored and keeps its address. -/
theorem RegisteredAt.stored (after : List (Invocation Call)) :
    ∃ p, ProofRegistry.proofs ((machine dep).run empty (before ++ i :: after)).values.proofs pid =
      some p ∧ p.issuerAddress = a := by
  obtain ⟨D, hD⟩ := run_keeps dep before
  obtain ⟨c, n, e, hcall⟩ := h.call
  obtain ⟨v, x', hE⟩ := (succeeded_iff dep).mp h.succeeded
  have hnext : ((machine dep).run empty (before ++ [i])).values = x' := by
    rw [Machine.run_snoc]
    exact (step_ok dep hE).2
  rw [hcall] at hE
  have hx' := (Effect.admits dep hD (run_wiring dep before) hE).2
  have hp : ProofRegistry.proofs ((machine dep).run empty (before ++ [i])).values.proofs pid =
      some ⟨pid, c, a, .active, n, e, i.env.timestamp, 0⟩ := by
    rw [hnext, hx']
    simp [registered, ProofRegistry.proofs]
  have hsplit : before ++ i :: after = before ++ [i] ++ after := by simp
  rw [hsplit]
  rcases run_keeps_record dep hp after with hkept | ⟨_, _, t, hrevoked⟩
  · exact ⟨_, hkept, rfl⟩
  · exact ⟨_, hrevoked, rfl⟩

end Registered

/-- Every stored proof was registered at an address bound to an issuer, and its address
leads back to that issuer as long as the issuer is not rotated away. Whatever happens,
`get_issuer_by_address` finds no issuer there, or that issuer, or one that was bound to
the address after that issuer was rotated away from it. -/
theorem rotation_attribution (is : List (Invocation Call)) :
    let m := machine dep
    let s := m.run empty is
    (∀ pid p, ProofRegistry.proofs s.values.proofs pid = some p →
      ∃ before i after, is = before ++ i :: after ∧
        RegisteredAt dep before i pid p.issuerAddress) ∧
    ∀ before i after pid a, is = before ++ i :: after → RegisteredAt dep before i pid a →
      (∃ p, ProofRegistry.proofs s.values.proofs pid = some p ∧ p.issuerAddress = a) ∧
      ∃ id, index (m.run empty before).values.issuers a = some id ∧
        ((∀ t ∈ m.history (m.run empty before) (i :: after), ¬ SystemStep.Releases id a t) →
          ∀ env, ∃ r, (m.reply ⟨.issuers (.getIssuerByAddress a), env⟩ s).outcome =
            .ok (.issuer r) ∧ r.issuerIdHash = id) ∧
        ∀ env, (m.reply ⟨.issuers (.getIssuerByAddress a), env⟩ s).outcome =
            .error (.error IssuerError.issuerAddressNotFound.code) ∨
          ∃ r, (m.reply ⟨.issuers (.getIssuerByAddress a), env⟩ s).outcome = .ok (.issuer r) ∧
            r.issuerAddress = a ∧ (r.issuerIdHash = id ∨
              ∃ t t', [t, t'].Sublist (m.history (m.run empty before) (i :: after)) ∧
                SystemStep.Releases id a t ∧ SystemStep.Binds r.issuerIdHash a t') := by
  intro m s
  refine ⟨fun pid p hp => stored_registeredAt dep hp, fun before i after pid a hsplit hreg => ?_⟩
  subst hsplit
  obtain ⟨id, hbound⟩ := hreg.bound
  obtain ⟨D, hD⟩ := run_keeps dep (before ++ i :: after)
  refine ⟨hreg.stored after, id, hbound, fun hno env => ?_, fun env => ?_⟩
  · rcases run_binding dep hbound (i :: after) with hkept | ⟨t, ht, hreleases⟩
    · obtain ⟨r, hr, hid, _⟩ := lookup_of_index dep hD hkept env
      exact ⟨r, hr, hid⟩
    · exact absurd hreleases (hno t ht)
  · cases hend : index s.values.issuers a with
    | none => exact .inl (lookup_of_free dep hD hend env)
    | some id' =>
      obtain ⟨r, hr, rfl, ha⟩ := lookup_of_index dep hD hend env
      exact .inr ⟨r, hr, ha, run_rebinding dep hbound (i :: after) hend⟩

/-- The issuer is rotated away from the address of its proof and another issuer is
registered there: the address of the proof now leads to the other issuer. -/
theorem rotation_moves_attribution :
    let m := machine Example.deployment
    let after : List (Invocation Call) :=
      [⟨.issuers (.rotateIssuerAddress (.fill 32 21) (Example.address .account 3)),
          Example.signedBy 3 [Example.admin]⟩,
        ⟨.issuers (.registerIssuer (.fill 32 22) Example.issuer (.fill 32 32)),
          Example.signedBy 4 [Example.admin]⟩]
    let s := m.run empty (Example.setup ++ Example.registration :: after)
    RegisteredAt Example.deployment Example.setup Example.registration Example.proof
        Example.issuer ∧
      index (m.run empty Example.setup).values.issuers Example.issuer = some (.fill 32 21) ∧
      (∃ p, ProofRegistry.proofs s.values.proofs Example.proof = some p ∧
        p.issuerAddress = Example.issuer) ∧
      ∃ r, (m.reply ⟨.issuers (.getIssuerByAddress Example.issuer), Example.signedBy 5 []⟩ s).outcome
        = .ok (.issuer r) ∧ r.issuerIdHash = .fill 32 22 ∧ r.issuerIdHash ≠ .fill 32 21 := by
  intro m after s
  have hreg : RegisteredAt Example.deployment Example.setup Example.registration Example.proof
      Example.issuer := ⟨⟨_, _, _, rfl⟩, by decide +kernel⟩
  refine ⟨hreg, by decide +kernel, hreg.stored after,
    ⟨.fill 32 22, Example.issuer, .fill 32 32, .active, 4, 4⟩, by decide +kernel, rfl,
    by decide +kernel⟩

end EarnProof.System

import EarnProof.Errors.Exactness
import EarnProof.Initialization.Contracts
import EarnProof.System.Revocation

/-! Refusals that are for good.

`Stuck` lists what refuses a call whatever happens next: an admin is stored, a record
exists, an issuer or a proof is revoked, an address stays bound. No call changes any of
these (`Effect.stuck`). An address stays bound when its issuer is revoked, or when no
valid address is left to rotate it to; an issuer that can be rotated away releases its
address, and then the same call goes through. -/
namespace EarnProof.ErrorCatalog
open Soroban EarnProof.System
open IssuerRegistry (records index Keeps IssuerDirectory)
open ProofRegistry (proofs)

/-! ### Addresses that stay bound -/

section
variable {env : Env} {d d' : Entries IssuerRegistry.DataKey.Value} {c : IssuerRegistry.Call} {v : Value}
  {events : List IssuerRegistry.Event} {a : Address} {id : BytesN 32}

/-- The address is bound to an issuer that can be rotated to another address. -/
def Movable (d : Entries IssuerRegistry.DataKey.Value) (a : Address) : Prop :=
  ∃ id r b, index d a = some id ∧ records d id = some r ∧ r.status ≠ .revoked ∧
    isValidPrincipalAddress b = true ∧ index d b = none

/-- The address is bound and cannot be released. -/
def Fixed (d : Entries IssuerRegistry.DataKey.Value) (a : Address) : Prop :=
  index d a ≠ none ∧ ¬ Movable d a

/-- A revoked record is there. -/
def RevokedIssuer (d : Entries IssuerRegistry.DataKey.Value) (id : BytesN 32) : Prop :=
  ∃ r, records d id = some r ∧ r.status = .revoked

theorem RevokedIssuer.status (hid : RevokedIssuer d id) {r : IssuerRecord}
    (hr : records d id = some r) : r.status = .revoked := by
  obtain ⟨r', hr', hst⟩ := hid
  rw [hr] at hr'
  cases hr'
  exact hst

theorem RevokedIssuer.step (hid : RevokedIssuer d id) (h : IssuerRegistry.Effect env d c v d' events) :
    RevokedIssuer d' id := by
  obtain ⟨r, hr, hst⟩ := hid
  rcases h.change.revoked hr hst with hkept | ⟨_, hagain⟩
  · exact ⟨r, hkept, hst⟩
  · exact ⟨_, hagain, hst⟩

theorem rotation_needs {b : Address}
    (h : IssuerRegistry.Effect env d (.rotateIssuerAddress id b) v d' events) :
    ∃ r, records d id = some r ∧ r.status ≠ .revoked ∧ isValidPrincipalAddress b = true ∧
      index d b = none := by
  obtain ⟨_, r, _, hvalid, _, hr, hst, _, hfree, _⟩ := h
  exact ⟨r, hr, hst, hvalid, hfree⟩

theorem Fixed.step {D : IssuerDirectory} (hD : Keeps d D) (ha : Fixed d a)
    (h : IssuerRegistry.Effect env d c v d' events) : Fixed d' a := by
  obtain ⟨hbound, hfixed⟩ := ha
  have hsame : index d' a = index d a := by
    rcases h.change.binding hD a with hsame | ⟨id, b, rfl, _, hid, _⟩ | ⟨_, _, hfree, _⟩
    · exact hsame
    · obtain ⟨r, hr, hst, hvalid, hfree⟩ := rotation_needs h
      exact absurd ⟨id, r, b, hid, hr, hst, hvalid, hfree⟩ hfixed
    · exact absurd hfree hbound
  refine ⟨hsame ▸ hbound, fun hmovable => ?_⟩
  obtain ⟨id, r', b, hid, hr', hst', hvalid, hfree'⟩ := hmovable
  rw [hsame] at hid
  have hgrounded : ∃ r, records d id = some r := by
    rw [hD.index] at hid
    obtain ⟨r, hr, _⟩ := D.grounded hid
    exact ⟨r, by rw [hD.records, hr]⟩
  obtain ⟨r, hr⟩ := hgrounded
  have hst : r.status ≠ .revoked := by
    intro hrevoked
    have hlast : RevokedIssuer d' id := RevokedIssuer.step ⟨r, hr, hrevoked⟩ h
    exact hst' (hlast.status hr')
  -- `b` was free before, or the call released it by a rotation to an address that was.
  rcases h.change.binding hD b with hsameb | ⟨id₂, b₂, rfl, _⟩ | ⟨_, _, hfree, _⟩
  · exact hfixed ⟨id, r, b, hid, hr, hst, hvalid, hsameb ▸ hfree'⟩
  · obtain ⟨_, _, _, hvalid₂, hfree₂⟩ := rotation_needs h
    exact hfixed ⟨id, r, b₂, hid, hr, hst, hvalid₂, hfree₂⟩
  · exact hfixed ⟨id, r, b, hid, hr, hst, hvalid, hfree⟩

end

/-! ### What refuses a call for good -/

def RevokedProof (d : Entries ProofRegistry.DataKey.Value) (id : BytesN 32) : Prop :=
  ∃ r, proofs d id = some r ∧ r.status = .revoked

theorem RevokedProof.status {d : Entries ProofRegistry.DataKey.Value} {id : BytesN 32}
    (hid : RevokedProof d id) {r : ProofRecord} (hr : proofs d id = some r) : r.status = .revoked := by
  obtain ⟨r', hr', hst⟩ := hid
  rw [hr] at hr'
  cases hr'
  exact hst

theorem RevokedProof.step {W : Type} {clients : ProofRegistry.Clients W} {env : Env}
    {d d' : Entries ProofRegistry.DataKey.Value} {w w' : W} {c : ProofRegistry.Call} {v : Value}
    {events : List ProofRegistry.Event} {id : BytesN 32} (hid : RevokedProof d id)
    (h : ProofRegistry.Effect clients env d w c v d' events w') : RevokedProof d' id := by
  obtain ⟨r, hr, hst⟩ := hid
  obtain ⟨r', hr', hlast⟩ := h.change.recorded hr
  exact ⟨r', hr', hlast hst⟩

/-- What is stored already refuses the call. -/
def Stuck (x : Values) : Call → Prop
  | .config (.initializeContract _) => x.config .inst .admin ≠ none
  | .issuers (.initializeContract _) => x.issuers .inst .admin ≠ none
  | .issuers (.registerIssuer id a _) => records x.issuers id ≠ none ∨ Fixed x.issuers a
  | .issuers (.rotateIssuerAddress id a) => RevokedIssuer x.issuers id ∨ Fixed x.issuers a
  | .issuers (.updateIssuer id _) | .issuers (.suspendIssuer id) | .issuers (.reactivateIssuer id) =>
    RevokedIssuer x.issuers id
  | .proofs (.initializeContract _ _ _) => x.proofs .inst .admin ≠ none
  | .proofs (.registerProof id _ _ _ _) => proofs x.proofs id ≠ none
  | .proofs (.revokeProof id) | .proofs (.adminRevokeProof id) => RevokedProof x.proofs id
  | _ => False

section
variable {dep : Deployment} {env : Env} {x x' : Values} {c : Call} {v : Value}

theorem Stuck.refused (hc : Stuck x c) : ¬ Effect dep env x c v x' := by
  intro h
  unfold Stuck at hc
  split at hc
  · obtain ⟨_, ⟨hnone, _⟩, _⟩ := h
    exact hc hnone
  · obtain ⟨_, ⟨hnone, _⟩, _⟩ := h
    exact hc hnone
  · obtain ⟨_, ⟨_, _, _, _, hid, hfree, _⟩, _⟩ := h
    rcases hc with hc | hc
    · exact hc hid
    · exact hc.1 hfree
  · obtain ⟨_, ⟨_, r, _, _, _, hr, hst, _, hfree, _⟩, _⟩ := h
    rcases hc with hc | hc
    · exact hst (hc.status hr)
    · exact hc.1 hfree
  · obtain ⟨_, ⟨_, r, _, _, hr, hst, _⟩, _⟩ := h
    exact hst (hc.status hr)
  · obtain ⟨_, ⟨_, r, _, _, hr, hst, _⟩, _⟩ := h
    cases hst (hc.status hr)
  · obtain ⟨_, ⟨_, r, _, _, hr, hst, _⟩, _⟩ := h
    cases hst (hc.status hr)
  · obtain ⟨_, ⟨_, hnone, _⟩, _⟩ := h
    exact hc hnone
  · obtain ⟨_, hE, _⟩ := h
    exact hc hE.register_new
  · obtain ⟨_, ⟨_, r, _, hr, _, _, hst, _⟩, _⟩ := h
    exact hst (hc.status hr)
  · obtain ⟨_, ⟨_, r, _, hr, _, _, hst, _⟩, _⟩ := h
    exact hst (hc.status hr)
  · exact hc

/-- What a step keeps. -/
structure Lasts (x x' : Values) : Prop where
  configAdmin : x.config .inst .admin ≠ none → x'.config .inst .admin ≠ none
  issuersAdmin : x.issuers .inst .admin ≠ none → x'.issuers .inst .admin ≠ none
  proofsAdmin : x.proofs .inst .admin ≠ none → x'.proofs .inst .admin ≠ none
  issuer : ∀ id, records x.issuers id ≠ none → records x'.issuers id ≠ none
  revokedIssuer : ∀ id, RevokedIssuer x.issuers id → RevokedIssuer x'.issuers id
  fixed : ∀ a, Fixed x.issuers a → Fixed x'.issuers a
  proof : ∀ id, proofs x.proofs id ≠ none → proofs x'.proofs id ≠ none
  revokedProof : ∀ id, RevokedProof x.proofs id → RevokedProof x'.proofs id

theorem lasts {D : IssuerDirectory} (hD : Keeps x.issuers D) (h : Effect dep env x c v x') :
    Lasts x x' := by
  cases c with
  | config c =>
    obtain ⟨_, hE, hissuers, hproofs⟩ := h
    refine ⟨ProtocolConfig.oneShot.admin_stays hE, ?_, ?_, ?_, ?_, ?_, ?_, ?_⟩ <;>
      simp only [hissuers, hproofs, imp_self, implies_true]
  | issuers c =>
    obtain ⟨_, hE, hconfig, hproofs⟩ := h
    refine ⟨?_, IssuerRegistry.oneShot.admin_stays hE, ?_, fun _ => hE.change.registered,
      fun _ hid => hid.step hE, fun _ ha => ha.step hD hE, ?_, ?_⟩ <;>
      simp only [hconfig, hproofs, imp_self, implies_true]
  | proofs c =>
    obtain ⟨_, hE, hconfig, hissuers⟩ := h
    refine ⟨?_, ?_, fun hadmin => ?_, ?_, ?_, ?_, fun id hid => ?_, fun id hid => hid.step hE⟩
    case refine_3 => rw [(hE.sameWiring hadmin).admin]; exact hadmin
    case refine_7 =>
      obtain ⟨r, hr⟩ := Option.ne_none_iff_exists'.mp hid
      obtain ⟨r', hr', _⟩ := hE.change.recorded hr
      simp [hr']
    all_goals simp only [hconfig, hissuers, imp_self, implies_true]

theorem Stuck.step {D : IssuerDirectory} (hD : Keeps x.issuers D) (h : Effect dep env x c v x')
    {c' : Call} (hc : Stuck x c') : Stuck x' c' := by
  have hlasts := lasts hD h
  unfold Stuck at hc ⊢
  split at hc
  · exact hlasts.configAdmin hc
  · exact hlasts.issuersAdmin hc
  · exact hc.imp (hlasts.issuer _) (hlasts.fixed _)
  · exact hc.imp (hlasts.revokedIssuer _) (hlasts.fixed _)
  · exact hlasts.revokedIssuer _ hc
  · exact hlasts.revokedIssuer _ hc
  · exact hlasts.revokedIssuer _ hc
  · exact hlasts.proofsAdmin hc
  · exact hlasts.proof _ hc
  · exact hlasts.revokedProof _ hc
  · exact hlasts.revokedProof _ hc
  · exact hc

end

/-- A call that is stuck fails whenever it is made. -/
theorem Stuck.run {dep : Deployment} {is : List (Invocation Call)} {c : Call}
    (hc : Stuck ((machine dep).run empty is).values c) (js : List (Invocation Call)) (env : Env) :
    ¬ ((machine dep).reply ⟨c, env⟩ ((machine dep).run empty (is ++ js))).Succeeded := by
  have hrun : (∃ D, Keeps ((machine dep).run empty (is ++ js)).values.issuers D) ∧
      Stuck ((machine dep).run empty (is ++ js)).values c := by
    rw [Machine.run_append]
    refine run_invariant dep (fun x => (∃ D, Keeps x.issuers D) ∧ Stuck x c)
      (fun env x c' v x' hE hx => ?_) ⟨run_keeps dep is, hc⟩ js
    obtain ⟨⟨D, hD⟩, hstuck⟩ := hx
    exact ⟨keepsDirectory dep hE ⟨D, hD⟩, hstuck.step hD hE⟩
  intro hok
  obtain ⟨v, x', hE⟩ := (succeeded_iff dep).mp hok
  exact hrun.2.refused hE

/-! ### The codes that are never retried -/

/-- The catalog tells a client never to retry after this code. A code it does not know is
not among them, though `retryFor` answers the same for it. -/
def Never (code : ErrorCode) : Prop := (spec code).isSome ∧ retryFor code = .never

instance (code : ErrorCode) : Decidable (Never code) := inferInstanceAs (Decidable (_ ∧ _))

@[simp] theorem never_contractError (e : ContractError) : Never e.code ↔
    e = .alreadyInitialized ∨ e = .unauthorized ∨ e = .alreadyExists ∨ e = .invalidState := by
  cases e <;> decide

@[simp] theorem never_issuerError (e : IssuerError) : Never e.code ↔
    e = .issuerAlreadyRegistered ∨ e = .issuerAddressAlreadyRegistered ∨ e = .issuerRevoked ∨
      e = .invalidTransition := by
  cases e <;> decide

@[simp] theorem never_proofError (e : ProofError) : Never e.code ↔
    e = .proofAlreadyRegistered ∨ e = .proofAlreadyRevoked := by
  cases e <;> decide

/-- The call asks for an address that its issuer can be rotated away from. -/
def Releasable (x : Values) : Call → Prop
  | .issuers (.registerIssuer _ a _) | .issuers (.rotateIssuerAddress _ a) => Movable x.issuers a
  | _ => False

/-- If the check fails with a code, the code has the property. -/
def Settles (P : ErrorCode → Prop) (k : Check) : Prop :=
  k.fails = true → ∀ c, k.failure = .error c → P c

section
variable {P : ErrorCode → Prop}

@[simp] theorem settles_error (p : Bool) (c : ErrorCode) :
    Settles P ⟨p, .error c⟩ ↔ (p = true → P c) := by
  simp [Settles]

@[simp] theorem settles_abort (p : Bool) (a : Abort) : Settles P ⟨p, .abort a⟩ := by
  simp [Settles]

@[simp] theorem settles_requireAuth (env : Env) (o : Option Address) :
    Settles P (.requireAuth env o) := settles_abort _ _

theorem governance_settles {K : Type} [DecidableEq K] {V : K → Type} (G : Governance V) (env : Env)
    (d : Entries V) (u : UpgradeCall) : ∀ k ∈ G.checks env d u, Settles P k := by
  cases u <;> simp [Governance.checks]

end

theorem answer_settles {P : ErrorCode → Prop} (answer : Except Abort Bool) (bad : Bool)
    {e : ProofError} (he : P e.code) : ∀ k ∈ ProofRegistry.answerChecks answer bad e, Settles P k := by
  cases answer <;> simp [ProofRegistry.answerChecks, he]

theorem settles_never {dep : Deployment} {env : Env} {x : Values} (call : Call) :
    ∀ k ∈ checks dep env x call, Settles (fun c => Never c →
      ¬ (c = IssuerError.issuerAddressAlreadyRegistered.code ∧ Releasable x call) →
        Stuck x call) k := by
  cases call with
  | config call =>
    cases call with
    | upgrade u => exact governance_settles _ _ _ u
    | _ =>
      simp [checks, ProtocolConfig.checks, ProtocolConfig.configureChecks, Stuck,
        Option.isSome_iff_ne_none] <;>
      grind
  | issuers call =>
    cases call with
    | upgrade u => exact governance_settles _ _ _ u
    | _ =>
      simp [checks, IssuerRegistry.checks, IssuerRegistry.statusChecks, IssuerRegistry.amendChecks,
        Stuck, RevokedIssuer, Releasable, Fixed, records, index, Option.isSome_iff_ne_none,
        Option.any_eq_true] <;>
      grind
  | proofs call =>
    cases call with
    | upgrade u => exact governance_settles _ _ _ u
    | registerProof id cm a n e =>
      rw [checks, ProofRegistry.checks, List.forall_mem_cons]
      refine ⟨by simp, ?_⟩
      split
      · simp only [ProofRegistry.registerChecks, List.forall_mem_append]
        refine ⟨⟨⟨⟨by simp, answer_settles _ _ (by simp)⟩, answer_settles _ _ (by simp)⟩,
          answer_settles _ _ (by simp)⟩, ?_⟩
        simp [Stuck, ProofRegistry.proofs, Option.isSome_iff_ne_none]
        grind
      · simp
    | _ =>
      simp [checks, ProofRegistry.checks, ProofRegistry.revokeChecks, Stuck, RevokedProof,
        ProofRegistry.proofs, Option.isSome_iff_ne_none, Option.any_eq_true] <;>
      grind

/-- A code that is never retried comes from a check of something that stays, but for an
address that is bound and can be released. -/
theorem stuck_of_never {dep : Deployment} {env : Env} {x : Values} {call : Call} {c : ErrorCode}
    (hc : Never c) (h : refusal (checks dep env x call) = some (.error c))
    (hno : ¬ (c = IssuerError.issuerAddressAlreadyRegistered.code ∧ Releasable x call)) :
    Stuck x call := by
  obtain ⟨k, hk, hfails, hfailure⟩ := refusal_mem h
  exact settles_never call k hk hfails c hfailure hc hno

/-! ### Addresses that are released -/

/-- A rotation of the issuer releases the address, and leaves the records of the others
alone. -/
theorem Movable.release {env : Env} {d : Entries IssuerRegistry.DataKey.Value} {D : IssuerDirectory}
    {a admin : Address} (h : Movable d a) (hD : Keeps d D) (hadmin : d .inst .admin = some admin)
    (hs : env.signed admin = true) :
    ∃ j b d' events, IssuerRegistry.Effect env d (.rotateIssuerAddress j b) .unit d' events ∧
      index d' a = none ∧ d' .inst .admin = some admin ∧
      ∀ id, (∀ r, records d id = some r → r.issuerAddress ≠ a) → records d' id = records d id := by
  obtain ⟨j, r, b, hbound, hr, hst, hvalid, hfree⟩ := h
  have haddress : r.issuerAddress = a := by
    rw [hD.index] at hbound
    rw [hD.records] at hr
    obtain ⟨r', hr', ha⟩ := D.grounded hbound
    rw [hr] at hr'
    cases hr'
    exact ha
  have hne : b ≠ a := by
    intro heq
    rw [heq, hbound] at hfree
    cases hfree
  refine ⟨j, b, _, _, ⟨admin, r, hadmin, hvalid, hs, hr, hst, haddress ▸ hne, hfree, rfl, rfl, rfl⟩,
    ?_, ?_, fun id hid => ?_⟩
  · simp [haddress, Ne.symm hne]
  · simp [hadmin]
  · have hid' : id ≠ j := fun heq => hid r (heq ▸ hr) haddress
    simp [hid']

/-- What a registration has passed when it is refused for its address. -/
theorem registration_refused {env : Env} {d : Entries IssuerRegistry.DataKey.Value}
    {id m : BytesN 32} {a : Address}
    (h : refusal (IssuerRegistry.checks env d (.registerIssuer id a m)) =
      some (.error IssuerError.issuerAddressAlreadyRegistered.code)) :
    (∃ admin, d .inst .admin = some admin) ∧ isValidPrincipalAddress a = true ∧
      d .persistent (.issuer id) = none := by
  have hpassed := refusal_last (l := [_, _, _, _]) h (by simp [Check.requireAuth, IssuerError.code])
  simp only [refusal_eq_none, List.forall_mem_cons] at hpassed
  obtain ⟨hadmin, hvalid, _, hid, _⟩ := hpassed
  exact ⟨Option.isSome_iff_exists.mp (by simpa using hadmin), by simpa using hvalid,
    by simpa using hid⟩

/-- What a rotation has passed then. -/
theorem rotation_refused {env : Env} {d : Entries IssuerRegistry.DataKey.Value} {id : BytesN 32}
    {a : Address}
    (h : refusal (IssuerRegistry.checks env d (.rotateIssuerAddress id a)) =
      some (.error IssuerError.issuerAddressAlreadyRegistered.code)) :
    (∃ admin, d .inst .admin = some admin) ∧ isValidPrincipalAddress a = true ∧
      ∃ r : IssuerRecord, d .persistent (.issuer id) = some r ∧ r.status ≠ .revoked ∧
        a ≠ r.issuerAddress := by
  have hpassed := refusal_last (l := [_, _, _, _, _, _]) h
    (by simp [Check.requireAuth, IssuerError.code])
  simp only [refusal_eq_none, List.forall_mem_cons] at hpassed
  obtain ⟨hadmin, hvalid, _, hissuer, hstatus, hne, _⟩ := hpassed
  obtain ⟨r, hr⟩ := Option.isSome_iff_exists.mp (by simpa using hissuer)
  rw [hr] at hstatus hne
  exact ⟨Option.isSome_iff_exists.mp (by simpa using hadmin), by simpa using hvalid, r, hr,
    by simpa using hstatus, by simpa using hne⟩

/-- With every signature a call refused for an address that can be released goes through
once the address is. -/
theorem Movable.accepts {env env' : Env} {d : Entries IssuerRegistry.DataKey.Value}
    {D : IssuerDirectory} {a : Address} {id : BytesN 32} {c : IssuerRegistry.Call} (h : Movable d a)
    (hD : Keeps d D) (hs : ∀ p, env.signed p = true) (hc : c.Binds id a)
    (hrefused : refusal (IssuerRegistry.checks env' d c) =
      some (.error IssuerError.issuerAddressAlreadyRegistered.code)) :
    ∃ c₁ d₁ d₂ e₁ e₂, IssuerRegistry.Effect env d c₁ .unit d₁ e₁ ∧
      IssuerRegistry.Effect env d₁ c .unit d₂ e₂ := by
  cases c with
  | registerIssuer id' a' m =>
    obtain ⟨rfl, rfl⟩ := hc
    obtain ⟨⟨admin, hadmin⟩, hvalid, hid⟩ := registration_refused hrefused
    obtain ⟨j, b, d₁, e₁, hE, hfree, hadmin₁, hrecords⟩ := h.release hD hadmin (hs admin)
    have hid₁ : records d₁ id' = none := (hrecords id' (by simp [records, hid])).trans hid
    exact ⟨_, d₁, _, e₁, _, hE, admin, hadmin₁, hvalid, hs admin, hid₁, hfree, rfl, rfl, rfl⟩
  | rotateIssuerAddress id' a' =>
    obtain ⟨rfl, rfl⟩ := hc
    obtain ⟨⟨admin, hadmin⟩, hvalid, r, hr, hst, hne⟩ := rotation_refused hrefused
    obtain ⟨j, b, d₁, e₁, hE, hfree, hadmin₁, hrecords⟩ := h.release hD hadmin (hs admin)
    have hother : ∀ r', records d id' = some r' → r'.issuerAddress ≠ a' := by
      intro r' hr'
      obtain rfl := Option.some.inj (hr.symm.trans hr')
      exact Ne.symm hne
    have hr₁ : records d₁ id' = some r := (hrecords id' hother).trans hr
    exact ⟨_, d₁, _, e₁, _, hE, admin, r, hadmin₁, hvalid, hs admin, hr₁, hst, hne, hfree, rfl, rfl,
      rfl⟩
  | _ => exact hc.elim

/-- The same for the deployed contracts. -/
theorem release {dep : Deployment} {env env' : Env} {x : Values} {D : IssuerDirectory}
    (hD : Keeps x.issuers D) (hs : ∀ p, env.signed p = true) {call : Call}
    (hrel : Releasable x call)
    (h : refusal (checks dep env' x call) =
      some (.error IssuerError.issuerAddressAlreadyRegistered.code)) :
    ∃ c₁ x₁ x₂, Effect dep env x c₁ .unit x₁ ∧ Effect dep env x₁ call .unit x₂ := by
  have hpack : ∀ {c : IssuerRegistry.Call} {a : Address} {id : BytesN 32}, call = .issuers c →
      c.Binds id a → Movable x.issuers a →
      ∃ c₁ x₁ x₂, Effect dep env x c₁ .unit x₁ ∧ Effect dep env x₁ call .unit x₂ := by
    intro c a id hcall hc hmov
    subst hcall
    obtain ⟨c₁, d₁, d₂, e₁, e₂, h₁, h₂⟩ := hmov.accepts hD hs hc h
    exact ⟨.issuers c₁, ⟨x.config, d₁, x.proofs⟩, ⟨x.config, d₂, x.proofs⟩, ⟨e₁, h₁, rfl, rfl⟩,
      ⟨e₂, h₂, rfl, rfl⟩⟩
  unfold Releasable at hrel
  split at hrel
  · exact hpack rfl ⟨rfl, rfl⟩ hrel
  · exact hpack rfl ⟨rfl, rfl⟩ hrel
  · exact hrel.elim

/-- A call that fails with a code that is never retried fails again after any further
calls, whoever signs, unless it failed because of an address that its issuer can be
rotated away from. -/
theorem never_retried (dep : Deployment) (is : List (Invocation Call)) (i : Invocation Call)
    (c : ErrorCode) (htime : Machine.Chronological Invocation.time (is ++ [i]))
    (hfail : ((machine dep).reply i ((machine dep).run empty is)).outcome = .error (.error c))
    (hknown : (spec c).isSome) (hnever : retryFor c = .never) :
    (∀ js i', i'.call = i.call →
        Machine.Chronological Invocation.time (is ++ [i] ++ js ++ [i']) →
        ¬ ((machine dep).reply i' ((machine dep).run empty (is ++ [i] ++ js))).Succeeded) ↔
      ¬ (c = IssuerError.issuerAddressAlreadyRegistered.code ∧
        Releasable ((machine dep).run empty is).values i.call) := by
  have hc : Never c := ⟨hknown, hnever⟩
  have hsame : (machine dep).run empty (is ++ [i]) = (machine dep).run empty is := by
    rw [Machine.run_snoc]
    rcases step_cases dep i ((machine dep).run empty is) with ⟨v, hv, _⟩ | ⟨_, _, hs, _⟩
    · rw [hv] at hfail
      cases hfail
    · exact hs
  have hrefused := (error_iff dep).mp hfail
  constructor
  · intro hall hrel
    obtain ⟨rfl, hrel⟩ := hrel
    obtain ⟨D, hD⟩ := run_keeps dep is
    let env : Env := {i.env with signed := fun _ => true}
    have hrelease : ∃ c₁ x₁ x₂, Effect dep env ((machine dep).run empty is).values c₁ .unit x₁ ∧
        Effect dep env x₁ i.call .unit x₂ := release hD (fun _ => rfl) hrel hrefused
    obtain ⟨c₁, x₁, x₂, h₁, h₂⟩ := hrelease
    have hfirst : Machine.Chronological Invocation.time (is ++ [i] ++ [⟨c₁, env⟩]) :=
      htime.snoc_same rfl
    have htime' : Machine.Chronological Invocation.time
        (is ++ [i] ++ [⟨c₁, env⟩] ++ [⟨i.call, env⟩]) := hfirst.snoc_same rfl
    refine hall [⟨c₁, env⟩] ⟨i.call, env⟩ rfl htime' ?_
    rw [Machine.run_snoc, hsame, succeeded_iff]
    refine ⟨.unit, x₂, ?_⟩
    have hnext : ((machine dep).next ⟨c₁, env⟩ ((machine dep).run empty is)).values = x₁ :=
      (step_ok dep h₁).2
    rw [hnext]
    exact h₂
  · intro hno js i' hcall _ hok
    have hstuck : Stuck ((machine dep).run empty (is ++ [i])).values i.call := by
      rw [hsame]
      exact stuck_of_never hc hrefused hno
    obtain ⟨call', env'⟩ := i'
    subst hcall
    exact hstuck.run js env' hok

namespace Example
open System.Example

/-- A registration of the id of the first issuer, at another address. -/
def sameId : Invocation Call :=
  ⟨.issuers (.registerIssuer (.fill 32 21) (address .account 3) (.fill 32 31)), signedBy 2 [admin]⟩

/-- A registration at the address of the first issuer, at time `t`. -/
def sameAddress (t : UInt64) : Invocation Call :=
  ⟨.issuers (.registerIssuer (.fill 32 22) issuer (.fill 32 31)), signedBy t [admin]⟩

def rotation : Invocation Call :=
  ⟨.issuers (.rotateIssuerAddress (.fill 32 21) (address .account 4)), signedBy 3 [admin]⟩

end Example

/-- A duplicate id is refused before and after a rotation of its issuer. -/
theorem never_retried_example :
    let m := machine System.Example.deployment
    (m.reply Example.sameId (m.run empty System.Example.setup)).outcome =
        .error (.error IssuerError.issuerAlreadyRegistered.code) ∧
      ¬ (m.reply ⟨Example.sameId.call, System.Example.signedBy 4 [System.Example.admin]⟩
        (m.run empty (System.Example.setup ++ [Example.sameId] ++ [Example.rotation]))).Succeeded := by
  intro m
  have hfail : (m.reply Example.sameId (m.run empty System.Example.setup)).outcome =
      .error (.error IssuerError.issuerAlreadyRegistered.code) := by decide +kernel
  exact ⟨hfail, (never_retried System.Example.deployment _ _ _ (by decide) hfail (by decide)
    (by decide)).mpr
    (fun h => absurd h.1 (by decide)) _ ⟨_, _⟩ rfl (by decide)⟩

/-- A registration refused for its address goes through once the issuer there is rotated
away. -/
theorem rotation_unblocks_registration :
    ¬ ∀ dep is i c, Machine.Chronological Invocation.time (is ++ [i]) →
      ((machine dep).reply i ((machine dep).run empty is)).outcome = .error (.error c) →
      (spec c).isSome → retryFor c = .never →
      ∀ js i', i'.call = i.call →
        Machine.Chronological Invocation.time (is ++ [i] ++ js ++ [i']) →
        ¬ ((machine dep).reply i' ((machine dep).run empty (is ++ [i] ++ js))).Succeeded := by
  intro hall
  have hfail : ((machine System.Example.deployment).reply (Example.sameAddress 2)
      ((machine System.Example.deployment).run empty System.Example.setup)).outcome =
        .error (.error IssuerError.issuerAddressAlreadyRegistered.code) := by decide +kernel
  have hok : ((machine System.Example.deployment).reply (Example.sameAddress 4)
      ((machine System.Example.deployment).run empty (System.Example.setup ++
        [Example.sameAddress 2] ++ [Example.rotation]))).outcome = .ok .unit := by decide +kernel
  exact hall _ _ _ _ (by decide) hfail (by decide) (by decide) [Example.rotation] (Example.sameAddress 4) rfl
    (by decide) ⟨_, hok⟩

end EarnProof.ErrorCatalog

import EarnProof.Initialization.Contracts
import EarnProof.IssuerRegistry.Refusals
import EarnProof.ProofRegistry.History
import EarnProof.ProofRegistry.Refusals
import EarnProof.System.Authority

/-! What a refusal tells a caller who is not authorized.

An unsigned call to an initialized registry fails with something that depends on the
call and the instance entries alone (`unsignedFailure`), with one exception: the two
revocations of the proof registry look the record up before they ask for a signature, so
their refusal tells whether it is there. -/
namespace EarnProof
open Soroban

/-- Two states that differ in persistent entries only. -/
def SameInstance {K : Type} {V : K → Type} (s s' : Storage V) : Prop :=
  ∀ k, s'.entries .inst k = s.entries .inst k

/-- Two initialized states with the same instance entries, and a call that can change
something and carries, in either, no signature that would authorize it. -/
structure Unauthorized {K C : Type} {V : K → Type} (G : Governance V) (mutates : C → Bool)
    (authorized : Entries V → C → Option Address) (s s' : Storage V) (c : C) (env : Env) :
    Prop where
  initialized : G.admin.read s.entries ≠ none
  sameInstance : SameInstance s s'
  mutates : mutates c = true
  unsigned : ∀ p, authorized s.entries c = some p → env.signed p = false
  unsigned' : ∀ p, authorized s'.entries c = some p → env.signed p = false

namespace IssuerRegistry

/-- Whose signature lets a call through; nobody's does to initialize again. -/
def authorized (d : Entries DataKey.Value) (c : Call) : Option Address :=
  if c.initializes then none else principal d c

/-- How a call without that signature fails once there is an admin. -/
def Call.unsignedFailure : Call → Failure ErrorCode
  | .initializeContract _ => .error ContractError.alreadyInitialized.code
  | .registerIssuer _ a _ | .rotateIssuerAddress _ a =>
    if isValidPrincipalAddress a then .abort .auth else .error IssuerError.invalidAddress.code
  | _ => .abort .auth

theorem refusal_of_unsigned {env : Env} {d : Entries DataKey.Value} {c : Call} {admin : Address}
    (ha : d .inst .admin = some admin) (hm : c.mutates = true)
    (hs : ∀ p, authorized d c = some p → env.signed p = false) :
    refusal (checks env d c) = some c.unsignedFailure := by
  cases c with
  | initializeContract a => simp [checks, Call.unsignedFailure, ha]
  | registerIssuer id a m =>
    have hadmin : env.signed admin = false := hs admin ha
    cases hv : isValidPrincipalAddress a <;>
      simp [checks, Call.unsignedFailure, Check.requireAuth, ha, hadmin, hv]
  | rotateIssuerAddress id a =>
    have hadmin : env.signed admin = false := hs admin ha
    cases hv : isValidPrincipalAddress a <;>
      simp [checks, Call.unsignedFailure, Check.requireAuth, ha, hadmin, hv]
  | upgrade u =>
    have hadmin : env.signed admin = false := hs admin ((if_pos hm).trans ha)
    cases u with
    | getContractVersion => cases hm
    | isUpgradeAllowed h => cases hm
    | _ => simp [checks, Governance.checks, Call.unsignedFailure, Check.requireAuth, ha, hadmin]
  | updateIssuer id m =>
    have hadmin : env.signed admin = false := hs admin ha
    simp [checks, amendChecks, Call.unsignedFailure, Check.requireAuth, ha, hadmin]
  | suspendIssuer id =>
    have hadmin : env.signed admin = false := hs admin ha
    simp [checks, statusChecks, amendChecks, Call.unsignedFailure, Check.requireAuth, ha, hadmin]
  | reactivateIssuer id =>
    have hadmin : env.signed admin = false := hs admin ha
    simp [checks, statusChecks, amendChecks, Call.unsignedFailure, Check.requireAuth, ha, hadmin]
  | revokeIssuer id =>
    have hadmin : env.signed admin = false := hs admin ha
    simp [checks, statusChecks, amendChecks, Call.unsignedFailure, Check.requireAuth, ha, hadmin]
  | _ => cases hm

theorem outcome_of_unsigned {self admin : Address} {env : Env} {s : Storage DataKey.Value}
    {c : Call} (ha : s.entries .inst .admin = some admin) (hm : c.mutates = true)
    (hs : ∀ p, authorized s.entries c = some p → env.signed p = false) :
    ((machine self).reply ⟨c, env⟩ s).outcome = .error c.unsignedFailure :=
  (contractAt_error_iff program_refuses).mpr (refusal_of_unsigned ha hm hs)

/-- The refusal of an unauthorized call does not depend on the records. -/
theorem unauthorized_outcome {self : Address} {s s' : Storage DataKey.Value} {c : Call} {env : Env}
    (h : Unauthorized governance Call.mutates authorized s s' c env) :
    ((machine self).reply ⟨c, env⟩ s).outcome = ((machine self).reply ⟨c, env⟩ s').outcome := by
  obtain ⟨admin, ha⟩ := Option.ne_none_iff_exists'.mp h.initialized
  have ha' : s'.entries .inst .admin = some admin := (h.sameInstance _).trans ha
  rw [outcome_of_unsigned ha h.mutates h.unsigned, outcome_of_unsigned ha' h.mutates h.unsigned']

end IssuerRegistry

namespace ProofRegistry

/-- Whose signature lets a call through; nobody's does to initialize again. -/
def authorized (d : Entries DataKey.Value) (c : Call) : Option Address :=
  if c.initializes then none else principal d c

/-- The record a call looks up before it asks for a signature. -/
def Call.looksUp : Call → Option (BytesN 32)
  | .revokeProof id | .adminRevokeProof id => some id
  | .initializeContract _ _ _ | .registerProof _ _ _ _ _ | .getProof _ | .isValidProof _
  | .isRevoked _ | .getAdmin | .getIssuerRegistry | .getProtocolConfig | .upgrade _ => none

/-- How a call without that signature fails once there is an admin. -/
def unsignedFailure (self : Address) (d : Entries DataKey.Value) : Call → Failure ErrorCode
  | .initializeContract _ _ _ => .error ContractError.alreadyInitialized.code
  | .registerProof _ _ a _ _ =>
    if isValidPrincipalAddress a && a != self && d .inst .protocolConfig != some a &&
        d .inst .issuerRegistry != some a then .abort .auth
    else .error ProofError.invalidAddress.code
  | .revokeProof id | .adminRevokeProof id =>
    if (d .persistent (.proof id)).isSome then .abort .auth
    else .error ProofError.proofNotFound.code
  | _ => .abort .auth

variable {W : Type} {clients : Clients W} {env : Env} {d : Entries DataKey.Value} {w : W} {c : Call}

theorem refusal_of_unsigned {admin : Address} (hwiring : Wiring d)
    (ha : d .inst .admin = some admin) (hm : c.mutates = true)
    (hs : ∀ p, authorized d c = some p → env.signed p = false) :
    refusal (checks clients env d w c) = some (unsignedFailure env.currentContract d c) := by
  cases c with
  | initializeContract a i p => simp [checks, unsignedFailure, ha]
  | registerProof id cm a n e =>
    have hissuer : env.signed a = false := hs a rfl
    have hcfg : d .inst .protocolConfig ≠ none := fun hnone => by
      rw [hwiring.protocolConfig.mp hnone] at ha
      cases ha
    have hreg : d .inst .issuerRegistry ≠ none := fun hnone => by
      rw [hwiring.issuerRegistry.mp hnone] at ha
      cases ha
    obtain ⟨cfg, hcfg⟩ := Option.ne_none_iff_exists'.mp hcfg
    obtain ⟨reg, hreg⟩ := Option.ne_none_iff_exists'.mp hreg
    simp only [checks, hcfg, hreg, registerChecks, Check.requireAuth, List.cons_append, refusal_cons,
      unsignedFailure]
    grind
  | revokeProof id =>
    cases hr : d .persistent (.proof id) with
    | none => simp [checks, revokeChecks, unsignedFailure, hr]
    | some r =>
      have hissuer : env.signed (ProofRecord.issuerAddress r) = false := by
        refine hs _ ?_
        have hrec : proofs d id = some r := hr
        simp [authorized, Call.initializes, principal, hrec]
      simp [checks, revokeChecks, unsignedFailure, Check.requireAuth, hr, hissuer]
  | adminRevokeProof id =>
    have hadmin : env.signed admin = false := hs admin ha
    cases hr : d .persistent (.proof id) <;>
      simp [checks, revokeChecks, unsignedFailure, Check.requireAuth, hr, ha, hadmin]
  | upgrade u =>
    have hadmin : env.signed admin = false := hs admin ((if_pos hm).trans ha)
    cases u with
    | getContractVersion => cases hm
    | isUpgradeAllowed h => cases hm
    | _ => simp [checks, Governance.checks, unsignedFailure, Check.requireAuth, ha, hadmin]
  | _ => cases hm

theorem outcome_of_unsigned {self admin : Address} {s : Storage DataKey.Value}
    {clients : Clients Unit} (hwiring : Wiring s.entries) (ha : s.entries .inst .admin = some admin)
    (hm : c.mutates = true) (hs : ∀ p, authorized s.entries c = some p → env.signed p = false) :
    ((machine self).reply ⟨⟨c, clients⟩, env⟩ s).outcome =
      .error (unsignedFailure self s.entries c) := by
  have hrefuses : ∀ r : Request, Refuses (r.call.program r.clients)
      (fun env d w => checks r.clients env d w r.call) (leftover r.call) :=
    fun r => program_refuses r.clients r.call
  exact (contractAt_error_iff hrefuses).mpr (refusal_of_unsigned hwiring ha hm hs)

/-- The failures in two states with the same instance entries are the same unless a record
is looked up that only one of them has. -/
theorem unsignedFailure_eq_iff {self : Address} {d d' : Entries DataKey.Value}
    (hsame : ∀ k, d' .inst k = d .inst k) :
    unsignedFailure self d c = unsignedFailure self d' c ↔
      ∀ id, c.looksUp = some id →
        ((d .persistent (.proof id)).isSome = (d' .persistent (.proof id)).isSome) := by
  have hlookup : ∀ id, (unsignedFailure self d (.revokeProof id) =
      unsignedFailure self d' (.revokeProof id) ↔
      (d .persistent (.proof id)).isSome = (d' .persistent (.proof id)).isSome) := by
    intro id
    cases hr : d .persistent (.proof id) <;> cases hr' : d' .persistent (.proof id) <;>
      simp [unsignedFailure, hr, hr']
  cases c with
  | revokeProof id => simpa [Call.looksUp] using hlookup id
  | adminRevokeProof id =>
    show unsignedFailure self d (.revokeProof id) = unsignedFailure self d' (.revokeProof id) ↔ _
    simpa [Call.looksUp] using hlookup id
  | registerProof id cm a n e => simp [unsignedFailure, Call.looksUp, hsame]
  | _ => simp [unsignedFailure, Call.looksUp]

theorem next_sameInstance (self : Address) {i : Invocation Request} (s : Storage DataKey.Value)
    (hc : i.call.call.initializes = false) (hu : ∀ u, i.call.call ≠ .upgrade u) :
    SameInstance s ((machine self).next i s) := by
  intro k
  rcases step_cases self i s with ⟨v, _, hE⟩ | ⟨e, _, hs, _⟩
  · exact Effect.instance hE hc hu k
  · rw [hs]

namespace Example

/-- The registry before a proof is registered. -/
def initialized : List (Invocation Request) := registered.take 1

def nobody : Env := {Example.env 3 with signed := fun _ => false}

theorem unauthorized {c : Call} (hm : c.mutates = true) :
    Unauthorized governance Call.mutates authorized
      ((machine (account 9)).run Storage.empty initialized)
      ((machine (account 9)).run Storage.empty registered) c nobody where
  initialized := by
    have hadmin : ((machine (account 9)).run Storage.empty initialized).entries .inst .admin =
        some (account 1) := by decide +kernel
    rw [read_admin, hadmin]
    simp
  sameInstance := next_sameInstance (account 9) _ rfl (by simp)
  mutates := hm
  unsigned := fun _ _ => rfl
  unsigned' := fun _ _ => rfl

end Example
end ProofRegistry

/-- For an unauthorized caller the issuer registry answers the same whatever records it
holds, and the proof registry does exactly as long as no revocation names a record that
only one of the states has. -/
theorem refusals_disclose (self : Address) :
    (∀ is js c env,
      let m := IssuerRegistry.machine self
      let s := m.run Storage.empty is
      let s' := m.run Storage.empty js
      Unauthorized IssuerRegistry.governance IssuerRegistry.Call.mutates IssuerRegistry.authorized
        s s' c env → (m.reply ⟨c, env⟩ s).outcome = (m.reply ⟨c, env⟩ s').outcome) ∧
    ∀ is js c env clients clients',
      let m := ProofRegistry.machine self
      let s := m.run Storage.empty is
      let s' := m.run Storage.empty js
      Unauthorized ProofRegistry.governance ProofRegistry.Call.mutates ProofRegistry.authorized
        s s' c env →
      ((m.reply ⟨⟨c, clients⟩, env⟩ s).outcome = (m.reply ⟨⟨c, clients'⟩, env⟩ s').outcome ↔
        ∀ id, c.looksUp = some id → (s.entries .persistent (.proof id)).isSome =
          (s'.entries .persistent (.proof id)).isSome) := by
  refine ⟨?_, ?_⟩
  · intro is js c env m s s' h
    exact IssuerRegistry.unauthorized_outcome h
  intro is js c env clients clients' m s s' h
  obtain ⟨admin, ha⟩ := Option.ne_none_iff_exists'.mp h.initialized
  have ha' : s'.entries .inst .admin = some admin := (h.sameInstance _).trans ha
  rw [ProofRegistry.outcome_of_unsigned (ProofRegistry.run_wiring self is) ha h.mutates h.unsigned,
    ProofRegistry.outcome_of_unsigned (ProofRegistry.run_wiring self js) ha' h.mutates h.unsigned',
    Except.error.injEq]
  exact ProofRegistry.unsignedFailure_eq_iff h.sameInstance

/-- Without a signature, revoking a proof that neither state has fails alike in both. -/
theorem refusals_disclose_example :
    let m := ProofRegistry.machine (ProofRegistry.Example.account 9)
    let s := m.run Storage.empty ProofRegistry.Example.initialized
    let s' := m.run Storage.empty ProofRegistry.Example.registered
    let i : Invocation ProofRegistry.Request :=
      ⟨⟨.revokeProof (.fill 32 70), ProofRegistry.Example.clients⟩, ProofRegistry.Example.nobody⟩
    (m.reply i s).outcome = (m.reply i s').outcome := by
  refine ((refusals_disclose (ProofRegistry.Example.account 9)).2 _ _ _ _ _ _
    (ProofRegistry.Example.unauthorized rfl)).mpr ?_
  intro id hid
  cases hid
  decide +kernel

/-- Without a signature, `admin_revoke_proof` answers `ProofNotFound` where there is no
record and is refused by the host where there is one. -/
theorem revocation_discloses :
    let m := ProofRegistry.machine (ProofRegistry.Example.account 9)
    let s := m.run Storage.empty ProofRegistry.Example.initialized
    let s' := m.run Storage.empty ProofRegistry.Example.registered
    let c : ProofRegistry.Call := .adminRevokeProof (.fill 32 7)
    let i : Invocation ProofRegistry.Request :=
      ⟨⟨c, ProofRegistry.Example.clients⟩, ProofRegistry.Example.nobody⟩
    Unauthorized ProofRegistry.governance ProofRegistry.Call.mutates ProofRegistry.authorized s s' c
        ProofRegistry.Example.nobody ∧
      (m.reply i s).outcome = .error (.error ProofError.proofNotFound.code) ∧
      (m.reply i s').outcome = .error (.abort .auth) :=
  ⟨ProofRegistry.Example.unauthorized rfl, by decide +kernel, by decide +kernel⟩

end EarnProof

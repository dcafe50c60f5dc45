import EarnProof.Errors.Catalog
import EarnProof.System.Gate
import EarnProof.System.Refusals

/-! The codes the deployed contracts fail with, against the published table.

Every code a call fails with is published as returned, but for the two that reject an
address: `RejectsAddress` says when those come. Every code published as returned comes
from some failing call, and no reserved one does. -/
namespace EarnProof.ErrorCatalog
open Soroban EarnProof.System

/-- The code is published, as returned, in its own domain. -/
def Documented (code : ErrorCode) : Prop :=
  ∃ entry, spec code = some entry ∧ entry.status = .returned ∧ entry.domain = domainFor code

theorem documented_iff {code : ErrorCode} :
    Documented code ↔ (spec code).any (fun entry => entry.status == .returned) = true := by
  cases h : spec code with
  | none => simp [Documented, h]
  | some entry =>
    obtain ⟨hmem, hcode⟩ := spec_eq_some.mp h
    have hdomain : entry.domain = domainFor code := by rw [domain_eq hmem, hcode]
    simp [Documented, h, hdomain]

instance (code : ErrorCode) : Decidable (Documented code) := decidable_of_iff _ documented_iff.symm

/-- A check fails with one of `codes` if it fails with a code. -/
def FailsWithin (codes : List ErrorCode) (k : Check) : Prop :=
  ∀ c, k.failure = .error c → c ∈ codes

@[simp] theorem failsWithin_error (codes : List ErrorCode) (p : Bool) (c : ErrorCode) :
    FailsWithin codes ⟨p, .error c⟩ ↔ c ∈ codes := by
  simp [FailsWithin]

@[simp] theorem failsWithin_abort (codes : List ErrorCode) (p : Bool) (a : Abort) :
    FailsWithin codes ⟨p, .abort a⟩ := by
  simp [FailsWithin]

@[simp] theorem failsWithin_requireAuth (codes : List ErrorCode) (env : Env) (o : Option Address) :
    FailsWithin codes (.requireAuth env o) := failsWithin_abort _ _ _

/-- Governance fails with no code. -/
theorem governance_failsWithin {K : Type} [DecidableEq K] {V : K → Type} (G : Governance V)
    (codes : List ErrorCode) (env : Env) (d : Entries V) (u : UpgradeCall) :
    ∀ k ∈ G.checks env d u, FailsWithin codes k := by
  cases u <;> simp [Governance.checks]

/-- The codes a call can fail with. -/
def configCodes : ProtocolConfig.Call → List ContractError
  | .initializeContract _ => [.alreadyInitialized, .invalidInput]
  | .getAdmin | .pause | .unpause => [.notInitialized]
  | .setAdmin _ | .approveSchemaVersion _ | .deprecateSchemaVersion _ =>
    [.notInitialized, .invalidInput]
  | .isPaused | .isSchemaVersionApproved _ | .getConfigVersion | .upgrade _ => []

def issuerCodes : IssuerRegistry.Call → List ErrorCode
  | .initializeContract _ =>
    [ContractError.alreadyInitialized, .invalidInput].map ContractError.code
  | .getAdmin => [ContractError.notInitialized.code]
  | .registerIssuer _ _ _ =>
    [IssuerError.issuerNotFound, .invalidAddress, .issuerAlreadyRegistered,
      .issuerAddressAlreadyRegistered].map IssuerError.code
  | .updateIssuer _ _ => [IssuerError.issuerNotFound, .issuerRevoked].map IssuerError.code
  | .suspendIssuer _ | .reactivateIssuer _ | .revokeIssuer _ =>
    [IssuerError.issuerNotFound, .invalidTransition].map IssuerError.code
  | .rotateIssuerAddress _ _ =>
    [IssuerError.issuerNotFound, .invalidAddress, .issuerRevoked,
      .issuerAddressAlreadyRegistered].map IssuerError.code
  | .getIssuer _ => [IssuerError.issuerNotFound.code]
  | .getIssuerByAddress _ =>
    [IssuerError.issuerAddressNotFound, .issuerNotFound].map IssuerError.code
  | .isActiveIssuer _ | .isActiveAddress _ | .upgrade _ => []

def proofCodes : ProofRegistry.Call → List ErrorCode
  | .initializeContract _ _ _ =>
    [ContractError.alreadyInitialized, .invalidInput].map ContractError.code
  | .registerProof _ _ _ _ _ =>
    [ProofError.invalidAddress, .proofNotFound, .invalidSchemaVersion, .proofExpired,
      .schemaVersionNotApproved, .proofAlreadyRegistered].map ProofError.code
  | .revokeProof _ | .adminRevokeProof _ =>
    [ProofError.proofNotFound, .proofAlreadyRevoked].map ProofError.code
  | .getProof _ => [ProofError.proofNotFound.code]
  | .isValidProof _ | .isRevoked _ | .upgrade _ => []
  | .getAdmin | .getIssuerRegistry | .getProtocolConfig => [ContractError.notInitialized.code]

def codes : Call → List ErrorCode
  | .config c => (configCodes c).map ContractError.code
  | .issuers c => issuerCodes c
  | .proofs c => proofCodes c

theorem config_failsWithin (env : Env) (d : Entries ProtocolConfig.DataKey.Value)
    (c : ProtocolConfig.Call) :
    ∀ k ∈ ProtocolConfig.checks env d c, FailsWithin (codes (.config c)) k := by
  cases c with
  | upgrade u => exact governance_failsWithin _ _ env d u
  | _ => simp [ProtocolConfig.checks, ProtocolConfig.configureChecks, codes, configCodes]

theorem issuers_failsWithin (env : Env) (d : Entries IssuerRegistry.DataKey.Value)
    (c : IssuerRegistry.Call) :
    ∀ k ∈ IssuerRegistry.checks env d c, FailsWithin (issuerCodes c) k := by
  cases c with
  | upgrade u => exact governance_failsWithin _ _ env d u
  | _ => simp [IssuerRegistry.checks, IssuerRegistry.statusChecks, IssuerRegistry.amendChecks,
      issuerCodes]

theorem proofs_failsWithin {W : Type} (clients : ProofRegistry.Clients W) (env : Env)
    (d : Entries ProofRegistry.DataKey.Value) (w : W) (c : ProofRegistry.Call) :
    ∀ k ∈ ProofRegistry.checks clients env d w c, FailsWithin (proofCodes c) k := by
  have hanswer : ∀ {l : List ErrorCode} answer bad (e : ProofError), e.code ∈ l →
      ∀ k ∈ ProofRegistry.answerChecks answer bad e, FailsWithin l k := by
    intro l answer bad e he
    cases answer <;> simp [ProofRegistry.answerChecks, he]
  cases c with
  | upgrade u => exact governance_failsWithin _ _ env d u
  | registerProof id cm a n e =>
    rw [ProofRegistry.checks, List.forall_mem_cons]
    refine ⟨by simp [proofCodes], ?_⟩
    split
    · simp only [ProofRegistry.registerChecks, List.forall_mem_append]
      refine ⟨⟨⟨⟨?_, hanswer _ _ _ ?_⟩, hanswer _ _ _ ?_⟩, hanswer _ _ _ ?_⟩, ?_⟩ <;>
      simp [proofCodes]
    · simp [proofCodes]
  | _ => simp [ProofRegistry.checks, ProofRegistry.revokeChecks, proofCodes]

section
variable (dep : Deployment)

/-- A call fails with no other code than these. -/
theorem refusal_mem_codes {env : Env} {x : Values} {call : Call} {c : ErrorCode}
    (h : refusal (checks dep env x call) = some (.error c)) : c ∈ codes call := by
  obtain ⟨k, hk, -, hfailure⟩ := refusal_mem h
  cases call with
  | config call => exact config_failsWithin _ _ call k hk c hfailure
  | issuers call => exact issuers_failsWithin _ _ call k hk c hfailure
  | proofs call => exact proofs_failsWithin _ _ _ _ call k hk c hfailure

/-- The codes of a rejected address. -/
def addressCodes : List ErrorCode := [IssuerError.invalidAddress.code, ProofError.invalidAddress.code]

/-- Every code is published as returned, or rejects an address. -/
theorem documented_of_mem_codes {call : Call} {c : ErrorCode} (h : c ∈ codes call) :
    Documented c ∨ c ∈ addressCodes := by
  have hall : (codes call).all (fun c => decide (Documented c ∨ c ∈ addressCodes)) = true := by
    rcases call with c | c | c <;> cases c <;> rfl
  exact of_decide_eq_true (List.all_eq_true.mp hall c h)

theorem spec_of_addressCodes {c : ErrorCode} (h : c ∈ addressCodes) : spec c = none := by
  rcases List.mem_pair.mp h with rfl | rfl <;> rfl

theorem config_addressCodes {call : ProtocolConfig.Call} {c : ErrorCode}
    (h : c ∈ codes (.config call)) : c ∉ addressCodes := by
  have hall : (codes (.config call)).all (fun c => decide (c ∉ addressCodes)) = true := by
    cases call <;> rfl
  exact of_decide_eq_true (List.all_eq_true.mp hall c h)

theorem issuers_addressCodes {call : IssuerRegistry.Call} {c : ErrorCode}
    (h : c ∈ codes (.issuers call)) (hc : c ∈ addressCodes) :
    c = IssuerError.invalidAddress.code := by
  have hall : (codes (.issuers call)).all
      (fun c => decide (c ∈ addressCodes → c = IssuerError.invalidAddress.code)) = true := by
    cases call <;> rfl
  exact of_decide_eq_true (List.all_eq_true.mp hall c h) hc

theorem proofs_addressCodes {call : ProofRegistry.Call} {c : ErrorCode}
    (h : c ∈ codes (.proofs call)) (hc : c ∈ addressCodes) :
    c = ProofError.invalidAddress.code := by
  have hall : (codes (.proofs call)).all
      (fun c => decide (c ∈ addressCodes → c = ProofError.invalidAddress.code)) = true := by
    cases call <;> rfl
  exact of_decide_eq_true (List.all_eq_true.mp hall c h) hc

/-- The call gets as far as an address check that its address does not pass. -/
def RejectsAddress (env : Env) (x : Values) : Call → Prop
  | .issuers (.registerIssuer _ a _) =>
    (x.issuers .inst .admin).isSome ∧ isValidPrincipalAddress a = false
  | .issuers (.rotateIssuerAddress id a) =>
    ∃ admin, x.issuers .inst .admin = some admin ∧
      (isValidPrincipalAddress a = false ∨ env.signed admin = true ∧
        ∃ r : IssuerRecord, x.issuers .persistent (.issuer id) = some r ∧ r.status ≠ .revoked ∧
          r.issuerAddress = a)
  | .proofs (.registerProof _ _ a _ _) =>
    isValidPrincipalAddress a = false ∨
      ∃ cfg reg, x.proofs .inst .protocolConfig = some cfg ∧
        x.proofs .inst .issuerRegistry = some reg ∧ (a = dep.proofRegistry ∨ a = cfg ∨ a = reg)
  | _ => False

theorem issuers_rejectsAddress {env : Env} {x : Values} {c : IssuerRegistry.Call} :
    refusal (checks dep env x (.issuers c)) = some (.error IssuerError.invalidAddress.code) ↔
      RejectsAddress dep env x (.issuers c) := by
  cases c with
  | registerIssuer id a m =>
    cases hadmin : x.issuers .inst .admin <;> cases hv : isValidPrincipalAddress a <;>
      simp [checks, IssuerRegistry.checks, RejectsAddress, IssuerError.code, Check.requireAuth,
        hadmin, hv]
    grind
  | rotateIssuerAddress id a =>
    cases hadmin : x.issuers .inst .admin <;> cases hr : x.issuers .persistent (.issuer id) <;>
      simp [checks, IssuerRegistry.checks, RejectsAddress, IssuerError.code, Check.requireAuth,
        hadmin, hr] <;>
      grind
  | _ =>
    refine iff_of_false (fun h => ?_) id
    have hmem := refusal_mem_codes dep h
    revert hmem
    simp only [codes, issuerCodes]
    decide

theorem registerChecks_rejectsAddress {W : Type} (clients : ProofRegistry.Clients W) (env : Env)
    (d : Entries ProofRegistry.DataKey.Value) (w : W) (cfg reg : Address) (id : BytesN 32)
    (a : Address) (n : UInt32) (e : UInt64) :
    refusal (ProofRegistry.registerChecks clients env d w cfg reg id a n e) =
        some (.error ProofError.invalidAddress.code) ↔
      a = env.currentContract ∨ a = cfg ∨ a = reg := by
  have hanswer : ∀ answer bad (e : ProofError), e ≠ .invalidAddress →
      ∀ k ∈ ProofRegistry.answerChecks answer bad e,
        k.failure ≠ .error ProofError.invalidAddress.code := by
    intro answer bad e he
    cases answer <;> cases e <;> simp_all [ProofRegistry.answerChecks, ProofError.code]
  simp only [ProofRegistry.registerChecks, List.append_assoc]
  rw [refusal_append_eq]
  · simp [ProofError.code, Check.requireAuth]
    grind
  · simp only [List.forall_mem_append]
    exact ⟨hanswer _ _ _ (by simp), hanswer _ _ _ (by simp), hanswer _ _ _ (by simp),
      by simp [ProofError.code]⟩

theorem proofs_rejectsAddress {env : Env} {x : Values} {c : ProofRegistry.Call} :
    refusal (checks dep env x (.proofs c)) = some (.error ProofError.invalidAddress.code) ↔
      RejectsAddress dep env x (.proofs c) := by
  cases c with
  | registerProof id cm a n e =>
    cases hv : isValidPrincipalAddress a with
    | false => simp [checks, ProofRegistry.checks, RejectsAddress, hv]
    | true =>
      cases hcfg : x.proofs .inst .protocolConfig <;> cases hreg : x.proofs .inst .issuerRegistry <;>
        simp [checks, ProofRegistry.checks, RejectsAddress, hv, hcfg, hreg, ProofError.code]
      exact registerChecks_rejectsAddress _ _ _ _ _ _ _ _ _ _
  | _ =>
    refine iff_of_false (fun h => ?_) id
    have hmem := refusal_mem_codes dep h
    revert hmem
    simp only [codes, proofCodes]
    decide

/-- A call that rejects an address, and no other, fails with a code of `addressCodes`. -/
theorem rejectsAddress_iff {env : Env} {x : Values} {call : Call} :
    (∃ c ∈ addressCodes, refusal (checks dep env x call) = some (.error c)) ↔
      RejectsAddress dep env x call := by
  constructor
  · intro h
    obtain ⟨c, hc, hrefused⟩ := h
    have hcode := refusal_mem_codes dep hrefused
    cases call with
    | config call => exact absurd hc (config_addressCodes hcode)
    | issuers call =>
      obtain rfl := issuers_addressCodes hcode hc
      exact (issuers_rejectsAddress dep).mp hrefused
    | proofs call =>
      obtain rfl := proofs_addressCodes hcode hc
      exact (proofs_rejectsAddress dep).mp hrefused
  · intro h
    cases call with
    | config c => exact h.elim
    | issuers c => exact ⟨_, by decide, (issuers_rejectsAddress dep).mpr h⟩
    | proofs c => exact ⟨_, by decide, (proofs_rejectsAddress dep).mpr h⟩

end

namespace Example
open System.Example

def revocation : Invocation Call :=
  ⟨.issuers (.revokeIssuer (.fill 32 21)), signedBy 2 [admin]⟩

def proofRevocation : Invocation Call :=
  ⟨.proofs (.adminRevokeProof System.Example.proof), signedBy 2 [admin]⟩

/-- A run and a call for each code published as returned, in the order of the table. -/
def failures : List (List (Invocation Call) × Call) :=
  [(setup, .config (.initializeContract admin)),
    ([], .config .getAdmin),
    (setup, .config (.approveSchemaVersion 0)),
    (setup, .issuers (.registerIssuer (.fill 32 21) admin (.fill 32 31))),
    (setup, .issuers (.getIssuer (.fill 32 22))),
    (setup, .issuers (.registerIssuer (.fill 32 22) issuer (.fill 32 31))),
    (setup, .issuers (.getIssuerByAddress admin)),
    (setup ++ [revocation], .issuers (.updateIssuer (.fill 32 21) (.fill 32 32))),
    (setup ++ [revocation], .issuers (.reactivateIssuer (.fill 32 21))),
    (setup ++ [registration], registration.call),
    (setup, .proofs (.getProof System.Example.proof)),
    (setup ++ [registration, proofRevocation], proofRevocation.call),
    (setup, .proofs (.registerProof System.Example.proof (.fill 32 51) issuer 1 0)),
    (setup, .proofs (.registerProof System.Example.proof (.fill 32 51) issuer 0 10)),
    (setup, .proofs (.registerProof System.Example.proof (.fill 32 51) issuer 2 10))]

/-- The outcome of a call signed by the admin and the issuer after a run. -/
def outcome (is : List (Invocation Call)) (call : Call) : Except (Failure ErrorCode) Value :=
  ((machine deployment).reply ⟨call, signedBy 2 [admin, issuer]⟩
    ((machine deployment).run empty is)).outcome

theorem outcome_failures :
    failures.map (fun f => outcome f.1 f.2) =
      (ERROR_CATALOG.filter fun entry => entry.status == .returned).map fun entry =>
        .error (.error entry.code) := by
  decide +kernel

end Example

/-- A call fails with a code that is not published, as returned and in its domain, exactly
when it rejects an address; every code published as returned comes from a reachable
call, and none published as reserved does. -/
theorem catalog_exactness (dep : Deployment) :
    (∀ s i, (∀ c, ((machine dep).reply i s).outcome = .error (.error c) →
        ∃ entry, spec c = some entry ∧ entry.status = .returned ∧ entry.domain = domainFor c) ↔
      ¬ RejectsAddress dep i.env s.values i.call) ∧
    (∀ entry ∈ ERROR_CATALOG, entry.status = .returned →
      ∃ dep' is i, ((machine dep').reply i ((machine dep').run empty is)).outcome =
        .error (.error entry.code)) ∧
    ∀ entry ∈ ERROR_CATALOG, entry.status = .reserved →
      ∀ s i, ((machine dep).reply i s).outcome ≠ .error (.error entry.code) := by
  refine ⟨fun s i => ?_, fun entry hentry hstatus => ?_, fun entry hentry hstatus s i h => ?_⟩
  · rw [← rejectsAddress_iff dep]
    constructor
    · intro hall hrejects
      obtain ⟨c, hc, hrefused⟩ := hrejects
      obtain ⟨entry, hspec, -⟩ := hall c ((error_iff dep).mpr hrefused)
      rw [spec_of_addressCodes hc] at hspec
      cases hspec
    · intro hno c hfail
      have hrefused := (error_iff dep).mp hfail
      rcases documented_of_mem_codes (refusal_mem_codes dep hrefused) with hdoc | haddress
      · exact hdoc
      · exact absurd ⟨c, haddress, hrefused⟩ hno
  · have hmem : (.error (.error entry.code) : Except (Failure ErrorCode) Value) ∈
        Example.failures.map fun f => Example.outcome f.1 f.2 := by
      rw [Example.outcome_failures]
      exact List.mem_map.mpr ⟨entry, List.mem_filter.mpr ⟨hentry, by simpa using hstatus⟩, rfl⟩
    obtain ⟨f, -, hf⟩ := List.mem_map.mp hmem
    exact ⟨_, _, _, hf⟩
  · have hspec := spec_eq_some.mpr ⟨hentry, rfl⟩
    have hrefused := (error_iff dep).mp h
    rcases documented_of_mem_codes (refusal_mem_codes dep hrefused) with hdoc | haddress
    · obtain ⟨entry', hspec', hreturned, -⟩ := hdoc
      rw [hspec] at hspec'
      cases hspec'
      rw [hstatus] at hreturned
      cases hreturned
    · rw [spec_of_addressCodes haddress] at hspec
      cases hspec

/-- After the setup a registration for the zero account fails with a code that is not
published. -/
theorem rejected_address_not_published :
    ¬ ∀ dep is i c, ((machine dep).reply i ((machine dep).run empty is)).outcome =
        .error (.error c) →
      ∃ entry, spec c = some entry ∧ entry.status = .returned ∧ entry.domain = domainFor c := by
  intro hall
  have hregistration : Example.outcome System.Example.setup
      (.proofs (.registerProof System.Example.proof (.fill 32 51) (System.Example.address .account 0)
        1 10)) = .error (.error 306) := by decide +kernel
  have hnone : spec 306 = none := by decide
  obtain ⟨entry, hspec, -⟩ := hall _ _ _ _ hregistration
  rw [hnone] at hspec
  cases hspec

end EarnProof.ErrorCatalog

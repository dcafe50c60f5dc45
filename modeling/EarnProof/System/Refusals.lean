import EarnProof.IssuerRegistry.Refusals
import EarnProof.ProofRegistry.Refusals
import EarnProof.ProtocolConfig.Refusals
import EarnProof.System.Machine

/-! Why a call to the deployed contracts is refused: the checks of the three contracts,
with the dependencies of the proof registry answering from their stored values. -/
namespace EarnProof.System
open Soroban

/-- The checks of a call, in order, on the values it starts from. -/
def checks (dep : Deployment) (env : Env) (x : Values) : Call → List Check
  | .config c => ProtocolConfig.checks {env with currentContract := dep.protocolConfig} x.config c
  | .issuers c => IssuerRegistry.checks {env with currentContract := dep.issuerRegistry} x.issuers c
  | .proofs c =>
    ProofRegistry.checks (answers dep x) {env with currentContract := dep.proofRegistry} x.proofs () c

variable (dep : Deployment)

/-- The deployed clients are checked as their values answer. -/
theorem clients_checks {env : Env} {w : Dependencies} {x : Values}
    (hconfig : w.1.entries = x.config) (hissuers : w.2.entries = x.issuers)
    {d : Entries ProofRegistry.DataKey.Value} {c : ProofRegistry.Call} :
    ProofRegistry.checks (clients dep) env d w c = ProofRegistry.checks (answers dep x) env d () c := by
  cases c with
  | registerProof id cm a n e =>
    simp only [ProofRegistry.checks]
    cases d .inst .protocolConfig with
    | none => rfl
    | some cfg =>
      cases d .inst .issuerRegistry with
      | none => rfl
      | some reg =>
        have hp := isPaused_agrees dep env w hconfig cfg
        have hs := isSchemaVersionApproved_agrees dep env ((clients dep).isPaused cfg env w).2
          (hp.config.trans hconfig) cfg n
        have ha := isActiveAddress_agrees dep env
          ((clients dep).isSchemaVersionApproved cfg n env ((clients dep).isPaused cfg env w).2).2
          (hs.issuers.trans (hp.issuers.trans hissuers)) reg a
        simp only [ProofRegistry.registerChecks, hp.answer, hs.answer, ha.answer]
  | _ => rfl

/-- A call fails exactly with the first of its checks that does not pass. -/
theorem error_iff {i : Invocation Call} {s : System} {e : Failure ErrorCode} :
    ((machine dep).reply i s).outcome = .error e ↔
      refusal (checks dep i.env s.values i.call) = some e := by
  obtain ⟨c, env⟩ := i
  cases c with
  | config c =>
    have h : ((ProtocolConfig.machine dep.protocolConfig).reply ⟨c, env⟩ s.config).outcome =
        .error e ↔ _ := contractAt_error_iff ProtocolConfig.program_refuses
    exact h
  | issuers c =>
    have h : ((IssuerRegistry.machine dep.issuerRegistry).reply ⟨c, env⟩ s.issuers).outcome =
        .error e ↔ _ := contractAt_error_iff IssuerRegistry.program_refuses
    exact h
  | proofs c =>
    have h : (invoke (c.program (clients dep)) {env with currentContract := dep.proofRegistry}
        s.proofs (s.config, s.issuers)).1.outcome = .error e ↔ _ :=
      invoke_error_iff (ProofRegistry.program_refuses (clients dep) c)
    have hw : (s.config, s.issuers).1.entries = s.values.config := rfl
    rw [clients_checks dep hw rfl] at h
    exact h

/-! ### A registration in the deployed system -/

/-- What `is_paused` answers. -/
def paused (d : Entries ProtocolConfig.DataKey.Value) : Bool := (d .inst .paused).getD false

/-- What `is_schema_version_approved` answers. -/
def approved (d : Entries ProtocolConfig.DataKey.Value) (n : UInt32) : Bool :=
  n != 0 && (d .persistent (.schemaVersion n)).getD false

variable {dep}

/-- The checks of a registration where the proof registry is wired to the deployment. -/
theorem registerProof_checks {env : Env} {x : Values}
    (hconfig : x.proofs .inst .protocolConfig = some dep.protocolConfig)
    (hissuers : x.proofs .inst .issuerRegistry = some dep.issuerRegistry) (id c : BytesN 32)
    (a : Address) (n : UInt32) (e : UInt64) :
    checks dep env x (.proofs (.registerProof id c a n e)) =
      [⟨!isValidPrincipalAddress a, .error ProofError.invalidAddress.code⟩,
        ⟨a == dep.proofRegistry || a == dep.protocolConfig || a == dep.issuerRegistry,
          .error ProofError.invalidAddress.code⟩,
        .requireAuth env (some a),
        ⟨n == 0, .error ProofError.invalidSchemaVersion.code⟩,
        ⟨e ≤ env.timestamp, .error ProofError.proofExpired.code⟩,
        ⟨paused x.config == true, .error ProofError.invalidSchemaVersion.code⟩,
        ⟨approved x.config n == false, .error ProofError.schemaVersionNotApproved.code⟩,
        ⟨IssuerRegistry.activeAddress x.issuers a == false,
          .error ProofError.invalidSchemaVersion.code⟩,
        ⟨(x.proofs .persistent (.proof id)).isSome,
          .error ProofError.proofAlreadyRegistered.code⟩] := by
  simp [checks, ProofRegistry.checks, hconfig, hissuers, ProofRegistry.registerChecks,
    ProofRegistry.answerChecks, answers, paused, approved, Check.requireAuth]

end EarnProof.System

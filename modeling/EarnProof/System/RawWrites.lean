import EarnProof.ProtocolConfig.Audit
import EarnProof.Soroban.RawRun
import EarnProof.System.Gate
import EarnProof.System.Refusals

/-! What the atomicity of a failure rests on.

On a host without rollback a failing call leaves the values of all three contracts as they
were, in the whole deployment and with dependencies that answer in any way, except in two
situations: a configuration change at the last value of the counter has written its new
value, and an upgrade that the deployer refuses has removed its allowlist entry. -/
namespace EarnProof
open Soroban

section
variable {K : Type} [DecidableEq K] {V : K → Type} {G : Governance V} {env : Env} {d : Entries V}

/-- An upgrade that passes every check of the contract and is refused by the deployer. -/
def Governance.RefusedByDeployer (G : Governance V) (env : Env) (d : Entries V) (h : BytesN 32) :
    Prop :=
  ∃ a n, G.admin.read d = some a ∧ env.signed a = true ∧ (G.allowedWasm h).read d = some n ∧
    G.version d < n ∧ env.installable h = false

omit [DecidableEq K] in
theorem Governance.RefusedByDeployer.refusal {h : BytesN 32} (hd : G.RefusedByDeployer env d h) :
    refusal (G.checks env d (.upgradeContract h)) = some (.abort .host) := by
  obtain ⟨a, n, ha, hs, hn, hlt, hinst⟩ := hd
  simp [Governance.checks, Check.requireAuth, ha, hs, hn, hlt, hinst]

/-- A refused governance call was stopped by the deployer, or has written nothing. -/
theorem Governance.leftover_cases {u : UpgradeCall} {e : Failure ErrorCode}
    (h : Soroban.refusal (G.checks env d u) = some e) :
    (∃ hash, u = .upgradeContract hash ∧ e = .abort .host ∧ G.RefusedByDeployer env d hash) ∨
      G.leftover u d e = d := by
  cases u with
  | upgradeContract hash =>
    cases ha : G.admin.read d with
    | none =>
      simp [Governance.checks, ha] at h
      exact .inr (by rw [← h]; rfl)
    | some a =>
      cases hn : (G.allowedWasm hash).read d with
      | none =>
        simp [Governance.checks, Check.requireAuth, ha, hn] at h
        split at h <;> cases h <;> exact .inr rfl
      | some n =>
        simp [Governance.checks, Check.requireAuth, ha, hn] at h
        split at h
        · cases h
          exact .inr rfl
        · next hs =>
          split at h
          · cases h
            exact .inr rfl
          · next hlt =>
            simp at h
            obtain ⟨hinst, rfl⟩ := h
            exact .inl ⟨hash, rfl, rfl, a, n, ha, by simpa using hs, hn, by simpa using hlt, hinst⟩
  | _ => exact .inr rfl

end

namespace ProtocolConfig

/-- How a configuration change fails when the counter cannot advance. -/
def overflowFailure : Failure ErrorCode := .abort (.panic "config version overflow: reached maximum")

/-- What a configuration change writes before it advances the counter, when its argument is
valid. -/
def Call.written (d : Entries DataKey.Value) : Call → Option (Entries DataKey.Value)
  | .setAdmin a => if isValidPrincipalAddress a then some (d.put .inst .admin (some a)) else none
  | .pause => some (d.put .inst .paused (some true))
  | .unpause => some (d.put .inst .paused (some false))
  | .approveSchemaVersion n =>
    if n = 0 then none else some (d.put .persistent (.schemaVersion n) (some true))
  | .deprecateSchemaVersion n =>
    if n = 0 then none else some (d.put .persistent (.schemaVersion n) (some false))
  | .initializeContract _ | .getAdmin | .isPaused | .isSchemaVersionApproved _ | .getConfigVersion
  | .upgrade _ => none

/-- A configuration change with a valid argument, signed by the admin, at the last value of
the counter; `d'` is what it has written. -/
def Overflows (env : Env) (d : Entries DataKey.Value) (c : Call) (d' : Entries DataKey.Value) :
    Prop :=
  c.written d = some d' ∧ configVersion d = u32Max ∧
    ∃ a, d .inst .admin = some a ∧ env.signed a = true

variable {env : Env} {d d' : Entries DataKey.Value} {c : Call} {e : Failure ErrorCode}

theorem Overflows.refusal (h : Overflows env d c d') :
    refusal (checks env d c) = some overflowFailure ∧ leftover c d overflowFailure = d' := by
  obtain ⟨hwritten, hlast, a, ha, hs⟩ := h
  have hadd := checkedAdd_eq_none.mpr hlast
  cases c with
  | setAdmin b =>
    simp only [Call.written, Option.ite_none_right_eq_some, Option.some.injEq] at hwritten
    obtain ⟨hvalid, rfl⟩ := hwritten
    exact ⟨by simp [checks, configureChecks, Check.requireAuth, overflowFailure, ha, hs, hadd, hvalid],
      rfl⟩
  | pause =>
    cases hwritten
    exact ⟨by simp [checks, configureChecks, Check.requireAuth, overflowFailure, ha, hs, hadd], rfl⟩
  | unpause =>
    cases hwritten
    exact ⟨by simp [checks, configureChecks, Check.requireAuth, overflowFailure, ha, hs, hadd], rfl⟩
  | approveSchemaVersion n =>
    simp only [Call.written, Option.ite_none_left_eq_some, Option.some.injEq] at hwritten
    obtain ⟨hn, rfl⟩ := hwritten
    exact ⟨by simp [checks, configureChecks, Check.requireAuth, overflowFailure, ha, hs, hadd, hn],
      rfl⟩
  | deprecateSchemaVersion n =>
    simp only [Call.written, Option.ite_none_left_eq_some, Option.some.injEq] at hwritten
    obtain ⟨hn, rfl⟩ := hwritten
    exact ⟨by simp [checks, configureChecks, Check.requireAuth, overflowFailure, ha, hs, hadd, hn],
      rfl⟩
  | _ => cases hwritten

/-- A refused configuration change was stopped by the counter, or has written nothing. -/
theorem configure_cases {before after : List Check} {written : Entries DataKey.Value}
    (hbefore : ∀ y, Soroban.refusal before = some y → ∃ code, y = .error code)
    (hafter : ∀ y, Soroban.refusal after = some y → ∃ code, y = .error code)
    (h : Soroban.refusal (configureChecks env d before after) = some e) :
    (e = overflowFailure ∧ Soroban.refusal before = none ∧ Soroban.refusal after = none ∧
      configVersion d = u32Max ∧ ∃ a, d .inst .admin = some a ∧ env.signed a = true) ∨
      overflowed d written e = d := by
  simp only [configureChecks, refusal_cons, List.append_assoc, List.cons_append, refusal_append] at h
  cases ha : d .inst .admin with
  | none =>
    simp only [ha, Option.isNone_none, if_true, Option.some.injEq] at h
    exact .inr (by rw [← h]; rfl)
  | some a =>
    cases hb : Soroban.refusal before with
    | some y =>
      obtain ⟨code, rfl⟩ := hbefore y hb
      simp [ha, hb] at h
      exact .inr (by rw [← h]; rfl)
    | none =>
      cases hs : env.signed a with
      | false =>
        simp [ha, hb, Check.requireAuth, hs] at h
        exact .inr (by rw [← h]; rfl)
      | true =>
        cases hf : Soroban.refusal after with
        | some y =>
          obtain ⟨code, rfl⟩ := hafter y hf
          simp [ha, hb, Check.requireAuth, hs, refusal_append, hf] at h
          exact .inr (by rw [← h]; rfl)
        | none =>
          simp [ha, hb, Check.requireAuth, hs, refusal_append, hf] at h
          exact .inl ⟨h.2.symm, rfl, rfl, checkedAdd_eq_none.mp h.1, a, rfl, hs⟩

/-- Handing over at the last value of the counter overwrites the admin. -/
theorem exists_overflows {a b : Address} (hlast : configVersion d = u32Max)
    (ha : d .inst .admin = some a) (hs : env.signed a = true)
    (hb : isValidPrincipalAddress b = true) (hne : b ≠ a) :
    ∃ d', Overflows env d (.setAdmin b) d' ∧ d' ≠ d := by
  refine ⟨d.put .inst .admin (some b), ⟨if_pos hb, hlast, a, ha, hs⟩, fun hsame => ?_⟩
  have hadmin : d.put .inst .admin (some b) .inst .admin = d .inst .admin :=
    congrFun (congrFun hsame .inst) .admin
  rw [Entries.put_self, ha] at hadmin
  exact hne (Option.some.inj hadmin)

theorem leftover_cases (h : Soroban.refusal (checks env d c) = some e) :
    (e = overflowFailure ∧ Overflows env d c (leftover c d e)) ∨
      (∃ hash, c = .upgrade (.upgradeContract hash) ∧ e = .abort .host ∧
        governance.RefusedByDeployer env d hash) ∨ leftover c d e = d := by
  have hnil : ∀ y, Soroban.refusal [] = some y → ∃ code, y = .error code := by
    intro y hy
    cases hy
  have hone : ∀ (p : Bool) (code : ErrorCode), ∀ y,
      Soroban.refusal [⟨p, .error code⟩] = some y → ∃ code, y = .error code := by
    intro p code y hy
    cases p <;> cases hy
    exact ⟨code, rfl⟩
  cases c with
  | setAdmin b =>
    rcases configure_cases (hone _ _) hnil h with ⟨rfl, hb, _, hlast, ha⟩ | hsame
    · have hvalid : isValidPrincipalAddress b = true := by simpa using hb
      exact .inl ⟨rfl, by simp [Call.written, hvalid, leftover, overflowed, overflowFailure], hlast,
        ha⟩
    · exact .inr (.inr hsame)
  | pause =>
    rcases configure_cases hnil hnil h with ⟨rfl, _, _, hlast, ha⟩ | hsame
    · exact .inl ⟨rfl, rfl, hlast, ha⟩
    · exact .inr (.inr hsame)
  | unpause =>
    rcases configure_cases hnil hnil h with ⟨rfl, _, _, hlast, ha⟩ | hsame
    · exact .inl ⟨rfl, rfl, hlast, ha⟩
    · exact .inr (.inr hsame)
  | approveSchemaVersion n =>
    rcases configure_cases hnil (hone _ _) h with ⟨rfl, _, hn, hlast, ha⟩ | hsame
    · have hne : n ≠ 0 := by simpa using hn
      exact .inl ⟨rfl, by simp [Call.written, hne, leftover, overflowed, overflowFailure], hlast, ha⟩
    · exact .inr (.inr hsame)
  | deprecateSchemaVersion n =>
    rcases configure_cases hnil (hone _ _) h with ⟨rfl, _, hn, hlast, ha⟩ | hsame
    · have hne : n ≠ 0 := by simpa using hn
      exact .inl ⟨rfl, by simp [Call.written, hne, leftover, overflowed, overflowFailure], hlast, ha⟩
    · exact .inr (.inr hsame)
  | upgrade u =>
    rcases Governance.leftover_cases h with ⟨hash, rfl, he, hd⟩ | hsame
    · exact .inr (.inl ⟨hash, rfl, he, hd⟩)
    · exact .inr (.inr hsame)
  | _ => exact .inr (.inr rfl)

end ProtocolConfig

/-! ### The proof registry with any dependencies -/

namespace ProofRegistry
variable {W : Type} {clients : Clients W} {I : W → Prop}

/-- The dependencies keep `I`, whatever they answer. -/
structure Clients.Keeps (clients : Clients W) (I : W → Prop) : Prop where
  isPaused : ∀ a env w, I w → I (clients.isPaused a env w).2
  isSchemaVersionApproved : ∀ a n env w, I w → I (clients.isSchemaVersionApproved a n env w).2
  isActiveAddress : ∀ a issuer env w, I w → I (clients.isActiveAddress a issuer env w).2

theorem upgrade_steady (u : UpgradeCall) :
    Steady I (u.program governance id : Code W ErrorCode Value) := by
  have hadmin : Steady I (EarnProof.getAdmin governance : Code W ContractError Address) :=
    .bind (by simp) fun _ => by simp
  have hversion : Steady I (EarnProof.getContractVersion governance : Code W ErrorCode UInt32) :=
    .bind (by simp) fun _ => by simp
  cases u <;>
    simp only [UpgradeCall.program, EarnProof.approveUpgrade, EarnProof.revokeUpgrade,
      EarnProof.isUpgradeAllowed, EarnProof.upgradeContract, extendInstance] <;>
    refine .entry ?_ _ _ <;>
    repeat' with_reducible refine Steady.bind ?_ fun _ => ?_
  all_goals simp [hadmin, hversion, Steady.expectOk]

theorem getProof_steady (id : BytesN 32) : Steady I (getProof id : Code W ProofError ProofRecord) := by
  simp only [getProof, extendProofKeyTtl]
  repeat' with_reducible refine Steady.bind ?_ fun _ => ?_
  all_goals simp

/-- A call leaves the outer world what its dependencies leave of it. -/
theorem program_steady (hkeeps : clients.Keeps I) (c : Call) : Steady I (c.program clients) := by
  have hadmin : Steady I (getAdmin : Code W ContractError Address) := .bind (by simp) fun _ => by simp
  have hcfg : Steady I (getProtocolConfig : Code W ContractError Address) :=
    .bind (by simp) fun _ => by simp
  have hreg : Steady I (getIssuerRegistry : Code W ContractError Address) :=
    .bind (by simp) fun _ => by simp
  cases c with
  | initializeContract a i p =>
    refine .entry ?_ _ _
    simp only [initializeContract, requireValidPrincipal, requireValid, validateDependencyAddresses,
      extendInstance]
    repeat' with_reducible refine Steady.bind ?_ fun _ => ?_
    all_goals simp
  | registerProof id c a n e =>
    refine .entry ?_ _ _
    simp only [registerProof, requireValidIssuerAddress, requireValid, extendProofKeyTtl]
    repeat' with_reducible refine Steady.bind ?_ fun _ => ?_
    all_goals simp [hcfg, hreg, Steady.mapErr, Steady.callContract (hkeeps.isPaused _),
      Steady.callContract (hkeeps.isSchemaVersionApproved _ _),
      Steady.callContract (hkeeps.isActiveAddress _ _)]
  | revokeProof id =>
    refine .entry ?_ _ _
    simp only [revokeProof, setRevoked, extendProofKeyTtl, Bool.false_eq_true, if_false]
    repeat' with_reducible refine Steady.bind ?_ fun _ => ?_
    all_goals simp
  | adminRevokeProof id =>
    refine .entry ?_ _ _
    simp only [adminRevokeProof, setRevoked, extendProofKeyTtl, if_true]
    repeat' with_reducible refine Steady.bind ?_ fun _ => ?_
    all_goals simp [hadmin, Steady.mapErr]
  | getProof id => exact (getProof_steady id).entry _ _
  | isValidProof id =>
    refine .entry (.bind (getProof_steady id).attempt fun r => ?_) _ _
    cases r with
    | error e => simp
    | ok record => exact .bind (by simp) fun _ => by simp
  | isRevoked id =>
    refine .entry (.bind (getProof_steady id).attempt fun r => ?_) _ _
    cases r <;> simp
  | getAdmin => exact hadmin.entry _ _
  | getIssuerRegistry => exact hreg.entry _ _
  | getProtocolConfig => exact hcfg.entry _ _
  | upgrade u =>
    rw [program_upgrade]
    exact upgrade_steady u

theorem refusedByDeployer {env : Env} {d : Entries DataKey.Value} {a : Address} {h : BytesN 32}
    {v n : UInt32} (ha : d .inst .admin = some a) (hs : env.signed a = true)
    (hn : d .inst (.allowedWasm h) = some n) (hv : d .inst .contractVersion = some v) (hlt : v < n)
    (hinst : env.installable h = false) : governance.RefusedByDeployer env d h := by
  have hversion : governance.version d = v := congrArg (·.getD 0) hv
  exact ⟨a, n, ha, hs, hn, by rw [hversion]; exact hlt, hinst⟩

/-- A proof-registry call that fails has written nothing of its own, unless the deployer
stopped an upgrade. -/
theorem leftover_cases {env : Env} {d : Entries DataKey.Value} {w : W} {c : Call}
    {e : Failure ErrorCode} (h : refusal (checks clients env d w c) = some e) :
    (∃ hash, c = .upgrade (.upgradeContract hash) ∧ e = .abort .host ∧
      governance.RefusedByDeployer env d hash) ∨ leftover c d e = d := by
  cases c with
  | upgrade u =>
    rcases Governance.leftover_cases h with ⟨hash, rfl, he, hd⟩ | hsame
    · exact .inl ⟨hash, rfl, he, hd⟩
    · exact .inr hsame
  | _ => exact .inr rfl

end ProofRegistry

theorem IssuerRegistry.leftover_cases {env : Env} {d : Entries DataKey.Value} {c : Call}
    {e : Failure ErrorCode} (h : refusal (checks env d c) = some e) :
    (∃ hash, c = .upgrade (.upgradeContract hash) ∧ e = .abort .host ∧
      governance.RefusedByDeployer env d hash) ∨ leftover c d e = d := by
  cases c with
  | upgrade u =>
    rcases Governance.leftover_cases h with ⟨hash, rfl, he, hd⟩ | hsame
    · exact .inl ⟨hash, rfl, he, hd⟩
    · exact .inr hsame
  | _ => exact .inr rfl

namespace System
variable (dep : Deployment)

/-! ### The deployment without rollback -/

/-- `ask` with writes that stay. -/
def rawAsk {K Ev : Type} {V : K → Type} (callee : Address) (x : Program V Ev Unit ErrorCode Bool)
    (env : Env) (s : Storage V) : Except Abort Bool × Storage V :=
  let r := rawInvoke x {env with currentContract := callee} s ()
  (r.1.mapError fun _ => .host, r.2.1)

/-- `clients` with writes that stay. -/
def rawClients (dep : Deployment) : ProofRegistry.Clients Dependencies where
  isPaused := fun a env w =>
    if a = dep.protocolConfig then
      let r := rawAsk a ProtocolConfig.isPaused env w.1
      (r.1, r.2, w.2)
    else (.error .host, w)
  isSchemaVersionApproved := fun a version env w =>
    if a = dep.protocolConfig then
      let r := rawAsk a (ProtocolConfig.isSchemaVersionApproved version) env w.1
      (r.1, r.2, w.2)
    else (.error .host, w)
  isActiveAddress := fun a issuerAddress env w =>
    if a = dep.issuerRegistry then
      let r := rawAsk a (IssuerRegistry.isActiveAddress issuerAddress) env w.2
      (r.1, w.1, r.2)
    else (.error .host, w)

/-- `step` with writes that stay. -/
def rawStep (dep : Deployment) (i : Invocation Call) (s : System) :
    Except (Failure ErrorCode) Value × System :=
  match i.call with
  | .config c =>
    let r := rawInvoke c.program {i.env with currentContract := dep.protocolConfig} s.config ()
    (r.1, {s with config := r.2.1})
  | .issuers c =>
    let r := rawInvoke c.program {i.env with currentContract := dep.issuerRegistry} s.issuers ()
    (r.1, {s with issuers := r.2.1})
  | .proofs c =>
    let r := rawInvoke (c.program (rawClients dep))
      {i.env with currentContract := dep.proofRegistry} s.proofs (s.config, s.issuers)
    (r.1, ⟨r.2.2.1, r.2.2.2, r.2.1⟩)

/-- The dependencies' queries never fail, so there is nothing of theirs to undo. -/
theorem ask_eq_rawAsk {K Ev : Type} {V : K → Type} {x : Program V Ev Unit ErrorCode Bool}
    (hx : ∀ env f y f', x env f ≠ (.error y, f')) (callee : Address) (env : Env) (s : Storage V) :
    ask callee x env s = rawAsk callee x env s := by
  have hrollback := invoke_eq_rollback x {env with currentContract := callee} s ()
  have houtcome := rawInvoke_outcome x {env with currentContract := callee} s ()
  simp only [ask, rawAsk, ← houtcome]
  cases hr : (rawInvoke x {env with currentContract := callee} s ()).1 with
  | ok b =>
    rw [hr] at hrollback
    rw [hrollback]
  | error e =>
    have hfail : x {env with currentContract := callee}
        ⟨s.load env.minimumTtl env.sequence, [], ()⟩ = (.error e, _) := Prod.ext hr rfl
    exact absurd hfail (hx _ _ _ _)

theorem clients_eq_rawClients : clients dep = rawClients dep := by
  have hp : ∀ a env s, ask a (ProtocolConfig.isPaused : ProtocolConfig.Code ErrorCode Bool) env s =
      rawAsk a ProtocolConfig.isPaused env s :=
    ask_eq_rawAsk fun _ _ _ _ => by simp [ProtocolConfig.isPaused]
  have hs : ∀ n a env s,
      ask a (ProtocolConfig.isSchemaVersionApproved n : ProtocolConfig.Code ErrorCode Bool) env s =
        rawAsk a (ProtocolConfig.isSchemaVersionApproved n) env s :=
    fun n => ask_eq_rawAsk fun _ _ _ _ => ProtocolConfig.isSchemaVersionApproved_error
  have ha : ∀ issuer a env s,
      ask a (IssuerRegistry.isActiveAddress issuer : IssuerRegistry.Code ErrorCode Bool) env s =
        rawAsk a (IssuerRegistry.isActiveAddress issuer) env s :=
    fun issuer => ask_eq_rawAsk fun _ _ _ _ => IssuerRegistry.isActiveAddress_error
  simp only [clients, rawClients, hp, hs, ha]

/-- The machine is the raw step with the host's rollback. -/
theorem step_eq_rollback (i : Invocation Call) (s : System) :
    ((machine dep).reply i s).outcome = (rawStep dep i s).1 ∧
      (machine dep).next i s = match (rawStep dep i s).1 with
        | .ok _ => (rawStep dep i s).2
        | .error _ => s := by
  obtain ⟨call, env⟩ := i
  cases call with
  | config c =>
    have hrollback := invoke_eq_rollback c.program {env with currentContract := dep.protocolConfig}
      s.config ()
    have houtcome := rawInvoke_outcome c.program {env with currentContract := dep.protocolConfig} s.config ()
    refine ⟨houtcome.symm, ?_⟩
    simp only [Machine.next, machine, step, ProtocolConfig.machine, contractAt, rawStep, hrollback]
    cases (rawInvoke c.program {env with currentContract := dep.protocolConfig} s.config ()).1 <;> rfl
  | issuers c =>
    have hrollback := invoke_eq_rollback c.program {env with currentContract := dep.issuerRegistry}
      s.issuers ()
    have houtcome := rawInvoke_outcome c.program {env with currentContract := dep.issuerRegistry} s.issuers ()
    refine ⟨houtcome.symm, ?_⟩
    simp only [Machine.next, machine, step, IssuerRegistry.machine, contractAt, rawStep, hrollback]
    cases (rawInvoke c.program {env with currentContract := dep.issuerRegistry} s.issuers ()).1 <;>
      rfl
  | proofs c =>
    have hrollback := invoke_eq_rollback (c.program (rawClients dep))
      {env with currentContract := dep.proofRegistry} s.proofs (s.config, s.issuers)
    have houtcome := rawInvoke_outcome (c.program (rawClients dep))
      {env with currentContract := dep.proofRegistry} s.proofs (s.config, s.issuers)
    simp only [Machine.reply, Machine.next, machine, step, clients_eq_rawClients, rawStep, hrollback]
    refine ⟨houtcome.symm, ?_⟩
    cases (rawInvoke (c.program (rawClients dep)) {env with currentContract := dep.proofRegistry}
      s.proofs (s.config, s.issuers)).1 <;> rfl

/-! ### What a failure has written -/

/-- The failures that have written something: the call, the failure, and the values. -/
inductive PartialWrite (env : Env) (x : Values) : Call → Failure ErrorCode → Values → Prop where
  | counter {c : ProtocolConfig.Call} {d' : Entries ProtocolConfig.DataKey.Value}
      (h : ProtocolConfig.Overflows env x.config c d') :
      PartialWrite env x (.config c) ProtocolConfig.overflowFailure {x with config := d'}
  | config {hash : BytesN 32}
      (h : ProtocolConfig.governance.RefusedByDeployer env x.config hash) :
      PartialWrite env x (.config (.upgrade (.upgradeContract hash))) (.abort .host)
        {x with config := (ProtocolConfig.governance.allowedWasm hash).put x.config none}
  | issuers {hash : BytesN 32}
      (h : IssuerRegistry.governance.RefusedByDeployer env x.issuers hash) :
      PartialWrite env x (.issuers (.upgrade (.upgradeContract hash))) (.abort .host)
        {x with issuers := (IssuerRegistry.governance.allowedWasm hash).put x.issuers none}
  | proofs {hash : BytesN 32}
      (h : ProofRegistry.governance.RefusedByDeployer env x.proofs hash) :
      PartialWrite env x (.proofs (.upgrade (.upgradeContract hash))) (.abort .host)
        {x with proofs := (ProofRegistry.governance.allowedWasm hash).put x.proofs none}

/-- The deployed dependencies leave the values of their contracts as they are. -/
theorem clients_keep (d : Entries ProtocolConfig.DataKey.Value)
    (d' : Entries IssuerRegistry.DataKey.Value) :
    (clients dep).Keeps fun w => w.1.entries = d ∧ w.2.entries = d' where
  isPaused := by
    intro a env w hw
    let x : Values := ⟨w.1.entries, w.2.entries, Entries.empty⟩
    have hx : w.1.entries = x.config := rfl
    have h := isPaused_agrees dep env w hx a
    exact ⟨h.config.trans hw.1, h.issuers.trans hw.2⟩
  isSchemaVersionApproved := by
    intro a n env w hw
    let x : Values := ⟨w.1.entries, w.2.entries, Entries.empty⟩
    have hx : w.1.entries = x.config := rfl
    have h := isSchemaVersionApproved_agrees dep env w hx a n
    exact ⟨h.config.trans hw.1, h.issuers.trans hw.2⟩
  isActiveAddress := by
    intro a issuer env w hw
    let x : Values := ⟨w.1.entries, w.2.entries, Entries.empty⟩
    have hx : w.2.entries = x.issuers := rfl
    have h := isActiveAddress_agrees dep env w hx a issuer
    exact ⟨h.config.trans hw.1, h.issuers.trans hw.2⟩

/-- Whatever a proof-registry call ends in, the dependencies' values are as they were. -/
theorem rawStep_dependencies (c : ProofRegistry.Call) (env : Env) (s : System) :
    (rawStep dep ⟨.proofs c, env⟩ s).2.config.entries = s.config.entries ∧
      (rawStep dep ⟨.proofs c, env⟩ s).2.issuers.entries = s.issuers.entries := by
  have hkeeps := clients_keep dep s.config.entries s.issuers.entries
  rw [clients_eq_rawClients] at hkeeps
  have hstart : (s.config, s.issuers).1.entries = s.config.entries ∧
      (s.config, s.issuers).2.entries = s.issuers.entries := ⟨rfl, rfl⟩
  exact (ProofRegistry.program_steady hkeeps c).rawInvoke
    {env with currentContract := dep.proofRegistry} s.proofs hstart

/-- A call that fails has changed no value of any contract, or is one of the exceptions. -/
theorem rawStep_error {i : Invocation Call} {s : System} {e : Failure ErrorCode}
    (he : (rawStep dep i s).1 = .error e) :
    PartialWrite i.env s.values i.call e (rawStep dep i s).2.values ∨
      (rawStep dep i s).2.values = s.values := by
  obtain ⟨call, env⟩ := i
  cases call with
  | config c =>
    obtain ⟨hrefused, hd⟩ := rawInvoke_error (ProtocolConfig.program_refuses c) he
    rcases ProtocolConfig.leftover_cases hrefused with ⟨rfl, hover⟩ | ⟨hash, rfl, rfl, hdep⟩ | hsame
    · rw [← hd] at hover
      exact .inl (.counter hover)
    · have hvalues : (rawStep dep ⟨.config (.upgrade (.upgradeContract hash)), env⟩ s).2.values =
          { s.values with
            config := (ProtocolConfig.governance.allowedWasm hash).put s.values.config none } :=
        Values.ext hd rfl rfl
      rw [hvalues]
      exact .inl (.config hdep)
    · exact .inr (Values.ext (hd.trans hsame) rfl rfl)
  | issuers c =>
    obtain ⟨hrefused, hd⟩ := rawInvoke_error (IssuerRegistry.program_refuses c) he
    rcases IssuerRegistry.leftover_cases hrefused with ⟨hash, rfl, rfl, hdep⟩ | hsame
    · have hvalues : (rawStep dep ⟨.issuers (.upgrade (.upgradeContract hash)), env⟩ s).2.values =
          { s.values with
            issuers := (IssuerRegistry.governance.allowedWasm hash).put s.values.issuers none } :=
        Values.ext rfl hd rfl
      rw [hvalues]
      exact .inl (.issuers hdep)
    · exact .inr (Values.ext rfl (hd.trans hsame) rfl)
  | proofs c =>
    obtain ⟨hrefused, hd⟩ := rawInvoke_error (ProofRegistry.program_refuses (rawClients dep) c) he
    obtain ⟨hconfig, hissuers⟩ := rawStep_dependencies dep c env s
    rcases ProofRegistry.leftover_cases hrefused with ⟨hash, rfl, rfl, hdep⟩ | hsame
    · have hvalues : (rawStep dep ⟨.proofs (.upgrade (.upgradeContract hash)), env⟩ s).2.values =
          { s.values with
            proofs := (ProofRegistry.governance.allowedWasm hash).put s.values.proofs none } :=
        Values.ext hconfig hissuers hd
      rw [hvalues]
      exact .inl (.proofs hdep)
    · exact .inr (Values.ext hconfig hissuers (hd.trans hsame))

/-- Each exception fails as it says, and leaves what it says. -/
theorem rawStep_partialWrite {i : Invocation Call} {s : System} {e : Failure ErrorCode} {x' : Values}
    (h : PartialWrite i.env s.values i.call e x') :
    (rawStep dep i s).1 = .error e ∧ (rawStep dep i s).2.values = x' := by
  obtain ⟨call, env⟩ := i
  -- The exception is refused with `e`; what the refused call leaves is then known.
  cases h with
  | @counter c d' h =>
    obtain ⟨hrefused, hleft⟩ := h.refusal
    have he : (rawStep dep ⟨.config c, env⟩ s).1 = .error ProtocolConfig.overflowFailure :=
      (rawInvoke_error_iff (ProtocolConfig.program_refuses c)).mpr hrefused
    obtain ⟨-, hd⟩ := rawInvoke_error (ProtocolConfig.program_refuses c) he
    exact ⟨he, Values.ext (hd.trans hleft) rfl rfl⟩
  | @config hash h =>
    have hrefuses := ProtocolConfig.program_refuses (.upgrade (.upgradeContract hash))
    have he : (rawStep dep ⟨.config (.upgrade (.upgradeContract hash)), env⟩ s).1 =
        .error (.abort .host) := (rawInvoke_error_iff hrefuses).mpr h.refusal
    obtain ⟨-, hd⟩ := rawInvoke_error hrefuses he
    exact ⟨he, Values.ext hd rfl rfl⟩
  | @issuers hash h =>
    have hrefuses := IssuerRegistry.program_refuses (.upgrade (.upgradeContract hash))
    have he : (rawStep dep ⟨.issuers (.upgrade (.upgradeContract hash)), env⟩ s).1 =
        .error (.abort .host) := (rawInvoke_error_iff hrefuses).mpr h.refusal
    obtain ⟨-, hd⟩ := rawInvoke_error hrefuses he
    exact ⟨he, Values.ext rfl hd rfl⟩
  | @proofs hash h =>
    have hrefuses := ProofRegistry.program_refuses (rawClients dep)
      (.upgrade (.upgradeContract hash))
    have he : (rawStep dep ⟨.proofs (.upgrade (.upgradeContract hash)), env⟩ s).1 =
        .error (.abort .host) := (rawInvoke_error_iff hrefuses).mpr h.refusal
    obtain ⟨-, hd⟩ := rawInvoke_error hrefuses he
    obtain ⟨hconfig, hissuers⟩ := rawStep_dependencies dep (.upgrade (.upgradeContract hash)) env s
    exact ⟨he, Values.ext hconfig hissuers hd⟩

/-! ### Both exceptions occur -/

/-- Calls to protocol-config run in the system as they run there. -/
theorem run_config (s : System) (is : List (Invocation ProtocolConfig.Call)) :
    ((machine dep).run s (is.map fun i => ⟨.config i.call, i.env⟩)).config =
      (ProtocolConfig.machine dep.protocolConfig).run s.config is := by
  induction is generalizing s with
  | nil => rfl
  | cons i rest ih => exact ih ((machine dep).next ⟨.config i.call, i.env⟩ s)

/-- A reachable state in which a configuration change has overwritten something before it
fails. -/
theorem exists_overflow : ∃ dep is c env d',
    ProtocolConfig.Overflows env ((machine dep).run empty is).values.config c d' ∧
      d' ≠ ((machine dep).run empty is).values.config := by
  let env := Example.signedBy 1 [Example.admin]
  obtain ⟨n, hn⟩ : ∃ n, n + 1 = u32Max.toNat := ⟨4294967294, by decide⟩
  let is : List (Invocation ProtocolConfig.Call) :=
    ⟨.initializeContract Example.admin, env⟩ :: List.replicate n ⟨.pause, env⟩
  have hconfig : ((machine Example.deployment).run empty
      (is.map fun i => ⟨.config i.call, i.env⟩)).config =
        (ProtocolConfig.machine Example.deployment.protocolConfig).run Storage.empty is :=
    run_config Example.deployment empty is
  have hvalid : isValidPrincipalAddress Example.admin = true := by decide +kernel
  have hs : env.signed Example.admin = true := by decide
  have hlast := ProtocolConfig.run_pauses_last Example.deployment.protocolConfig hvalid hs hn
  have hadmin := (ProtocolConfig.run_pauses Example.deployment.protocolConfig hvalid hs n
    (hn ▸ u32Max.toNat_lt)).1
  have hadmin' : ((machine Example.deployment).run empty
      (is.map fun i => ⟨.config i.call, i.env⟩)).values.config .inst .admin = some Example.admin := by
    rw [values, hconfig]
    exact hadmin
  have hlast' : ProtocolConfig.configVersion ((machine Example.deployment).run empty
      (is.map fun i => ⟨.config i.call, i.env⟩)).values.config = u32Max := by
    rw [values, hconfig]
    exact hlast
  refine ⟨Example.deployment, is.map fun i => ⟨.config i.call, i.env⟩, .setAdmin Example.issuer, env,
    ?_⟩
  generalize (machine Example.deployment).run empty (is.map fun i => ⟨.config i.call, i.env⟩) = s
    at hlast' hadmin' ⊢
  exact ProtocolConfig.exists_overflows hlast' hadmin' hs (by decide +kernel) (by decide)

/-- A reachable state of the proof registry in which the deployer refuses an upgrade. -/
theorem exists_refusedByDeployer : ∃ dep is hash env,
    ProofRegistry.governance.RefusedByDeployer env
      ((machine dep).run empty is).values.proofs hash := by
  let approval : Invocation Call :=
    ⟨.proofs (.upgrade (.approveUpgrade (.fill 32 7) 2)), Example.signedBy 2 [Example.admin]⟩
  let env : Env := {Example.signedBy 3 [Example.admin] with installable := fun _ => false}
  have hread : let d := ((machine Example.deployment).run empty
        (Example.setup ++ [approval])).values.proofs
      d .inst .admin = some Example.admin ∧ d .inst (.allowedWasm (.fill 32 7)) = some (2 : UInt32) ∧
        d .inst .contractVersion = some (1 : UInt32) := by decide +kernel
  refine ⟨Example.deployment, Example.setup ++ [approval], .fill 32 7, env, ?_⟩
  generalize ((machine Example.deployment).run empty (Example.setup ++ [approval])).values.proofs = d
    at hread ⊢
  obtain ⟨hadmin, hallowed, hversion⟩ := hread
  exact ProofRegistry.refusedByDeployer hadmin (by decide) hallowed hversion (by decide) rfl

/-- Without rollback a failing call changes no value of any contract, except that a
configuration change at the last counter value has written its new value and an upgrade
refused by the deployer has removed its allowlist entry; both happen. A proof-registry
call behaves so with any dependencies, and leaves the outer world as they leave it. -/
theorem check_before_write :
    (∀ dep i s e, (rawStep dep i s).1 = .error e →
      PartialWrite i.env s.values i.call e (rawStep dep i s).2.values ∨
        (rawStep dep i s).2.values = s.values) ∧
    (∀ dep i s e x', PartialWrite i.env s.values i.call e x' →
      (rawStep dep i s).1 = .error e ∧ (rawStep dep i s).2.values = x') ∧
    (∃ dep is c env d',
      ProtocolConfig.Overflows env ((machine dep).run empty is).values.config c d' ∧
        d' ≠ ((machine dep).run empty is).values.config) ∧
    (∃ dep is hash env, ProofRegistry.governance.RefusedByDeployer env
      ((machine dep).run empty is).values.proofs hash) ∧
    ∀ (W : Type) (clients : ProofRegistry.Clients W) env s w (c : ProofRegistry.Call) e,
      let r := rawInvoke (c.program clients) env s w
      r.1 = .error e →
        ((∃ hash, c = .upgrade (.upgradeContract hash) ∧ e = .abort .host ∧
            ProofRegistry.governance.RefusedByDeployer env s.entries hash) ∨
          r.2.1.entries = s.entries) ∧
        ∀ I, clients.Keeps I → I w → I r.2.2 := by
  refine ⟨fun dep i s e he => rawStep_error dep he, fun dep i s e x' h => rawStep_partialWrite dep h,
    exists_overflow, exists_refusedByDeployer, ?_⟩
  intro W clients env s w c e r he
  obtain ⟨hrefused, hd⟩ := rawInvoke_error (ProofRegistry.program_refuses clients c) he
  refine ⟨(ProofRegistry.leftover_cases hrefused).imp_right fun hsame => hd.trans hsame, ?_⟩
  intro I hkeeps hw
  exact (ProofRegistry.program_steady hkeeps c).rawInvoke env s hw

/-- Nobody signs a pause after the setup, and nothing is written. -/
theorem check_before_write_example :
    let s := (machine Example.deployment).run empty Example.setup
    let i : Invocation Call := ⟨.config .pause, Example.signedBy 2 []⟩
    (rawStep Example.deployment i s).1 = .error (.abort .auth) ∧
      (rawStep Example.deployment i s).2.values = s.values := by
  intro s i
  have he : (rawStep Example.deployment i s).1 = .error (.abort .auth) := by decide +kernel
  have hcase := check_before_write.1 Example.deployment i s _ he
  generalize (rawStep Example.deployment i s).2.values = x at hcase ⊢
  refine ⟨he, hcase.resolve_left fun hpartial => ?_⟩
  cases hpartial

end System
end EarnProof

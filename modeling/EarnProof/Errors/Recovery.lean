import EarnProof.Errors.Permanence
import EarnProof.ProtocolConfig.Audit
import EarnProof.System.Authority

/-! Refusals that an operator clears.

A code that is retried after operator action comes from a contract without an admin, or
from a registration that finds the protocol paused, its schema version not approved or
its issuer not active. The admins clear it by initializing, by at most two configuration
changes, and by registering, rotating or reactivating an issuer: unless the counter has
no room for the changes, or the issuer at the address is revoked, or every issuer is. -/
namespace EarnProof.ErrorCatalog
open Soroban EarnProof.System
open IssuerRegistry (records index activeAddress Keeps IssuerDirectory)
open ProtocolConfig (configVersion checkedAdd)

/-! ### What operators do -/

/-- The admin of the contract a call is sent to, or the admin that an initialization
installs. -/
def operator (x : Values) : Call → Option Address
  | .config (.initializeContract a) | .issuers (.initializeContract a)
  | .proofs (.initializeContract a _ _) => some a
  | .config _ => x.config .inst .admin
  | .issuers _ => x.issuers .inst .admin
  | .proofs _ => x.proofs .inst .admin

/-- The step is made at time `now` and signed by the operator of its contract alone. -/
def ByOperator (now : UInt64) (t : SystemStep) : Prop :=
  t.input.time = now ∧ ∃ p, operator t.pre.values t.input.call = some p ∧
    ∀ a, t.input.env.signed a = true ↔ a = p

/-- The catalog tells a client to retry after an operator has acted. -/
def AfterOperatorAction (code : ErrorCode) : Prop := retryFor code = .afterOperatorAction

instance (code : ErrorCode) : Decidable (AfterOperatorAction code) :=
  inferInstanceAs (Decidable (_ = _))

@[simp] theorem afterOperatorAction_contractError (e : ContractError) :
    AfterOperatorAction e.code ↔ e = .notInitialized ∨ e = .protocolPaused := by
  cases e <;> decide

@[simp] theorem afterOperatorAction_issuerError (e : IssuerError) :
    AfterOperatorAction e.code ↔ e = .issuerInactive := by
  cases e <;> decide

@[simp] theorem afterOperatorAction_proofError (e : ProofError) :
    AfterOperatorAction e.code ↔ e = .invalidSchemaVersion ∨ e = .schemaVersionNotApproved := by
  cases e <;> decide

/-- The operators can bring the contracts to a state where the call, at the same time and
with the signature it needs, fails with no such code. -/
def Cleared (dep : Deployment) (s : System) (i : Invocation Call) : Prop :=
  ∃ s', (machine dep).Reaches (ByOperator i.time) s s' ∧
    ∀ env, env.timestamp = i.time →
      (∀ p, requiredPrincipal s'.values i.call = some p → env.signed p = true) →
      ∀ c, ((machine dep).reply ⟨i.call, env⟩ s').outcome = .error (.error c) →
        ¬ AfterOperatorAction c

/-- The schema version a call takes. -/
def schemaVersion : Call → Option UInt32
  | .config (.approveSchemaVersion n) | .config (.deprecateSchemaVersion n)
  | .config (.isSchemaVersionApproved n) | .proofs (.registerProof _ _ _ n _) => some n
  | _ => none

/-- How many configuration changes a registration with version `n` is waiting for. -/
def changesNeeded (d : Entries ProtocolConfig.DataKey.Value) (n : UInt32) : Nat :=
  (paused d).toNat + (!approved d n).toNat

/-- No issuer at the address can be active again: the one it is bound to is revoked, or it
is free and every issuer is revoked. -/
def Barred (d : Entries IssuerRegistry.DataKey.Value) (a : Address) : Prop :=
  ∀ id, index d a = none ∨ index d a = some id → RevokedIssuer d id

/-- What operators can clear: a registration when the counter has room for the changes it
needs and its address is not barred, and any other call. -/
def Clearable (x : Values) : Call → Prop
  | .proofs (.registerProof _ _ a n _) =>
    (configVersion x.config).toNat + changesNeeded x.config n ≤ u32Max.toNat ∧ ¬ Barred x.issuers a
  | _ => True

/-! ### What they cannot clear -/

section
variable {env : Env} {d d' : Entries IssuerRegistry.DataKey.Value} {c : IssuerRegistry.Call} {v : Value}
  {events : List IssuerRegistry.Event} {a : Address}

theorem Barred.step {D : IssuerDirectory} (hD : Keeps d D) (ha : Barred d a)
    (h : IssuerRegistry.Effect env d c v d' events) : Barred d' a := by
  have hsame : index d' a = index d a := by
    rcases h.change.binding hD a with hsame | ⟨id, b, rfl, _, hid, _⟩ | ⟨id, hbinds, hfree, _⟩
    · exact hsame
    · obtain ⟨r, hr, hst, _⟩ := rotation_needs h
      exact absurd ((ha id (.inr hid)).status hr) hst
    · cases c with
      | registerIssuer id' a' m =>
        obtain ⟨_, _, _, _, hnone, _⟩ := h
        obtain ⟨r, hr, _⟩ := ha id' (.inl hfree)
        exact absurd (hr.symm.trans hnone) (by simp)
      | rotateIssuerAddress id' a' =>
        obtain ⟨r, hr, hst, _⟩ := rotation_needs h
        exact absurd ((ha id' (.inl hfree)).status hr) hst
      | _ => exact hbinds.elim
  intro id hid
  rw [hsame] at hid
  exact (ha id hid).step h

theorem Barred.inactive (ha : Barred d a) : activeAddress d a = false := by
  rw [Bool.eq_false_iff]
  intro hactive
  obtain ⟨id, hid, hissuer⟩ := (Option.any_eq_true _ _).mp hactive
  obtain ⟨r, hr, hst⟩ := (Option.any_eq_true _ _).mp hissuer
  have hrevoked := (ha id (.inr hid)).status hr
  simp [hrevoked] at hst

end

section
variable {env : Env} {d d' : Entries ProtocolConfig.DataKey.Value} {c : ProtocolConfig.Call} {v : Value}
  {events : List ProtocolConfig.Event}

/-- One configuration change sets the pause flag or a schema version, not both. -/
theorem changes_one (h : ProtocolConfig.Effect env d c v d' events) (hc : c.configures = true)
    (n : UInt32) : changesNeeded d n ≤ changesNeeded d' n + 1 := by
  have hsplit : paused d' = paused d ∨ approved d' n = approved d n := by
    cases c with
    | setAdmin a =>
      obtain ⟨k, _, rfl⟩ := h.2.writes
      exact .inl (by simp [paused])
    | pause =>
      obtain ⟨k, _, rfl⟩ := ProtocolConfig.Configures.writes h
      exact .inr (by simp [approved])
    | unpause =>
      obtain ⟨k, _, rfl⟩ := ProtocolConfig.Configures.writes h
      exact .inr (by simp [approved])
    | approveSchemaVersion k =>
      obtain ⟨_, _, rfl⟩ := h.2.writes
      exact .inl (by simp [paused])
    | deprecateSchemaVersion k =>
      obtain ⟨_, _, rfl⟩ := h.2.writes
      exact .inl (by simp [paused])
    | _ => cases hc
  have hp := Bool.toNat_le (paused d)
  have ha := Bool.toNat_le (!approved d n)
  rcases hsplit with hsame | hsame <;> simp only [changesNeeded, hsame] <;> omega

/-- A call to protocol-config makes no more room: the changes needed fall by at most the
advance of the counter. -/
theorem changes_step (h : ProtocolConfig.Effect env d c v d' events) (hadmin : d .inst .admin ≠ none)
    (n : UInt32) :
    (configVersion d).toNat + changesNeeded d n ≤ (configVersion d').toNat + changesNeeded d' n := by
  rcases h.moves with ⟨hc, hnext, _⟩ | ⟨_, hnone, _⟩ | ⟨_, hsame, hview⟩
  · have hone := changes_one h hc n
    omega
  · exact absurd hnone hadmin
  · have hpaused : d' .inst .paused = d .inst .paused := congrArg ProtocolConfig.View.paused hview
    have hschema : d' .persistent (.schemaVersion n) = d .persistent (.schemaVersion n) :=
      congrFun (congrArg ProtocolConfig.View.schema hview) n
    simp only [hsame, changesNeeded, paused, approved, hpaused, hschema, Nat.le_refl]

end

/-! ### A registration that waits -/

/-- What a registration has passed that waits for an operator. -/
structure Waits (dep : Deployment) (env : Env) (x : Values) (a : Address) (e : UInt64) : Prop where
  config : x.proofs .inst .protocolConfig = some dep.protocolConfig
  issuers : x.proofs .inst .issuerRegistry = some dep.issuerRegistry
  valid : isValidPrincipalAddress a = true
  ne_self : a ≠ dep.proofRegistry
  ne_config : a ≠ dep.protocolConfig
  ne_issuers : a ≠ dep.issuerRegistry
  unexpired : env.timestamp < e

section
variable {dep : Deployment} {env : Env} {x : Values} {id cm : BytesN 32} {a : Address} {n : UInt32}
  {e : UInt64}

/-- A registration that waits for an operator has found the dependencies. -/
theorem stored_of_refusal (hwired : Wired dep x) {k : ErrorCode} (hk : AfterOperatorAction k)
    (h : refusal (checks dep env x (.proofs (.registerProof id cm a n e))) = some (.error k)) :
    x.proofs .inst .protocolConfig = some dep.protocolConfig ∧
      x.proofs .inst .issuerRegistry = some dep.issuerRegistry := by
  cases hcfg : x.proofs .inst .protocolConfig with
  | none =>
    simp only [checks, ProofRegistry.checks, hcfg, refusal_cons, refusal_nil, if_true] at h
    split at h <;> cases h <;> simp at hk
  | some cfg =>
    cases hreg : x.proofs .inst .issuerRegistry with
    | none =>
      simp only [checks, ProofRegistry.checks, hcfg, hreg, refusal_cons, refusal_nil, if_true] at h
      split at h <;> cases h <;> simp at hk
    | some reg =>
      rw [hwired.protocolConfig cfg hcfg, hwired.issuerRegistry reg hreg]
      exact ⟨rfl, rfl⟩

theorem waits_of_refusal (hwired : Wired dep x) (hn : n ≠ 0) {k : ErrorCode}
    (hk : AfterOperatorAction k)
    (h : refusal (checks dep env x (.proofs (.registerProof id cm a n e))) = some (.error k)) :
    Waits dep env x a e := by
  obtain ⟨hconfig, hissuers⟩ := stored_of_refusal hwired hk h
  rw [registerProof_checks hconfig hissuers] at h
  simp only [refusal_cons, Check.requireAuth] at h
  split at h
  · cases h
    simp at hk
  · next hvalid =>
    split at h
    · cases h
      simp at hk
    · next hself =>
      split at h
      · cases h
      · split at h
        · next hzero => exact absurd (by simpa using hzero) hn
        · split at h
          · cases h
            simp at hk
          · next he =>
            simp only [Bool.or_eq_true, beq_iff_eq, not_or] at hself
            exact ⟨hconfig, hissuers, by simpa using hvalid, hself.1.1, hself.1.2, hself.2,
              by simpa using he⟩

theorem Waits.refused (h : Waits dep env x a e) (hs : env.signed a = true) (hn : n ≠ 0)
    (hwaits : changesNeeded x.config n ≠ 0 ∨ activeAddress x.issuers a = false) :
    ∃ k, refusal (checks dep env x (.proofs (.registerProof id cm a n e))) = some (.error k) ∧
      AfterOperatorAction k := by
  rw [registerProof_checks h.config h.issuers]
  have he : ¬ e ≤ env.timestamp := UInt64.not_le.mpr h.unexpired
  cases hp : paused x.config <;> cases ha : approved x.config n <;>
    cases hactive : activeAddress x.issuers a <;>
    simp [changesNeeded, Check.requireAuth, h.valid, h.ne_self, h.ne_config, h.ne_issuers, hs, hn,
      he, hp, ha, hactive, -UInt64.not_le] at hwaits ⊢

/-- Where nothing is missing, a registration does not wait. -/
theorem not_waiting (hconfig : x.proofs .inst .protocolConfig = some dep.protocolConfig)
    (hissuers : x.proofs .inst .issuerRegistry = some dep.issuerRegistry) (hn : n ≠ 0)
    (hneeded : changesNeeded x.config n = 0) (hactive : activeAddress x.issuers a = true)
    {k : ErrorCode}
    (h : refusal (checks dep env x (.proofs (.registerProof id cm a n e))) = some (.error k)) :
    ¬ AfterOperatorAction k := by
  have hpaused : paused x.config = false := by
    cases hp : paused x.config <;> simp_all [changesNeeded]
  have happroved : approved x.config n = true := by
    cases ha : approved x.config n <;> simp_all [changesNeeded]
  have hsettles : ∀ k ∈ checks dep env x (.proofs (.registerProof id cm a n e)),
      Settles (fun c => ¬ AfterOperatorAction c) k := by
    rw [registerProof_checks hconfig hissuers]
    simp [hn, hpaused, happroved, hactive]
  obtain ⟨k', hk', hfails, hfailure⟩ := refusal_mem h
  exact hsettles k' hk' hfails k hfailure

end

/-! ### What operators do to the contracts -/

/-- An invocation signed by `p` alone. -/
def signedOnly (env : Env) (p : Address) : Env := {env with signed := fun a => decide (a = p)}

section
variable (dep : Deployment) {s : System} (env : Env) {p : Address} {v : Value}

theorem operate {c : Call} {x' : Values} (hp : operator s.values c = some p)
    (hE : Effect dep (signedOnly env p) s.values c v x') :
    ∃ s', (machine dep).Reaches (ByOperator env.timestamp) s s' ∧ s'.values = x' := by
  refine ⟨(machine dep).next ⟨c, signedOnly env p⟩ s, .step ⟨rfl, p, hp, fun a => ?_⟩,
    (step_ok dep hE).2⟩
  simp [Machine.stepAt, signedOnly]

theorem operate_config (c : ProtocolConfig.Call) {d' : Entries ProtocolConfig.DataKey.Value}
    {events : List ProtocolConfig.Event} (hp : operator s.values (.config c) = some p)
    (hE : ProtocolConfig.Effect {signedOnly env p with currentContract := dep.protocolConfig}
      s.values.config c v d' events) :
    ∃ s', (machine dep).Reaches (ByOperator env.timestamp) s s' ∧
      s'.values = ⟨d', s.values.issuers, s.values.proofs⟩ :=
  operate dep env hp ⟨events, hE, rfl, rfl⟩

theorem operate_issuers (c : IssuerRegistry.Call) {d' : Entries IssuerRegistry.DataKey.Value}
    {events : List IssuerRegistry.Event} (hp : operator s.values (.issuers c) = some p)
    (hE : IssuerRegistry.Effect {signedOnly env p with currentContract := dep.issuerRegistry}
      s.values.issuers c v d' events) :
    ∃ s', (machine dep).Reaches (ByOperator env.timestamp) s s' ∧
      s'.values = ⟨s.values.config, d', s.values.proofs⟩ :=
  operate dep env hp ⟨events, hE, rfl, rfl⟩

theorem operate_proofs (c : ProofRegistry.Call) {d' : Entries ProofRegistry.DataKey.Value}
    {events : List ProofRegistry.Event} (hp : operator s.values (.proofs c) = some p)
    (hE : ProofRegistry.Effect (answers dep s.values)
      {signedOnly env p with currentContract := dep.proofRegistry}
      s.values.proofs () c v d' events ()) :
    ∃ s', (machine dep).Reaches (ByOperator env.timestamp) s s' ∧
      s'.values = ⟨s.values.config, s.values.issuers, d'⟩ :=
  operate dep env hp ⟨events, hE, rfl, rfl⟩

end

/-- In every run a contract without an admin has no values. -/
theorem run_untouched (dep : Deployment) (is : List (Invocation Call)) :
    let x := ((machine dep).run empty is).values
    (x.config .inst .admin = none → x.config = Entries.empty) ∧
      (x.issuers .inst .admin = none → x.issuers = Entries.empty) := by
  refine run_invariant dep (fun x => (x.config .inst .admin = none → x.config = Entries.empty) ∧
    (x.issuers .inst .admin = none → x.issuers = Entries.empty)) (fun env x c v x' hE hx => ?_)
    ⟨fun _ => rfl, fun _ => rfl⟩ is
  refine ⟨?_, ?_⟩
  · rcases hE.config_cases with ⟨_, _, _, hE⟩ | ⟨_, hconfig⟩
    · exact ProtocolConfig.oneShot.untouched hE hx.1
    · rw [hconfig]
      exact hx.1
  · rcases hE.issuers_cases with ⟨_, _, _, hE⟩ | ⟨_, hissuers⟩
    · exact IssuerRegistry.oneShot.untouched hE hx.2
    · rw [hissuers]
      exact hx.2

/-! ### The configuration -/

section
variable {d : Entries ProtocolConfig.DataKey.Value} {n k : UInt32}

@[simp] theorem paused_put_paused (o : Option Bool) :
    paused (d.put .inst .paused o) = o.getD false := by
  simp [paused]

@[simp] theorem paused_put_schema (o : Option Bool) :
    paused (d.put .persistent (.schemaVersion k) o) = paused d := by
  simp [paused]

@[simp] theorem paused_put_counter (o : Option UInt32) :
    paused (d.put .inst .configVersion o) = paused d := by
  simp [paused]

@[simp] theorem approved_put_inst (key : ProtocolConfig.DataKey) (o : Option key.Value) :
    approved (d.put .inst key o) n = approved d n := by
  simp [approved]

theorem approved_put_schema (hn : n ≠ 0) :
    approved (d.put .persistent (.schemaVersion n) (some true)) n = true := by
  simp [approved, hn]

@[simp] theorem configVersion_put_counter (o : Option UInt32) :
    configVersion (d.put .inst .configVersion o) = o.getD 0 := by
  simp [configVersion]

end

/-- Protocol-config has an admin, and room for the changes that version `n` needs. -/
structure Prepared (d : Entries ProtocolConfig.DataKey.Value) (n : UInt32) : Prop where
  admin : d .inst .admin ≠ none
  room : (configVersion d).toNat + changesNeeded d n ≤ u32Max.toNat

section
variable (dep : Deployment) {s : System} {n : UInt32} (env : Env)

/-- With room in the counter the admin makes a configuration change. -/
theorem configure {p : Address} (c : ProtocolConfig.Call) {cl : StorageClass}
    {k : ProtocolConfig.DataKey} {y : k.Value} {event : ProtocolConfig.Event}
    (hadmin : s.values.config .inst .admin = some p)
    (hroom : configVersion s.values.config ≠ u32Max)
    (hoperator : operator s.values (.config c) = s.values.config .inst .admin)
    (heffect : ∀ v d' events,
      ProtocolConfig.Configures {signedOnly env p with currentContract := dep.protocolConfig}
        s.values.config cl k y event v d' events →
      ProtocolConfig.Effect {signedOnly env p with currentContract := dep.protocolConfig}
        s.values.config c v d' events) :
    ∃ m s', m.toNat = (configVersion s.values.config).toNat + 1 ∧
      (machine dep).Reaches (ByOperator env.timestamp) s s' ∧
      s'.values = ⟨(s.values.config.put cl k (some y)).put .inst .configVersion (some m),
        s.values.issuers, s.values.proofs⟩ := by
  have hs : (signedOnly env p).signed p = true := decide_eq_true rfl
  obtain ⟨m, hm, hE⟩ := ProtocolConfig.configures_of_room hadmin hs hroom
  obtain ⟨s', hreach, hs'⟩ :=
    operate_config dep env c (hoperator.trans hadmin) (heffect .unit _ _ hE)
  exact ⟨m, s', hm, hreach, hs'⟩

/-- The protocol is unpaused, if it is paused. -/
theorem Prepared.unpause (h : Prepared s.values.config n) :
    ∃ s', (machine dep).Reaches (ByOperator env.timestamp) s s' ∧ Prepared s'.values.config n ∧
      paused s'.values.config = false ∧ s'.values.issuers = s.values.issuers ∧
      s'.values.proofs = s.values.proofs := by
  obtain ⟨p, hp⟩ := Option.ne_none_iff_exists'.mp h.admin
  have hroom := h.room
  cases hpaused : paused s.values.config with
  | false => exact ⟨s, .refl, h, hpaused, rfl, rfl⟩
  | true =>
    simp only [changesNeeded, hpaused, Bool.toNat_true] at hroom
    have hne : configVersion s.values.config ≠ u32Max := by
      intro hlast
      rw [hlast] at hroom
      omega
    obtain ⟨m, s', hm, hreach, hs'⟩ := configure dep env .unpause hp hne rfl
      fun _ _ _ hE => hE
    refine ⟨s', hreach, ⟨?_, ?_⟩, ?_, ?_, ?_⟩ <;> rw [hs']
    · simp [hp]
    · simp only [changesNeeded, configVersion_put_counter, hm, paused_put_counter, paused_put_paused,
        approved_put_inst, Option.getD_some, Bool.toNat_false]
      omega
    · simp

/-- The version is approved, if it is not. -/
theorem Prepared.approve (h : Prepared s.values.config n) (hn : n ≠ 0) :
    ∃ s', (machine dep).Reaches (ByOperator env.timestamp) s s' ∧
      approved s'.values.config n = true ∧ paused s'.values.config = paused s.values.config ∧
      s'.values.issuers = s.values.issuers ∧ s'.values.proofs = s.values.proofs := by
  obtain ⟨p, hp⟩ := Option.ne_none_iff_exists'.mp h.admin
  have hroom := h.room
  cases happroved : approved s.values.config n with
  | true => exact ⟨s, .refl, happroved, rfl, rfl, rfl⟩
  | false =>
    simp only [changesNeeded, happroved, Bool.not_false, Bool.toNat_true] at hroom
    have hne : configVersion s.values.config ≠ u32Max := by
      intro hlast
      rw [hlast] at hroom
      omega
    obtain ⟨m, s', _, hreach, hs'⟩ :=
      configure dep env (.approveSchemaVersion n) hp hne rfl fun _ _ _ hE => ⟨hn, hE⟩
    refine ⟨s', hreach, ?_, ?_, ?_, ?_⟩ <;> rw [hs']
    · simpa using approved_put_schema hn
    · simp

/-- An address that can be made an admin. -/
def anyAdmin : Address := ⟨.account, .fill 32 1⟩

theorem anyAdmin_valid : isValidPrincipalAddress anyAdmin = true := by decide +kernel

/-- Protocol-config is initialized, if it is not. -/
theorem config_initialized
    (huntouched : s.values.config .inst .admin = none → s.values.config = Entries.empty)
    (hroom : (configVersion s.values.config).toNat + changesNeeded s.values.config n ≤ u32Max.toNat) :
    ∃ s', (machine dep).Reaches (ByOperator env.timestamp) s s' ∧ Prepared s'.values.config n ∧
      s'.values.issuers = s.values.issuers ∧ s'.values.proofs = s.values.proofs := by
  by_cases hadmin : s.values.config .inst .admin = none
  · obtain ⟨s', hreach, hs'⟩ := operate_config dep env (.initializeContract anyAdmin) rfl
      ⟨hadmin, anyAdmin_valid, by simp [signedOnly], rfl, rfl, rfl⟩
    refine ⟨s', hreach, ⟨?_, ?_⟩, ?_, ?_⟩ <;> rw [hs']
    · simp
    · rw [huntouched hadmin]
      simp [changesNeeded, paused, approved, configVersion]
      decide
  · exact ⟨s, .refl, ⟨hadmin, hroom⟩, rfl, rfl⟩

/-- Operators bring the configuration to where a registration with version `n` passes. -/
theorem config_ready (hn : n ≠ 0)
    (huntouched : s.values.config .inst .admin = none → s.values.config = Entries.empty)
    (hroom : (configVersion s.values.config).toNat + changesNeeded s.values.config n ≤ u32Max.toNat) :
    ∃ s', (machine dep).Reaches (ByOperator env.timestamp) s s' ∧
      changesNeeded s'.values.config n = 0 ∧ s'.values.issuers = s.values.issuers ∧
      s'.values.proofs = s.values.proofs := by
  obtain ⟨s₁, hreach₁, hprepared₁, hissuers₁, hproofs₁⟩ := config_initialized dep env huntouched hroom
  obtain ⟨s₂, hreach₂, hprepared₂, hpaused₂, hissuers₂, hproofs₂⟩ := hprepared₁.unpause dep env
  obtain ⟨s₃, hreach₃, happroved₃, hpaused₃, hissuers₃, hproofs₃⟩ := hprepared₂.approve dep env hn
  refine ⟨s₃, hreach₁.trans (hreach₂.trans hreach₃), ?_, hissuers₃.trans (hissuers₂.trans hissuers₁),
    hproofs₃.trans (hproofs₂.trans hproofs₁)⟩
  simp [changesNeeded, hpaused₃, hpaused₂, happroved₃]

/-! ### The issuer -/

/-- The issuer registry is initialized, if it is not. -/
theorem issuers_initialized :
    ∃ s' p, (machine dep).Reaches (ByOperator env.timestamp) s s' ∧
      s'.values.issuers .inst .admin = some p ∧
      records s'.values.issuers = records s.values.issuers ∧
      index s'.values.issuers = index s.values.issuers ∧
      s'.values.config = s.values.config ∧ s'.values.proofs = s.values.proofs := by
  cases hadmin : s.values.issuers .inst .admin with
  | none =>
    obtain ⟨s', hreach, hs'⟩ := operate_issuers dep env (.initializeContract anyAdmin) rfl
      ⟨hadmin, anyAdmin_valid, by simp [signedOnly], rfl, rfl, rfl⟩
    refine ⟨s', anyAdmin, hreach, ?_, ?_, ?_, ?_, ?_⟩ <;> rw [hs'] <;> simp
  | some p => exact ⟨s, p, .refl, hadmin, rfl, rfl, rfl, rfl⟩

/-- A free address is bound to an issuer that is not revoked, by registering it or by
rotating it there. -/
theorem address_bound {D : IssuerDirectory} {a p : Address} {id : BytesN 32}
    (hD : Keeps s.values.issuers D) (hadmin : s.values.issuers .inst .admin = some p)
    (hvalid : isValidPrincipalAddress a = true) (hfree : index s.values.issuers a = none)
    (hid : ¬ RevokedIssuer s.values.issuers id) :
    ∃ s' r, (machine dep).Reaches (ByOperator env.timestamp) s s' ∧
      s'.values.issuers .inst .admin = some p ∧ index s'.values.issuers a = some id ∧
      records s'.values.issuers id = some r ∧ r.status ≠ .revoked ∧
      s'.values.config = s.values.config ∧ s'.values.proofs = s.values.proofs := by
  cases hr : records s.values.issuers id with
  | none =>
    obtain ⟨s', hreach, hs'⟩ := operate_issuers dep env (.registerIssuer id a id) hadmin
      ⟨p, hadmin, hvalid, by simp [signedOnly], hr, hfree, rfl, rfl, rfl⟩
    refine ⟨s', ⟨id, a, id, .active, env.timestamp, env.timestamp⟩, hreach, ?_, ?_, ?_, by simp, ?_,
      ?_⟩ <;> rw [hs']
    · simp [hadmin]
    · simp
    · simp [signedOnly]
  | some r =>
    have hst : r.status ≠ .revoked := fun hst => hid ⟨r, hr, hst⟩
    have hne : a ≠ r.issuerAddress := by
      intro heq
      rw [hD.records] at hr
      rw [hD.index, heq, D.indexed hr] at hfree
      cases hfree
    obtain ⟨s', hreach, hs'⟩ := operate_issuers dep env (.rotateIssuerAddress id a) hadmin
      ⟨p, r, hadmin, hvalid, by simp [signedOnly], hr, hst, hne, hfree, rfl, rfl, rfl⟩
    refine ⟨s', {r with issuerAddress := a, updatedAt := env.timestamp}, hreach, ?_, ?_, ?_, hst, ?_,
      ?_⟩ <;> rw [hs']
    · simp [hadmin]
    · simp
    · simp [signedOnly]

/-- A bound issuer that is not revoked is made active. -/
theorem address_activated {a p : Address} {id : BytesN 32} {r : IssuerRecord}
    (hadmin : s.values.issuers .inst .admin = some p) (hindex : index s.values.issuers a = some id)
    (hr : records s.values.issuers id = some r) (hst : r.status ≠ .revoked) :
    ∃ s', (machine dep).Reaches (ByOperator env.timestamp) s s' ∧
      activeAddress s'.values.issuers a = true ∧ s'.values.config = s.values.config ∧
      s'.values.proofs = s.values.proofs := by
  obtain ⟨s', hreach, hs'⟩ := operate_issuers dep env (.reactivateIssuer id) hadmin
    ⟨p, r, hadmin, by simp [signedOnly], hr, fun h => absurd h hst, rfl, rfl, rfl⟩
  refine ⟨s', hreach, ?_, ?_, ?_⟩ <;> rw [hs']
  have hindex' : s.values.issuers .persistent (.addressIssuer a) = some id := hindex
  simp [activeAddress, IssuerRegistry.activeIssuer, hindex']

/-- Operators bring the address to where a registration passes. -/
theorem issuer_ready {D : IssuerDirectory} {a : Address} (hD : Keeps s.values.issuers D)
    (hvalid : isValidPrincipalAddress a = true) (hopen : ¬ Barred s.values.issuers a) :
    ∃ s', (machine dep).Reaches (ByOperator env.timestamp) s s' ∧
      activeAddress s'.values.issuers a = true ∧ s'.values.config = s.values.config ∧
      s'.values.proofs = s.values.proofs := by
  obtain ⟨s₁, p, hreach₁, hadmin₁, hrecords₁, hindex₁, hconfig₁, hproofs₁⟩ :=
    issuers_initialized dep env
  have hD₁ : Keeps s₁.values.issuers D := ⟨hrecords₁.trans hD.records, hindex₁.trans hD.index⟩
  obtain ⟨id, hid⟩ := not_forall.mp hopen
  obtain ⟨hindex, hnot⟩ := Classical.not_imp.mp hid
  have hnot₁ : ¬ RevokedIssuer s₁.values.issuers id := by
    rw [RevokedIssuer, hrecords₁]
    exact hnot
  have hbound : ∃ s₂ r, (machine dep).Reaches (ByOperator env.timestamp) s₁ s₂ ∧
      s₂.values.issuers .inst .admin = some p ∧ index s₂.values.issuers a = some id ∧
      records s₂.values.issuers id = some r ∧ r.status ≠ .revoked ∧
      s₂.values.config = s₁.values.config ∧ s₂.values.proofs = s₁.values.proofs := by
    rw [← hindex₁] at hindex
    rcases hindex with hfree | hindex
    · exact address_bound dep env hD₁ hadmin₁ hvalid hfree hnot₁
    · have hindexD := hindex
      rw [hD₁.index] at hindexD
      obtain ⟨r, hr, _⟩ := D.grounded hindexD
      rw [← hD₁.records] at hr
      exact ⟨s₁, r, .refl, hadmin₁, hindex, hr, fun hst => hnot₁ ⟨r, hr, hst⟩, rfl, rfl⟩
  obtain ⟨s₂, r, hreach₂, hadmin₂, hindex₂, hr₂, hst₂, hconfig₂, hproofs₂⟩ := hbound
  obtain ⟨s₃, hreach₃, hactive₃, hconfig₃, hproofs₃⟩ :=
    address_activated dep env hadmin₂ hindex₂ hr₂ hst₂
  exact ⟨s₃, hreach₁.trans (hreach₂.trans hreach₃), hactive₃,
    hconfig₃.trans (hconfig₂.trans hconfig₁), hproofs₃.trans (hproofs₂.trans hproofs₁)⟩

end

/-! ### A contract without an admin -/

/-- The admin of the contract a call is sent to. -/
def contractAdmin (x : Values) : Call → Option Address
  | .config _ => x.config .inst .admin
  | .issuers _ => x.issuers .inst .admin
  | .proofs _ => x.proofs .inst .admin

/-- There are two valid addresses besides any given one. -/
theorem two_others (self : Address) :
    ∃ a b, isValidPrincipalAddress a = true ∧ isValidPrincipalAddress b = true ∧ a ≠ self ∧
      b ≠ self ∧ a ≠ b := by
  let second : Address := ⟨.account, .fill 32 2⟩
  let third : Address := ⟨.account, .fill 32 3⟩
  have hsecond : isValidPrincipalAddress second = true := by decide +kernel
  have hthird : isValidPrincipalAddress third = true := by decide +kernel
  by_cases h₁ : anyAdmin = self
  · exact ⟨second, third, hsecond, hthird, h₁ ▸ by decide, h₁ ▸ by decide, by decide⟩
  · by_cases h₂ : second = self
    · exact ⟨anyAdmin, third, anyAdmin_valid, hthird, h₁, h₂ ▸ by decide, by decide⟩
    · exact ⟨anyAdmin, second, anyAdmin_valid, hsecond, h₁, h₂, by decide⟩

/-- Operators give the contract an admin. -/
theorem initialized (dep : Deployment) (s : System) (env : Env) (call : Call) :
    ∃ s', (machine dep).Reaches (ByOperator env.timestamp) s s' ∧
      contractAdmin s'.values call ≠ none := by
  by_cases hadmin : contractAdmin s.values call = none
  · cases call with
    | config c =>
      obtain ⟨s', hreach, hs'⟩ := operate_config dep env (.initializeContract anyAdmin) rfl
        ⟨hadmin, anyAdmin_valid, by simp [signedOnly], rfl, rfl, rfl⟩
      exact ⟨s', hreach, by simp [contractAdmin, hs']⟩
    | issuers c =>
      obtain ⟨s', hreach, hs'⟩ := operate_issuers dep env (.initializeContract anyAdmin) rfl
        ⟨hadmin, anyAdmin_valid, by simp [signedOnly], rfl, rfl, rfl⟩
      exact ⟨s', hreach, by simp [contractAdmin, hs']⟩
    | proofs c =>
      obtain ⟨a, b, ha, hb, hane, hbne, hab⟩ := two_others dep.proofRegistry
      obtain ⟨s', hreach, hs'⟩ := operate_proofs dep env (.initializeContract anyAdmin a b) rfl
        ⟨rfl, hadmin, anyAdmin_valid, ha, hb, hane, hbne, hab, by simp [signedOnly], rfl, rfl, rfl⟩
      exact ⟨s', hreach, by simp [contractAdmin, hs']⟩
  · exact ⟨s, .refl, hadmin⟩

/-- Once its contract has an admin, a call that is no registration waits for no operator. -/
theorem settles_initialized {dep : Deployment} {env : Env} {x : Values} {call : Call}
    (hwiring : ProofRegistry.Wiring x.proofs) (hadmin : contractAdmin x call ≠ none)
    (hno : ∀ id cm a n e, call ≠ .proofs (.registerProof id cm a n e)) :
    ∀ k ∈ checks dep env x call, Settles (fun c => ¬ AfterOperatorAction c) k := by
  cases call with
  | config call =>
    cases call with
    | upgrade u => exact governance_settles _ _ _ u
    | _ =>
      simp_all [checks, ProtocolConfig.checks, ProtocolConfig.configureChecks, contractAdmin]
  | issuers call =>
    cases call with
    | upgrade u => exact governance_settles _ _ _ u
    | _ =>
      simp_all [checks, IssuerRegistry.checks, IssuerRegistry.statusChecks,
        IssuerRegistry.amendChecks, contractAdmin]
  | proofs call =>
    cases call with
    | upgrade u => exact governance_settles _ _ _ u
    | registerProof id cm a n e => exact absurd rfl (hno id cm a n e)
    | getIssuerRegistry =>
      simpa [checks, ProofRegistry.checks, hwiring.issuerRegistry, contractAdmin] using hadmin
    | getProtocolConfig =>
      simpa [checks, ProofRegistry.checks, hwiring.protocolConfig, contractAdmin] using hadmin
    | _ => simp_all [checks, ProofRegistry.checks, ProofRegistry.revokeChecks, contractAdmin]

/-! ### What operators can clear -/

section
variable {dep : Deployment} {is : List (Invocation Call)} {i : Invocation Call}

theorem clearable_of_other {x : Values} {call : Call}
    (hno : ∀ id cm a n e, call ≠ .proofs (.registerProof id cm a n e)) : Clearable x call := by
  cases call with
  | proofs c =>
    cases c with
    | registerProof id cm a n e => exact absurd rfl (hno id cm a n e)
    | _ => trivial
  | _ => trivial

/-- A call that is no registration is cleared by an initialization. -/
theorem cleared_by_initialization
    (hno : ∀ id cm a n e, i.call ≠ .proofs (.registerProof id cm a n e)) :
    Cleared dep ((machine dep).run empty is) i := by
  obtain ⟨s', hreach, hadmin⟩ := initialized dep ((machine dep).run empty is) i.env i.call
  refine ⟨s', hreach, fun env _ _ c hfail => ?_⟩
  obtain ⟨js, _, rfl⟩ := hreach
  have hwiring : ProofRegistry.Wiring
      ((machine dep).run ((machine dep).run empty is) js).values.proofs := by
    rw [← Machine.run_append]
    exact run_wiring dep _
  obtain ⟨k, hk, hfails, hfailure⟩ := refusal_mem ((error_iff dep).mp hfail)
  exact settles_initialized hwiring hadmin hno k hk hfails c hfailure

variable {id cm : BytesN 32} {a : Address} {n : UInt32} {e : UInt64} {env : Env}

/-- A registration that waits is cleared when there is room for the changes and its address
is not barred. -/
theorem cleared_by_changes (hn : n ≠ 0)
    (hwaits : Waits dep env ((machine dep).run empty is).values a e)
    (hclearable : Clearable ((machine dep).run empty is).values
      (.proofs (.registerProof id cm a n e))) :
    Cleared dep ((machine dep).run empty is) ⟨.proofs (.registerProof id cm a n e), env⟩ := by
  obtain ⟨hroom, hopen⟩ := hclearable
  obtain ⟨D, hD⟩ := run_keeps dep is
  obtain ⟨s₁, hreach₁, hneeded, hissuers₁, hproofs₁⟩ :=
    config_ready dep env hn (run_untouched dep is).1 hroom
  rw [← hissuers₁] at hD hopen
  obtain ⟨s₂, hreach₂, hactive, hconfig₂, hproofs₂⟩ := issuer_ready dep env hD hwaits.valid hopen
  have hproofs : s₂.values.proofs = ((machine dep).run empty is).values.proofs :=
    hproofs₂.trans hproofs₁
  refine ⟨s₂, hreach₁.trans hreach₂, fun env' _ _ c hfail => ?_⟩
  exact not_waiting (hproofs ▸ hwaits.config) (hproofs ▸ hwaits.issuers) hn (hconfig₂ ▸ hneeded)
    hactive ((error_iff dep).mp hfail)

/-- Nothing changes what a registration has passed. -/
theorem Waits.run (h : Waits dep env ((machine dep).run empty is).values a e)
    (js : List (Invocation Call)) :
    Waits dep env ((machine dep).run ((machine dep).run empty is) js).values a e := by
  have hadmin : ((machine dep).run empty is).values.proofs .inst .admin ≠ none := by
    intro hnone
    have hconfig := (run_wiring dep is).protocolConfig.mpr hnone
    rw [h.config] at hconfig
    cases hconfig
  have hrun := run_invariant dep (fun x => x.proofs .inst .admin ≠ none ∧ Waits dep env x a e)
    (fun env' x c v x' hE hx => by
      obtain ⟨hadmin, hwaits⟩ := hx
      have hsame := hE.sameWiring hadmin
      exact ⟨hsame.admin ▸ hadmin, {hwaits with
        config := hsame.protocolConfig.trans hwaits.config
        issuers := hsame.issuerRegistry.trans hwaits.issuers}⟩) ⟨hadmin, h⟩ js
  exact hrun.2

/-- A barred address is never active again. -/
theorem barred_run (h : Barred ((machine dep).run empty is).values.issuers a)
    (js : List (Invocation Call)) :
    activeAddress ((machine dep).run ((machine dep).run empty is) js).values.issuers a = false := by
  have hrun := run_invariant dep (fun x => (∃ D, Keeps x.issuers D) ∧ Barred x.issuers a)
    (fun env x c v x' hE hx => by
      obtain ⟨⟨D, hD⟩, hbarred⟩ := hx
      refine ⟨keepsDirectory dep hE ⟨D, hD⟩, ?_⟩
      rcases hE.issuers_cases with ⟨_, _, _, hE⟩ | ⟨_, hissuers⟩
      · exact hbarred.step hD hE
      · exact hissuers ▸ hbarred) ⟨run_keeps dep is, h⟩ js
  exact hrun.2.inactive

/-- Without room for the changes, one is needed for ever. -/
theorem needed_run
    (h : u32Max.toNat < (configVersion ((machine dep).run empty is).values.config).toNat +
      changesNeeded ((machine dep).run empty is).values.config n) (js : List (Invocation Call)) :
    changesNeeded ((machine dep).run ((machine dep).run empty is) js).values.config n ≠ 0 := by
  have hadmin : ((machine dep).run empty is).values.config .inst .admin ≠ none := by
    intro hnone
    rw [(run_untouched dep is).1 hnone] at h
    simp [changesNeeded, paused, approved, configVersion] at h
    exact absurd h (by decide)
  have hrun := run_invariant dep (fun x => x.config .inst .admin ≠ none ∧
      u32Max.toNat < (configVersion x.config).toNat + changesNeeded x.config n)
    (fun env x c v x' hE hx => by
      obtain ⟨hadmin, hx⟩ := hx
      rcases hE.config_cases with ⟨_, _, _, hE⟩ | ⟨_, hconfig⟩
      · exact ⟨ProtocolConfig.oneShot.admin_stays hE hadmin,
          Nat.lt_of_lt_of_le hx (changes_step hE hadmin n)⟩
      · exact hconfig ▸ ⟨hadmin, hx⟩) ⟨hadmin, h⟩ js
  intro hzero
  have hlt := hrun.2
  have hle := UInt32.le_iff_toNat_le.mp (le_u32Max (configVersion
    ((machine dep).run ((machine dep).run empty is) js).values.config))
  rw [hzero] at hlt
  omega

/-- What is cleared had room for the changes, and an address that is not barred. -/
theorem Cleared.clearable (hn : n ≠ 0)
    (hwaits : Waits dep env ((machine dep).run empty is).values a e)
    (h : Cleared dep ((machine dep).run empty is) ⟨.proofs (.registerProof id cm a n e), env⟩) :
    Clearable ((machine dep).run empty is).values (.proofs (.registerProof id cm a n e)) := by
  obtain ⟨s', ⟨js, _, rfl⟩, hclear⟩ := h
  let signer : Env := {env with signed := fun _ => true}
  have hwaits' : Waits dep signer ((machine dep).run ((machine dep).run empty is) js).values a e :=
    {hwaits.run js with}
  have hdone :
      ¬ (changesNeeded ((machine dep).run ((machine dep).run empty is) js).values.config n ≠ 0 ∨
        activeAddress ((machine dep).run ((machine dep).run empty is) js).values.issuers a =
          false) := by
    intro hleft
    obtain ⟨k, hk, hafter⟩ := hwaits'.refused rfl hn hleft
    exact hclear signer rfl (fun _ _ => rfl) k ((error_iff dep).mpr hk) hafter
  refine ⟨Nat.le_of_not_lt fun hfull => hdone (.inl (needed_run hfull js)),
    fun hbarred => hdone (.inr (barred_run hbarred js))⟩

end

/-- Operators can clear a refusal that is to be retried after operator action exactly when
the call is no registration, or one whose address is not barred and for whose changes the
counter has room. -/
theorem operator_action (dep : Deployment) (is : List (Invocation Call)) (i : Invocation Call)
    (c : ErrorCode) (hwired : Wired dep ((machine dep).run empty is).values)
    (hschema : schemaVersion i.call ≠ some 0)
    (hfail : ((machine dep).reply i ((machine dep).run empty is)).outcome = .error (.error c))
    (hclass : retryFor c = .afterOperatorAction) :
    Cleared dep ((machine dep).run empty is) i ↔
      Clearable ((machine dep).run empty is).values i.call := by
  obtain ⟨call, env⟩ := i
  by_cases hno : ∀ id cm a n e, call ≠ .proofs (.registerProof id cm a n e)
  · exact ⟨fun _ => clearable_of_other hno, fun _ => cleared_by_initialization hno⟩
  · simp only [not_forall, not_not] at hno
    obtain ⟨id, cm, a, n, e, rfl⟩ := hno
    have hn : n ≠ 0 := fun hzero => hschema (congrArg some hzero)
    have hwaits := waits_of_refusal hwired hn hclass ((error_iff dep).mp hfail)
    exact ⟨Cleared.clearable hn hwaits, cleared_by_changes hn hwaits⟩

namespace Example
open System.Example

/-- After the setup the admin makes a call. -/
def afterSetup (call : Call) : List (Invocation Call) := setup ++ [⟨call, signedBy 2 [admin]⟩]

/-- The values a registration at the issuer's address finds after a pause. -/
theorem paused_values :
    let s := (System.machine deployment).run empty (afterSetup (.config .pause))
    s.values.proofs .inst .protocolConfig = some deployment.protocolConfig ∧
      s.values.proofs .inst .issuerRegistry = some deployment.issuerRegistry ∧
      (configVersion s.values.config).toNat + changesNeeded s.values.config 1 ≤ u32Max.toNat ∧
      index s.values.issuers issuer = some (.fill 32 21) ∧
      records s.values.issuers (.fill 32 21) =
        some ⟨.fill 32 21, issuer, .fill 32 31, .active, 1, 1⟩ ∧
      ((System.machine deployment).reply registration s).outcome =
        .error (.error ProofError.invalidSchemaVersion.code) := by
  decide +kernel

theorem revoked_values :
    let s := (System.machine deployment).run empty
      (afterSetup (.issuers (.revokeIssuer (.fill 32 21))))
    s.values.proofs .inst .protocolConfig = some deployment.protocolConfig ∧
      s.values.proofs .inst .issuerRegistry = some deployment.issuerRegistry ∧
      configVersion s.values.config < u32Max ∧
      index s.values.issuers issuer = some (.fill 32 21) ∧
      records s.values.issuers (.fill 32 21) =
        some ⟨.fill 32 21, issuer, .fill 32 31, .revoked, 1, 2⟩ ∧
      ((System.machine deployment).reply registration s).outcome =
        .error (.error ProofError.invalidSchemaVersion.code) := by
  decide +kernel

end Example

/-- A registration refused by a pause is cleared. -/
theorem operator_action_example :
    let s := (machine System.Example.deployment).run empty (Example.afterSetup (.config .pause))
    Cleared System.Example.deployment s System.Example.registration := by
  intro s
  obtain ⟨hconfig, hissuers, hroom, hindex, hr, hfail⟩ := Example.paused_values
  have hopen : ¬ Barred s.values.issuers System.Example.issuer := by
    intro hbarred
    have hst := (hbarred _ (.inr hindex)).status hr
    cases hst
  exact (operator_action System.Example.deployment _ System.Example.registration
    ProofError.invalidSchemaVersion.code (Wired.of_stored hconfig hissuers) (by decide) hfail
    (by decide)).mpr ⟨hroom, hopen⟩

/-- A registration at the address of a revoked issuer is told to wait for an operator, and
no operator can clear it. -/
theorem revoked_issuer_never_cleared :
    ¬ ∀ dep is i c, Wired dep ((machine dep).run empty is).values →
      configVersion ((machine dep).run empty is).values.config < u32Max →
      schemaVersion i.call ≠ some 0 →
      ((machine dep).reply i ((machine dep).run empty is)).outcome = .error (.error c) →
      retryFor c = .afterOperatorAction →
      Cleared dep ((machine dep).run empty is) i := by
  intro hclaim
  obtain ⟨hconfig, hissuers, hversion, hindex, hr, hfail⟩ := Example.revoked_values
  have hwired := Wired.of_stored hconfig hissuers
  have hcleared := hclaim System.Example.deployment _ System.Example.registration
    ProofError.invalidSchemaVersion.code hwired hversion (by decide) hfail (by decide)
  have hwaits := waits_of_refusal hwired (by decide) (by decide)
    ((error_iff System.Example.deployment).mp hfail)
  refine (Cleared.clearable (by decide) hwaits hcleared).2 fun id hid => ?_
  rcases hid with hfree | hbound
  · rw [hindex] at hfree
    cases hfree
  · obtain rfl := Option.some.inj (hindex.symm.trans hbound)
    exact ⟨_, hr, rfl⟩

end EarnProof.ErrorCatalog

import EarnProof.ProtocolConfig.Replay
import EarnProof.Renewal.Cadence
import EarnProof.System.Gate

/-! The documented extension triggers.

`Triggers` is the table of the operator guide: which calls extend which persistent
entry, with `register_proof` a trigger through the two queries it makes. Each of them
leaves more than the threshold, with one exception. `is_active_address` is listed for
the index entry too, but it only reads that entry: it extends the record the entry
leads to. So a lookup, and a registration that makes it, leaves the index entry what
it had. -/
namespace EarnProof
open Soroban

/-! ### The table -/

def ProtocolConfig.Call.Triggers : ProtocolConfig.Call → ProtocolConfig.DataKey → Prop
  | .approveSchemaVersion n, k => k = .schemaVersion n
  | .deprecateSchemaVersion n, k => k = .schemaVersion n
  | .isSchemaVersionApproved n, k => k = .schemaVersion n
  | _, _ => False

/-- A record is a key of `is_active_address` when the index leads to it. -/
def IssuerRegistry.Call.Triggers (d : Entries IssuerRegistry.DataKey.Value) :
    IssuerRegistry.Call → IssuerRegistry.DataKey → Prop
  | .registerIssuer id a _, k => k = .issuer id ∨ k = .addressIssuer a
  | .updateIssuer id _, k => k = .issuer id
  | .suspendIssuer id, k => k = .issuer id
  | .reactivateIssuer id, k => k = .issuer id
  | .revokeIssuer id, k => k = .issuer id
  | .rotateIssuerAddress id a, k => k = .issuer id ∨ k = .addressIssuer a
  | .getIssuer id, k => k = .issuer id
  | .isActiveIssuer id, k => k = .issuer id
  | .isActiveAddress a, k =>
    k = .addressIssuer a ∨ ∃ id, d .persistent (.addressIssuer a) = some id ∧ k = .issuer id
  | .getIssuerByAddress a, k => k = .addressIssuer a
  | _, _ => False

def ProofRegistry.Call.Triggers : ProofRegistry.Call → ProofRegistry.DataKey → Prop
  | .registerProof id _ _ _ _, k => k = .proof id
  | .revokeProof id, k => k = .proof id
  | .adminRevokeProof id, k => k = .proof id
  | .getProof id, k => k = .proof id
  | .isValidProof id, k => k = .proof id
  | .isRevoked id, k => k = .proof id
  | _, _ => False

namespace System

/-- A key of one of the deployed contracts. -/
inductive Key where
  | config (k : ProtocolConfig.DataKey)
  | issuers (k : IssuerRegistry.DataKey)
  | proofs (k : ProofRegistry.DataKey)

/-- The live-until ledger of the persistent entry under a key, if there is one. -/
def lifetime (s : System) : Key → Option Nat
  | .config k => s.config.lifetime k
  | .issuers k => s.issuers.lifetime k
  | .proofs k => s.proofs.lifetime k

def Triggers (x : Values) : Call → Key → Prop
  | .config c, .config k => c.Triggers k
  | .issuers c, .issuers k => c.Triggers x.issuers k
  | .proofs c, .proofs k => c.Triggers k
  -- `register_proof` asks `is_schema_version_approved` and `is_active_address`.
  | .proofs (.registerProof _ _ _ n _), .config k =>
    (ProtocolConfig.Call.isSchemaVersionApproved n).Triggers k
  | .proofs (.registerProof _ _ a _ _), .issuers k =>
    (IssuerRegistry.Call.isActiveAddress a).Triggers x.issuers k
  | _, _ => False

/-- The address a call looks up in the index. -/
def Call.looksUp : Call → Option Address
  | .issuers (.isActiveAddress a) => some a
  | .proofs (.registerProof _ _ a _ _) => some a
  | _ => none

/-- The key is the index entry that the call looks up, and what is left of that entry, a
restored one counted as new, is within the threshold. -/
def Unextended (i : Invocation Call) (s : System) (k : Key) : Prop :=
  ∃ a l, i.call.looksUp = some a ∧ k = .issuers (.addressIssuer a) ∧ s.lifetime k = some l ∧
    restoreUntil i.env.minimumTtl i.env.sequence l ≤ i.env.sequence + TTL_THRESHOLD_LEDGERS

end System

/-! ### Calls to one contract -/

/-- An invocation that goes through is a run of its program. -/
theorem invoke_run {K Ev W ρ : Type} {V : K → Type} {x : Program V Ev W ErrorCode ρ} {env : Env}
    {s : Storage V} {w : W} (hok : (invoke x env s w).1.Succeeded) :
    ∃ v f, x env ⟨s.load env.minimumTtl env.sequence, [], w⟩ = (.ok v, f) ∧
      (invoke x env s w).2 = (f.toStorage, f.world) := by
  obtain ⟨v, hv⟩ := hok
  rw [invoke_outcome] at hv
  rcases hrun : x env ⟨s.load env.minimumTtl env.sequence, [], w⟩ with ⟨o, f⟩
  rw [hrun] at hv
  subst hv
  exact ⟨v, f, rfl, by simp only [invoke, hrun]⟩

section Contract
variable {K C Ev ρ : Type} {V : K → Type} {program : C → Program V Ev Unit ErrorCode ρ}
  {extended : Entries V → C → K → Bool}

theorem above_of_extended
    (h : AgesBy program extended TTL_THRESHOLD_LEDGERS TTL_EXTEND_TO_LEDGERS) (self : Address)
    {i : Invocation C} {s : Storage V} {k : K} {l' : Nat}
    (hok : ((contractAt program self).reply i s).Succeeded)
    (hext : extended s.entries i.call k = true)
    (hl' : ((contractAt program self).next i s).lifetime k = some l') :
    i.env.sequence + TTL_THRESHOLD_LEDGERS < l' := by
  rcases contractAt_ages h self i s k with ⟨_, hages⟩ | ⟨hfail, _⟩
  · rw [hext, hl'] at hages
    exact hages.above threshold_lt_extendTo
  · exact absurd hok hfail

end Contract

/-! ### What the code extends of the table -/

/-- All of it, but for the flag of version zero, which there never is. -/
theorem ProtocolConfig.extended_of_triggers {c : Call} {k : DataKey} (h : c.Triggers k) :
    c.extended k = true ∨ k = .schemaVersion 0 := by
  cases c with
  | approveSchemaVersion n => exact .inl (decide_eq_true h)
  | deprecateSchemaVersion n => exact .inl (decide_eq_true h)
  | isSchemaVersionApproved n =>
    by_cases hn : n = 0
    · subst hn
      exact .inr h
    · exact .inl (decide_eq_true ⟨hn, h⟩)
  | _ => exact h.elim

/-- All of it, but for the index entry of a lookup. -/
theorem IssuerRegistry.extended_of_triggers {d : Entries DataKey.Value} {c : Call} {k : DataKey}
    (h : c.Triggers d k) :
    c.extended d k = true ∨ ∃ a, c = .isActiveAddress a ∧ k = .addressIssuer a := by
  cases c with
  | registerIssuer id a m => exact .inl (decide_eq_true h)
  | updateIssuer id m => exact .inl (decide_eq_true h)
  | suspendIssuer id => exact .inl (decide_eq_true h)
  | reactivateIssuer id => exact .inl (decide_eq_true h)
  | revokeIssuer id => exact .inl (decide_eq_true h)
  | rotateIssuerAddress id a => exact .inl (decide_eq_true h)
  | getIssuer id => exact .inl (decide_eq_true h)
  | isActiveIssuer id => exact .inl (decide_eq_true h)
  | isActiveAddress a =>
    rcases h with hindex | ⟨id, hid, hrecord⟩
    · exact .inr ⟨a, rfl, hindex⟩
    · exact .inl (by simp [Call.extended, hid, hrecord])
  | getIssuerByAddress a => exact .inl (decide_eq_true h)
  | _ => exact h.elim

theorem ProofRegistry.extended_of_triggers {c : Call} {k : DataKey} (h : c.Triggers k) :
    c.extended k = true := by
  cases c with
  | registerProof id c a n e => exact decide_eq_true h
  | revokeProof id => exact decide_eq_true h
  | adminRevokeProof id => exact decide_eq_true h
  | getProof id => exact decide_eq_true h
  | isValidProof id => exact decide_eq_true h
  | isRevoked id => exact decide_eq_true h
  | _ => exact h.elim

/-! ### A lookup -/

namespace IssuerRegistry
variable {env : Env} {a : Address} {s : Storage DataKey.Value}

/-- A lookup restores the index entry when it is archived, and does no more for it. -/
theorem lifetime_touchIndexed_index :
    (touchIndexed env a s).lifetime (.addressIssuer a) =
      (s.lifetime (.addressIssuer a)).map (restoreUntil env.minimumTtl env.sequence) := by
  unfold touchIndexed
  cases hindex : s.entries .persistent (.addressIssuer a) with
  | none =>
    have hnone : s.lifetime (.addressIssuer a) = none := by simpa using hindex
    rw [hnone]
    rfl
  | some id =>
    show (touchIssuer env id _).lifetime (.addressIssuer a) = _
    rw [lifetime_touchIssuer_of_ne (by simp), Storage.lifetime_access_self]

/-- The record it is led to is extended. -/
theorem lifetime_touchIndexed_record {id : BytesN 32} {l' : Nat}
    (hid : s.entries .persistent (.addressIssuer a) = some id)
    (hl' : (touchIndexed env a s).lifetime (.issuer id) = some l') :
    env.sequence + TTL_THRESHOLD_LEDGERS < l' := by
  have hages := touchIndexed_ages env a s (.issuer id)
  rw [hl'] at hages
  simp only [hid, Option.any_some, decide_true] at hages
  exact hages.above threshold_lt_extendTo

end IssuerRegistry

namespace System
variable (dep : Deployment)

/-- A client's answer is a run of the callee's program. -/
theorem ask_run {K Ev : Type} {V : K → Type} {x : Program V Ev Unit ErrorCode Bool} {callee : Address}
    {env : Env} {s : Storage V} {b : Bool} {f : Frame V Ev Unit}
    (h : x {env with currentContract := callee} ⟨s.load env.minimumTtl env.sequence, [], ()⟩ =
      (.ok b, f)) : ask callee x env s = (.ok b, f.toStorage) := by
  simp only [ask, invoke, h]
  rfl

theorem ask_isActiveAddress (callee : Address) (env : Env) (a : Address)
    (s : Storage IssuerRegistry.DataKey.Value) :
    (ask callee (IssuerRegistry.isActiveAddress a) env s).2 =
      IssuerRegistry.touchIndexed {env with currentContract := callee} a
        (s.load env.minimumTtl env.sequence) := by
  rw [ask_run (IssuerRegistry.isActiveAddress_ok.mpr ⟨rfl, rfl⟩)]

theorem ask_isSchemaVersionApproved (callee : Address) (env : Env) (n : UInt32)
    (s : Storage ProtocolConfig.DataKey.Value) :
    (ask callee (ProtocolConfig.isSchemaVersionApproved n) env s).2 =
      ProtocolConfig.touchSchema {env with currentContract := callee} n
        (s.load env.minimumTtl env.sequence) := by
  rw [ask_run (ProtocolConfig.isSchemaVersionApproved_ok.mpr ⟨rfl, rfl⟩)]

theorem ask_isPaused (callee : Address) (env : Env) (s : Storage ProtocolConfig.DataKey.Value) :
    (ask callee ProtocolConfig.isPaused env s).2 = s.load env.minimumTtl env.sequence := by
  have hrun : (ProtocolConfig.isPaused : ProtocolConfig.Code ErrorCode Bool)
      {env with currentContract := callee} ⟨s.load env.minimumTtl env.sequence, [], ()⟩ =
        (.ok ((s.entries .inst .paused).getD false),
          ⟨s.load env.minimumTtl env.sequence, [], ()⟩) := by
    simp [ProtocolConfig.isPaused]
  rw [ask_run hrun]

/-- What a registration that goes through leaves of the storages it asks. -/
theorem registerProof_dependencies {env : Env} {d d' : Entries ProofRegistry.DataKey.Value}
    {w w' : Dependencies} {id c : BytesN 32} {a : Address} {n : UInt32} {e : UInt64} {v : Value}
    {events : List ProofRegistry.Event}
    (h : ProofRegistry.Effect (clients dep) env d w (.registerProof id c a n e) v d' events w') :
    n ≠ 0 ∧
      w'.1 = ProtocolConfig.touchSchema {env with currentContract := dep.protocolConfig} n
        ((w.1.load env.minimumTtl env.sequence).load env.minimumTtl env.sequence) ∧
      w'.2 = IssuerRegistry.touchIndexed {env with currentContract := dep.issuerRegistry} a
        (w.2.load env.minimumTtl env.sequence) := by
  obtain ⟨cfg, reg, w₁, w₂, _, _, _, _, _, _, _, hn, _, hpaused, happroved, hactive, _⟩ := h
  by_cases hcfg : cfg = dep.protocolConfig
  · by_cases hreg : reg = dep.issuerRegistry
    · simp only [clients, hcfg, hreg, if_true, Prod.mk.injEq] at hpaused happroved hactive
      obtain ⟨_, rfl⟩ := hpaused
      obtain ⟨_, rfl⟩ := happroved
      obtain ⟨_, rfl⟩ := hactive
      rw [ask_isSchemaVersionApproved, ask_isPaused, ask_isActiveAddress]
      exact ⟨hn, rfl, rfl⟩
    · simp [clients, hreg] at hactive
  · simp [clients, hcfg] at hpaused

/-- A proof-registry call that goes through, as a run of its program. -/
theorem proofs_run {env : Env} {c : ProofRegistry.Call} {s : System}
    (hok : ((machine dep).reply ⟨.proofs c, env⟩ s).Succeeded) :
    ∃ v f, c.program (clients dep) {env with currentContract := dep.proofRegistry}
        ⟨s.proofs.load env.minimumTtl env.sequence, [], (s.config, s.issuers)⟩ = (.ok v, f) ∧
      (machine dep).next ⟨.proofs c, env⟩ s = ⟨f.world.1, f.world.2, f.toStorage⟩ := by
  have hinvoke : (invoke (c.program (clients dep)) {env with currentContract := dep.proofRegistry}
      s.proofs (s.config, s.issuers)).1.Succeeded := hok
  obtain ⟨v, f, hrun, hnext⟩ := invoke_run hinvoke
  refine ⟨v, f, hrun, ?_⟩
  simp only [Machine.next, machine, step, hnext]

/-- A lookup that goes through, direct or by a registration, runs over the stored issuers. -/
theorem lookup_storage {i : Invocation Call} {s : System} {a : Address} (ha : i.call.looksUp = some a)
    (hok : ((machine dep).reply i s).Succeeded) :
    ((machine dep).next i s).issuers = IssuerRegistry.touchIndexed
      {i.env with currentContract := dep.issuerRegistry} a
      (s.issuers.load i.env.minimumTtl i.env.sequence) := by
  obtain ⟨call, env⟩ := i
  cases call with
  | config c => cases ha
  | issuers c =>
    cases c <;> cases ha
    have hinvoke : (invoke (IssuerRegistry.Call.isActiveAddress a).program
        {env with currentContract := dep.issuerRegistry} s.issuers ()).1.Succeeded := hok
    obtain ⟨v, f, hrun, hnext⟩ := invoke_run hinvoke
    simp only [IssuerRegistry.Call.program, entry_ok, IssuerRegistry.isActiveAddress_ok] at hrun
    obtain ⟨_, ⟨_, rfl⟩, _⟩ := hrun
    simp only [Machine.next, machine, step, contractAt, IssuerRegistry.machine, hnext]
  | proofs c =>
    cases c <;> cases ha
    obtain ⟨v, f, hrun, hnext⟩ := proofs_run dep hok
    rw [hnext]
    have hE := (ProofRegistry.program_realizes (clients dep) _ _ _ _ _ _ _).mp ⟨f, rfl, hrun, rfl, rfl⟩
    exact (registerProof_dependencies dep hE).2.2

theorem run_schema_zero (is : List (Invocation Call)) :
    ((machine dep).run empty is).config.entries .persistent (.schemaVersion 0) = none := by
  refine run_invariant dep (fun x => x.config .persistent (.schemaVersion 0) = none)
    (fun env x c v x' hE hx => ?_) (rfl : empty.values.config .persistent (.schemaVersion 0) = none) is
  rcases hE.config_cases with ⟨_, _, _, hconfig⟩ | ⟨_, hconfig⟩
  · exact hconfig.schema_zero hx
  · rw [hconfig]
    exact hx

/-! ### The table and the code -/

section Exact
variable {dep} {i : Invocation Call} {s : System} {k : Key} {l' : Nat}

/-- The index entry of a lookup has what it had, a restored one counted as new. -/
theorem index_exact {a : Address} (ha : i.call.looksUp = some a)
    (hok : ((machine dep).reply i s).Succeeded)
    (hl' : ((machine dep).next i s).lifetime (.issuers (.addressIssuer a)) = some l') :
    ∃ l, s.lifetime (.issuers (.addressIssuer a)) = some l ∧
      l' = restoreUntil i.env.minimumTtl i.env.sequence l := by
  have hindex : ((machine dep).next i s).issuers.lifetime (.addressIssuer a) =
      (s.issuers.lifetime (.addressIssuer a)).map
        (restoreUntil i.env.minimumTtl i.env.sequence) := by
    rw [lookup_storage dep ha hok, IssuerRegistry.lifetime_touchIndexed_index]
    rfl
  have hsome := hindex.symm.trans hl'
  obtain ⟨l, hl, heq⟩ := Option.map_eq_some_iff.mp hsome
  exact ⟨l, hl, heq.symm⟩

/-- Every other trigger leaves more than the threshold. -/
theorem trigger_above (hzero : s.config.entries .persistent (.schemaVersion 0) = none)
    (hk : Triggers s.values i.call k) (hok : ((machine dep).reply i s).Succeeded)
    (hl' : ((machine dep).next i s).lifetime k = some l')
    (hlook : ¬ ∃ a, i.call.looksUp = some a ∧ k = .issuers (.addressIssuer a)) :
    i.env.sequence + TTL_THRESHOLD_LEDGERS < l' := by
  obtain ⟨call, env⟩ := i
  cases call with
  | config c =>
    cases k with
    | config k =>
      have hages : AgesBy ProtocolConfig.Call.program (fun _ c => c.extended) TTL_THRESHOLD_LEDGERS
          TTL_EXTEND_TO_LEDGERS := fun _ _ _ _ _ h => ProtocolConfig.program_ages h
      rcases ProtocolConfig.extended_of_triggers hk with hext | rfl
      · exact above_of_extended hages dep.protocolConfig hok hext hl'
      · -- There is no flag of version zero, before or after.
        rcases step_cases dep ⟨.config c, env⟩ s with ⟨v, _, _, hE, _⟩ | ⟨e, he, _⟩
        · have hnone : ((machine dep).next ⟨.config c, env⟩ s).config.lifetime (.schemaVersion 0) =
              none := Storage.lifetime_eq_none.mpr (hE.schema_zero hzero)
          cases hnone.symm.trans hl'
        · exact absurd hok (Receipt.not_succeeded he)
    | issuers k => exact hk.elim
    | proofs k => exact hk.elim
  | issuers c =>
    cases k with
    | config k => exact hk.elim
    | issuers k =>
      have hages : AgesBy IssuerRegistry.Call.program IssuerRegistry.Call.extended
          TTL_THRESHOLD_LEDGERS TTL_EXTEND_TO_LEDGERS :=
        fun _ _ _ _ _ h => IssuerRegistry.program_ages h
      rcases IssuerRegistry.extended_of_triggers hk with hext | ⟨a, rfl, rfl⟩
      · exact above_of_extended hages dep.issuerRegistry hok hext hl'
      · exact absurd ⟨a, rfl, rfl⟩ hlook
    | proofs k => exact hk.elim
  | proofs c =>
    obtain ⟨v, f, hrun, hnext⟩ := proofs_run dep hok
    rw [hnext] at hl'
    have hE := (ProofRegistry.program_realizes (clients dep) _ _ _ _ _ _ _).mp ⟨f, rfl, hrun, rfl, rfl⟩
    cases k with
    | proofs k =>
      have hages := ProofRegistry.program_ages hrun k
      have hproof : f.lifetime k = some l' := hl'
      rw [ProofRegistry.extended_of_triggers hk, Renews, hproof] at hages
      exact hages.above threshold_lt_extendTo
    | config k =>
      cases c with
      | registerProof id cm a n e =>
        obtain ⟨hn, hconfig, _⟩ := registerProof_dependencies dep hE
        have hflag : k = .schemaVersion n := hk
        have hages := ProtocolConfig.touchSchema_ages
          {env with currentContract := dep.protocolConfig} n
          ((s.config.load env.minimumTtl env.sequence).load env.minimumTtl env.sequence) k
        rw [decide_eq_true ⟨hn, hflag⟩] at hages
        rw [lifetime, hconfig] at hl'
        rw [hl'] at hages
        exact hages.above threshold_lt_extendTo
      | _ => exact hk.elim
    | issuers k =>
      cases c with
      | registerProof id cm a n e =>
        obtain ⟨_, _, hissuers⟩ := registerProof_dependencies dep hE
        rcases hk with rfl | ⟨issuer, hindex, rfl⟩
        · exact absurd ⟨a, rfl, rfl⟩ hlook
        · have hloaded : (s.issuers.load env.minimumTtl env.sequence).entries .persistent
              (.addressIssuer a) = some issuer := hindex
          rw [lifetime, hissuers] at hl'
          exact IssuerRegistry.lifetime_touchIndexed_record hloaded hl'
      | _ => exact hk.elim

/-- A call that the operator guide lists for an entry, and that goes through, leaves more
than the threshold of it, unless the entry is the index entry that the call looks up and
what was left of that, a restored one counted as new, is within the threshold. -/
theorem triggers_exact (dep : Deployment) (is : List (Invocation Call)) (i : Invocation Call)
    (k : Key) (l' : Nat) (hk : Triggers ((machine dep).run empty is).values i.call k)
    (hok : ((machine dep).reply i ((machine dep).run empty is)).Succeeded)
    (hl' : ((machine dep).next i ((machine dep).run empty is)).lifetime k = some l') :
    TTL_THRESHOLD_LEDGERS < l' - i.env.sequence ↔
      ¬ Unextended i ((machine dep).run empty is) k := by
  by_cases hlook : ∃ a, i.call.looksUp = some a ∧ k = .issuers (.addressIssuer a)
  · obtain ⟨a, ha, rfl⟩ := hlook
    obtain ⟨l, hl, rfl⟩ := index_exact ha hok hl'
    constructor
    · intro habove hun
      obtain ⟨_, m, _, _, hm, hle⟩ := hun
      rw [hl] at hm
      cases hm
      omega
    · intro hext
      have hlt : ¬ restoreUntil i.env.minimumTtl i.env.sequence l ≤
          i.env.sequence + TTL_THRESHOLD_LEDGERS := fun hle => hext ⟨a, l, ha, rfl, hl, hle⟩
      omega
  · have habove := trigger_above (run_schema_zero dep is) hk hok hl' hlook
    refine ⟨fun _ hun => ?_, fun _ => by omega⟩
    obtain ⟨a, _, ha, hkey, _⟩ := hun
    exact hlook ⟨a, ha, hkey⟩

end Exact

namespace Example

/-- The first issuer's registration of a proof, 450,000 ledgers after its own. -/
def lateRegistration : Invocation Call :=
  ⟨registration.call, {registration.env with sequence := 450001}⟩

def lateLookup : Invocation Call :=
  ⟨.issuers (.isActiveAddress issuer), {registration.env with sequence := 450001}⟩

def lateRead : Invocation Call :=
  ⟨.issuers (.getIssuer (.fill 32 21)), {registration.env with sequence := 450001}⟩

end Example

/-- A read of the record extends it. -/
theorem triggers_exact_read :
    TTL_THRESHOLD_LEDGERS < 950001 - Example.lateRead.env.sequence ↔
      ¬ Unextended Example.lateRead ((machine Example.deployment).run empty Example.setup)
        (.issuers (.issuer (.fill 32 21))) :=
  triggers_exact Example.deployment Example.setup Example.lateRead _ _ rfl (by decide +kernel)
    (by decide +kernel)

/-- A lookup and a registration when the threshold is left of both entries of the issuer:
both are listed for the index entry, both go through, and both extend the record only. -/
theorem index_not_extended :
    let m := machine Example.deployment
    let s := m.run empty Example.setup
    ∀ i ∈ [Example.lateLookup, Example.lateRegistration],
      Triggers s.values i.call (.issuers (.addressIssuer Example.issuer)) ∧
        (m.reply i s).Succeeded ∧
        (m.next i s).lifetime (.issuers (.addressIssuer Example.issuer)) = some 500001 ∧
        ¬ TTL_THRESHOLD_LEDGERS < 500001 - i.env.sequence ∧
        (m.next i s).lifetime (.issuers (.issuer (.fill 32 21))) = some 950001 := by
  intro m s i hi
  simp only [List.mem_cons, List.not_mem_nil, or_false] at hi
  rcases hi with rfl | rfl
  · exact ⟨.inl rfl, by decide +kernel, by decide +kernel, by decide, by decide +kernel⟩
  · exact ⟨.inl rfl, by decide +kernel, by decide +kernel, by decide, by decide +kernel⟩

end System
end EarnProof

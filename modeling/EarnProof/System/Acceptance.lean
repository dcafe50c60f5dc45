import EarnProof.System.Past
import EarnProof.System.Transparency

/-! The calls that succeed are decided by the calls that succeeded.

`Accepts` is the system without storage: for each entry point outside upgrade governance,
what its caller must pass and sign, and what the successful calls so far must say. The
deployed contracts accept exactly these calls, in every run (`accepted_iff`). -/
namespace EarnProof

/-! ### What a stored configuration allows -/

namespace ProtocolConfig
open Soroban
variable {env : Env} {d : Entries DataKey.Value}

theorem configures_iff {cl : StorageClass} {k : DataKey} {x : k.Value} {event : Event} :
    (∃ v d' events, Configures env d cl k x event v d' events) ↔
      (∃ admin, d .inst .admin = some admin ∧ env.signed admin = true) ∧
        configVersion d ≠ u32Max := by
  constructor
  · rintro ⟨_, _, _, admin, n, ha, hs, hn, _⟩
    refine ⟨⟨admin, ha, hs⟩, fun hfull => ?_⟩
    rw [checkedAdd_eq_none.mpr hfull] at hn
    cases hn
  · rintro ⟨⟨admin, ha, hs⟩, hroom⟩
    obtain ⟨n, _, hC⟩ := configures_of_room ha hs hroom
    exact ⟨_, _, _, hC⟩

end ProtocolConfig

namespace System
open Soroban

/-! ### The system without storage -/

section Accepts
variable (dep : Deployment) (env : Env) (ds : List Deed)

/-- The admin that protocol-config was last given signed, and its counter has room. -/
def MayConfigure : Prop :=
  (∃ admin, configWord ProtocolConfig.Call.newAdmin ds = some admin ∧ env.signed admin = true) ∧
    configChanges ds + 1 < u32Max.toNat

def AcceptsConfig : ProtocolConfig.Call → Prop
  | .initializeContract a =>
    configWord ProtocolConfig.Call.newAdmin ds = none ∧ isValidPrincipalAddress a = true ∧
      env.signed a = true
  | .setAdmin a => isValidPrincipalAddress a = true ∧ MayConfigure env ds
  | .pause | .unpause => MayConfigure env ds
  | .approveSchemaVersion n | .deprecateSchemaVersion n => n ≠ 0 ∧ MayConfigure env ds
  | .getAdmin => configWord ProtocolConfig.Call.newAdmin ds ≠ none
  | .isPaused | .isSchemaVersionApproved _ | .getConfigVersion => True
  | .upgrade _ => False

/-- The admin of the issuer registry signed. -/
def MayManage : Prop :=
  ∃ admin, issuersWord IssuerRegistry.Call.newAdmin ds = some admin ∧ env.signed admin = true

/-- The issuer is registered and not revoked. -/
def InOffice (id : BytesN 32) : Prop :=
  ∃ status, statusOf id ds = some status ∧ status ≠ .revoked

def AcceptsIssuers : IssuerRegistry.Call → Prop
  | .initializeContract a =>
    issuersWord IssuerRegistry.Call.newAdmin ds = none ∧ isValidPrincipalAddress a = true ∧
      env.signed a = true
  | .registerIssuer id a _ =>
    isValidPrincipalAddress a = true ∧ MayManage env ds ∧ statusOf id ds = none ∧ Vacant a ds
  | .updateIssuer id _ | .suspendIssuer id | .reactivateIssuer id =>
    MayManage env ds ∧ InOffice ds id
  | .revokeIssuer id => MayManage env ds ∧ statusOf id ds ≠ none
  | .rotateIssuerAddress id a =>
    isValidPrincipalAddress a = true ∧ MayManage env ds ∧ InOffice ds id ∧ Vacant a ds
  | .getAdmin => issuersWord IssuerRegistry.Call.newAdmin ds ≠ none
  | .getIssuer id => statusOf id ds ≠ none
  | .isActiveIssuer _ | .isActiveAddress _ => True
  | .getIssuerByAddress a => ¬ Vacant a ds
  | .upgrade _ => False

/-- What the deeds must say for a registration of `id` by the issuer address `a` under
schema version `n`. -/
structure Cleared (id : BytesN 32) (a : Address) (n : UInt32) : Prop where
  initialized : ∃ admin, InitializedWith ds admin dep.issuerRegistry dep.protocolConfig
  notPaused : configWord ProtocolConfig.Call.pausedFlag ds ≠ some true
  approved : configWord (ProtocolConfig.Call.schemaFlag n) ds = some true
  activeIssuer : ∃ issuer, addressOf issuer ds = some a ∧ statusOf issuer ds = some .active
  fresh : ∀ a, ¬ IssuedBy ds id a

def AcceptsProofs : ProofRegistry.Call → Prop
  | .initializeContract a i p =>
    (∀ a i p, ¬ InitializedWith ds a i p) ∧ isValidPrincipalAddress a = true ∧
      isValidPrincipalAddress i = true ∧ isValidPrincipalAddress p = true ∧
      i ≠ dep.proofRegistry ∧ p ≠ dep.proofRegistry ∧ i ≠ p ∧ env.signed a = true
  | .registerProof id _ a n e =>
    isValidPrincipalAddress a = true ∧ a ≠ dep.proofRegistry ∧ a ≠ dep.protocolConfig ∧
      a ≠ dep.issuerRegistry ∧ env.signed a = true ∧ n ≠ 0 ∧ env.timestamp < e ∧
      Cleared dep ds id a n
  | .revokeProof id => (∃ a, IssuedBy ds id a ∧ env.signed a = true) ∧ ¬ RevokedBy ds id
  | .adminRevokeProof id =>
    (∃ a, IssuedBy ds id a) ∧ ¬ RevokedBy ds id ∧
      ∃ admin i p, InitializedWith ds admin i p ∧ env.signed admin = true
  | .getProof id => ∃ a, IssuedBy ds id a
  | .isValidProof _ | .isRevoked _ => True
  | .getAdmin | .getIssuerRegistry | .getProtocolConfig => ∃ a i p, InitializedWith ds a i p
  | .upgrade _ => False

/-- The calls outside upgrade governance that succeed after the deeds `ds`. -/
def Accepts : Call → Prop
  | .config c => AcceptsConfig env ds c
  | .issuers c => AcceptsIssuers env ds c
  | .proofs c => AcceptsProofs dep env ds c

end Accepts

/-! ### The contracts accept the same -/

section Exact
variable (dep : Deployment) (env : Env) (is : List (Invocation Call))

theorem mayConfigure_iff : MayConfigure env (deeds ((machine dep).history empty is)) ↔
    let d := ((machine dep).run empty is).values.config
    (∃ admin, d .inst .admin = some admin ∧ env.signed admin = true) ∧
      ProtocolConfig.configVersion d ≠ u32Max := by
  rw [MayConfigure, ← run_configAdmin]
  refine and_congr_right fun ⟨admin, ha, _⟩ => ?_
  have hcounter := run_configVersion dep is (by rw [ha]; simp)
  have hbound := (ProtocolConfig.configVersion
    ((machine dep).run empty is).values.config).toNat_lt
  have hmax : u32Max.toNat = 4294967295 := by decide
  rw [← hcounter, ne_eq, ← UInt32.toNat_inj]
  omega

theorem config_accepted {c : ProtocolConfig.Call} (hc : Call.governs (.config c) = false) :
    (∃ v d' events, ProtocolConfig.Effect {env with currentContract := dep.protocolConfig}
        ((machine dep).run empty is).values.config c v d' events) ↔
      AcceptsConfig env (deeds ((machine dep).history empty is)) c := by
  cases c with
  | initializeContract a =>
    simp only [ProtocolConfig.Effect, AcceptsConfig, ← run_configAdmin]
    constructor
    · rintro ⟨_, _, _, hnone, hvalid, hs, _⟩
      exact ⟨hnone, hvalid, hs⟩
    · rintro ⟨hnone, hvalid, hs⟩
      exact ⟨_, _, _, hnone, hvalid, hs, rfl, rfl, rfl⟩
  | setAdmin a =>
    simp only [ProtocolConfig.Effect, AcceptsConfig, exists_and_left]
    rw [ProtocolConfig.configures_iff, mayConfigure_iff]
  | pause | unpause =>
    simp only [ProtocolConfig.Effect, AcceptsConfig]
    rw [ProtocolConfig.configures_iff, mayConfigure_iff]
  | approveSchemaVersion n | deprecateSchemaVersion n =>
    simp only [ProtocolConfig.Effect, AcceptsConfig, exists_and_left]
    rw [ProtocolConfig.configures_iff, mayConfigure_iff]
  | getAdmin =>
    simp only [ProtocolConfig.Effect, AcceptsConfig, ← run_configAdmin]
    simp [Option.ne_none_iff_exists']
  | isPaused | isSchemaVersionApproved n | getConfigVersion =>
    simp [ProtocolConfig.Effect, AcceptsConfig]
  | upgrade c => cases hc

theorem mayManage_iff : MayManage env (deeds ((machine dep).history empty is)) ↔
    ∃ admin, ((machine dep).run empty is).values.issuers .inst .admin = some admin ∧
      env.signed admin = true := by
  rw [MayManage, ← run_issuersAdmin]

theorem inOffice_iff (id : BytesN 32) : InOffice (deeds ((machine dep).history empty is)) id ↔
    ∃ r, IssuerRegistry.records ((machine dep).run empty is).values.issuers id = some r ∧
      r.status ≠ .revoked := by
  simp only [InOffice, run_statusOf, Option.map_eq_some_iff]
  constructor
  · rintro ⟨_, ⟨r, hr, rfl⟩, hst⟩
    exact ⟨r, hr, hst⟩
  · rintro ⟨r, hr, hst⟩
    exact ⟨_, ⟨r, hr, rfl⟩, hst⟩

theorem statusOf_eq_none (id : BytesN 32) :
    statusOf id (deeds ((machine dep).history empty is)) = none ↔
      IssuerRegistry.records ((machine dep).run empty is).values.issuers id = none := by
  rw [run_statusOf, Option.map_eq_none_iff]

theorem amends_iff {d : Entries IssuerRegistry.DataKey.Value} {id : BytesN 32}
    {allowed : IssuerRecord → Prop} {change : IssuerRecord → IssuerRecord}
    {event : IssuerRegistry.Event} :
    (∃ v d' events, IssuerRegistry.Amends env d id allowed change event v d' events) ↔
      (∃ admin, d .inst .admin = some admin ∧ env.signed admin = true) ∧
        ∃ r, IssuerRegistry.records d id = some r ∧ allowed r := by
  constructor
  · rintro ⟨_, _, _, admin, r, ha, hs, hr, hallowed, _⟩
    exact ⟨⟨admin, ha, hs⟩, r, hr, hallowed⟩
  · rintro ⟨⟨admin, ha, hs⟩, r, hr, hallowed⟩
    exact ⟨_, _, _, admin, r, ha, hs, hr, hallowed, rfl, rfl, rfl⟩

theorem issuers_accepted {c : IssuerRegistry.Call} (hc : Call.governs (.issuers c) = false) :
    (∃ v d' events, IssuerRegistry.Effect {env with currentContract := dep.issuerRegistry}
        ((machine dep).run empty is).values.issuers c v d' events) ↔
      AcceptsIssuers env (deeds ((machine dep).history empty is)) c := by
  have hamends : ∀ {id : BytesN 32} {change : IssuerRecord → IssuerRecord}
      {event : IssuerRegistry.Event} {allowed : IssuerRecord → Prop},
      (∀ r, allowed r ↔ r.status ≠ .revoked) →
      ((∃ v d' events, IssuerRegistry.Amends {env with currentContract := dep.issuerRegistry}
          ((machine dep).run empty is).values.issuers id allowed change event v d' events) ↔
        MayManage env (deeds ((machine dep).history empty is)) ∧
          InOffice (deeds ((machine dep).history empty is)) id) := by
    intro id change event allowed hallowed
    rw [amends_iff, mayManage_iff, inOffice_iff]
    simp only [hallowed]
  cases c with
  | initializeContract a =>
    simp only [IssuerRegistry.Effect, AcceptsIssuers, ← run_issuersAdmin]
    constructor
    · rintro ⟨_, _, _, hnone, hvalid, hs, _⟩
      exact ⟨hnone, hvalid, hs⟩
    · rintro ⟨hnone, hvalid, hs⟩
      exact ⟨_, _, _, hnone, hvalid, hs, rfl, rfl, rfl⟩
  | registerIssuer id a m =>
    simp only [IssuerRegistry.Effect, AcceptsIssuers, mayManage_iff, statusOf_eq_none, run_vacant]
    constructor
    · rintro ⟨_, _, _, admin, ha, hvalid, hs, hid, hfree, _⟩
      exact ⟨hvalid, ⟨admin, ha, hs⟩, hid, hfree⟩
    · rintro ⟨hvalid, ⟨admin, ha, hs⟩, hid, hfree⟩
      exact ⟨_, _, _, admin, ha, hvalid, hs, hid, hfree, rfl, rfl, rfl⟩
  | updateIssuer id m => exact hamends fun r => Iff.rfl
  | suspendIssuer id => exact hamends fun r => by simp
  | reactivateIssuer id => exact hamends fun r => by simp
  | revokeIssuer id =>
    refine amends_iff _ |>.trans ?_
    simp only [AcceptsIssuers, mayManage_iff, ne_eq, statusOf_eq_none, implies_true, and_true]
    exact and_congr_right fun _ => Option.ne_none_iff_exists'.symm
  | rotateIssuerAddress id a =>
    simp only [IssuerRegistry.Effect, AcceptsIssuers, mayManage_iff, inOffice_iff, run_vacant]
    constructor
    · rintro ⟨_, _, _, admin, r, ha, hvalid, hs, hr, hst, _, hfree, _⟩
      exact ⟨hvalid, ⟨admin, ha, hs⟩, ⟨r, hr, hst⟩, hfree⟩
    · rintro ⟨hvalid, ⟨admin, ha, hs⟩, ⟨r, hr, hst⟩, hfree⟩
      -- A vacant address is not the one the issuer has.
      have hne : a ≠ r.issuerAddress := by
        rintro rfl
        have hvacant := (run_vacant dep is r.issuerAddress).mpr hfree
        exact hvacant id (by rw [run_addressOf, hr]; rfl)
      exact ⟨_, _, _, admin, r, ha, hvalid, hs, hr, hst, hne, hfree, rfl, rfl, rfl⟩
  | getAdmin =>
    simp only [IssuerRegistry.Effect, AcceptsIssuers, ← run_issuersAdmin]
    simp [Option.ne_none_iff_exists']
  | getIssuer id =>
    simp only [IssuerRegistry.Effect, AcceptsIssuers, ne_eq, statusOf_eq_none]
    simp [← ne_eq, Option.ne_none_iff_exists', IssuerRegistry.records]
  | isActiveIssuer id | isActiveAddress a => simp [IssuerRegistry.Effect, AcceptsIssuers]
  | getIssuerByAddress a =>
    obtain ⟨D, hD⟩ := run_keeps dep is
    simp only [IssuerRegistry.Effect, AcceptsIssuers, run_vacant]
    constructor
    · rintro ⟨_, _, _, id, r, hid, _⟩ hnone
      have hindex := hnone.symm.trans hid
      cases hindex
    · intro hsome
      obtain ⟨id, hid⟩ := Option.ne_none_iff_exists'.mp hsome
      have hindex := hid
      rw [hD.index] at hindex
      obtain ⟨r, hr, _⟩ := D.grounded hindex
      rw [← hD.records] at hr
      exact ⟨_, _, _, id, r, hid, hr, rfl, rfl, rfl⟩
  | upgrade c => cases hc

/-- An issuer record with the address `a`, active. -/
theorem activeIssuer_iff (a : Address) :
    (∃ issuer r, ((machine dep).run empty is).values.issuers .persistent (.issuer issuer) = some r ∧
        r.issuerAddress = a ∧ r.status = .active) ↔
      ∃ issuer, addressOf issuer (deeds ((machine dep).history empty is)) = some a ∧
        statusOf issuer (deeds ((machine dep).history empty is)) = some .active := by
  refine exists_congr fun issuer => ?_
  rw [run_addressOf, run_statusOf]
  simp only [Option.map_eq_some_iff]
  constructor
  · rintro ⟨r, hr, ha, hactive⟩
    exact ⟨⟨r, hr, ha⟩, r, hr, hactive⟩
  · rintro ⟨⟨r, hr, ha⟩, r', hr', hactive⟩
    obtain rfl : r = r' := Option.some.inj (hr.symm.trans hr')
    exact ⟨r, hr, ha, hactive⟩

/-- A proof registry with other references registers nothing. -/
theorem Effect.references {env : Env} {x x' : Values} {id c : BytesN 32} {a : Address} {n : UInt32}
    {e : UInt64} {v : Value} (h : Effect dep env x (.proofs (.registerProof id c a n e)) v x') :
    x.proofs .inst .protocolConfig = some dep.protocolConfig ∧
      x.proofs .inst .issuerRegistry = some dep.issuerRegistry := by
  obtain ⟨_, ⟨cfg, reg, _, _, _, hcfg, hreg, _, _, _, _, _, _, hpaused, _, hactive, _⟩, _⟩ := h
  by_cases hcfg' : cfg = dep.protocolConfig
  · by_cases hreg' : reg = dep.issuerRegistry
    · rw [hcfg, hreg, hcfg', hreg']
      exact ⟨rfl, rfl⟩
    · simp [answers, if_neg hreg'] at hactive
  · simp [answers, if_neg hcfg'] at hpaused

/-- The gate of a registration, read off the deeds. -/
theorem registerProof_accepted (id c : BytesN 32) (a : Address) (n : UInt32) (e : UInt64) :
    (∃ v x', Effect dep env ((machine dep).run empty is).values
        (.proofs (.registerProof id c a n e)) v x') ↔
      AcceptsProofs dep env (deeds ((machine dep).history empty is)) (.registerProof id c a n e) := by
  obtain ⟨D, hD⟩ := run_keeps dep is
  have hwiring := run_wiring dep is
  constructor
  · rintro ⟨v, x', hE⟩
    have hadmits := (Effect.admits dep hD hwiring hE).1
    obtain ⟨hcfg, hreg⟩ := hE.references dep
    obtain ⟨admin, hadmin⟩ := Option.ne_none_iff_exists'.mp hadmits.initialized
    refine ⟨hadmits.validAddress, hadmits.ne_registry, ?_, ?_, hadmits.signed,
      hadmits.schemaVersion, hadmits.expiresAt,
      ⟨admin, (run_referenced dep is _ _ _).mpr ⟨hadmin, hreg, hcfg⟩⟩, ?_, ?_,
      (activeIssuer_iff dep is a).mp hadmits.activeIssuer, fun a' hissued => ?_⟩
    · rintro rfl
      exact hadmits.ne_config hcfg
    · rintro rfl
      exact hadmits.ne_issuers hreg
    · rw [← run_paused]
      exact hadmits.notPaused
    · rw [← run_schemaVersion]
      exact hadmits.approved
    · obtain ⟨r, hr, _⟩ := (run_issuedBy dep is id a').mp hissued
      have hstored := hadmits.absent.symm.trans hr
      cases hstored
  · rintro ⟨hvalid, hself, hnecfg, hnereg, hsigned, hn, he, hcleared⟩
    obtain ⟨admin, hinit⟩ := hcleared.initialized
    obtain ⟨hadmin, hreg, hcfg⟩ := (run_referenced dep is _ _ _).mp hinit
    have hadmits : Admits dep env ((machine dep).run empty is).values id a n e := by
      refine ⟨by rw [hadmin]; simp, hvalid, hself, ?_, ?_, hsigned, hn, he, ?_, ?_,
        (activeIssuer_iff dep is a).mpr hcleared.activeIssuer, ?_⟩
      · rw [hcfg]
        exact fun heq => hnecfg (Option.some.inj heq).symm
      · rw [hreg]
        exact fun heq => hnereg (Option.some.inj heq).symm
      · rw [run_paused]
        exact hcleared.notPaused
      · rw [run_schemaVersion]
        exact hcleared.approved
      · by_contra hstored
        obtain ⟨r, hr⟩ := Option.ne_none_iff_exists'.mp hstored
        exact hcleared.fresh r.issuerAddress ((run_issuedBy dep is id _).mpr ⟨r, hr, rfl⟩)
    exact ⟨_, _, hadmits.effect dep c hD hwiring (.of_stored hcfg hreg)⟩

/-- A proof is not revoked when its record is not. -/
theorem not_revokedBy_iff {id : BytesN 32} {r : ProofRecord}
    (hr : ProofRegistry.proofs ((machine dep).run empty is).values.proofs id = some r) :
    ¬ RevokedBy (deeds ((machine dep).history empty is)) id ↔ r.status ≠ .revoked := by
  rw [run_revokedBy, hr]
  simp

/-- Every other call of the proof registry asks nothing of the other contracts. -/
theorem proofs_accepted {c : ProofRegistry.Call} (hc : Call.governs (.proofs c) = false) :
    (∃ v x', Effect dep env ((machine dep).run empty is).values (.proofs c) v x') ↔
      AcceptsProofs dep env (deeds ((machine dep).history empty is)) c := by
  have hlift : ∀ {c : ProofRegistry.Call},
      (∃ v x', Effect dep env ((machine dep).run empty is).values (.proofs c) v x') ↔
        ∃ v d' events, ProofRegistry.Effect (answers dep ((machine dep).run empty is).values)
          {env with currentContract := dep.proofRegistry}
          ((machine dep).run empty is).values.proofs () c v d' events () := by
    intro c
    constructor
    · rintro ⟨v, x', events, hE, _⟩
      exact ⟨v, _, events, hE⟩
    · rintro ⟨v, d', events, hE⟩
      exact ⟨v, {((machine dep).run empty is).values with proofs := d'}, events, hE, rfl, rfl⟩
  cases c with
  | registerProof id c a n e => exact registerProof_accepted dep env is id c a n e
  | initializeContract a i p =>
    have hfresh : (∀ a i p, ¬ InitializedWith (deeds ((machine dep).history empty is)) a i p) ↔
        ((machine dep).run empty is).values.proofs .inst .admin = none := by
      have hinit := not_congr (run_initialized dep is)
      simpa using hinit
    rw [hlift]
    simp only [ProofRegistry.Effect, AcceptsProofs, hfresh]
    constructor
    · rintro ⟨_, _, _, _, hnone, ha, hi, hp, hi', hp', hne, hs, _⟩
      exact ⟨hnone, ha, hi, hp, hi', hp', hne, hs⟩
    · rintro ⟨hnone, ha, hi, hp, hi', hp', hne, hs⟩
      exact ⟨_, _, _, trivial, hnone, ha, hi, hp, hi', hp', hne, hs, rfl, rfl, rfl⟩
  | revokeProof id =>
    rw [hlift]
    simp only [ProofRegistry.Effect, AcceptsProofs, run_issuedBy]
    constructor
    · rintro ⟨_, _, _, _, r, p, hr, hp, hs, hst, _⟩
      cases hp
      exact ⟨⟨_, ⟨r, hr, rfl⟩, hs⟩, (not_revokedBy_iff dep is hr).mpr hst⟩
    · rintro ⟨⟨a, ⟨r, hr, rfl⟩, hs⟩, hno⟩
      exact ⟨_, _, _, trivial, r, _, hr, rfl, hs, (not_revokedBy_iff dep is hr).mp hno, rfl, rfl, rfl⟩
  | adminRevokeProof id =>
    rw [hlift]
    simp only [ProofRegistry.Effect, AcceptsProofs, run_issuedBy]
    constructor
    · rintro ⟨_, _, _, _, r, admin, hr, hadmin, hs, hst, _⟩
      have hstored : ((machine dep).run empty is).values.proofs .inst .admin = some admin := hadmin
      obtain ⟨a, i, p, hinit⟩ := (run_initialized dep is).mpr (by rw [hstored]; simp)
      have ha := ((run_referenced dep is a i p).mp hinit).1
      obtain rfl : admin = a := Option.some.inj (hstored.symm.trans ha)
      exact ⟨⟨_, r, hr, rfl⟩, (not_revokedBy_iff dep is hr).mpr hst, admin, i, p, hinit, hs⟩
    · rintro ⟨⟨a, r, hr, _⟩, hno, admin, i, p, hinit, hs⟩
      have hstored := ((run_referenced dep is admin i p).mp hinit).1
      exact ⟨_, _, _, trivial, r, admin, hr, hstored, hs, (not_revokedBy_iff dep is hr).mp hno, rfl, rfl,
        rfl⟩
  | getProof id =>
    rw [hlift]
    simp only [ProofRegistry.Effect, AcceptsProofs, run_issuedBy]
    simp [ProofRegistry.proofs]
  | isValidProof id | isRevoked id =>
    rw [hlift]
    simp [ProofRegistry.Effect, AcceptsProofs]
  | getAdmin =>
    rw [hlift, AcceptsProofs, run_initialized]
    simp [ProofRegistry.Effect, Option.ne_none_iff_exists']
  | getIssuerRegistry =>
    rw [hlift, AcceptsProofs, run_initialized, ne_eq, ← (run_wiring dep is).issuerRegistry]
    simp [← ne_eq, ProofRegistry.Effect, Option.ne_none_iff_exists']
  | getProtocolConfig =>
    rw [hlift, AcceptsProofs, run_initialized, ne_eq, ← (run_wiring dep is).protocolConfig]
    simp [← ne_eq, ProofRegistry.Effect, Option.ne_none_iff_exists']
  | upgrade c => cases hc

theorem effect_accepted {c : Call} (hc : c.governs = false) :
    (∃ v x', Effect dep env ((machine dep).run empty is).values c v x') ↔
      Accepts dep env (deeds ((machine dep).history empty is)) c := by
  cases c with
  | config c =>
    refine Iff.trans ?_ (config_accepted dep env is hc)
    constructor
    · rintro ⟨v, x', events, hE, _⟩
      exact ⟨v, _, events, hE⟩
    · rintro ⟨v, d', events, hE⟩
      exact ⟨v, {((machine dep).run empty is).values with config := d'}, events, hE, rfl, rfl⟩
  | issuers c =>
    refine Iff.trans ?_ (issuers_accepted dep env is hc)
    constructor
    · rintro ⟨v, x', events, hE, _⟩
      exact ⟨v, _, events, hE⟩
    · rintro ⟨v, d', events, hE⟩
      exact ⟨v, {((machine dep).run empty is).values with issuers := d'}, events, hE, rfl, rfl⟩
  | proofs c => exact proofs_accepted dep env is hc

/-- In every run of the deployed system, however its contracts were initialized, a call
outside upgrade governance succeeds exactly when the successful calls so far accept it:
calls that failed, queries, and the lifetimes of entries never decide. -/
theorem accepted_iff {c : Call} (hc : c.governs = false) :
    ((machine dep).reply ⟨c, env⟩ ((machine dep).run empty is)).Succeeded ↔
      Accepts dep env (deeds ((machine dep).history empty is)) c := by
  rw [succeeded_iff]
  exact effect_accepted dep env is hc

end Exact

/-- The deeds of the setup clear the issuer's registration. -/
theorem accepted_iff_registration :
    ((machine Example.deployment).reply Example.registration
      ((machine Example.deployment).run empty Example.setup)).Succeeded := by
  refine (accepted_iff Example.deployment _ Example.setup rfl).mpr
    ⟨by decide +kernel, by decide, by decide, by decide, by decide, by decide, by decide,
      ⟨Example.admin, 1, by decide +kernel⟩, by decide +kernel, by decide +kernel,
      ⟨.fill 32 21, by decide +kernel, by decide +kernel⟩, fun a hissued => ?_⟩
  obtain ⟨r, hr, _⟩ := (run_issuedBy Example.deployment Example.setup _ a).mp hissued
  have hstored := Example.setup_values.2.2.2.2.2.2.symm.trans hr
  cases hstored

end System
end EarnProof

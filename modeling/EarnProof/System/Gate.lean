import EarnProof.System.Machine

/-! When a proof can be registered.

The gate is spread over the three contracts: the proof registry's own checks, the pause
flag and the schema flag of the protocol configuration, and the issuer registry's
lookup from an address to an id to a record. `Admits` states it once, on the values. -/
namespace EarnProof.System
open Soroban

/-- The proof registry is uninitialized or was given the deployed dependencies. -/
structure Wired (dep : Deployment) (x : Values) : Prop where
  protocolConfig : ∀ a, x.proofs .inst .protocolConfig = some a → a = dep.protocolConfig
  issuerRegistry : ∀ a, x.proofs .inst .issuerRegistry = some a → a = dep.issuerRegistry

theorem Wired.of_stored {dep : Deployment} {x : Values}
    (hconfig : x.proofs .inst .protocolConfig = some dep.protocolConfig)
    (hissuers : x.proofs .inst .issuerRegistry = some dep.issuerRegistry) : Wired dep x where
  protocolConfig := by
    intro a ha
    exact Option.some.inj (ha.symm.trans hconfig)
  issuerRegistry := by
    intro a ha
    exact Option.some.inj (ha.symm.trans hissuers)

/-- The dependencies of an initialized proof registry stay. -/
theorem Effect.sameWiring {dep : Deployment} {env : Env} {x x' : Values} {c : Call} {v : Value}
    (h : Effect dep env x c v x') (hadmin : x.proofs .inst .admin ≠ none) :
    ProofRegistry.SameWiring x.proofs x'.proofs := by
  rcases h.proofs_cases with ⟨_, _, _, hE⟩ | ⟨_, hproofs⟩
  · exact hE.sameWiring hadmin
  · rw [hproofs]
    exact .refl _

theorem Wired.step {dep : Deployment} {env : Env} {x x' : Values} {c : Call} {v : Value}
    (hx : Wired dep x) (h : Effect dep env x c v x') (hadmin : x.proofs .inst .admin ≠ none) :
    Wired dep x' where
  protocolConfig := by
    intro a ha
    rw [(h.sameWiring hadmin).protocolConfig] at ha
    exact hx.protocolConfig a ha
  issuerRegistry := by
    intro a ha
    rw [(h.sameWiring hadmin).issuerRegistry] at ha
    exact hx.issuerRegistry a ha

/-- The registration gate, for the proof `id` by the issuer address `a` under schema
version `n`, expiring at `e`. -/
structure Admits (dep : Deployment) (env : Env) (x : Values) (id : BytesN 32) (a : Address)
    (n : UInt32) (e : UInt64) : Prop where
  initialized : x.proofs .inst .admin ≠ none
  validAddress : isValidPrincipalAddress a = true
  ne_registry : a ≠ dep.proofRegistry
  ne_config : x.proofs .inst .protocolConfig ≠ some a
  ne_issuers : x.proofs .inst .issuerRegistry ≠ some a
  signed : env.signed a = true
  schemaVersion : n ≠ 0
  expiresAt : env.timestamp < e
  notPaused : x.config .inst .paused ≠ some true
  approved : x.config .persistent (.schemaVersion n) = some true
  activeIssuer : ∃ issuer r, x.issuers .persistent (.issuer issuer) = some r ∧
    r.issuerAddress = a ∧ r.status = .active
  absent : x.proofs .persistent (.proof id) = none

variable (dep : Deployment) {env : Env} {x : Values}

/-- `is_active_address` asks for an active record at the address. -/
theorem activeAddress_iff {D : IssuerRegistry.IssuerDirectory}
    (hD : IssuerRegistry.Keeps x.issuers D) (a : Address) :
    IssuerRegistry.activeAddress x.issuers a = true ↔
      ∃ issuer r, x.issuers .persistent (.issuer issuer) = some r ∧ r.issuerAddress = a ∧
        r.status = .active := by
  have hrec : ∀ i, x.issuers .persistent (.issuer i) = D.records i := congrFun hD.records
  rw [hD.activeAddress]
  constructor
  · rintro ⟨r, hfind, hactive⟩
    obtain ⟨i, hr, ha⟩ := D.find_eq_some.mp hfind
    exact ⟨i, r, (hrec i).trans hr, ha, hactive⟩
  · rintro ⟨i, r, hr, ha, hactive⟩
    exact ⟨r, D.find_eq_some.mpr ⟨i, (hrec i).symm.trans hr, ha⟩, hactive⟩

/-- The values after a registration. -/
def registered (env : Env) (x : Values) (id c : BytesN 32) (a : Address) (n : UInt32) (e : UInt64) :
    Values :=
  { x with
    proofs := x.proofs.put .persistent (.proof id)
      (some ⟨id, c, a, .active, n, e, env.timestamp, 0⟩) }

theorem Effect.admits {id c : BytesN 32} {a : Address} {n : UInt32} {e : UInt64} {v : Value}
    {x' : Values} {D : IssuerRegistry.IssuerDirectory} (hD : IssuerRegistry.Keeps x.issuers D)
    (hwiring : ProofRegistry.Wiring x.proofs)
    (h : Effect dep env x (.proofs (.registerProof id c a n e)) v x') :
    Admits dep env x id a n e ∧ x' = registered env x id c a n e := by
  obtain ⟨events, hE, hconfig, hissuers⟩ := h
  obtain ⟨cfg, reg, _, _, hvalid, hcfg, hreg, hself, hacfg, hareg, hsigned, hn, he, hpaused, hschema,
    hactive, habsent, _, hd, _⟩ := hE
  have hinit : x.proofs .inst .admin ≠ none := by
    intro hnone
    rw [hwiring.protocolConfig.mpr hnone] at hcfg
    cases hcfg
  by_cases hcfg' : cfg = dep.protocolConfig
  · by_cases hreg' : reg = dep.issuerRegistry
    · simp only [answers, if_pos hcfg', Prod.mk.injEq, Except.ok.injEq] at hpaused hschema
      simp only [answers, if_pos hreg', Prod.mk.injEq, Except.ok.injEq] at hactive
      have hnotPaused : x.config .inst .paused ≠ some true := by
        intro hp
        rw [hp] at hpaused
        exact absurd hpaused.1 (by simp)
      have happroved : x.config .persistent (.schemaVersion n) = some true := by
        have hflag := (Bool.and_eq_true_iff.mp hschema.1).2
        cases hf : x.config .persistent (.schemaVersion n) with
        | none =>
          rw [hf] at hflag
          cases hflag
        | some b =>
          rw [hf] at hflag
          exact congrArg some hflag
      refine ⟨⟨hinit, hvalid, hself, ?_, ?_, hsigned, hn, he, hnotPaused, happroved,
        (activeAddress_iff hD a).mp hactive.1, habsent⟩, Values.ext hconfig hissuers hd⟩
      · rw [hcfg]
        exact fun heq => hacfg (Option.some.inj heq).symm
      · rw [hreg]
        exact fun heq => hareg (Option.some.inj heq).symm
    · simp [answers, if_neg hreg'] at hactive
  · simp [answers, if_neg hcfg'] at hpaused

theorem Admits.effect {id : BytesN 32} (c : BytesN 32) {a : Address} {n : UInt32} {e : UInt64}
    {D : IssuerRegistry.IssuerDirectory} (hD : IssuerRegistry.Keeps x.issuers D)
    (hwiring : ProofRegistry.Wiring x.proofs) (hwired : Wired dep x)
    (h : Admits dep env x id a n e) :
    Effect dep env x (.proofs (.registerProof id c a n e)) .unit (registered env x id c a n e) := by
  have hcfg : x.proofs .inst .protocolConfig = some dep.protocolConfig := by
    obtain ⟨cfg, hcfg⟩ := Option.ne_none_iff_exists'.mp fun hnone =>
      h.initialized (hwiring.protocolConfig.mp hnone)
    rw [hcfg, hwired.protocolConfig cfg hcfg]
  have hreg : x.proofs .inst .issuerRegistry = some dep.issuerRegistry := by
    obtain ⟨reg, hreg⟩ := Option.ne_none_iff_exists'.mp fun hnone =>
      h.initialized (hwiring.issuerRegistry.mp hnone)
    rw [hreg, hwired.issuerRegistry reg hreg]
  have hpaused : (x.config .inst .paused).getD false = false := by
    cases hp : x.config .inst .paused with
    | none => rfl
    | some b =>
      cases b with
      | false => rfl
      | true => exact absurd hp h.notPaused
  have hn : (n != 0) = true := by simpa using h.schemaVersion
  refine ⟨[], ⟨dep.protocolConfig, dep.issuerRegistry, (), (), h.validAddress, hcfg, hreg,
    h.ne_registry, ?_, ?_, h.signed, h.schemaVersion, h.expiresAt, ?_, ?_, ?_, h.absent, rfl, rfl,
    rfl⟩, rfl, rfl⟩
  · rintro rfl
    exact h.ne_config hcfg
  · rintro rfl
    exact h.ne_issuers hreg
  · simp [answers, hpaused]
  · simp [answers, hn, h.approved]
  · simp [answers, (activeAddress_iff hD a).mpr h.activeIssuer]

/-- In every reachable state of the deployed system a registration succeeds exactly at the
gate, then adds its record and changes no other value; otherwise nothing changes. -/
theorem registration_gate (is : List (Invocation Call))
    (hwired : Wired dep ((machine dep).run empty is).values) (env : Env) (id c : BytesN 32)
    (a : Address) (n : UInt32) (e : UInt64) :
    let s := (machine dep).run empty is
    let i : Invocation Call := ⟨.proofs (.registerProof id c a n e), env⟩
    (((machine dep).reply i s).Succeeded ↔ Admits dep env s.values id a n e) ∧
      (((machine dep).reply i s).Succeeded →
        ((machine dep).next i s).values = registered env s.values id c a n e) ∧
      (¬ ((machine dep).reply i s).Succeeded → (machine dep).next i s = s) := by
  intro s i
  obtain ⟨D, hD⟩ := run_keeps dep is
  have hwiring := run_wiring dep is
  refine ⟨?_, fun hok => ?_, fun hfail => ?_⟩
  · rw [succeeded_iff]
    constructor
    · rintro ⟨v, x', hE⟩
      exact (Effect.admits dep hD hwiring hE).1
    · intro h
      exact ⟨_, _, h.effect dep c hD hwiring hwired⟩
  · obtain ⟨v, x', hE⟩ := (succeeded_iff dep).mp hok
    rw [(step_ok dep hE).2]
    exact (Effect.admits dep hD hwiring hE).2
  · rcases step_cases dep i s with ⟨v, hv, _⟩ | ⟨_, _, hs, _⟩
    · exact absurd ⟨v, hv⟩ hfail
    · exact hs

namespace Example

def address (kind : AddressKind) (b : UInt8) : Address := ⟨kind, .fill 32 b⟩

def admin : Address := address .account 1

/-- The address of the first issuer. -/
def issuer : Address := address .account 2

def deployment : Deployment where
  protocolConfig := address .contract 11
  issuerRegistry := address .contract 12
  proofRegistry := address .contract 13
  config_ne_issuers := by decide
  config_ne_proofs := by decide
  issuers_ne_proofs := by decide

/-- An invocation at time `t` signed by `signers`. -/
def signedBy (t : UInt64) (signers : List Address) : Env where
  currentContract := admin
  timestamp := t
  sequence := 1
  signed := fun a => signers.contains a
  installable := fun _ => true
  minimumTtl := 4096

/-- The contracts initialized, schema version one approved, one issuer registered. -/
def setup : List (Invocation Call) :=
  [⟨.config (.initializeContract admin), signedBy 1 [admin]⟩,
    ⟨.issuers (.initializeContract admin), signedBy 1 [admin]⟩,
    ⟨.proofs (.initializeContract admin deployment.issuerRegistry deployment.protocolConfig),
      signedBy 1 [admin]⟩,
    ⟨.config (.approveSchemaVersion 1), signedBy 1 [admin]⟩,
    ⟨.issuers (.registerIssuer (.fill 32 21) issuer (.fill 32 31)), signedBy 1 [admin]⟩]

def proof : BytesN 32 := .fill 32 41

/-- The issuer registers `proof`, valid until time ten. -/
def registration : Invocation Call :=
  ⟨.proofs (.registerProof proof (.fill 32 51) issuer 1 10), signedBy 2 [issuer]⟩

theorem setup_values :
    let x := ((machine deployment).run empty setup).values
    x.proofs .inst .admin = some admin ∧
      x.proofs .inst .protocolConfig = some deployment.protocolConfig ∧
      x.proofs .inst .issuerRegistry = some deployment.issuerRegistry ∧
      x.config .inst .paused = some false ∧ x.config .persistent (.schemaVersion 1) = some true ∧
      x.issuers .persistent (.issuer (.fill 32 21)) =
        some (⟨.fill 32 21, issuer, .fill 32 31, .active, 1, 1⟩ : IssuerRecord) ∧
      x.proofs .persistent (.proof proof) = none := by
  decide +kernel

theorem setup_wired : Wired deployment ((machine deployment).run empty setup).values :=
  .of_stored setup_values.2.1 setup_values.2.2.1

end Example

/-- After the setup the issuer's registration passes the gate. -/
theorem registration_gate_example :
    ((machine Example.deployment).reply Example.registration
      ((machine Example.deployment).run empty Example.setup)).Succeeded := by
  obtain ⟨hadmin, hcfg, hreg, hpaused, hschema, hissuer, habsent⟩ := Example.setup_values
  refine (registration_gate Example.deployment Example.setup Example.setup_wired _ _ _ _ _ _).1.mpr
    ⟨by rw [hadmin]; simp, by decide +kernel, by decide, by rw [hcfg]; decide, by rw [hreg]; decide,
      by decide, by decide, by decide, by rw [hpaused]; simp, hschema, ⟨_, _, hissuer, rfl, rfl⟩,
      habsent⟩

end EarnProof.System

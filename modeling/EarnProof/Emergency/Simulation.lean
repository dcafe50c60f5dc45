import EarnProof.Emergency.Model
import EarnProof.Initialization.Contracts
import EarnProof.ProtocolConfig.Audit
import EarnProof.System.Authority
import EarnProof.System.Refusals

/-! The contracts follow the operators' rules.

`Represents` relates the stored values of the three contracts to a state of the model. An
operation with valid arguments and the signature it needs goes through exactly when the
model accepts it, and the values it leaves represent what the model makes of it
(`Represents.step`); two machines in lockstep carry this to sequences of any length. -/
namespace EarnProof.Emergency
open Soroban EarnProof.System
open IssuerRegistry (records Keeps)
open ProofRegistry (revokedProof)
open ProtocolConfig (configVersion)

variable {I : Type}

/-- The call that makes an operation. -/
def Op.call (pop : Population I) : Op I → Call
  | .pause => .config .pause
  | .unpause => .config .unpause
  | .rotateAdmin a => .config (.setAdmin a)
  | .suspendIssuer i => .issuers (.suspendIssuer (pop.id i))
  | .reactivateIssuer i => .issuers (.reactivateIssuer (pop.id i))
  | .revokeIssuer i => .issuers (.revokeIssuer (pop.id i))
  | .revokeProof p => .proofs (.adminRevokeProof p)
  | .registerProof p c i n e => .proofs (.registerProof p c (pop.address i) n e)

/-- What the contracts answer when they are asked for the state of the model. -/
structure Observes (dep : Deployment) (pop : Population I) (s : System) (m : Model I) : Prop where
  paused : ∀ env, ((machine dep).reply ⟨.config .isPaused, env⟩ s).outcome = .ok (.bool m.paused)
  issuer : ∀ i env, ∃ r,
    ((machine dep).reply ⟨.issuers (.getIssuer (pop.id i)), env⟩ s).outcome = .ok (.issuer r) ∧
      r.issuerAddress = pop.address i ∧ (r.status == .suspended) = m.issuerSuspended i ∧
      (r.status == .revoked) = m.issuerRevoked i
  registered : ∀ p env, ((machine dep).reply ⟨.proofs (.getProof p), env⟩ s).Succeeded ↔
    m.proofRegistered p = true
  revoked : ∀ p env,
    ((machine dep).reply ⟨.proofs (.isRevoked p), env⟩ s).outcome = .ok (.bool (m.proofRevoked p))

/-- The arguments are valid and not expired, for the versions approved in `start`. -/
def ValidArguments (dep : Deployment) (pop : Population I) (start : Values) (now : UInt64) :
    Op I → Prop
  | .rotateAdmin next => isValidPrincipalAddress next = true
  | .registerProof _ _ i n e =>
    isValidPrincipalAddress (pop.address i) = true ∧ pop.address i ≠ dep.proofRegistry ∧
      pop.address i ≠ dep.protocolConfig ∧ pop.address i ≠ dep.issuerRegistry ∧
      approved start.config n = true ∧ now < e
  | _ => True

/-- The step is signed by its required principal, and there is room in the counter. -/
structure Proper (t : SystemStep) : Prop where
  signed : ∀ p ∈ requiredPrincipal t.pre.values t.input.call, t.input.env.signed p = true
  room : configVersion t.pre.values.config < u32Max

/-! ### The values of a model state -/

/-- The stored values represent a state of the model. -/
structure Represents (pop : Population I) (x : Values) (m : Model I) : Prop where
  paused : paused x.config = m.paused
  issuer : ∀ i, ∃ r, records x.issuers (pop.id i) = some r ∧ r.issuerAddress = pop.address i ∧
    (r.status == .suspended) = m.issuerSuspended i ∧ (r.status == .revoked) = m.issuerRevoked i
  registered : ∀ p, (x.proofs .persistent (.proof p)).isSome = m.proofRegistered p
  revoked : ∀ p, revokedProof x.proofs p = m.proofRevoked p

section
variable {dep : Deployment} {s : System}

theorem isPaused_outcome (env : Env) :
    ((machine dep).reply ⟨.config .isPaused, env⟩ s).outcome =
      .ok (.bool (System.paused s.values.config)) :=
  query_outcome dep ⟨[], ⟨rfl, rfl, rfl⟩, rfl, rfl⟩

theorem getIssuer_outcome {id : BytesN 32} {r : IssuerRecord} (env : Env) :
    ((machine dep).reply ⟨.issuers (.getIssuer id), env⟩ s).outcome = .ok (.issuer r) ↔
      records s.values.issuers id = some r := by
  constructor
  · intro hok
    rcases step_cases dep ⟨.issuers (.getIssuer id), env⟩ s with ⟨v, hv, hE⟩ | ⟨_, he, _⟩
    · obtain ⟨_, ⟨r', hr', rfl, _⟩, _⟩ := hE
      rw [hok] at hv
      cases hv
      exact hr'
    · rw [hok] at he
      cases he
  · intro hr
    exact query_outcome dep ⟨[], ⟨r, hr, rfl, rfl, rfl⟩, rfl, rfl⟩

theorem getProof_succeeded {p : BytesN 32} (env : Env) :
    ((machine dep).reply ⟨.proofs (.getProof p), env⟩ s).Succeeded ↔
      (s.values.proofs .persistent (.proof p)).isSome = true := by
  rw [succeeded_iff, Option.isSome_iff_exists]
  constructor
  · intro hok
    obtain ⟨_, _, _, ⟨_, r, hr, _⟩, _⟩ := hok
    exact ⟨r, hr⟩
  · intro hsome
    obtain ⟨r, hr⟩ := hsome
    exact ⟨.proof r, s.values, [], ⟨rfl, r, hr, rfl, rfl, rfl⟩, rfl, rfl⟩

theorem isRevoked_outcome {p : BytesN 32} (env : Env) :
    ((machine dep).reply ⟨.proofs (.isRevoked p), env⟩ s).outcome =
      .ok (.bool (revokedProof s.values.proofs p)) :=
  query_outcome dep ⟨[], ⟨rfl, rfl, rfl, rfl⟩, rfl, rfl⟩

/-- The contracts show what their values represent. -/
theorem observes_iff {pop : Population I} {m : Model I} :
    Observes dep pop s m ↔ Represents pop s.values m := by
  constructor
  · intro h
    let env : Env := ⟨dep.protocolConfig, 0, 0, fun _ => false, fun _ => false, 0⟩
    refine ⟨?_, fun i => ?_, fun p => ?_, fun p => ?_⟩
    · simpa [isPaused_outcome] using h.paused env
    · obtain ⟨r, hr, hrest⟩ := h.issuer i env
      exact ⟨r, (getIssuer_outcome env).mp hr, hrest⟩
    · exact Bool.eq_iff_iff.mpr ((getProof_succeeded env).symm.trans (h.registered p env))
    · simpa [isRevoked_outcome] using h.revoked p env
  · intro h
    refine ⟨fun env => ?_, fun i env => ?_, fun p env => ?_, fun p env => ?_⟩
    · rw [isPaused_outcome, h.paused]
    · obtain ⟨r, hr, hrest⟩ := h.issuer i
      exact ⟨r, (getIssuer_outcome env).mpr hr, hrest⟩
    · rw [getProof_succeeded, h.registered]
    · rw [isRevoked_outcome, h.revoked]

end

/-! ### What operations rely on -/

/-- What the operations find in place, and leave in place. -/
structure Ready (dep : Deployment) (start x : Values) : Prop where
  keeps : ∃ D, Keeps x.issuers D
  wiring : ProofRegistry.Wiring x.proofs
  wired : Wired dep x
  initialized : Initialized x
  schema : ∀ n, approved x.config n = approved start.config n

section
variable {dep : Deployment} {start x x' : Values} {env : Env} {v : Value} {pop : Population I}
  {m : Model I} {op : Op I}

/-- No operation touches a schema version. -/
theorem approved_step (h : Effect dep env x (op.call pop) v x') (n : UInt32) :
    approved x'.config n = approved x.config n := by
  cases op with
  | pause | unpause =>
    obtain ⟨_, hE, _⟩ := h
    obtain ⟨k, _, hd⟩ := ProtocolConfig.Configures.writes hE
    rw [hd]
    simp [approved]
  | rotateAdmin a =>
    obtain ⟨_, hE, _⟩ := h
    obtain ⟨k, _, hd⟩ := hE.2.writes
    rw [hd]
    simp [approved]
  | suspendIssuer i | reactivateIssuer i | revokeIssuer i =>
    obtain ⟨_, _, hconfig, _⟩ := h
    rw [hconfig]
  | revokeProof p | registerProof p c i k e =>
    obtain ⟨_, _, hconfig, _⟩ := h
    rw [hconfig]

theorem initialized_step {c : Call} (h : Effect dep env x c v x') (hx : Initialized x) :
    Initialized x' := by
  refine ⟨?_, ?_, (h.sameWiring hx.proofs).admin ▸ hx.proofs⟩
  · rcases h.config_cases with ⟨_, _, _, hE⟩ | ⟨_, hconfig⟩
    · exact ProtocolConfig.oneShot.admin_stays hE hx.config
    · exact hconfig ▸ hx.config
  · rcases h.issuers_cases with ⟨_, _, _, hE⟩ | ⟨_, hissuers⟩
    · exact IssuerRegistry.oneShot.admin_stays hE hx.issuers
    · exact hissuers ▸ hx.issuers

theorem Ready.step (hx : Ready dep start x) (h : Effect dep env x (op.call pop) v x') :
    Ready dep start x' where
  keeps := keepsDirectory dep h hx.keeps
  wiring := by
    have hsame := h.sameWiring hx.initialized.proofs
    refine ⟨?_, ?_⟩
    · rw [hsame.issuerRegistry, hsame.admin]
      exact hx.wiring.issuerRegistry
    · rw [hsame.protocolConfig, hsame.admin]
      exact hx.wiring.protocolConfig
  wired := hx.wired.step h hx.initialized.proofs
  initialized := initialized_step h hx.initialized
  schema := fun n => (approved_step h n).trans (hx.schema n)

/-! ### One operation -/

/-- The operation goes through as the model says. -/
def Follows (dep : Deployment) (env : Env) (pop : Population I) (x : Values) [DecidableEq I]
    (m : Model I) (op : Op I) : Prop :=
  if (m.apply op).1 = true then
    ∃ v x', Effect dep env x (op.call pop) v x' ∧ Represents pop x' (m.apply op).2
  else ∀ v x', ¬ Effect dep env x (op.call pop) v x'

theorem Follows.accepted [DecidableEq I] {m' : Model I} (hm : m.apply op = (true, m'))
    (hrep : Represents pop x' m') (hE : Effect dep env x (op.call pop) v x') :
    Follows dep env pop x m op := by
  rw [Follows, hm, if_pos rfl]
  exact ⟨v, x', hE, hrep⟩

theorem Follows.rejected [DecidableEq I] (hm : m.apply op = (false, m))
    (hno : ∀ v x', ¬ Effect dep env x (op.call pop) v x') : Follows dep env pop x m op := by
  rw [Follows, hm, if_neg (by simp)]
  exact hno

/-- A configuration change leaves the issuers and the proofs as they are. -/
theorem Represents.configured (h : Represents pop x m) (d : Entries ProtocolConfig.DataKey.Value) :
    Represents pop ⟨d, x.issuers, x.proofs⟩ {m with paused := System.paused d} :=
  ⟨rfl, h.issuer, h.registered, h.revoked⟩

/-- A change of the config admin's: the pause flag it writes is the model's. -/
theorem configure_follows [DecidableEq I] (h : Represents pop x m) (hx : Initialized x)
    (hs : ∀ p, x.config .inst .admin = some p → env.signed p = true)
    (hroom : configVersion x.config < u32Max) {c : ProtocolConfig.Call}
    {k : ProtocolConfig.DataKey} {y : k.Value} {event : ProtocolConfig.Event} {b : Bool}
    (hcall : op.call pop = .config c) (hmodel : m.apply op = (true, {m with paused := b}))
    (heffect : ∀ v d' events,
      ProtocolConfig.Configures {env with currentContract := dep.protocolConfig} x.config .inst k y
        event v d' events →
      ProtocolConfig.Effect {env with currentContract := dep.protocolConfig} x.config c v d' events)
    (hpaused : ∀ n,
      System.paused ((x.config.put .inst k (some y)).put .inst .configVersion (some n)) = b) :
    Follows dep env pop x m op := by
  obtain ⟨p, hp⟩ := Option.ne_none_iff_exists'.mp hx.config
  have hne : configVersion x.config ≠ u32Max := by
    intro hlast
    rw [hlast] at hroom
    exact absurd hroom (by decide)
  have hsigned : ({env with currentContract := dep.protocolConfig} : Env).signed p = true := hs p hp
  obtain ⟨n, _, hE⟩ :=
    @ProtocolConfig.configures_of_room _ x.config .inst k y event p hp hsigned hne
  let d' := (x.config.put .inst k (some y)).put .inst .configVersion (some n)
  have hrep := h.configured d'
  rw [hpaused n] at hrep
  have hstep : Effect dep env x (op.call pop) .unit ⟨d', x.issuers, x.proofs⟩ := by
    rw [hcall]
    exact ⟨_, heffect _ _ _ hE, rfl, rfl⟩
  exact .accepted hmodel hrep hstep

/-- A status that the rules allow is set, and the flags of the issuer follow it. -/
theorem status_set [DecidableEq I] (h : Represents pop x m) (hx : Initialized x)
    (hs : ∀ p, x.issuers .inst .admin = some p → env.signed p = true) (i : I) (status : IssuerStatus)
    (hallowed : m.issuerRevoked i = true → status = .revoked) :
    ∃ d' events, IssuerRegistry.SetsStatus env x.issuers (pop.id i) status .unit d' events ∧
      Represents pop ⟨x.config, d', x.proofs⟩ { m with
        issuerSuspended := Function.update m.issuerSuspended i (status == .suspended)
        issuerRevoked := Function.update m.issuerRevoked i (status == .revoked) } := by
  obtain ⟨p, hp⟩ := Option.ne_none_iff_exists'.mp hx.issuers
  obtain ⟨r, hr, haddress, hsuspended, hrevoked⟩ := h.issuer i
  have hstatus : r.status = .revoked → status = .revoked := by
    intro hst
    exact hallowed (by rw [← hrevoked, hst]; rfl)
  refine ⟨_, _, ⟨p, r, hp, hs p hp, hr, hstatus, rfl, rfl, rfl⟩, h.paused, fun j => ?_, h.registered,
    h.revoked⟩
  by_cases hj : j = i
  · subst hj
    exact ⟨{r with status, updatedAt := env.timestamp}, by simp, haddress, by simp, by simp⟩
  · have hid : pop.id j ≠ pop.id i := pop.id_injective.ne hj
    obtain ⟨r', hr', hrest⟩ := h.issuer j
    exact ⟨r', by simpa [hid] using hr', by simpa [hj] using hrest⟩

/-- A revoked issuer gets no other status. -/
theorem status_refused (h : Represents pop x m) {i : I} {status : IssuerStatus}
    {d' : Entries IssuerRegistry.DataKey.Value} {events : List IssuerRegistry.Event}
    (hrevoked : m.issuerRevoked i = true) (hst : status ≠ .revoked) :
    ¬ IssuerRegistry.SetsStatus env x.issuers (pop.id i) status v d' events := by
  intro hE
  obtain ⟨r, hr, _, _, hflag⟩ := h.issuer i
  obtain ⟨_, r', _, _, hr', hallowed, _⟩ := hE
  obtain rfl := Option.some.inj (hr.symm.trans hr')
  rw [hrevoked] at hflag
  exact hst (hallowed (by simpa using hflag))

/-- An issuer is suspended or reactivated unless it is revoked. -/
theorem suspension_follows [DecidableEq I] (h : Represents pop x m) (hx : Initialized x)
    (hs : ∀ p, x.issuers .inst .admin = some p → env.signed p = true) {i : I}
    {status : IssuerStatus} {c : IssuerRegistry.Call} (hst : (status == .revoked) = false)
    (hcall : op.call pop = .issuers c)
    (hmodel : m.apply op = if m.issuerRevoked i = true then (false, m) else (true, { m with
      issuerSuspended := Function.update m.issuerSuspended i (status == .suspended) }))
    (heffect : ∀ v d' events,
      IssuerRegistry.Effect {env with currentContract := dep.issuerRegistry} x.issuers c v d' events ↔
        IssuerRegistry.SetsStatus {env with currentContract := dep.issuerRegistry} x.issuers
          (pop.id i) status v d' events) :
    Follows dep env pop x m op := by
  have hne : status ≠ .revoked := by simpa using hst
  by_cases hrevoked : m.issuerRevoked i = true
  · refine .rejected (hmodel.trans (if_pos hrevoked)) fun v x' hE => ?_
    rw [hcall] at hE
    obtain ⟨_, hE, _⟩ := hE
    exact status_refused h hrevoked hne ((heffect _ _ _).mp hE)
  · obtain ⟨d', events, hE, hrep⟩ := status_set h hx hs i status fun h => absurd h hrevoked
    have hsame : Function.update m.issuerRevoked i (status == .revoked) = m.issuerRevoked := by
      rw [Function.update_eq_self_iff, hst]
      exact (Bool.eq_false_iff.mpr hrevoked).symm
    rw [hsame] at hrep
    have hstep : Effect dep env x (op.call pop) .unit ⟨x.config, d', x.proofs⟩ := by
      rw [hcall]
      exact ⟨events, (heffect _ _ _).mpr hE, rfl, rfl⟩
    exact .accepted (hmodel.trans (if_neg hrevoked)) hrep hstep

/-- What a change of one proof record makes of the proofs. -/
theorem Represents.recorded (h : Represents pop x m) (p : BytesN 32) (r : ProofRecord) :
    Represents pop ⟨x.config, x.issuers, x.proofs.put .persistent (.proof p) (some r)⟩ { m with
      proofRegistered := Function.update m.proofRegistered p true
      proofRevoked := Function.update m.proofRevoked p (r.status == .revoked) } := by
  refine ⟨h.paused, h.issuer, fun q => ?_, fun q => ?_⟩
  · by_cases hq : q = p
    · subst hq
      simp
    · simpa [hq] using h.registered q
  · by_cases hq : q = p
    · subst hq
      simp [revokedProof]
    · simpa [revokedProof, hq] using h.revoked q

/-- A proof is revoked by the admin once, if it is there. -/
theorem revokeProof_follows [DecidableEq I] (h : Represents pop x m) (hx : Initialized x)
    (hs : ∀ a, x.proofs .inst .admin = some a → env.signed a = true) (p : BytesN 32) :
    Follows dep env pop x m (.revokeProof p) := by
  obtain ⟨a, ha⟩ := Option.ne_none_iff_exists'.mp hx.proofs
  have hregistered := h.registered p
  have hrevoked := h.revoked p
  cases hr : x.proofs .persistent (.proof p) with
  | none =>
    have hnew : m.proofRegistered p = false := by rw [← hregistered, hr]; rfl
    refine .rejected (by simp [Model.apply, hnew]) fun v x' hE => ?_
    obtain ⟨_, ⟨_, r, _, hsome, _⟩, _⟩ := hE
    rw [hr] at hsome
    cases hsome
  | some r =>
    have hthere : m.proofRegistered p = true := by rw [← hregistered, hr]; rfl
    have hflag : m.proofRevoked p = (r.status == .revoked) := by
      simp [← hrevoked, revokedProof, hr]
    by_cases hst : r.status = .revoked
    · refine .rejected (by simp [Model.apply, hflag, hst]) fun v x' hE => ?_
      obtain ⟨_, ⟨_, r', _, hsome, _, _, hactive, _⟩, _⟩ := hE
      obtain rfl := Option.some.inj (hr.symm.trans hsome)
      exact hactive hst
    · have hrep := h.recorded p {r with status := .revoked, revokedAt := env.timestamp}
      have hsame : Function.update m.proofRegistered p true = m.proofRegistered := by
        rw [Function.update_eq_self_iff, hthere]
      rw [hsame] at hrep
      exact .accepted (by simp [Model.apply, hthere, hflag, hst]) hrep
        ⟨_, ⟨rfl, r, a, hr, ha, hs a ha, hst, rfl, rfl, rfl⟩, rfl, rfl⟩

/-- The issuer at an address is active when its flags are down. -/
theorem active_iff (h : Represents pop x m) (hx : ∃ D, Keeps x.issuers D) (i : I) :
    (∃ id r, x.issuers .persistent (.issuer id) = some r ∧ r.issuerAddress = pop.address i ∧
      r.status = .active) ↔ m.issuerSuspended i = false ∧ m.issuerRevoked i = false := by
  obtain ⟨D, hD⟩ := hx
  obtain ⟨r, hr, haddress, hsuspended, hrevoked⟩ := h.issuer i
  have hstatus : r.status = .active ↔ m.issuerSuspended i = false ∧ m.issuerRevoked i = false := by
    rw [← hsuspended, ← hrevoked]
    cases r.status <;> decide
  rw [← hstatus]
  constructor
  · intro hactive
    obtain ⟨id, r', hr', haddress', hactive⟩ := hactive
    have hrD : D.records (pop.id i) = some r := by rw [← hD.records, hr]
    have hrD' : D.records id = some r' := by rw [← hD.records]; exact hr'
    have hid : id = pop.id i := D.place_injective hrD' hrD (haddress'.trans haddress.symm)
    rw [hid, hrD] at hrD'
    obtain rfl := Option.some.inj hrD'
    exact hactive
  · intro hactive
    exact ⟨pop.id i, r, hr, haddress, hactive⟩

/-- The gate is open when the protocol is not paused, the issuer's flags are down and the
proof is new. -/
theorem admits_iff (h : Represents pop x m) (hx : Ready dep start x) {p c : BytesN 32} {i : I}
    {n : UInt32} {e : UInt64}
    (hvalid : ValidArguments dep pop start env.timestamp (.registerProof p c i n e))
    (hs : env.signed (pop.address i) = true) :
    Admits dep env x p (pop.address i) n e ↔
      (m.admits i && !m.proofRegistered p) = true := by
  obtain ⟨haddress, hself, hconfig, hissuers, happroved, he⟩ := hvalid
  rw [← hx.schema, approved, Bool.and_eq_true] at happroved
  obtain ⟨hn, hflag⟩ := happroved
  have hpaused : x.config .inst .paused ≠ some true ↔ m.paused = false := by
    rw [← h.paused, System.paused]
    cases hp : x.config .inst .paused with
    | none => simp
    | some b => cases b <;> simp
  have hmodel : (m.admits i && !m.proofRegistered p) = true ↔ m.paused = false ∧
      (m.issuerSuspended i = false ∧ m.issuerRevoked i = false) ∧ m.proofRegistered p = false := by
    simp [Model.admits, and_assoc]
  have habsent : x.proofs .persistent (.proof p) = none ↔ m.proofRegistered p = false := by
    rw [← h.registered, Option.isSome_eq_false_iff, Option.isNone_iff_eq_none]
  rw [hmodel, ← hpaused, ← active_iff h hx.keeps i, ← habsent]
  constructor
  · intro hadmits
    exact ⟨hadmits.notPaused, hadmits.activeIssuer, hadmits.absent⟩
  · intro hopen
    obtain ⟨hnotPaused, hactive, hnone⟩ := hopen
    refine ⟨hx.initialized.proofs, haddress, hself, fun hcfg => ?_, fun hreg => ?_, hs,
      by simpa using hn, he, hnotPaused, ?_, hactive, hnone⟩
    · exact hconfig (hx.wired.protocolConfig _ hcfg)
    · exact hissuers (hx.wired.issuerRegistry _ hreg)
    · cases hschema : x.config .persistent (.schemaVersion n) with
      | none => simp [hschema] at hflag
      | some b => simpa [hschema] using hflag

theorem registerProof_follows [DecidableEq I] (h : Represents pop x m) (hx : Ready dep start x)
    {p c : BytesN 32} {i : I} {n : UInt32} {e : UInt64}
    (hvalid : ValidArguments dep pop start env.timestamp (.registerProof p c i n e))
    (hs : env.signed (pop.address i) = true) :
    Follows dep env pop x m (.registerProof p c i n e) := by
  obtain ⟨D, hD⟩ := hx.keeps
  have hiff := admits_iff h hx hvalid hs
  by_cases hopen : (m.admits i && !m.proofRegistered p) = true
  · exact .accepted (if_pos hopen) (h.recorded p _)
      ((hiff.mpr hopen).effect dep c hD hx.wiring hx.wired)
  · exact .rejected (if_neg hopen)
      fun v x' hE => hopen (hiff.mp (Effect.admits dep hD hx.wiring hE).1)

/-- Every operation goes through as the model says. -/
theorem Represents.step [DecidableEq I] (h : Represents pop x m) (hx : Ready dep start x)
    (hvalid : ValidArguments dep pop start env.timestamp op)
    (hs : ∀ p ∈ requiredPrincipal x (op.call pop), env.signed p = true)
    (hroom : configVersion x.config < u32Max) : Follows dep env pop x m op := by
  have hinit := hx.initialized
  cases op with
  | pause | unpause =>
    exact configure_follows h hinit hs hroom rfl rfl (fun _ _ _ hE => hE) (by simp [System.paused])
  | rotateAdmin a =>
    refine configure_follows h hinit hs hroom rfl rfl (fun _ _ _ hE => ⟨hvalid, hE⟩) fun n => ?_
    rw [← h.paused]
    simp [System.paused]
  | suspendIssuer i => exact suspension_follows h hinit hs rfl rfl rfl fun _ _ _ => Iff.rfl
  | reactivateIssuer i => exact suspension_follows h hinit hs rfl rfl rfl fun _ _ _ => Iff.rfl
  | revokeIssuer i =>
    obtain ⟨d', events, hE, hrep⟩ := status_set h hinit hs i .revoked fun _ => rfl
    exact .accepted rfl hrep ⟨events, hE, rfl, rfl⟩
  | revokeProof p => exact revokeProof_follows h hinit hs p
  | registerProof p c i n e => exact registerProof_follows h hx hvalid (hs _ rfl)

end

/-! ### Sequences of operations -/

/-- The step of the contracts has the outcome of the model's, and they show its state after
it. -/
def Matches (dep : Deployment) (pop : Population I) (t : SystemStep)
    (u : Machine.Step (Op I) Bool (Model I)) : Prop :=
  (t.reply.Succeeded ↔ u.reply = true) ∧ Observes dep pop t.post u.post

theorem matches_step [DecidableEq I] {dep : Deployment} {pop : Population I} {start : Values}
    {s : System} {m : Model I} {op : Op I} {env : Env} (hx : Ready dep start s.values)
    (h : Represents pop s.values m) (hvalid : ValidArguments dep pop start env.timestamp op)
    (hproper : Proper ((System.machine dep).stepAt ⟨op.call pop, env⟩ s)) :
    (Ready dep start ((System.machine dep).next ⟨op.call pop, env⟩ s).values ∧
        Represents pop ((System.machine dep).next ⟨op.call pop, env⟩ s).values
          (Model.machine.next op m)) ∧
      Matches dep pop ((System.machine dep).stepAt ⟨op.call pop, env⟩ s)
        (Model.machine.stepAt op m) := by
  have hfollows : Follows dep env pop s.values m op := h.step hx hvalid hproper.signed hproper.room
  unfold Follows at hfollows
  split at hfollows
  · next haccepted =>
    obtain ⟨v, x', hE, hrep⟩ := hfollows
    have hok : ((System.machine dep).reply ⟨op.call pop, env⟩ s).Succeeded :=
      (succeeded_iff dep).mpr ⟨v, x', hE⟩
    have hnext : ((System.machine dep).next ⟨op.call pop, env⟩ s).values = x' := (step_ok dep hE).2
    rw [← hnext] at hE hrep
    exact ⟨⟨hx.step hE, hrep⟩, iff_of_true hok haccepted, observes_iff.mpr hrep⟩
  · next hrejected =>
    have hsame : (Model.machine.next op m) = m := Model.rejected (Bool.eq_false_iff.mpr hrejected)
    rcases step_cases dep ⟨op.call pop, env⟩ s with ⟨v, _, hE⟩ | ⟨_, he, hs, _⟩
    · exact absurd hE (hfollows v _)
    · have hfail : ¬ ((System.machine dep).reply ⟨op.call pop, env⟩ s).Succeeded :=
        Receipt.not_succeeded he
      have hrep : Represents pop ((System.machine dep).next ⟨op.call pop, env⟩ s).values
          (Model.machine.next op m) := by
        rw [hs, hsame]
        exact h
      exact ⟨⟨hs.symm ▸ hx, hrep⟩, iff_of_false hfail hrejected, observes_iff.mpr hrep⟩

/-- For every sequence of operations, of any length and in any order, from any initialized
state of the deployed system that shows a state of the model: the contracts accept exactly
the steps the model accepts, and after every step they show the model's state. -/
theorem every_ordering_matches_the_model [DecidableEq I] (dep : Deployment) (pop : Population I)
    (is : List (Invocation Call)) (hwired : Wired dep ((System.machine dep).run empty is).values)
    (hinit : Initialized ((System.machine dep).run empty is).values) (model : Model I)
    (hmodel : Observes dep pop ((System.machine dep).run empty is) model) (ops : List (Op I × Env))
    (hvalid : ∀ o ∈ ops, ValidArguments dep pop ((System.machine dep).run empty is).values
      o.2.timestamp o.1) :
    let start := (System.machine dep).run empty is
    let steps := (System.machine dep).history start (ops.map fun o => ⟨o.1.call pop, o.2⟩)
    (∀ t ∈ steps, Proper t) →
      List.Forall₂ (Matches dep pop) steps (Model.machine.history model (ops.map Prod.fst)) := by
  intro start steps hproper
  have hready : Ready dep start.values start.values :=
    ⟨run_keeps dep is, run_wiring dep is, hwired, hinit, fun _ => rfl⟩
  refine Machine.lockstep (fun s m => Ready dep start.values s.values ∧ Represents pop s.values m)
    Proper (fun o ho s m hrel hstep => ?_) ⟨hready, ?_⟩ hproper
  · exact matches_step hrel.1 hrel.2 (hvalid o ho) hstep
  · exact observes_iff.mp hmodel

namespace Example
open System.Example

/-- The one issuer of the setup. -/
def population : Population Unit where
  id := fun _ => .fill 32 21
  address := fun _ => issuer
  id_injective := fun _ _ _ => rfl
  address_injective := fun _ _ _ => rfl

/-- A registration of `proof` by the issuer, valid until time twenty. -/
def register (proof : BytesN 32) : Op Unit := .registerProof proof (.fill 32 51) () 1 20

/-- A pause stops a registration; a suspension does after it; the proof between them is
revoked once. -/
def incident : List (Op Unit × Env) :=
  [(.pause, signedBy 2 [admin]), (register proof, signedBy 3 [issuer]),
    (.unpause, signedBy 4 [admin]), (register proof, signedBy 5 [issuer]),
    (.suspendIssuer (), signedBy 6 [admin]), (register (.fill 32 42), signedBy 7 [issuer]),
    (.revokeProof proof, signedBy 8 [admin]), (.revokeProof proof, signedBy 9 [admin])]

set_option maxRecDepth 20000 in
theorem setup_unregistered (p : BytesN 32) :
    ((System.machine deployment).run empty setup).values.proofs .persistent (.proof p) = none := rfl

theorem setup_observes :
    Observes deployment population ((System.machine deployment).run empty setup)
      (Model.new fun _ => false) := by
  obtain ⟨_, _, _, hpaused, _, hissuer, _⟩ := setup_values
  refine observes_iff.mpr ⟨by simp [System.paused, hpaused, Model.new], fun i => ?_, fun p => ?_,
    fun p => ?_⟩
  · refine ⟨⟨.fill 32 21, issuer, .fill 32 31, .active, 1, 1⟩, ?_, rfl, rfl, rfl⟩
    simpa only [records, population] using hissuer
  · rw [setup_unregistered]
    rfl
  · rw [revokedProof, setup_unregistered]
    rfl

end Example

/-- The rules and the contracts agree on the incident. -/
theorem every_ordering_matches_the_model_example :
    List.Forall₂ (Matches System.Example.deployment Example.population)
      ((System.machine System.Example.deployment).history
        ((System.machine System.Example.deployment).run empty System.Example.setup)
        (Example.incident.map fun o => ⟨o.1.call Example.population, o.2⟩))
      (Model.machine.history (Model.new fun _ => false) (Example.incident.map Prod.fst)) := by
  have hadmins : Initialized
      ((System.machine System.Example.deployment).run empty System.Example.setup).values :=
    ⟨by decide +kernel, by decide +kernel, by decide +kernel⟩
  have hproper : ∀ t ∈ (System.machine System.Example.deployment).history
      ((System.machine System.Example.deployment).run empty System.Example.setup)
      (Example.incident.map fun o => ⟨o.1.call Example.population, o.2⟩),
      (∀ p ∈ requiredPrincipal t.pre.values t.input.call, t.input.env.signed p = true) ∧
        configVersion t.pre.values.config < u32Max := by decide +kernel
  refine every_ordering_matches_the_model System.Example.deployment Example.population
    System.Example.setup System.Example.setup_wired hadmins _ Example.setup_observes Example.incident
    (fun o ho => ?_) fun t ht => ⟨(hproper t ht).1, (hproper t ht).2⟩
  have hvalid : isValidPrincipalAddress System.Example.issuer = true := by decide +kernel
  have happroved : approved ((System.machine System.Example.deployment).run empty
      System.Example.setup).values.config 1 = true := by decide +kernel
  simp only [Example.incident, List.mem_cons, List.not_mem_nil, or_false] at ho
  rcases ho with rfl | rfl | rfl | rfl | rfl | rfl | rfl | rfl
  · trivial
  · exact ⟨hvalid, by decide, by decide, by decide, happroved, by decide⟩
  · trivial
  · exact ⟨hvalid, by decide, by decide, by decide, happroved, by decide⟩
  · trivial
  · exact ⟨hvalid, by decide, by decide, by decide, happroved, by decide⟩
  · trivial
  · trivial

end EarnProof.Emergency

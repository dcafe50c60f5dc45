import EarnProof.System.Gate
import EarnProof.System.Refusals

/-! What the pause flag reaches.

Two states of the deployment that differ at most in the pause flag answer every call
alike, return value and events included, and go on to differ at most there, unless the
call registers a proof or asks for the flag itself. And while the flag is set no proof is
registered. -/
namespace EarnProof
open Soroban

namespace ProtocolConfig

/-- Values that differ at most in the pause flag. -/
def SameButPaused (d d' : Entries DataKey.Value) : Prop :=
  ∀ c k, (c = .inst → k ≠ .paused) → d' c k = d c k

variable {env : Env} {d d' d₁ : Entries DataKey.Value} {c : Call} {v : Value} {events : List Event}

theorem SameButPaused.put (h : SameButPaused d d') (c : StorageClass) (k : DataKey)
    (o : Option k.Value) : SameButPaused (d.put c k o) (d'.put c k o) := by
  intro c' k' hk
  by_cases hc : c' = c
  · subst hc
    by_cases hkey : k' = k
    · subst hkey
      rw [Entries.put_self, Entries.put_self]
    · rw [Entries.put_key _ _ _ _ hkey, Entries.put_key _ _ _ _ hkey, h c' k' hk]
  · rw [Entries.put_class _ _ _ _ hc, Entries.put_class _ _ _ _ hc, h c' k' hk]

/-- Writing the flag makes the values the same. -/
theorem SameButPaused.put_paused (h : SameButPaused d d') (o : Option Bool) :
    d'.put .inst .paused o = d.put .inst .paused o := by
  funext c k
  by_cases hk : c = .inst ∧ k = .paused
  · obtain ⟨rfl, rfl⟩ := hk
    rw [Entries.put_self, Entries.put_self]
  · have hne : c = .inst → k ≠ .paused := fun hc hkey => hk ⟨hc, hkey⟩
    by_cases hc : c = .inst
    · rw [Entries.put_key _ _ _ _ (hne hc), Entries.put_key _ _ _ _ (hne hc), h c k hne]
    · rw [Entries.put_class _ _ _ _ hc, Entries.put_class _ _ _ _ hc, h c k hne]

theorem put_sameButPaused (d : Entries DataKey.Value) (o o' : Option Bool) :
    SameButPaused (d.put .inst .paused o) (d.put .inst .paused o') := by
  intro c k hk
  by_cases hc : c = .inst
  · rw [Entries.put_key _ _ _ _ (hk hc), Entries.put_key _ _ _ _ (hk hc)]
  · rw [Entries.put_class _ _ _ _ hc, Entries.put_class _ _ _ _ hc]

theorem SameButPaused.configVersion (h : SameButPaused d d') :
    configVersion d' = configVersion d := by
  rw [ProtocolConfig.configVersion, h .inst .configVersion (by simp), ProtocolConfig.configVersion]

theorem SameButPaused.governance (h : SameButPaused d d') :
    ProtocolConfig.governance.admin.read d' = ProtocolConfig.governance.admin.read d ∧
      ProtocolConfig.governance.version d' = ProtocolConfig.governance.version d ∧
      ∀ hash, (ProtocolConfig.governance.allowedWasm hash).read d' =
        (ProtocolConfig.governance.allowedWasm hash).read d :=
  ⟨h .inst .admin (by simp), congrArg (·.getD 0) (h .inst .contractVersion (by simp)),
    fun hash => h .inst (.allowedWasm hash) (by simp)⟩

/-- The checks do not look at the flag. -/
theorem SameButPaused.checks (h : SameButPaused d d') :
    ProtocolConfig.checks env d' c = ProtocolConfig.checks env d c := by
  have hadmin := h .inst .admin (by simp)
  obtain ⟨ha, hv, hallowed⟩ := h.governance
  cases c with
  | upgrade u => cases u <;> simp only [ProtocolConfig.checks, Governance.checks, ha, hv, hallowed]
  | _ => simp only [ProtocolConfig.checks, configureChecks, hadmin, h.configVersion]

theorem Configures.transfer {cl : StorageClass} {k : DataKey} {x : k.Value} {event : Event}
    (hd : SameButPaused d d') (h : Configures env d cl k x event v d₁ events) :
    ∃ n, d₁ = (d.put cl k (some x)).put .inst .configVersion (some n) ∧
      Configures env d' cl k x event v ((d'.put cl k (some x)).put .inst .configVersion (some n))
        events := by
  obtain ⟨admin, n, ha, hs, hn, hv, rfl, hevents⟩ := h
  exact ⟨n, rfl, admin, n, (hd .inst .admin (by simp)).trans ha, hs,
    by rw [hd.configVersion]; exact hn, hv, rfl, hevents⟩

/-- The calls that answer with the flag or overwrite it. -/
def Call.setsPaused : Call → Bool
  | .pause | .unpause => true
  | _ => false

/-- A call other than `is_paused` does the same to both, and `pause` and `unpause` leave
them the same. -/
theorem Effect.transfer (hd : SameButPaused d d') (hc : c ≠ .isPaused)
    (h : Effect env d c v d₁ events) :
    ∃ d₁', Effect env d' c v d₁' events ∧ SameButPaused d₁ d₁' ∧
      (c.setsPaused = true → d₁' = d₁) := by
  have hadmin := hd .inst .admin (by simp)
  have hconfigures : ∀ {cl k} {x : k.Value} {event}, Configures env d cl k x event v d₁ events →
      ∃ d₁', Configures env d' cl k x event v d₁' events ∧ SameButPaused d₁ d₁' := by
    intro cl k x event h
    obtain ⟨n, rfl, h'⟩ := h.transfer hd
    exact ⟨_, h', (hd.put _ _ _).put _ _ _⟩
  have hpaused : ∀ {b : Bool} {event}, Configures env d .inst .paused b event v d₁ events →
      ∃ d₁', Configures env d' .inst .paused b event v d₁' events ∧ SameButPaused d₁ d₁' ∧
        d₁' = d₁ := by
    intro b event h
    obtain ⟨n, rfl, h'⟩ := h.transfer hd
    rw [hd.put_paused] at h'
    exact ⟨_, h', fun _ _ _ => rfl, rfl⟩
  cases c with
  | initializeContract admin =>
    obtain ⟨hnone, hvalid, hs, hv, rfl, hevents⟩ := h
    exact ⟨_, ⟨hadmin.trans hnone, hvalid, hs, hv, rfl, hevents⟩,
      (((hd.put _ _ _).put _ _ _).put _ _ _).put _ _ _, by simp [Call.setsPaused]⟩
  | getAdmin =>
    obtain ⟨a, ha, hv, rfl, hevents⟩ := h
    exact ⟨d', ⟨a, hadmin.trans ha, hv, rfl, hevents⟩, hd, by simp [Call.setsPaused]⟩
  | setAdmin a =>
    obtain ⟨d₁', h', hsame⟩ := hconfigures h.2
    exact ⟨d₁', ⟨h.1, h'⟩, hsame, by simp [Call.setsPaused]⟩
  | isPaused => exact absurd rfl hc
  | pause =>
    obtain ⟨d₁', h', hsame, heq⟩ := hpaused h
    exact ⟨d₁', h', hsame, fun _ => heq⟩
  | unpause =>
    obtain ⟨d₁', h', hsame, heq⟩ := hpaused h
    exact ⟨d₁', h', hsame, fun _ => heq⟩
  | approveSchemaVersion n =>
    obtain ⟨d₁', h', hsame⟩ := hconfigures h.2
    exact ⟨d₁', ⟨h.1, h'⟩, hsame, by simp [Call.setsPaused]⟩
  | deprecateSchemaVersion n =>
    obtain ⟨d₁', h', hsame⟩ := hconfigures h.2
    exact ⟨d₁', ⟨h.1, h'⟩, hsame, by simp [Call.setsPaused]⟩
  | isSchemaVersionApproved n =>
    obtain ⟨rfl, rfl, hevents⟩ := h
    have hflag := hd .persistent (.schemaVersion n) (by simp)
    exact ⟨d', ⟨by rw [hflag], rfl, hevents⟩, hd, by simp [Call.setsPaused]⟩
  | getConfigVersion =>
    obtain ⟨rfl, rfl, hevents⟩ := h
    exact ⟨d', ⟨by rw [hd.configVersion], rfl, hevents⟩, hd, by simp [Call.setsPaused]⟩
  | upgrade u =>
    obtain ⟨ha, hversion, hallowed⟩ := hd.governance
    cases u with
    | getContractVersion =>
      obtain ⟨rfl, rfl, hevents⟩ := h
      exact ⟨d', ⟨by rw [hversion], rfl, hevents⟩, hd, by simp [Call.setsPaused]⟩
    | approveUpgrade hash n =>
      obtain ⟨a, hread, hs, hlt, hv, rfl, hevents⟩ := h
      exact ⟨_, ⟨a, ha.trans hread, hs, by rw [hversion]; exact hlt, hv, rfl, hevents⟩,
        hd.put _ _ _, by simp [Call.setsPaused]⟩
    | revokeUpgrade hash =>
      obtain ⟨a, hread, hs, hv, rfl, hevents⟩ := h
      exact ⟨_, ⟨a, ha.trans hread, hs, hv, rfl, hevents⟩, hd.put _ _ _, by simp [Call.setsPaused]⟩
    | isUpgradeAllowed hash =>
      obtain ⟨rfl, rfl, hevents⟩ := h
      exact ⟨d', ⟨by rw [hallowed], rfl, hevents⟩, hd, by simp [Call.setsPaused]⟩
    | upgradeContract hash =>
      obtain ⟨a, n, hread, hs, hn, hlt, hinst, hv, rfl, hevents⟩ := h
      exact ⟨_, ⟨a, n, ha.trans hread, hs, (hallowed hash).trans hn, by rw [hversion]; exact hlt,
        hinst, hv, rfl, by rw [hversion]; exact hevents⟩, (hd.put _ _ _).put _ _ _,
        by simp [Call.setsPaused]⟩

end ProtocolConfig

namespace System
variable (dep : Deployment)

/-- The calls that see the pause flag. -/
def Call.seesPause : Call → Bool
  | .proofs (.registerProof _ _ _ _ _) | .config .isPaused => true
  | _ => false

/-- The calls that overwrite it. -/
def Call.setsPaused : Call → Bool
  | .config c => c.setsPaused
  | .issuers _ | .proofs _ => false

/-- Values of the three contracts that differ at most in the pause flag. -/
structure SameButPaused (x x' : Values) : Prop where
  config : ProtocolConfig.SameButPaused x.config x'.config
  issuers : x'.issuers = x.issuers
  proofs : x'.proofs = x.proofs

theorem SameButPaused.refl (x : Values) : SameButPaused x x := ⟨fun _ _ _ => rfl, rfl, rfl⟩

/-- A proof-registry call other than a registration does not ask its dependencies. -/
theorem proofs_transfer {W : Type} {clients : ProofRegistry.Clients W} {env : Env}
    {d d₁ : Entries ProofRegistry.DataKey.Value} {w w₁ : W} {c : ProofRegistry.Call} {v : Value}
    {events : List ProofRegistry.Event} (hc : (Call.proofs c).seesPause = false)
    (h : ProofRegistry.Effect clients env d w c v d₁ events w₁) (w' : W) :
    w₁ = w ∧ ProofRegistry.Effect clients env d w' c v d₁ events w' := by
  cases c with
  | registerProof id cm a n e => cases hc
  | _ => exact ⟨h.1, rfl, h.2⟩

theorem proofs_checks {W : Type} {clients : ProofRegistry.Clients W} {env : Env}
    {d : Entries ProofRegistry.DataKey.Value} {c : ProofRegistry.Call}
    (hc : (Call.proofs c).seesPause = false) (w w' : W) :
    ProofRegistry.checks clients env d w' c = ProofRegistry.checks clients env d w c := by
  cases c with
  | registerProof id cm a n e => cases hc
  | _ => rfl

/-- One call to two states that differ at most in the flag: the replies are the same and
the states still differ at most there; they are the same after a call that wrote the flag,
and if they were the same before. -/
structure Follows (s s' : System) (i : Invocation Call) : Prop where
  reply : (machine dep).reply i s' = (machine dep).reply i s
  values : SameButPaused ((machine dep).next i s).values ((machine dep).next i s').values
  sets : i.call.setsPaused = true → ((machine dep).reply i s).Succeeded →
    ((machine dep).next i s').values = ((machine dep).next i s).values
  same : s'.values = s.values →
    ((machine dep).next i s').values = ((machine dep).next i s).values

theorem config_follows {s s' : System} {c : ProtocolConfig.Call} {env : Env}
    (hi : (Call.config c).seesPause = false) (h : SameButPaused s.values s'.values) :
    Follows dep s s' ⟨.config c, env⟩ := by
  have hc : c ≠ .isPaused := fun heq => by
    rw [heq] at hi
    cases hi
  have hchecks : ProtocolConfig.checks {env with currentContract := dep.protocolConfig}
      s'.config.entries c = ProtocolConfig.checks {env with currentContract := dep.protocolConfig}
        s.config.entries c := h.config.checks
  have hE : ∀ v d₁ events, ProtocolConfig.Effect {env with currentContract := dep.protocolConfig}
        s.config.entries c v d₁ events →
      ∃ d₁', ProtocolConfig.Effect {env with currentContract := dep.protocolConfig}
        s'.config.entries c v d₁' events ∧ (ProtocolConfig.SameButPaused d₁ d₁' ∧
          (c.setsPaused = true → d₁' = d₁) ∧
          (s'.config.entries = s.config.entries → d₁' = d₁)) := by
    intro v d₁ events hE
    by_cases heq : s'.config.entries = s.config.entries
    · rw [heq]
      exact ⟨d₁, hE, fun _ _ _ => rfl, fun _ => rfl, fun _ => rfl⟩
    · obtain ⟨d₁', hE', hsame, hsets⟩ := hE.transfer h.config hc
      exact ⟨d₁', hE', hsame, hsets, fun h => absurd h heq⟩
  rcases contractAt_transfer ProtocolConfig.program_realizes ProtocolConfig.program_refuses
    dep.protocolConfig c env s.config s'.config hchecks hE with
    ⟨v, events, hr, hr', hsame, hsets, hkeep⟩ | ⟨e, hr, hr', hs, hs'⟩
  · refine ⟨congrArg (Receipt.mapEvents Event.config) (hr'.trans hr.symm),
      ⟨hsame, h.issuers, h.proofs⟩, fun hset _ => Values.ext (hsets hset) h.issuers h.proofs,
      fun heq => Values.ext (hkeep (congrArg Values.config heq)) h.issuers h.proofs⟩
  · have hnext : (machine dep).next ⟨.config c, env⟩ s = s :=
      congrArg (fun t => {s with config := t}) hs
    have hnext' : (machine dep).next ⟨.config c, env⟩ s' = s' :=
      congrArg (fun t => {s' with config := t}) hs'
    have hfail : ((machine dep).reply ⟨.config c, env⟩ s).outcome = .error e :=
      congrArg Receipt.outcome hr
    refine ⟨congrArg (Receipt.mapEvents Event.config) (hr'.trans hr.symm), ?_, ?_, ?_⟩
    · rw [hnext, hnext']
      exact h
    · exact fun _ hok => absurd hok (Receipt.not_succeeded hfail)
    · rw [hnext, hnext']
      exact id

theorem issuers_follows {s s' : System} {c : IssuerRegistry.Call} {env : Env}
    (h : SameButPaused s.values s'.values) : Follows dep s s' ⟨.issuers c, env⟩ := by
  have hsame : s'.issuers.entries = s.issuers.entries := h.issuers
  have hchecks : IssuerRegistry.checks {env with currentContract := dep.issuerRegistry}
      s'.issuers.entries c = IssuerRegistry.checks {env with currentContract := dep.issuerRegistry}
        s.issuers.entries c := by rw [hsame]
  have hE : ∀ v d₁ events, IssuerRegistry.Effect {env with currentContract := dep.issuerRegistry}
        s.issuers.entries c v d₁ events →
      ∃ d₁', IssuerRegistry.Effect {env with currentContract := dep.issuerRegistry}
        s'.issuers.entries c v d₁' events ∧ d₁' = d₁ := by
    intro v d₁ events hE
    rw [hsame]
    exact ⟨d₁, hE, rfl⟩
  rcases contractAt_transfer IssuerRegistry.program_realizes IssuerRegistry.program_refuses
    dep.issuerRegistry c env s.issuers s'.issuers hchecks hE with
    ⟨v, events, hr, hr', heq⟩ | ⟨e, hr, hr', hs, hs'⟩
  · refine ⟨congrArg (Receipt.mapEvents Event.issuers) (hr'.trans hr.symm), ⟨h.config, heq, h.proofs⟩,
      fun hset => (by cases hset), fun hv => ?_⟩
    have hconfig : s'.values.config = s.values.config := congrArg Values.config hv
    exact Values.ext hconfig heq h.proofs
  · have hnext : (machine dep).next ⟨.issuers c, env⟩ s = s :=
      congrArg (fun t => {s with issuers := t}) hs
    have hnext' : (machine dep).next ⟨.issuers c, env⟩ s' = s' :=
      congrArg (fun t => {s' with issuers := t}) hs'
    refine ⟨congrArg (Receipt.mapEvents Event.issuers) (hr'.trans hr.symm), ?_,
      fun hset => (by cases hset), ?_⟩
    · rw [hnext, hnext']
      exact h
    · rw [hnext, hnext']
      exact id

theorem proofs_follows {s s' : System} {c : ProofRegistry.Call} {env : Env}
    (hi : (Call.proofs c).seesPause = false) (h : SameButPaused s.values s'.values) :
    Follows dep s s' ⟨.proofs c, env⟩ := by
  have hsame : s'.proofs.entries = s.proofs.entries := h.proofs
  have hchecks : ProofRegistry.checks (clients dep) {env with currentContract := dep.proofRegistry}
      s'.proofs.entries (s'.config, s'.issuers) c =
        ProofRegistry.checks (clients dep) {env with currentContract := dep.proofRegistry}
          s.proofs.entries (s.config, s.issuers) c := by
    rw [hsame]
    exact proofs_checks hi _ _
  have hE : ∀ v d₁ events w₁, ProofRegistry.Effect (clients dep)
        {env with currentContract := dep.proofRegistry} s.proofs.entries (s.config, s.issuers) c v d₁
        events w₁ →
      ∃ d₁' w₁', ProofRegistry.Effect (clients dep) {env with currentContract := dep.proofRegistry}
        s'.proofs.entries (s'.config, s'.issuers) c v d₁' events w₁' ∧
          (d₁' = d₁ ∧ w₁ = (s.config, s.issuers) ∧ w₁' = (s'.config, s'.issuers)) := by
    intro v d₁ events w₁ hE
    obtain ⟨hw, hE'⟩ := proofs_transfer hi hE (s'.config, s'.issuers)
    rw [hsame]
    exact ⟨d₁, _, hE', rfl, hw, rfl⟩
  rcases invoke_transfer (ProofRegistry.program_realizes (clients dep) c)
    (ProofRegistry.program_refuses (clients dep) c) hchecks hE with
    ⟨v, events, hr, hr', hd, hw, hw'⟩ | ⟨e, hrun, hrun'⟩
  · have hvalues : ((machine dep).next ⟨.proofs c, env⟩ s).values.config = s.values.config ∧
        ((machine dep).next ⟨.proofs c, env⟩ s).values.issuers = s.values.issuers :=
      ⟨congrArg (fun w => w.1.entries) hw, congrArg (fun w => w.2.entries) hw⟩
    have hvalues' : ((machine dep).next ⟨.proofs c, env⟩ s').values.config = s'.values.config ∧
        ((machine dep).next ⟨.proofs c, env⟩ s').values.issuers = s'.values.issuers :=
      ⟨congrArg (fun w => w.1.entries) hw', congrArg (fun w => w.2.entries) hw'⟩
    refine ⟨congrArg (Receipt.mapEvents Event.proofs) (hr'.trans hr.symm), ⟨?_, ?_, hd⟩,
      fun hset => (by cases hset), fun heq => Values.ext ?_ ?_ hd⟩
    · rw [hvalues.1, hvalues'.1]
      exact h.config
    · rw [hvalues.2, hvalues'.2]
      exact h.issuers
    · rw [hvalues.1, hvalues'.1, heq]
    · rw [hvalues.2, hvalues'.2, heq]
  · have hnext : (machine dep).next ⟨.proofs c, env⟩ s = s :=
      congrArg (fun r => (⟨r.2.2.1, r.2.2.2, r.2.1⟩ : System)) hrun
    have hnext' : (machine dep).next ⟨.proofs c, env⟩ s' = s' :=
      congrArg (fun r => (⟨r.2.2.1, r.2.2.2, r.2.1⟩ : System)) hrun'
    have hreply := (congrArg Prod.fst hrun').trans (congrArg Prod.fst hrun).symm
    refine ⟨congrArg (Receipt.mapEvents Event.proofs) hreply, ?_, fun hset => (by cases hset), ?_⟩
    · rw [hnext, hnext']
      exact h
    · rw [hnext, hnext']
      exact id

theorem follows {s s' : System} {i : Invocation Call} (hi : i.call.seesPause = false)
    (h : SameButPaused s.values s'.values) : Follows dep s s' i := by
  obtain ⟨call, env⟩ := i
  cases call with
  | config c => exact config_follows dep hi h
  | issuers c => exact issuers_follows dep h
  | proofs c => exact proofs_follows dep hi h

/-- The same for any number of calls. -/
theorem run_follows {s s' : System} (h : SameButPaused s.values s'.values)
    (js : List (Invocation Call)) (hjs : ∀ i ∈ js, i.call.seesPause = false) :
    ((machine dep).history s' js).map Machine.Step.reply =
        ((machine dep).history s js).map Machine.Step.reply ∧
      SameButPaused ((machine dep).run s js).values ((machine dep).run s' js).values ∧
      (s'.values = s.values → ((machine dep).run s' js).values = ((machine dep).run s js).values) ∧
      ((∃ t ∈ (machine dep).history s js, t.input.call.setsPaused = true ∧ t.reply.Succeeded) →
        ((machine dep).run s' js).values = ((machine dep).run s js).values) := by
  induction js generalizing s s' with
  | nil => exact ⟨rfl, h, id, by simp [Machine.history]⟩
  | cons i rest ih =>
    have hstep := follows dep (hjs i (List.mem_cons_self ..)) h
    obtain ⟨hreplies, hsame, hkeep, hsets⟩ :=
      ih hstep.values fun j hj => hjs j (List.mem_cons_of_mem i hj)
    refine ⟨?_, hsame, fun heq => hkeep (hstep.same heq), fun hex => ?_⟩
    · simp only [Machine.history, List.map_cons, Machine.stepAt, hstep.reply, hreplies]
    · obtain ⟨t, ht, hset, hok⟩ := hex
      rcases List.mem_cons.mp ht with rfl | ht
      · exact hkeep (hstep.sets hset hok)
      · exact hsets ⟨t, ht, hset, hok⟩

/-- `pause` and `unpause` lead from one state to two that differ in the flag alone. -/
theorem pause_sameButPaused {s : System} {env : Env} {admin : Address} {n : UInt32}
    (hadmin : s.values.config .inst .admin = some admin) (hs : env.signed admin = true)
    (hn : ProtocolConfig.checkedAdd (ProtocolConfig.configVersion s.values.config) 1 = some n) :
    SameButPaused ((machine dep).next ⟨.config .pause, env⟩ s).values
      ((machine dep).next ⟨.config .unpause, env⟩ s).values := by
  have hpause : Effect dep env s.values (.config .pause) .unit ⟨_, s.values.issuers, s.values.proofs⟩ :=
    ⟨_, ⟨admin, n, hadmin, hs, hn, rfl, rfl, rfl⟩, rfl, rfl⟩
  have hunpause : Effect dep env s.values (.config .unpause) .unit
      ⟨_, s.values.issuers, s.values.proofs⟩ :=
    ⟨_, ⟨admin, n, hadmin, hs, hn, rfl, rfl, rfl⟩, rfl, rfl⟩
  have hnext : ((machine dep).next ⟨.config .pause, env⟩ s).values = _ := (step_ok dep hpause).2
  have hnext' : ((machine dep).next ⟨.config .unpause, env⟩ s).values = _ := (step_ok dep hunpause).2
  rw [hnext, hnext']
  exact ⟨(ProtocolConfig.put_sameButPaused _ _ _).put _ _ _, rfl, rfl⟩

/-- While the flag is set a registration is refused, whatever its arguments. -/
theorem registerProof_paused {s : System} {env : Env} {id c : BytesN 32} {a : Address} {n : UInt32}
    {e : UInt64} (hpaused : s.values.config .inst .paused = some true) :
    ¬ ((machine dep).reply ⟨.proofs (.registerProof id c a n e), env⟩ s).Succeeded ∧
      (machine dep).next ⟨.proofs (.registerProof id c a n e), env⟩ s = s := by
  rcases step_cases dep ⟨.proofs (.registerProof id c a n e), env⟩ s with
    ⟨v, _, hE⟩ | ⟨y, hr, hs, _⟩
  · obtain ⟨_, hE, _⟩ := hE
    obtain ⟨cfg, _, _, _, _, _, _, _, _, _, _, _, _, hp, _⟩ := hE
    simp only [answers, hpaused] at hp
    split at hp <;> cases hp
  · exact ⟨Receipt.not_succeeded hr, hs⟩

/-- Calls other than registrations and `is_paused` go the same way, replies and events
included, from two states that differ at most in the pause flag; and while it is set no
proof is registered. -/
theorem pause_noninterference :
    (∀ s s' js, SameButPaused s.values s'.values → (∀ i ∈ js, i.call.seesPause = false) →
      ((machine dep).history s' js).map Machine.Step.reply =
          ((machine dep).history s js).map Machine.Step.reply ∧
        SameButPaused ((machine dep).run s js).values ((machine dep).run s' js).values ∧
        ((∃ t ∈ (machine dep).history s js, t.input.call.setsPaused = true ∧ t.reply.Succeeded) →
          ((machine dep).run s' js).values = ((machine dep).run s js).values)) ∧
    ∀ s env id c a n e, s.values.config .inst .paused = some true →
      ¬ ((machine dep).reply ⟨.proofs (.registerProof id c a n e), env⟩ s).Succeeded ∧
        (machine dep).next ⟨.proofs (.registerProof id c a n e), env⟩ s = s := by
  refine ⟨fun s s' js h hjs => ?_, fun s env id c a n e hpaused => registerProof_paused dep hpaused⟩
  obtain ⟨hreplies, hsame, _, hsets⟩ := run_follows dep h js hjs
  exact ⟨hreplies, hsame, hsets⟩

namespace Example

def pause : Invocation Call := ⟨.config .pause, signedBy 2 [admin]⟩

def unpause : Invocation Call := ⟨.config .unpause, signedBy 2 [admin]⟩

def suspension : Invocation Call :=
  ⟨.issuers (.suspendIssuer (.fill 32 21)), signedBy 2 [admin]⟩

end Example

/-- Pausing twice and pausing and unpausing lead to states that differ in the flag alone;
a suspension goes the same way from both, and an unpause makes them the same. -/
theorem pause_noninterference_example :
    let m := machine Example.deployment
    let s := m.run empty (Example.setup ++ [Example.pause, Example.pause])
    let s' := m.run empty (Example.setup ++ [Example.pause, Example.unpause])
    let js := [Example.suspension, Example.unpause]
    (m.history s' js).map Machine.Step.reply = (m.history s js).map Machine.Step.reply ∧
      (m.run s' js).values = (m.run s js).values ∧
      ¬ (m.reply Example.registration s).Succeeded := by
  intro m s s' js
  have hadmin : (m.run empty (Example.setup ++ [Example.pause])).values.config .inst .admin =
      some Example.admin := by decide +kernel
  have hcounter : ProtocolConfig.checkedAdd (ProtocolConfig.configVersion
      (m.run empty (Example.setup ++ [Example.pause])).values.config) 1 = some 4 := by
    decide +kernel
  have hpaused : s.values.config .inst .paused = some true := by decide +kernel
  have hok : (m.reply Example.unpause (m.next Example.suspension s)).outcome = .ok .unit := by
    decide +kernel
  have hset : ∃ t ∈ m.history s js, t.input.call.setsPaused = true ∧ t.reply.Succeeded :=
    ⟨m.stepAt Example.unpause (m.next Example.suspension s),
      List.mem_cons_of_mem _ (List.mem_cons_self ..), rfl, _, hok⟩
  have hsame : SameButPaused s.values s'.values := by
    have h := pause_sameButPaused Example.deployment hadmin
      (by decide : (Example.signedBy 2 [Example.admin]).signed Example.admin = true) hcounter
    exact h
  obtain ⟨hreplies, _, hvalues⟩ :=
    (pause_noninterference Example.deployment).1 s s' js hsame (by decide)
  exact ⟨hreplies, hvalues hset,
    ((pause_noninterference Example.deployment).2 s _ _ _ _ _ _ hpaused).1⟩

end System
end EarnProof

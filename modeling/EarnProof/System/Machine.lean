import EarnProof.IssuerRegistry.Directory
import EarnProof.ProofRegistry.Lifecycle
import EarnProof.ProtocolConfig.Effects

/-! The three contracts together.

A deployment gives each contract an address. A system step is one invocation of any of
the three; the proof registry calls the other two, and a call to any other address, or
of a method its callee does not have, fails. `Effect` is the system on values: the
tables of the three contracts, with the dependencies answering from their stored
values. `step_cases` relates it to the machine. -/
namespace EarnProof
open Soroban

/-- Three different addresses, one for each contract. -/
structure Deployment where
  protocolConfig : Address
  issuerRegistry : Address
  proofRegistry : Address
  config_ne_issuers : protocolConfig ≠ issuerRegistry
  config_ne_proofs : protocolConfig ≠ proofRegistry
  issuers_ne_proofs : issuerRegistry ≠ proofRegistry

structure System where
  config : Storage ProtocolConfig.DataKey.Value
  issuers : Storage IssuerRegistry.DataKey.Value
  proofs : Storage ProofRegistry.DataKey.Value

namespace System

def empty : System := ⟨.empty, .empty, .empty⟩

/-- The stored values, without the lifetimes. -/
@[ext] structure Values where
  config : Entries ProtocolConfig.DataKey.Value
  issuers : Entries IssuerRegistry.DataKey.Value
  proofs : Entries ProofRegistry.DataKey.Value

def values (s : System) : Values := ⟨s.config.entries, s.issuers.entries, s.proofs.entries⟩

inductive Call where
  | config (call : ProtocolConfig.Call)
  | issuers (call : IssuerRegistry.Call)
  | proofs (call : ProofRegistry.Call)
  deriving DecidableEq

inductive Event where
  | config (event : ProtocolConfig.Event)
  | issuers (event : IssuerRegistry.Event)
  | proofs (event : ProofRegistry.Event)
  deriving DecidableEq

/-- What the proof registry calls into. -/
abbrev Dependencies :=
  Storage ProtocolConfig.DataKey.Value × Storage IssuerRegistry.DataKey.Value

/-- A contract's answer to a call from another; its failure fails the caller. -/
def ask {K Ev : Type} {V : K → Type} (callee : Address) (x : Program V Ev Unit ErrorCode Bool)
    (env : Env) (s : Storage V) : Except Abort Bool × Storage V :=
  let r := invoke x {env with currentContract := callee} s ()
  (r.1.outcome.mapError fun _ => .host, r.2.1)

/-- The clients of the proof registry in a deployment. -/
def clients (dep : Deployment) : ProofRegistry.Clients Dependencies where
  isPaused := fun a env w =>
    if a = dep.protocolConfig then
      let r := ask a ProtocolConfig.isPaused env w.1
      (r.1, r.2, w.2)
    else (.error .host, w)
  isSchemaVersionApproved := fun a version env w =>
    if a = dep.protocolConfig then
      let r := ask a (ProtocolConfig.isSchemaVersionApproved version) env w.1
      (r.1, r.2, w.2)
    else (.error .host, w)
  isActiveAddress := fun a issuerAddress env w =>
    if a = dep.issuerRegistry then
      let r := ask a (IssuerRegistry.isActiveAddress issuerAddress) env w.2
      (r.1, w.1, r.2)
    else (.error .host, w)

/-- One invocation of one of the contracts. -/
def step (dep : Deployment) (i : Invocation Call) (s : System) : Receipt Event Value × System :=
  match i.call with
  | .config c =>
    let r := (ProtocolConfig.machine dep.protocolConfig).step ⟨c, i.env⟩ s.config
    (r.1.mapEvents .config, {s with config := r.2})
  | .issuers c =>
    let r := (IssuerRegistry.machine dep.issuerRegistry).step ⟨c, i.env⟩ s.issuers
    (r.1.mapEvents .issuers, {s with issuers := r.2})
  | .proofs c =>
    let r := invoke (c.program (clients dep)) {i.env with currentContract := dep.proofRegistry}
      s.proofs (s.config, s.issuers)
    (r.1.mapEvents .proofs, ⟨r.2.2.1, r.2.2.2, r.2.1⟩)

def machine (dep : Deployment) : Machine (Invocation Call) (Receipt Event Value) System where
  step := step dep

/-! ### The system on values -/

/-- The dependencies' answers, from their stored values. -/
def answers (dep : Deployment) (x : Values) : ProofRegistry.Clients Unit where
  isPaused := fun a _ _ =>
    if a = dep.protocolConfig then (.ok ((x.config .inst .paused).getD false), ())
    else (.error .host, ())
  isSchemaVersionApproved := fun a version _ _ =>
    if a = dep.protocolConfig then
      (.ok (version != 0 && (x.config .persistent (.schemaVersion version)).getD false), ())
    else (.error .host, ())
  isActiveAddress := fun a issuerAddress _ _ =>
    if a = dep.issuerRegistry then
      (.ok (IssuerRegistry.activeAddress x.issuers issuerAddress), ())
    else (.error .host, ())

/-- What a call that returns has done to the values of the three contracts. -/
def Effect (dep : Deployment) (env : Env) (x : Values) : Call → Value → Values → Prop
  | .config c, v, x' =>
    ∃ events, ProtocolConfig.Effect {env with currentContract := dep.protocolConfig} x.config c v
      x'.config events ∧ x'.issuers = x.issuers ∧ x'.proofs = x.proofs
  | .issuers c, v, x' =>
    ∃ events, IssuerRegistry.Effect {env with currentContract := dep.issuerRegistry} x.issuers c v
      x'.issuers events ∧ x'.config = x.config ∧ x'.proofs = x.proofs
  | .proofs c, v, x' =>
    ∃ events, ProofRegistry.Effect (answers dep x) {env with currentContract := dep.proofRegistry}
      x.proofs () c v x'.proofs events () ∧ x'.config = x.config ∧ x'.issuers = x.issuers

/-! ### The dependencies answer from their values -/

section Clients
variable (dep : Deployment) (env : Env) (w : Dependencies) {x : Values}

/-- A query answers from the values and changes none. -/
theorem ask_query {K Ev : Type} {V : K → Type} {x : Program V Ev Unit ErrorCode Bool}
    {f : Entries V → Bool}
    (hx : Realizes x fun _ d w v d' events w' => w' = w ∧ v = f d ∧ d' = d ∧ events = [])
    (callee : Address) (env : Env) (s : Storage V) :
    (ask callee x env s).1 = .ok (f s.entries) ∧ (ask callee x env s).2.entries = s.entries := by
  have hE : () = () ∧ f s.entries = f s.entries ∧ s.entries = s.entries ∧ ([] : List Ev) = [] :=
    ⟨rfl, rfl, rfl, rfl⟩
  have h : (invoke x {env with currentContract := callee} s ()).1 = ⟨.ok (f s.entries), []⟩ ∧
      (invoke x {env with currentContract := callee} s ()).2.1.entries = s.entries ∧
      (invoke x {env with currentContract := callee} s ()).2.2 = () := invoke_ok hx hE
  exact ⟨by simp [ask, h.1], h.2.1⟩

/-- A client's reply is the answer from the values, and leaves the values alone. -/
structure Agrees (reply : Except Abort Bool × Dependencies) (answer : Except Abort Bool × Unit) :
    Prop where
  answer : reply.1 = answer.1
  config : reply.2.1.entries = w.1.entries
  issuers : reply.2.2.entries = w.2.entries

theorem isPaused_agrees (hconfig : w.1.entries = x.config) (a : Address) :
    Agrees w ((clients dep).isPaused a env w) ((answers dep x).isPaused a env ()) := by
  have hx : Realizes (ProtocolConfig.isPaused : ProtocolConfig.Code ErrorCode Bool)
      fun _ d w v d' events w' =>
        w' = w ∧ v = (d .inst .paused).getD false ∧ d' = d ∧ events = [] := by
    intro env f v d' events w'
    simp [ProtocolConfig.isPaused, and_assoc]
  obtain ⟨hr, hd⟩ := ask_query hx a env w.1
  by_cases ha : a = dep.protocolConfig
  · refine ⟨?_, ?_, ?_⟩ <;> simp_all [clients, answers]
  · refine ⟨?_, ?_, ?_⟩ <;> simp [clients, answers, ha]

theorem isSchemaVersionApproved_agrees (hconfig : w.1.entries = x.config) (a : Address)
    (n : UInt32) :
    Agrees w ((clients dep).isSchemaVersionApproved a n env w)
      ((answers dep x).isSchemaVersionApproved a n env ()) := by
  have hx : Realizes
      (ProtocolConfig.isSchemaVersionApproved n : ProtocolConfig.Code ErrorCode Bool)
      fun _ d w v d' events w' => w' = w ∧
        v = (n != 0 && (d .persistent (.schemaVersion n)).getD false) ∧ d' = d ∧ events = [] := by
    intro env f v d' events w'
    simp [ProtocolConfig.isSchemaVersionApproved_ok]
  obtain ⟨hr, hd⟩ := ask_query hx a env w.1
  by_cases ha : a = dep.protocolConfig
  · refine ⟨?_, ?_, ?_⟩ <;> simp_all [clients, answers]
  · refine ⟨?_, ?_, ?_⟩ <;> simp [clients, answers, ha]

theorem isActiveAddress_agrees (hissuers : w.2.entries = x.issuers) (a issuer : Address) :
    Agrees w ((clients dep).isActiveAddress a issuer env w)
      ((answers dep x).isActiveAddress a issuer env ()) := by
  have hx : Realizes
      (IssuerRegistry.isActiveAddress issuer : IssuerRegistry.Code ErrorCode Bool)
      fun _ d w v d' events w' =>
        w' = w ∧ v = IssuerRegistry.activeAddress d issuer ∧ d' = d ∧ events = [] := by
    intro env f v d' events w'
    simp [IssuerRegistry.isActiveAddress_ok]
  obtain ⟨hr, hd⟩ := ask_query hx a env w.2
  by_cases ha : a = dep.issuerRegistry
  · refine ⟨?_, ?_, ?_⟩ <;> simp_all [clients, answers]
  · refine ⟨?_, ?_, ?_⟩ <;> simp [clients, answers, ha]

variable {w}

theorem Agrees.of_reply {reply : Except Abort Bool × Dependencies} {answer : Except Abort Bool × Unit}
    (h : Agrees w reply answer) {b : Bool} {w' : Dependencies} (hr : reply = (.ok b, w')) :
    answer = (.ok b, ()) ∧ w'.1.entries = w.1.entries ∧ w'.2.entries = w.2.entries := by
  obtain ⟨ha, hc, hi⟩ := h
  subst hr
  exact ⟨Prod.ext ha.symm rfl, hc, hi⟩

theorem Agrees.of_answer {reply : Except Abort Bool × Dependencies}
    {answer : Except Abort Bool × Unit} (h : Agrees w reply answer) {b : Bool}
    (ha : answer = (.ok b, ())) :
    ∃ w', reply = (.ok b, w') ∧ w'.1.entries = w.1.entries ∧ w'.2.entries = w.2.entries := by
  subst ha
  exact ⟨reply.2, Prod.ext h.answer rfl, h.config, h.issuers⟩

/-- With the deployed clients a proof-registry call does what it does with the answers
from the values, and leaves the dependencies' values alone. -/
theorem clients_effect (hconfig : w.1.entries = x.config) (hissuers : w.2.entries = x.issuers)
    {d d' : Entries ProofRegistry.DataKey.Value} {c : ProofRegistry.Call} {v : Value}
    {events : List ProofRegistry.Event} :
    ProofRegistry.Effect (answers dep x) env d () c v d' events () ↔
      ∃ w', ProofRegistry.Effect (clients dep) env d w c v d' events w' := by
  cases c with
  | registerProof id cm a n e =>
    constructor
    · rintro ⟨cfg, reg, _, _, h1, h2, h3, h4, h5, h6, h7, h8, h9, hp, hs, ha, h10⟩
      obtain ⟨w₁, hp', hc₁, hi₁⟩ := (isPaused_agrees dep env w hconfig cfg).of_answer hp
      obtain ⟨w₂, hs', hc₂, hi₂⟩ :=
        (isSchemaVersionApproved_agrees dep env w₁ (hc₁.trans hconfig) cfg n).of_answer hs
      obtain ⟨w₃, ha', _, _⟩ :=
        (isActiveAddress_agrees dep env w₂ (hi₂.trans (hi₁.trans hissuers)) reg a).of_answer ha
      exact ⟨w₃, cfg, reg, w₁, w₂, h1, h2, h3, h4, h5, h6, h7, h8, h9, hp', hs', ha', h10⟩
    · rintro ⟨w₃, cfg, reg, w₁, w₂, h1, h2, h3, h4, h5, h6, h7, h8, h9, hp, hs, ha, h10⟩
      obtain ⟨hp', hc₁, hi₁⟩ := (isPaused_agrees dep env w hconfig cfg).of_reply hp
      obtain ⟨hs', hc₂, hi₂⟩ :=
        (isSchemaVersionApproved_agrees dep env w₁ (hc₁.trans hconfig) cfg n).of_reply hs
      obtain ⟨ha', _, _⟩ :=
        (isActiveAddress_agrees dep env w₂ (hi₂.trans (hi₁.trans hissuers)) reg a).of_reply ha
      exact ⟨cfg, reg, (), (), h1, h2, h3, h4, h5, h6, h7, h8, h9, hp', hs', ha', h10⟩
  | _ => exact ⟨fun h => ⟨w, rfl, h.2⟩, fun ⟨_, h⟩ => ⟨rfl, h.2⟩⟩

theorem clients_effect_world {w' : Dependencies} {d d' : Entries ProofRegistry.DataKey.Value}
    {c : ProofRegistry.Call} {v : Value} {events : List ProofRegistry.Event}
    (h : ProofRegistry.Effect (clients dep) env d w c v d' events w') :
    w'.1.entries = w.1.entries ∧ w'.2.entries = w.2.entries := by
  cases c with
  | registerProof id cm a n e =>
    obtain ⟨cfg, reg, w₁, w₂, _, _, _, _, _, _, _, _, _, hp, hs, ha, _⟩ := h
    let x : Values := ⟨w.1.entries, w.2.entries, d⟩
    have hx₀ : w.1.entries = x.config := rfl
    obtain ⟨_, hc₁, hi₁⟩ := (isPaused_agrees dep env w hx₀ cfg).of_reply hp
    have hx₁ : w₁.1.entries = x.config := hc₁
    obtain ⟨_, hc₂, hi₂⟩ := (isSchemaVersionApproved_agrees dep env w₁ hx₁ cfg n).of_reply hs
    have hx₂ : w₂.2.entries = x.issuers := hi₂.trans hi₁
    obtain ⟨_, hc₃, hi₃⟩ := (isActiveAddress_agrees dep env w₂ hx₂ reg a).of_reply ha
    exact ⟨hc₃.trans (hc₂.trans hc₁), hi₃.trans (hi₂.trans hi₁)⟩
  | _ =>
    obtain ⟨rfl, _⟩ := h
    exact ⟨rfl, rfl⟩

end Clients

/-! ### Steps and runs -/

section Runs
variable (dep : Deployment)

/-- A step has the effect of its call, or fails because the call has none here, and then
changes nothing. -/
theorem step_cases (i : Invocation Call) (s : System) :
    (∃ v, ((machine dep).reply i s).outcome = .ok v ∧
      Effect dep i.env s.values i.call v ((machine dep).next i s).values) ∨
    (∃ e, ((machine dep).reply i s).outcome = .error e ∧ (machine dep).next i s = s ∧
      ∀ v x', ¬ Effect dep i.env s.values i.call v x') := by
  obtain ⟨call, env⟩ := i
  cases call with
  | config c =>
    rcases ProtocolConfig.step_cases dep.protocolConfig ⟨c, env⟩ s.config with
      ⟨v, hv, hE⟩ | ⟨e, hr, hs, hno⟩
    · exact .inl ⟨v, hv, _, hE, rfl, rfl⟩
    · refine .inr ⟨e, ?_, ?_, ?_⟩
      · exact congrArg Receipt.outcome hr
      · exact congrArg (fun t => {s with config := t}) hs
      · rintro v x' ⟨events, hE, _⟩
        exact hno v _ events hE
  | issuers c =>
    rcases IssuerRegistry.step_cases dep.issuerRegistry ⟨c, env⟩ s.issuers with
      ⟨v, hv, hE⟩ | ⟨e, hr, hs, hno⟩
    · exact .inl ⟨v, hv, _, hE, rfl, rfl⟩
    · refine .inr ⟨e, ?_, ?_, ?_⟩
      · exact congrArg Receipt.outcome hr
      · exact congrArg (fun t => {s with issuers := t}) hs
      · rintro v x' ⟨events, hE, _⟩
        exact hno v _ events hE
  | proofs c =>
    have hiff : ∀ v d' events,
        ProofRegistry.Effect (answers dep s.values) {env with currentContract := dep.proofRegistry}
            s.proofs.entries () c v d' events () ↔
          ∃ w', ProofRegistry.Effect (clients dep) {env with currentContract := dep.proofRegistry}
            s.proofs.entries (s.config, s.issuers) c v d' events w' :=
      fun _ _ _ => clients_effect dep _ rfl rfl
    rcases invoke_cases (ProofRegistry.program_realizes (clients dep) c)
      {env with currentContract := dep.proofRegistry} s.proofs (s.config, s.issuers) with
      ⟨v, hv, hE⟩ | ⟨e, hrun, hno⟩
    · obtain ⟨hconfig, hissuers⟩ := clients_effect_world dep _ hE
      exact .inl ⟨v, hv, _, (hiff v _ _).mpr ⟨_, hE⟩, hconfig, hissuers⟩
    · refine .inr ⟨e, ?_, ?_, ?_⟩
      · simp only [Machine.reply, machine, step, hrun]
        rfl
      · simp only [Machine.next, machine, step, hrun]
      · rintro v x' ⟨events, hE, _⟩
        obtain ⟨w', hE'⟩ := (hiff v _ events).mp hE
        exact hno v _ events w' hE'

/-- A step whose effect is possible has it. -/
theorem step_ok {i : Invocation Call} {s : System} {v : Value} {x' : Values}
    (hE : Effect dep i.env s.values i.call v x') :
    ((machine dep).reply i s).outcome = .ok v ∧ ((machine dep).next i s).values = x' := by
  obtain ⟨call, env⟩ := i
  cases call with
  | config c =>
    obtain ⟨events, hE, hissuers, hproofs⟩ := hE
    have h : (ProtocolConfig.machine dep.protocolConfig).reply ⟨c, env⟩ s.config =
          ⟨.ok v, events⟩ ∧
        ((ProtocolConfig.machine dep.protocolConfig).next ⟨c, env⟩ s.config).entries = x'.config :=
      contractAt_ok ProtocolConfig.program_realizes hE
    exact ⟨congrArg Receipt.outcome h.1, Values.ext h.2 hissuers.symm hproofs.symm⟩
  | issuers c =>
    obtain ⟨events, hE, hconfig, hproofs⟩ := hE
    have h : (IssuerRegistry.machine dep.issuerRegistry).reply ⟨c, env⟩ s.issuers =
          ⟨.ok v, events⟩ ∧
        ((IssuerRegistry.machine dep.issuerRegistry).next ⟨c, env⟩ s.issuers).entries =
          x'.issuers :=
      contractAt_ok IssuerRegistry.program_realizes hE
    exact ⟨congrArg Receipt.outcome h.1, Values.ext hconfig.symm h.2 hproofs.symm⟩
  | proofs c =>
    obtain ⟨events, hE, hconfig, hissuers⟩ := hE
    have hw : (⟨s.config, s.issuers⟩ : Dependencies).1.entries = s.values.config := rfl
    obtain ⟨w', hE'⟩ := (clients_effect dep _ hw rfl).mp hE
    obtain ⟨hc, hi⟩ := clients_effect_world dep _ hE'
    obtain ⟨hr, hd, hw'⟩ := invoke_ok (ProofRegistry.program_realizes (clients dep) c) hE'
    refine ⟨congrArg Receipt.outcome hr, Values.ext ?_ ?_ hd⟩
    · exact (congrArg (fun w => w.1.entries) hw').trans (hc.trans hconfig.symm)
    · exact (congrArg (fun w => w.2.entries) hw').trans (hi.trans hissuers.symm)

theorem succeeded_iff {i : Invocation Call} {s : System} :
    ((machine dep).reply i s).Succeeded ↔ ∃ v x', Effect dep i.env s.values i.call v x' := by
  constructor
  · intro hok
    rcases step_cases dep i s with ⟨v, _, hE⟩ | ⟨e, hr, _⟩
    · exact ⟨v, _, hE⟩
    · exact absurd hok (Receipt.not_succeeded hr)
  · rintro ⟨v, x', hE⟩
    exact ⟨v, (step_ok dep hE).1⟩

/-- A call that can answer `v` and change nothing answers `v`. -/
theorem query_outcome {env : Env} {s : System} {c : Call} {v : Value}
    (hE : Effect dep env s.values c v s.values) :
    ((machine dep).reply ⟨c, env⟩ s).outcome = .ok v := by
  have hstep : Effect dep (Invocation.mk c env).env s.values (Invocation.mk c env).call v s.values :=
    hE
  exact (step_ok dep hstep).1

abbrev SystemStep := Machine.Step (Invocation Call) (Receipt Event Value) System

/-- Every step of a run has the effect of its call, or failed and changed nothing. -/
theorem history_cases {s : System} {is : List (Invocation Call)} {t : SystemStep}
    (ht : t ∈ (machine dep).history s is) :
    (t.reply.Succeeded ∧ ∃ v, Effect dep t.input.env t.pre.values t.input.call v t.post.values) ∨
      (¬ t.reply.Succeeded ∧ t.post = t.pre) := by
  obtain ⟨a, _, _, heq⟩ := (machine dep).mem_history ht
  rw [heq]
  rcases step_cases dep t.input ((machine dep).run s a) with ⟨v, hv, hE⟩ | ⟨e, hr, hs, _⟩
  · exact .inl ⟨⟨v, hv⟩, v, hE⟩
  · exact .inr ⟨Receipt.not_succeeded hr, hs⟩

/-- What every effect preserves holds after every run. -/
theorem run_invariant (I : Values → Prop)
    (hI : ∀ env x c v x', Effect dep env x c v x' → I x → I x') {s : System} (h : I s.values)
    (is : List (Invocation Call)) : I ((machine dep).run s is).values := by
  refine (machine dep).invariant_run (fun s => I s.values) (fun i s hs => ?_) h is
  rcases step_cases dep i s with ⟨v, _, hE⟩ | ⟨e, _, hnext, _⟩
  · exact hI _ _ _ _ _ hE hs
  · rw [hnext]
    exact hs

/-! ### What the contracts keep, in the system -/

/-- A system step is an effect on protocol-config, or leaves its values alone. -/
theorem Effect.config_cases {dep : Deployment} {env : Env} {x x' : Values} {c : Call} {v : Value}
    (h : Effect dep env x c v x') :
    (∃ cc events, c = .config cc ∧ ProtocolConfig.Effect
      {env with currentContract := dep.protocolConfig} x.config cc v x'.config events) ∨
      ((∀ cc, c ≠ .config cc) ∧ x'.config = x.config) := by
  cases c with
  | config c =>
    obtain ⟨events, hE, _⟩ := h
    exact .inl ⟨c, events, rfl, hE⟩
  | issuers c =>
    obtain ⟨_, _, hconfig, _⟩ := h
    exact .inr ⟨by simp, hconfig⟩
  | proofs c =>
    obtain ⟨_, _, hconfig, _⟩ := h
    exact .inr ⟨by simp, hconfig⟩

/-- The same for the issuer registry. -/
theorem Effect.issuers_cases {dep : Deployment} {env : Env} {x x' : Values} {c : Call} {v : Value}
    (h : Effect dep env x c v x') :
    (∃ ic events, c = .issuers ic ∧ IssuerRegistry.Effect
      {env with currentContract := dep.issuerRegistry} x.issuers ic v x'.issuers events) ∨
      ((∀ ic, c ≠ .issuers ic) ∧ x'.issuers = x.issuers) := by
  cases c with
  | config c =>
    obtain ⟨_, _, hissuers, _⟩ := h
    exact .inr ⟨by simp, hissuers⟩
  | issuers c =>
    obtain ⟨events, hE, _⟩ := h
    exact .inl ⟨c, events, rfl, hE⟩
  | proofs c =>
    obtain ⟨_, _, _, hissuers⟩ := h
    exact .inr ⟨by simp, hissuers⟩

/-- The same for the proof registry. -/
theorem Effect.proofs_cases {dep : Deployment} {env : Env} {x x' : Values} {c : Call} {v : Value}
    (h : Effect dep env x c v x') :
    (∃ pc events, c = .proofs pc ∧ ProofRegistry.Effect (answers dep x)
      {env with currentContract := dep.proofRegistry} x.proofs () pc v x'.proofs events ()) ∨
      ((∀ pc, c ≠ .proofs pc) ∧ x'.proofs = x.proofs) := by
  cases c with
  | config c =>
    obtain ⟨_, _, _, hproofs⟩ := h
    exact .inr ⟨by simp, hproofs⟩
  | issuers c =>
    obtain ⟨_, _, _, hproofs⟩ := h
    exact .inr ⟨by simp, hproofs⟩
  | proofs c =>
    obtain ⟨events, hE, _⟩ := h
    exact .inl ⟨c, events, rfl, hE⟩

/-- A system step is a change of the issuer registry, or leaves its maps alone. -/
theorem Effect.issuers {dep : Deployment} {env : Env} {x x' : Values} {c : Call} {v : Value}
    (h : Effect dep env x c v x') :
    (∃ ic, c = .issuers ic ∧ IssuerRegistry.Change env.timestamp x.issuers ic x'.issuers) ∨
      ((∀ ic, c ≠ .issuers ic) ∧ x'.issuers = x.issuers) := by
  rcases h.issuers_cases with ⟨ic, _, hc, hE⟩ | hother
  · exact .inl ⟨ic, hc, hE.change⟩
  · exact .inr hother

/-- A system step is a change of the proof registry, or leaves its values alone. -/
theorem Effect.proofs {dep : Deployment} {env : Env} {x x' : Values} {c : Call} {v : Value}
    (h : Effect dep env x c v x') :
    (∃ pc, c = .proofs pc ∧ ProofRegistry.Change env.timestamp x.proofs pc x'.proofs) ∨
      ((∀ pc, c ≠ .proofs pc) ∧ x'.proofs = x.proofs) := by
  rcases h.proofs_cases with ⟨pc, _, hc, hE⟩ | hother
  · exact .inl ⟨pc, hc, hE.change⟩
  · exact .inr hother

theorem keepsDirectory {env : Env} {x x' : Values} {c : Call} {v : Value}
    (h : Effect dep env x c v x') (hx : ∃ D, IssuerRegistry.Keeps x.issuers D) :
    ∃ D, IssuerRegistry.Keeps x'.issuers D := by
  obtain ⟨D, hD⟩ := hx
  rcases h.issuers with ⟨ic, _, hchange⟩ | ⟨_, hsame⟩
  · exact hchange.keeps hD
  · rw [hsame]
    exact ⟨D, hD⟩

/-- In every run the issuer registry holds a directory. -/
theorem run_keeps (is : List (Invocation Call)) :
    ∃ D, IssuerRegistry.Keeps ((machine dep).run empty is).values.issuers D :=
  run_invariant dep (fun x => ∃ D, IssuerRegistry.Keeps x.issuers D)
    (fun _ _ _ _ _ hE hx => keepsDirectory dep hE hx) ⟨Directory.empty, rfl, rfl⟩ is

theorem run_wiring (is : List (Invocation Call)) :
    ProofRegistry.Wiring ((machine dep).run empty is).values.proofs := by
  have hempty : ProofRegistry.Wiring empty.values.proofs := ProofRegistry.Wiring.empty
  refine run_invariant dep (fun x => ProofRegistry.Wiring x.proofs) (fun env x c v x' hE hx => ?_)
    hempty is
  rcases hE.proofs_cases with ⟨_, _, _, hE⟩ | ⟨_, hproofs⟩
  · exact hE.keepsWiring hx
  · rw [hproofs]
    exact hx

end Runs

end System
end EarnProof

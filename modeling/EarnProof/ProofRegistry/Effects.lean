import EarnProof.ProofRegistry.Contract

/-! What each proof-registry call does to the stored values when it returns, for
dependencies that answer in any way: the table (`Effect`), the code as its realization
(`program_realizes`), and the same for an invocation (`step_cases`). -/
namespace EarnProof.ProofRegistry
open Soroban

/-- What `is_valid_proof` answers at time `now`. -/
def validProof (d : Entries DataKey.Value) (now : UInt64) (id : BytesN 32) : Bool :=
  (d .persistent (.proof id)).any fun (r : ProofRecord) =>
    r.status == .active && decide (now ≤ r.expiresAt)

/-- What `is_revoked` answers. -/
def revokedProof (d : Entries DataKey.Value) (id : BytesN 32) : Bool :=
  (d .persistent (.proof id)).any fun (r : ProofRecord) => r.status == .revoked

/-- Who must sign a revocation: the admin, or the issuer address the record names. -/
def revoker (d : Entries DataKey.Value) (byAdmin : Bool) (r : ProofRecord) : Option Address :=
  if byAdmin then d .inst .admin else some r.issuerAddress

/-- `set_revoked`, for the two revocations. -/
def Revokes (env : Env) (d : Entries DataKey.Value) (id : BytesN 32) (byAdmin : Bool) (v : Value)
    (d' : Entries DataKey.Value) (events : List Event) : Prop :=
  ∃ r p, d .persistent (.proof id) = some r ∧ revoker d byAdmin r = some p ∧
    env.signed p = true ∧ r.status ≠ .revoked ∧ v = .unit ∧
    d' = d.put .persistent (.proof id)
      (some {r with status := .revoked, revokedAt := env.timestamp}) ∧
    events = []

/-- The table: what a call that returns found, answered and left, and where the dependencies'
world is then. -/
def Effect {W : Type} (clients : Clients W) (env : Env) (d : Entries DataKey.Value) (w : W) :
    Call → Value → Entries DataKey.Value → List Event → W → Prop
  | .initializeContract a i p, v, d', events, w' =>
    w' = w ∧ d .inst .admin = none ∧ isValidPrincipalAddress a = true ∧
      isValidPrincipalAddress i = true ∧ isValidPrincipalAddress p = true ∧ i ≠ env.currentContract ∧ p ≠ env.currentContract ∧
      i ≠ p ∧ env.signed a = true ∧ v = .unit ∧
      d' = (((d.put .inst .admin (some a)).put .inst .issuerRegistry (some i)).put
        .inst .protocolConfig (some p)).put .inst .contractVersion (some (1 : UInt32)) ∧
      events = []
  | .registerProof id c a n e, v, d', events, w' =>
    ∃ cfg reg w₁ w₂, isValidPrincipalAddress a = true ∧ d .inst .protocolConfig = some cfg ∧
      d .inst .issuerRegistry = some reg ∧ a ≠ env.currentContract ∧ a ≠ cfg ∧ a ≠ reg ∧
      env.signed a = true ∧ n ≠ 0 ∧ env.timestamp < e ∧
      clients.isPaused cfg env w = (.ok false, w₁) ∧
      clients.isSchemaVersionApproved cfg n env w₁ = (.ok true, w₂) ∧
      clients.isActiveAddress reg a env w₂ = (.ok true, w') ∧
      d .persistent (.proof id) = none ∧ v = .unit ∧
      d' = d.put .persistent (.proof id) (some ⟨id, c, a, .active, n, e, env.timestamp, 0⟩) ∧
      events = []
  | .revokeProof id, v, d', events, w' => w' = w ∧ Revokes env d id false v d' events
  | .adminRevokeProof id, v, d', events, w' => w' = w ∧ Revokes env d id true v d' events
  | .getProof id, v, d', events, w' =>
    w' = w ∧ ∃ r, d .persistent (.proof id) = some r ∧ v = .proof r ∧ d' = d ∧ events = []
  | .isValidProof id, v, d', events, w' =>
    w' = w ∧ v = .bool (validProof d env.timestamp id) ∧ d' = d ∧ events = []
  | .isRevoked id, v, d', events, w' =>
    w' = w ∧ v = .bool (revokedProof d id) ∧ d' = d ∧ events = []
  | .getAdmin, v, d', events, w' =>
    w' = w ∧ ∃ a, d .inst .admin = some a ∧ v = .address a ∧ d' = d ∧ events = []
  | .getIssuerRegistry, v, d', events, w' =>
    w' = w ∧ ∃ a, d .inst .issuerRegistry = some a ∧ v = .address a ∧ d' = d ∧ events = []
  | .getProtocolConfig, v, d', events, w' =>
    w' = w ∧ ∃ a, d .inst .protocolConfig = some a ∧ v = .address a ∧ d' = d ∧ events = []
  | .upgrade c, v, d', events, w' => w' = w ∧ governance.Effect id env d c v d' events

/-! ### What the changes have found and written -/

section Changes
variable {W : Type} {clients : Clients W} {env : Env} {d d' : Entries DataKey.Value} {w w' : W}
  {v : Value} {events : List Event}

theorem Revokes.writes {id : BytesN 32} {byAdmin : Bool} (h : Revokes env d id byAdmin v d' events) :
    ∃ r, d .persistent (.proof id) = some r ∧ r.status ≠ .revoked ∧ d' =
      d.put .persistent (.proof id) (some {r with status := .revoked, revokedAt := env.timestamp}) := by
  obtain ⟨r, _, hr, _, _, hstatus, _, hd, _⟩ := h
  exact ⟨r, hr, hstatus, hd⟩

theorem Effect.initialize_writes {a i p : Address}
    (h : Effect clients env d w (.initializeContract a i p) v d' events w') :
    d' = (((d.put .inst .admin (some a)).put .inst .issuerRegistry (some i)).put
      .inst .protocolConfig (some p)).put .inst .contractVersion (some (1 : UInt32)) := by
  obtain ⟨_, _, _, _, _, _, _, _, _, _, hd, _⟩ := h
  exact hd

theorem Effect.register_writes {id c : BytesN 32} {a : Address} {n : UInt32} {e : UInt64}
    (h : Effect clients env d w (.registerProof id c a n e) v d' events w') :
    d' = d.put .persistent (.proof id) (some ⟨id, c, a, .active, n, e, env.timestamp, 0⟩) := by
  obtain ⟨_, _, _, _, _, _, _, _, _, _, _, _, _, _, _, _, _, _, hd, _⟩ := h
  exact hd

theorem Effect.initialize_signed {a i p : Address}
    (h : Effect clients env d w (.initializeContract a i p) v d' events w') :
    env.signed a = true := by
  obtain ⟨_, _, _, _, _, _, _, _, hs, _⟩ := h
  exact hs

theorem Effect.register_signed {id c : BytesN 32} {a : Address} {n : UInt32} {e : UInt64}
    (h : Effect clients env d w (.registerProof id c a n e) v d' events w') :
    env.signed a = true := by
  obtain ⟨_, _, _, _, _, _, _, _, _, _, hs, _⟩ := h
  exact hs

/-- A proof is registered under a new id. -/
theorem Effect.register_new {id c : BytesN 32} {a : Address} {n : UInt32} {e : UInt64}
    (h : Effect clients env d w (.registerProof id c a n e) v d' events w') :
    d .persistent (.proof id) = none := by
  obtain ⟨_, _, _, _, _, _, _, _, _, _, _, _, _, _, _, _, hnone, _⟩ := h
  exact hnone

end Changes

section Rules
variable {W ε : Type} {env : Env} {f f' : Frame DataKey.Value Event W}

@[simp] theorem getIssuerRegistry_ok {a : Address} :
    (getIssuerRegistry : Code W ContractError Address) env f = (.ok a, f') ↔
      f.entries .inst .issuerRegistry = some a ∧ f' = f := by
  simp [getIssuerRegistry, and_assoc]

@[simp] theorem getProtocolConfig_ok {a : Address} :
    (getProtocolConfig : Code W ContractError Address) env f = (.ok a, f') ↔
      f.entries .inst .protocolConfig = some a ∧ f' = f := by
  simp [getProtocolConfig, and_assoc]

/-- `get_proof` extends the record it found. -/
def touchProof (env : Env) (id : BytesN 32) (s : Storage DataKey.Value) : Storage DataKey.Value :=
  if (s.entries .persistent (.proof id)).isSome then
    (s.access env.minimumTtl env.sequence .persistent (.proof id)).extend
      TTL_THRESHOLD_LEDGERS TTL_EXTEND_TO_LEDGERS env.sequence (.proof id)
  else s

@[simp] theorem entries_touchProof (id : BytesN 32) (s : Storage DataKey.Value) :
    (touchProof env id s).entries = s.entries := by
  unfold touchProof
  split <;> simp

/-- `get_proof` finds the record and extends it, or fails and leaves everything alone. -/
theorem getProof_run (id : BytesN 32) :
    getProof id env f =
      (((f.entries .persistent (.proof id)).elim (.error (.error .proofNotFound)) .ok),
        {f with toStorage := touchProof env id f.toStorage}) := by
  cases hrec : f.entries .persistent (.proof id) with
  | none => simp [getProof, bind, Soroban.get, okOr, hrec, touchProof, Storage.access]
  | some r =>
    simp [getProof, bind, pure, Soroban.get, okOr, hrec, touchProof, extendProofKeyTtl, extendTtl]

theorem getProof_ok {id : BytesN 32} {r : ProofRecord} :
    getProof id env f = (.ok r, f') ↔
      f.entries .persistent (.proof id) = some r ∧
        f' = {f with toStorage := touchProof env id f.toStorage} := by
  rw [getProof_run]
  cases f.entries .persistent (.proof id) <;> simp [eq_comm]

theorem isValidProof_ok {id : BytesN 32} {b : Bool} :
    (isValidProof id : Code W ε Bool) env f = (.ok b, f') ↔
      b = validProof f.entries env.timestamp id ∧
        f' = {f with toStorage := touchProof env id f.toStorage} :=
  attempt_answer_ok (getProof_run id) (fun _ _ => rfl) fun _ _ => rfl

theorem isRevoked_ok {id : BytesN 32} {b : Bool} :
    (isRevoked id : Code W ε Bool) env f = (.ok b, f') ↔
      b = revokedProof f.entries id ∧
        f' = {f with toStorage := touchProof env id f.toStorage} :=
  attempt_answer_ok (getProof_run id) (fun _ _ => rfl) fun _ _ => rfl

end Rules

/-! ### The code realizes the table -/

theorem setRevoked_realizes {W : Type} (id : BytesN 32) (byAdmin : Bool) :
    Realizes (entry ProofError.code (fun _ => Value.unit) (setRevoked id byAdmin) :
        Code W ErrorCode Value)
      (fun env d w v d' events w' => w' = w ∧ Revokes env d id byAdmin v d' events) := by
  intro env f v d' events w'
  cases byAdmin <;>
    simp [setRevoked, getAdmin, extendProofKeyTtl, Revokes, revoker, and_assoc]

/-- The code of every entry point does what the table says, whatever the lifetimes and
the dependencies. -/
theorem program_realizes {W : Type} (clients : Clients W) (c : Call) :
    Realizes (c.program clients) (fun env d w => Effect clients env d w c) := by
  cases c with
  | initializeContract a i p =>
    intro env f v d' events w'
    simp [Call.program, initializeContract, requireValidPrincipal, validateDependencyAddresses,
      extendInstance, Effect, and_assoc]
  | registerProof id c a n e =>
    intro env f v d' events w'
    -- The dependency addresses are read twice.
    cases hcfg : f.entries .inst .protocolConfig <;> cases hreg : f.entries .inst .issuerRegistry <;>
      simp [Call.program, registerProof, requireValidIssuerAddress, extendProofKeyTtl, Effect,
        and_assoc, hcfg, hreg]
  | revokeProof id => exact setRevoked_realizes id false
  | adminRevokeProof id => exact setRevoked_realizes id true
  | getProof id =>
    intro env f v d' events w'
    simp [Call.program, getProof_ok, Effect, and_assoc]
  | isValidProof id =>
    intro env f v d' events w'
    simp [Call.program, isValidProof_ok, Effect, and_assoc]
  | isRevoked id =>
    intro env f v d' events w'
    simp [Call.program, isRevoked_ok, Effect, and_assoc]
  | getAdmin =>
    intro env f v d' events w'
    simp [Call.program, getAdmin, Effect, and_assoc]
  | getIssuerRegistry =>
    intro env f v d' events w'
    simp [Call.program, Effect, and_assoc]
  | getProtocolConfig =>
    intro env f v d' events w'
    simp [Call.program, Effect, and_assoc]
  | upgrade c =>
    rw [program_upgrade]
    exact c.program_realizes governance id

/-- What a request does: its call, with the dependencies answering as the request says. -/
def RequestEffect (env : Env) (d : Entries DataKey.Value) (r : Request) (v : Value)
    (d' : Entries DataKey.Value) (events : List Event) : Prop :=
  Effect r.clients env d () r.call v d' events ()

theorem request_realizes (r : Request) :
    Realizes (r.call.program r.clients) (fun env d w v d' events w' =>
      w' = w ∧ RequestEffect env d r v d' events) := by
  intro env f v d' events w'
  rw [program_realizes r.clients r.call env f v d' events w']
  simp [RequestEffect]

/-- An invocation has the effect of its call, or fails because the call has none here,
and then changes nothing. -/
theorem step_cases (self : Address) (i : Invocation Request) (s : Storage DataKey.Value) :
    (∃ v, ((machine self).reply i s).outcome = .ok v ∧
      RequestEffect {i.env with currentContract := self} s.entries i.call v
        ((machine self).next i s).entries ((machine self).reply i s).events) ∨
    (∃ e, (machine self).reply i s = ⟨.error e, []⟩ ∧ (machine self).next i s = s ∧
      ∀ v d' events, ¬ RequestEffect {i.env with currentContract := self} s.entries
        i.call v d' events) :=
  contractAt_cases request_realizes self i s

end EarnProof.ProofRegistry

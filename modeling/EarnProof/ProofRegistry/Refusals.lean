import EarnProof.ProofRegistry.Effects
import EarnProof.Soroban.Walk
import EarnProof.Upgrade.Refusals

/-! Why a proof-registry call is refused, for dependencies that answer in any way, and the
storage that a change leaves. Nothing is written before the last check. -/
namespace EarnProof.ProofRegistry
open Soroban

/-- The checks on a dependency's answer: that it came, and that it was not `bad`. -/
def answerChecks (answer : Except Abort Bool) (bad : Bool) (error : ProofError) : List Check :=
  match answer with
  | .error a => [⟨true, .abort a⟩]
  | .ok b => [⟨b == bad, .error error.code⟩]

/-- The checks of a registration behind the stored dependencies `cfg` and `reg`. -/
def registerChecks {W : Type} (clients : Clients W) (env : Env) (d : Entries DataKey.Value) (w : W)
    (cfg reg : Address) (id : BytesN 32) (a : Address) (n : UInt32) (e : UInt64) : List Check :=
  let paused := clients.isPaused cfg env w
  let approved := clients.isSchemaVersionApproved cfg n env paused.2
  let active := clients.isActiveAddress reg a env approved.2
  [⟨a == env.currentContract || a == cfg || a == reg, .error ProofError.invalidAddress.code⟩,
    .requireAuth env (some a),
    ⟨n == 0, .error ProofError.invalidSchemaVersion.code⟩,
    ⟨e ≤ env.timestamp, .error ProofError.proofExpired.code⟩] ++
  answerChecks paused.1 true .invalidSchemaVersion ++
  answerChecks approved.1 false .schemaVersionNotApproved ++
  answerChecks active.1 false .invalidSchemaVersion ++
  [⟨(d .persistent (.proof id)).isSome, .error ProofError.proofAlreadyRegistered.code⟩]

/-- The checks of a revocation. The record is looked up before the signature. -/
def revokeChecks (env : Env) (d : Entries DataKey.Value) (id : BytesN 32) (byAdmin : Bool) :
    List Check :=
  [⟨(d .persistent (.proof id)).isNone, .error ProofError.proofNotFound.code⟩,
    ⟨byAdmin && (d .inst .admin).isNone, .error ProofError.proofNotFound.code⟩,
    .requireAuth env (if byAdmin then d .inst .admin
      else (d .persistent (.proof id)).map ProofRecord.issuerAddress),
    ⟨(d .persistent (.proof id)).any fun (r : ProofRecord) => r.status == .revoked,
      .error ProofError.proofAlreadyRevoked.code⟩]

/-- The checks of a call, in order. -/
def checks {W : Type} (clients : Clients W) (env : Env) (d : Entries DataKey.Value) (w : W) :
    Call → List Check
  | .initializeContract a i p =>
    [⟨(d .inst .admin).isSome, .error ContractError.alreadyInitialized.code⟩,
      ⟨!isValidPrincipalAddress a, .error ContractError.invalidInput.code⟩,
      ⟨!isValidPrincipalAddress i || !isValidPrincipalAddress p,
        .error ContractError.invalidInput.code⟩,
      ⟨i == env.currentContract || p == env.currentContract || i == p,
        .error ContractError.invalidInput.code⟩,
      .requireAuth env (some a)]
  | .registerProof id _ a n e =>
    ⟨!isValidPrincipalAddress a, .error ProofError.invalidAddress.code⟩ ::
      match d .inst .protocolConfig, d .inst .issuerRegistry with
      | some cfg, some reg => registerChecks clients env d w cfg reg id a n e
      | _, _ => [⟨true, .error ProofError.proofNotFound.code⟩]
  | .revokeProof id => revokeChecks env d id false
  | .adminRevokeProof id => revokeChecks env d id true
  | .getProof id => [⟨(d .persistent (.proof id)).isNone, .error ProofError.proofNotFound.code⟩]
  | .isValidProof _ | .isRevoked _ => []
  | .getAdmin => [⟨(d .inst .admin).isNone, .error ContractError.notInitialized.code⟩]
  | .getIssuerRegistry =>
    [⟨(d .inst .issuerRegistry).isNone, .error ContractError.notInitialized.code⟩]
  | .getProtocolConfig =>
    [⟨(d .inst .protocolConfig).isNone, .error ContractError.notInitialized.code⟩]
  | .upgrade c => governance.checks env d c

/-- What a refused call has made of the values. -/
def leftover : Call → Entries DataKey.Value → Failure ErrorCode → Entries DataKey.Value
  | .upgrade c, d, e => governance.leftover c d e
  | _, d, _ => d

section
variable {W ε : Type} {env : Env} {f f' : Frame DataKey.Value Event W} {e : Failure ErrorCode}
  {y : Failure ε}

theorem getProof_error {y : Failure ProofError} {id : BytesN 32} :
    getProof id env f = (.error y, f') ↔ f.entries .persistent (.proof id) = none ∧
      y = .error .proofNotFound ∧ f' = {f with toStorage := touchProof env id f.toStorage} := by
  rw [getProof_run]
  cases f.entries .persistent (.proof id) <;> simp [eq_comm]

theorem isValidProof_error {id : BytesN 32} :
    (isValidProof id : Code W ε Bool) env f ≠ (.error y, f') := by
  intro h
  simp only [isValidProof, bind_error, attempt_error, getProof_error] at h
  rcases h with ⟨_, ⟨_, hy, _⟩, _⟩ | ⟨r, _, _, h⟩
  · cases hy
  · cases r <;> simp at h

theorem isRevoked_error {id : BytesN 32} :
    (isRevoked id : Code W ε Bool) env f ≠ (.error y, f') := by
  intro h
  simp only [isRevoked, bind_error, attempt_error, getProof_error] at h
  rcases h with ⟨_, ⟨_, hy, _⟩, _⟩ | ⟨r, _, _, h⟩
  · cases hy
  · cases r <;> simp at h

/-! ### The changes, walked through -/

/-- A dependency is asked, and a call that does not come back or answers `bad` is the end. -/
theorem ends_answer {α : Type} {call : Env → W → Except Abort Bool × W} {bad : Bool} {p : Bool → Bool}
    {e : ProofError} {g : Unit → Code W ProofError α} {l : List Check}
    {Q : α → Frame DataKey.Value Event W → Prop} {d : Entries DataKey.Value}
    (hg : Ends ProofError.code (g ()) env {f with world := (call env f.world).2} l (fun _ => d) Q)
    (hp : ∀ b, p b = (b == bad) := by simp) (hd : f.entries = d := by rfl) :
    Ends ProofError.code (callContract call >>= fun b => rejectIf (p b) e >>= g) env f
      (answerChecks (call env f.world).1 bad e ++ l) (fun _ => d) Q := by
  rcases hcall : call env f.world with ⟨a | b, w⟩
  · refine .stop (callContract_error.mpr ⟨a, w, hcall, rfl, rfl⟩) ?_ hd
    simp [answerChecks]
  · rw [hcall] at hg
    exact .next (callContract_ok.mpr ⟨w, hcall, rfl⟩) (.rejectIf (fun _ => hg) (hp b).symm hd)

theorem protocolConfig_run {o : Option Address} (h : f.entries .inst .protocolConfig = o) :
    (mapErr getProtocolConfig fun _ => .proofNotFound : Code W ProofError Address) env f =
      (o.elim (.error (.error .proofNotFound)) .ok, f) := by
  subst h
  cases hcfg : f.entries .inst .protocolConfig with
  | none => exact mapErr_error.mpr ⟨.error .notInitialized, by simp [getProtocolConfig, hcfg], rfl⟩
  | some cfg => exact mapErr_ok.mpr (getProtocolConfig_ok.mpr ⟨hcfg, rfl⟩)

theorem issuerRegistry_run {o : Option Address} (h : f.entries .inst .issuerRegistry = o) :
    (mapErr getIssuerRegistry fun _ => .proofNotFound : Code W ProofError Address) env f =
      (o.elim (.error (.error .proofNotFound)) .ok, f) := by
  subst h
  cases hreg : f.entries .inst .issuerRegistry with
  | none => exact mapErr_error.mpr ⟨.error .notInitialized, by simp [getIssuerRegistry, hreg], rfl⟩
  | some reg => exact mapErr_ok.mpr (getIssuerRegistry_ok.mpr ⟨hreg, rfl⟩)

theorem registerProof_ends (clients : Clients W) (id c : BytesN 32) (a : Address) (n : UInt32)
    (e : UInt64) :
    Ends ProofError.code (registerProof clients id c a n e) env f
      (checks clients env f.entries f.world (.registerProof id c a n e)) (fun _ => f.entries)
      fun _ f' => f'.toStorage = f.toStorage.renew TTL_THRESHOLD_LEDGERS TTL_EXTEND_TO_LEDGERS
        env.minimumTtl env.sequence (.proof id) ⟨id, c, a, .active, n, e, env.timestamp, 0⟩ := by
  unfold registerProof
  simp only [checks]
  refine .rejectIf fun _ => ?_
  cases hcfg : f.entries .inst .protocolConfig with
  | none => exact .stop (protocolConfig_run hcfg) rfl rfl
  | some cfg =>
    refine .next (protocolConfig_run hcfg) ?_
    cases hreg : f.entries .inst .issuerRegistry with
    | none => exact .stop (issuerRegistry_run hreg) rfl rfl
    | some reg =>
      simp only [registerChecks, List.append_assoc, List.cons_append, List.nil_append]
      refine .next (issuerRegistry_run hreg) (.next rfl ?_)
      refine .rejectIf fun _ => .requireAuth fun _ => .rejectIf fun _ => .next rfl (.rejectIf fun _ => ?_)
      -- The dependencies see the world as the one before has left it.
      refine .next (protocolConfig_run hcfg) ?_
      refine ends_answer ?_
      refine ends_answer ?_
      refine .next (issuerRegistry_run (o := some reg) (by exact hreg)) ?_
      refine ends_answer ?_
      refine .next rfl (.rejectIf fun _ => .next rfl (.next rfl ?_))
      refine .ret (a := ()) (extendTtl_ok.mpr ⟨?_, rfl⟩) rfl
      simp

/-- Behind the signature both revocations do the same. -/
theorem setRevoked_ends (id : BytesN 32) (byAdmin : Bool) :
    Ends ProofError.code (setRevoked id byAdmin : Code W ProofError Unit) env f
      (revokeChecks env f.entries id byAdmin) (fun _ => f.entries)
      fun _ f' => ∃ r, f'.toStorage = f.toStorage.renew TTL_THRESHOLD_LEDGERS TTL_EXTEND_TO_LEDGERS
        env.minimumTtl env.sequence (.proof id) r := by
  unfold setRevoked revokeChecks
  refine .next rfl (.okOr fun r hr => ?_)
  rw [hr]
  cases byAdmin with
  | false =>
    refine .skip (.requireAuth fun _ => .rejectIf fun _ => .next rfl (.act rfl ?_))
    exact .ret (a := ()) (extendTtl_ok.mpr ⟨by simp, rfl⟩) ⟨_, rfl⟩
  | true =>
    refine ends_admin fun admin ha => ?_
    refine .requireAuth (fun _ => .rejectIf fun _ => .next rfl (.act rfl ?_)) ha
    exact .ret (a := ()) (extendTtl_ok.mpr ⟨by simp, rfl⟩) ⟨_, rfl⟩

/-- The initialization extends the instance and leaves the other entries alone. -/
theorem initializeContract_ends (clients : Clients W) (a i p : Address) :
    Ends ContractError.code (initializeContract a i p : Code W ContractError Unit) env f
      (checks clients env f.entries f.world (.initializeContract a i p)) (fun _ => f.entries)
      fun _ f' => f.InstanceExtended TTL_THRESHOLD_LEDGERS TTL_EXTEND_TO_LEDGERS env.sequence
        f'.toStorage := by
  unfold initializeContract
  refine .next (has_ok.mpr ⟨rfl, rfl⟩) (.rejectIf fun _ => .rejectIf fun _ => .block ?_)
  refine .rejectIf fun _ => .block (.next rfl (.rejectIf fun _ => .requireAuth fun _ => ?_))
  refine .act rfl (.act rfl (.act rfl (.act rfl (.ret (a := ()) rfl ?_))))
  exact ⟨fun k => by simp, by simp, by simp⟩

end

section
variable {W : Type} {clients : Clients W} {env : Env} {d d' : Entries DataKey.Value} {w w' : W}
  {v : Value} {events : List Event}

theorem Revokes.passes {id : BytesN 32} {byAdmin : Bool}
    (h : Revokes env d id byAdmin v d' events) :
    refusal (revokeChecks env d id byAdmin) = none := by
  obtain ⟨r, p, hr, hp, hs, hst, _⟩ := h
  cases byAdmin with
  | false =>
    cases hp
    simp [revokeChecks, Check.requireAuth, hr, hs, hst]
  | true =>
    have hadmin : d .inst .admin = some p := hp
    simp [revokeChecks, Check.requireAuth, hr, hadmin, hs, hst]

theorem Effect.passes {c : Call} (h : Effect clients env d w c v d' events w') :
    refusal (checks clients env d w c) = none := by
  cases c with
  | initializeContract a i p =>
    obtain ⟨_, hnone, ha, hi, hp, his, hps, hip, hs, _⟩ := h
    simp [checks, Check.requireAuth, hnone, ha, hi, hp, his, hps, hip, hs]
  | registerProof id c a n e =>
    obtain ⟨cfg, reg, w₁, w₂, hv, hcfg, hreg, hself, hac, har, hs, hn, he, hp, happ, hact, hid, _⟩ := h
    have he' : ¬ e ≤ env.timestamp := UInt64.not_le.mpr he
    simp [checks, registerChecks, answerChecks, Check.requireAuth, hv, hcfg, hreg, hself, hac, har,
      hs, hn, he', hp, happ, hact, hid]
  | revokeProof id => exact h.2.passes
  | adminRevokeProof id => exact h.2.passes
  | getProof id =>
    obtain ⟨_, r, hr, _⟩ := h
    simp [checks, hr]
  | isValidProof id => rfl
  | isRevoked id => rfl
  | getAdmin =>
    obtain ⟨_, a, ha, _⟩ := h
    simp [checks, ha]
  | getIssuerRegistry =>
    obtain ⟨_, a, ha, _⟩ := h
    simp [checks, ha]
  | getProtocolConfig =>
    obtain ⟨_, a, ha, _⟩ := h
    simp [checks, ha]
  | upgrade c => exact Governance.Effect.passes h.2

end

/-- The code of every entry point makes its checks in the order of the list. -/
theorem program_refuses {W : Type} (clients : Clients W) (c : Call) :
    Refuses (c.program clients) (fun env d w => checks clients env d w c) (leftover c) where
  error := by
    intro env f e f' h
    cases c with
    | initializeContract a i p =>
      exact (initializeContract_ends clients a i p).entry_refused h
    | registerProof id c a n t => exact (registerProof_ends clients id c a n t).entry_refused h
    | revokeProof id => exact (setRevoked_ends id false).entry_refused h
    | adminRevokeProof id => exact (setRevoked_ends id true).entry_refused h
    | getProof id =>
      simp [Call.program, entry, getProof_error] at h
      simp [checks, leftover, h]
    | isValidProof id => simp [Call.program, entry, isValidProof_error] at h
    | isRevoked id => simp [Call.program, entry, isRevoked_error] at h
    | getAdmin =>
      simp [Call.program, entry, getAdmin, EarnProof.getAdmin] at h
      simp [checks, leftover, h]
    | getIssuerRegistry =>
      simp [Call.program, entry, getIssuerRegistry] at h
      simp [checks, leftover, h]
    | getProtocolConfig =>
      simp [Call.program, entry, getProtocolConfig] at h
      simp [checks, leftover, h]
    | upgrade c =>
      rw [program_upgrade] at h
      exact (c.program_refuses governance id).error h
  ok := (program_realizes clients c).passes fun h => h.passes

end EarnProof.ProofRegistry

import EarnProof.ProofRegistry.Refusals
import EarnProof.Upgrade.Spec

/-! The proof registry as decisions on the values and on the answers of its dependencies:
the outcome of each call, and what each looks at and writes. The dependencies bear on
the checks of a registration only. -/
namespace EarnProof.ProofRegistry
open Soroban

/-- The outcome of a revocation. -/
def revoked (env : Env) (d : Entries DataKey.Value) (id : BytesN 32) :
    Outcome DataKey.Value Event Value :=
  ⟨.unit, (d .persistent (.proof id)).toList.map fun (r : ProofRecord) =>
    ⟨.persistent, .proof id, some {r with status := .revoked, revokedAt := env.timestamp}⟩, []⟩

/-- What a call that passes its checks does. -/
def outcome (env : Env) (d : Entries DataKey.Value) : Call → Outcome DataKey.Value Event Value
  | .initializeContract a i p =>
    ⟨.unit, [⟨.inst, .admin, some a⟩, ⟨.inst, .issuerRegistry, some i⟩,
      ⟨.inst, .protocolConfig, some p⟩, ⟨.inst, .contractVersion, some (1 : UInt32)⟩], []⟩
  | .registerProof id c a n e =>
    ⟨.unit, [⟨.persistent, .proof id, some ⟨id, c, a, .active, n, e, env.timestamp, 0⟩⟩], []⟩
  | .revokeProof id | .adminRevokeProof id => revoked env d id
  | .getProof id => .query ((d .persistent (.proof id)).elim .unit .proof)
  | .isValidProof id => .query (.bool (validProof d env.timestamp id))
  | .isRevoked id => .query (.bool (revokedProof d id))
  | .getAdmin => .query ((d .inst .admin).elim .unit .address)
  | .getIssuerRegistry => .query ((d .inst .issuerRegistry).elim .unit .address)
  | .getProtocolConfig => .query ((d .inst .protocolConfig).elim .unit .address)
  | .upgrade c => governance.outcome id d c

/-- The entries a call decides from, besides the answers of the dependencies. -/
def Call.seen : Call → Set (StorageClass × DataKey)
  | .initializeContract _ _ _ | .getAdmin => {(.inst, .admin)}
  | .registerProof id _ _ _ _ =>
    {(.inst, .protocolConfig), (.inst, .issuerRegistry), (.persistent, .proof id)}
  | .adminRevokeProof id => {(.inst, .admin), (.persistent, .proof id)}
  | .revokeProof id | .getProof id | .isValidProof id | .isRevoked id => {(.persistent, .proof id)}
  | .getIssuerRegistry => {(.inst, .issuerRegistry)}
  | .getProtocolConfig => {(.inst, .protocolConfig)}
  | .upgrade c => governance.seen c

/-- The entries a call may write. -/
def Call.touched : Call → Set (StorageClass × DataKey)
  | .initializeContract _ _ _ =>
    {(.inst, .admin), (.inst, .issuerRegistry), (.inst, .protocolConfig), (.inst, .contractVersion)}
  | .registerProof id _ _ _ _ | .revokeProof id | .adminRevokeProof id => {(.persistent, .proof id)}
  | .getProof _ | .isValidProof _ | .isRevoked _ | .getAdmin | .getIssuerRegistry
  | .getProtocolConfig => ∅
  | .upgrade c => governance.touched c

section
variable {W : Type} {clients : Clients W} {env : Env} {d d' : Entries DataKey.Value} {w w' : W}
  {v : Value} {events : List Event}

theorem Revokes.tells {id : BytesN 32} {byAdmin : Bool} (h : Revokes env d id byAdmin v d' events) :
    (revoked env d id).Tells d v d' events := by
  obtain ⟨r, _, hr, _, _, _, hv, hd, hevents⟩ := h
  refine ⟨hv, ?_, hevents⟩
  rw [hd, revoked, hr]
  rfl

/-- A call that returns has had its outcome. -/
theorem Effect.tells {c : Call} (h : Effect clients env d w c v d' events w') :
    (outcome env d c).Tells d v d' events := by
  cases c with
  | initializeContract a i p =>
    obtain ⟨_, _, _, _, _, _, _, _, _, hv, hd, hevents⟩ := h
    exact ⟨hv, hd, hevents⟩
  | registerProof id c a n e =>
    obtain ⟨_, _, _, _, _, _, _, _, _, _, _, _, _, _, _, _, _, hv, hd, hevents⟩ := h
    exact ⟨hv, hd, hevents⟩
  | revokeProof id => exact h.2.tells
  | adminRevokeProof id => exact h.2.tells
  | getProof id =>
    obtain ⟨_, r, hr, hv, hd, hevents⟩ := h
    refine ⟨?_, hd, hevents⟩
    rw [outcome, hr, hv]
    rfl
  | isValidProof id => exact ⟨h.2.1, h.2.2.1, h.2.2.2⟩
  | isRevoked id => exact ⟨h.2.1, h.2.2.1, h.2.2.2⟩
  | getAdmin =>
    obtain ⟨_, a, ha, hv, hd, hevents⟩ := h
    refine ⟨?_, hd, hevents⟩
    rw [outcome, ha, hv]
    rfl
  | getIssuerRegistry =>
    obtain ⟨_, a, ha, hv, hd, hevents⟩ := h
    refine ⟨?_, hd, hevents⟩
    rw [outcome, ha, hv]
    rfl
  | getProtocolConfig =>
    obtain ⟨_, a, ha, hv, hd, hevents⟩ := h
    refine ⟨?_, hd, hevents⟩
    rw [outcome, ha, hv]
    rfl
  | upgrade c => exact Governance.Effect.tells h.2

end

theorem revoked_bounded (env : Env) (id : BytesN 32) (byAdmin : Bool) {F : Set (StorageClass × DataKey)}
    (hproof : (.persistent, .proof id) ∈ F) (hadmin : byAdmin = true → (.inst, .admin) ∈ F) :
    Bounded (fun d => revokeChecks env d id byAdmin) (fun d => revoked env d id) F
      {(.persistent, .proof id)} := by
  refine ⟨fun d t h => ?_, fun d t h => ?_, fun d w hw => ?_⟩
  · cases byAdmin with
    | false => simp only [revokeChecks, h _ _ hproof, Bool.false_and, Bool.false_eq_true, if_false]
    | true => simp only [revokeChecks, h _ _ hproof, h _ _ (hadmin rfl)]
  · simp only [revoked, h _ _ hproof]
  · obtain ⟨r, _, rfl⟩ := List.mem_map.mp hw
    rfl

/-- A call decides from what it sees and is answered, and writes no more than it may. -/
theorem bounded {W : Type} (clients : Clients W) (env : Env) (w : W) (c : Call) :
    Bounded (fun d => checks clients env d w c) (fun d => outcome env d c) c.seen c.touched := by
  cases c with
  | initializeContract a i p =>
    refine ⟨fun d t h => ?_, fun _ _ _ => rfl, fun d w hw => ?_⟩
    · have hadmin : t .inst .admin = d .inst .admin := h _ _ rfl
      simp only [checks, hadmin]
    · simp only [outcome, List.mem_cons, List.not_mem_nil, or_false] at hw
      rcases hw with rfl | rfl | rfl | rfl <;> simp [Call.touched, Write.place]
  | registerProof id cm a n e =>
    refine ⟨fun d t h => ?_, fun _ _ _ => rfl, fun d w hw => ?_⟩
    · have hconfig : t .inst .protocolConfig = d .inst .protocolConfig := h _ _ (.inl rfl)
      have hissuers : t .inst .issuerRegistry = d .inst .issuerRegistry := h _ _ (.inr (.inl rfl))
      have hproof : t .persistent (.proof id) = d .persistent (.proof id) := h _ _ (.inr (.inr rfl))
      simp only [checks, registerChecks, hconfig, hissuers, hproof]
    · rw [List.mem_singleton.mp hw]
      rfl
  | revokeProof id => exact revoked_bounded env id false rfl fun h => by cases h
  | adminRevokeProof id => exact revoked_bounded env id true (.inr rfl) fun _ => .inl rfl
  | getProof id =>
    exact .lookup (fun d t h => by simp only [checks, h]) (fun d t h => by simp only [outcome, h])
      fun _ => rfl
  | isValidProof id =>
    exact .lookup (fun _ _ _ => rfl) (fun d t h => by simp only [outcome, validProof, h]) fun _ => rfl
  | isRevoked id =>
    exact .lookup (fun _ _ _ => rfl) (fun d t h => by simp only [outcome, revokedProof, h])
      fun _ => rfl
  | getAdmin =>
    exact .lookup (fun d t h => by simp only [checks, h]) (fun d t h => by simp only [outcome, h])
      fun _ => rfl
  | getIssuerRegistry =>
    exact .lookup (fun d t h => by simp only [checks, h]) (fun d t h => by simp only [outcome, h])
      fun _ => rfl
  | getProtocolConfig =>
    exact .lookup (fun d t h => by simp only [checks, h]) (fun d t h => by simp only [outcome, h])
      fun _ => rfl
  | upgrade c => exact governance.bounded id env c

/-- An invocation replies and writes as its outcome behind its checks. -/
theorem step_behind (self : Address) (i : Invocation Request) (s : Storage DataKey.Value) :
    let env : Env := {i.env with currentContract := self}
    let r := (outcome env s.entries i.call.call).behind
      (checks i.call.clients env s.entries () i.call.call)
    (machine self).reply i s = r.1 ∧ ((machine self).next i s).entries = s.entries.putAll r.2 :=
  invoke_behind (program_realizes i.call.clients i.call.call)
    (program_refuses i.call.clients i.call.call) _ fun _ _ _ _ hE => hE.tells

end EarnProof.ProofRegistry

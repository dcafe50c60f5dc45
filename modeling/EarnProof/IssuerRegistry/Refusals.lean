import EarnProof.IssuerRegistry.Effects
import EarnProof.Soroban.Walk
import EarnProof.Upgrade.Refusals

/-! Why an issuer-registry call is refused, and the storage that a change leaves. Nothing is
written before the last check. -/
namespace EarnProof.IssuerRegistry
open Soroban

/-- The checks of an admin's change to the record of `id`, which `blocked` refuses with
`error`. -/
def amendChecks (env : Env) (d : Entries DataKey.Value) (id : BytesN 32)
    (blocked : IssuerRecord → Bool) (error : IssuerError) : List Check :=
  [⟨(d .inst .admin).isNone, .error IssuerError.issuerNotFound.code⟩,
    .requireAuth env (d .inst .admin),
    ⟨(d .persistent (.issuer id)).isNone, .error IssuerError.issuerNotFound.code⟩,
    ⟨(d .persistent (.issuer id)).any blocked, .error error.code⟩]

def statusChecks (env : Env) (d : Entries DataKey.Value) (id : BytesN 32) (status : IssuerStatus) :
    List Check :=
  amendChecks env d id (fun r => r.status == .revoked && status != .revoked) .invalidTransition

/-- The checks of a call, in order. -/
def checks (env : Env) (d : Entries DataKey.Value) : Call → List Check
  | .initializeContract admin =>
    [⟨(d .inst .admin).isSome, .error ContractError.alreadyInitialized.code⟩,
      ⟨!isValidPrincipalAddress admin, .error ContractError.invalidInput.code⟩,
      .requireAuth env (some admin)]
  | .getAdmin => [⟨(d .inst .admin).isNone, .error ContractError.notInitialized.code⟩]
  | .registerIssuer id a _ =>
    [⟨(d .inst .admin).isNone, .error IssuerError.issuerNotFound.code⟩,
      ⟨!isValidPrincipalAddress a, .error IssuerError.invalidAddress.code⟩,
      .requireAuth env (d .inst .admin),
      ⟨(d .persistent (.issuer id)).isSome, .error IssuerError.issuerAlreadyRegistered.code⟩,
      ⟨(d .persistent (.addressIssuer a)).isSome,
        .error IssuerError.issuerAddressAlreadyRegistered.code⟩]
  | .updateIssuer id _ => amendChecks env d id (fun r => r.status == .revoked) .issuerRevoked
  | .suspendIssuer id => statusChecks env d id .suspended
  | .reactivateIssuer id => statusChecks env d id .active
  | .revokeIssuer id => statusChecks env d id .revoked
  | .rotateIssuerAddress id a =>
    [⟨(d .inst .admin).isNone, .error IssuerError.issuerNotFound.code⟩,
      ⟨!isValidPrincipalAddress a, .error IssuerError.invalidAddress.code⟩,
      .requireAuth env (d .inst .admin),
      ⟨(d .persistent (.issuer id)).isNone, .error IssuerError.issuerNotFound.code⟩,
      ⟨(d .persistent (.issuer id)).any fun (r : IssuerRecord) => r.status == .revoked,
        .error IssuerError.issuerRevoked.code⟩,
      ⟨(d .persistent (.issuer id)).any fun (r : IssuerRecord) => a == r.issuerAddress,
        .error IssuerError.invalidAddress.code⟩,
      ⟨(d .persistent (.addressIssuer a)).isSome,
        .error IssuerError.issuerAddressAlreadyRegistered.code⟩]
  | .getIssuer id =>
    [⟨(d .persistent (.issuer id)).isNone, .error IssuerError.issuerNotFound.code⟩]
  | .getIssuerByAddress a =>
    [⟨(d .persistent (.addressIssuer a)).isNone, .error IssuerError.issuerAddressNotFound.code⟩,
      ⟨(d .persistent (.addressIssuer a)).any fun (id : BytesN 32) =>
          (d .persistent (.issuer id)).isNone,
        .error IssuerError.issuerNotFound.code⟩]
  | .isActiveIssuer _ | .isActiveAddress _ => []
  | .upgrade c => governance.checks env d c

/-- What a refused call has made of the values. -/
def leftover : Call → Entries DataKey.Value → Failure ErrorCode → Entries DataKey.Value
  | .upgrade c, d, e => governance.leftover c d e
  | _, d, _ => d

section
variable {ε : Type} {env : Env} {f f' : Frame DataKey.Value Event Unit} {e : Failure ErrorCode}
  {y : Failure ε}

theorem getIssuer_error {y : Failure IssuerError} {id : BytesN 32} :
    getIssuer id env f = (.error y, f') ↔ f.entries .persistent (.issuer id) = none ∧
      y = .error .issuerNotFound ∧ f' = {f with toStorage := touchIssuer env id f.toStorage} := by
  rw [getIssuer_run]
  cases f.entries .persistent (.issuer id) <;> simp [eq_comm]

theorem isActiveIssuer_error {id : BytesN 32} :
    (isActiveIssuer id : Code ε Bool) env f ≠ (.error y, f') := by
  intro h
  simp only [isActiveIssuer, bind_error, attempt_error, getIssuer_error] at h
  rcases h with ⟨_, ⟨_, hy, _⟩, _⟩ | ⟨r, _, _, h⟩
  · cases hy
  · cases r <;> simp at h

theorem isActiveAddress_error {a : Address} :
    (isActiveAddress a : Code ε Bool) env f ≠ (.error y, f') := by
  cases hidx : f.entries .persistent (.addressIssuer a) <;>
    simp [isActiveAddress, hidx, isActiveIssuer_error]

/-! ### The changes, walked through -/

/-- The storage that a registration leaves. -/
def registered (env : Env) (id : BytesN 32) (a : Address) (r : IssuerRecord)
    (s : Storage DataKey.Value) : Storage DataKey.Value :=
  let found := (s.access env.minimumTtl env.sequence .persistent (.issuer id)).access env.minimumTtl
    env.sequence .persistent (.addressIssuer a)
  let written := (found.write env.minimumTtl env.sequence .persistent (.issuer id) r).write
    env.minimumTtl env.sequence .persistent (.addressIssuer a) id
  (written.extend TTL_THRESHOLD_LEDGERS TTL_EXTEND_TO_LEDGERS env.sequence (.issuer id)).extend
    TTL_THRESHOLD_LEDGERS TTL_EXTEND_TO_LEDGERS env.sequence (.addressIssuer a)

/-- The storage that a rotation from the address `old` leaves. -/
def rotated (env : Env) (id : BytesN 32) (old a : Address) (r : IssuerRecord)
    (s : Storage DataKey.Value) : Storage DataKey.Value :=
  let found := (s.access env.minimumTtl env.sequence .persistent (.issuer id)).access env.minimumTtl
    env.sequence .persistent (.addressIssuer a)
  let released := found.delete .persistent (.addressIssuer old)
  let written := (released.write env.minimumTtl env.sequence .persistent (.issuer id) r).write
    env.minimumTtl env.sequence .persistent (.addressIssuer a) id
  (written.extend TTL_THRESHOLD_LEDGERS TTL_EXTEND_TO_LEDGERS env.sequence (.issuer id)).extend
    TTL_THRESHOLD_LEDGERS TTL_EXTEND_TO_LEDGERS env.sequence (.addressIssuer a)

theorem initializeContract_ends (admin : Address) :
    Ends ContractError.code (initializeContract admin) env f
      (checks env f.entries (.initializeContract admin)) (fun _ => f.entries)
      fun _ f' => f.InstanceExtended TTL_THRESHOLD_LEDGERS TTL_EXTEND_TO_LEDGERS env.sequence
        f'.toStorage := by
  unfold initializeContract
  refine .next (has_ok.mpr ⟨rfl, rfl⟩) (.rejectIf fun _ => .rejectIf fun _ => .requireAuth fun _ => ?_)
  refine .act rfl (.act rfl (.ret (a := ()) rfl ?_))
  exact ⟨fun k => by simp, by simp, by simp⟩

theorem registerIssuer_ends (id : BytesN 32) (a : Address) (m : BytesN 32) :
    Ends IssuerError.code (registerIssuer id a m) env f
      (checks env f.entries (.registerIssuer id a m)) (fun _ => f.entries)
      fun _ f' => ∃ r, f'.toStorage = registered env id a r f.toStorage := by
  unfold registerIssuer
  refine ends_admin fun admin ha => .rejectIf fun _ => .requireAuth (fun _ => ?_) ha
  refine .next rfl (.rejectIf fun _ => .next rfl (.rejectIf (fun _ => ?_) (by simp)))
  refine .next rfl (.act rfl (.act rfl ?_))
  refine .act (extendTtl_ok.mpr ⟨by simp, rfl⟩) (.act (extendTtl_ok.mpr ⟨by simp, rfl⟩) ?_)
  exact .ret (a := ()) rfl ⟨_, rfl⟩

theorem updateIssuer_ends (id m : BytesN 32) :
    Ends IssuerError.code (updateIssuer id m) env f
      (checks env f.entries (.updateIssuer id m)) (fun _ => f.entries)
      fun _ f' => ∃ r, f'.toStorage = f.toStorage.renew TTL_THRESHOLD_LEDGERS TTL_EXTEND_TO_LEDGERS
        env.minimumTtl env.sequence (.issuer id) r := by
  unfold updateIssuer
  refine ends_admin fun admin ha => .requireAuth (fun _ => .next rfl (.okOr fun r hr => ?_)) ha
  rw [hr]
  refine .rejectIf fun _ => .next rfl (.act rfl ?_)
  exact .act (extendTtl_ok.mpr ⟨by simp, rfl⟩) (.ret (a := ()) rfl ⟨_, rfl⟩)

theorem setStatus_ends (id : BytesN 32) (status : IssuerStatus) :
    Ends IssuerError.code (setStatus id status) env f (statusChecks env f.entries id status)
      (fun _ => f.entries)
      fun _ f' => ∃ r, f'.toStorage = f.toStorage.renew TTL_THRESHOLD_LEDGERS TTL_EXTEND_TO_LEDGERS
        env.minimumTtl env.sequence (.issuer id) r := by
  unfold setStatus statusChecks amendChecks
  refine ends_admin fun admin ha => .requireAuth (fun _ => .next rfl (.okOr fun r hr => ?_)) ha
  rw [hr]
  refine .rejectIf fun _ => .next rfl (.act rfl ?_)
  exact .act (extendTtl_ok.mpr ⟨by simp, rfl⟩) (.ret (a := ()) rfl ⟨_, rfl⟩)

theorem rotateIssuerAddress_ends (id : BytesN 32) (a : Address) :
    Ends IssuerError.code (rotateIssuerAddress id a) env f
      (checks env f.entries (.rotateIssuerAddress id a)) (fun _ => f.entries)
      fun _ f' => ∃ old r, a ≠ old ∧ f'.toStorage = rotated env id old a r f.toStorage := by
  unfold rotateIssuerAddress
  simp only [checks]
  refine ends_admin fun admin ha => .rejectIf fun _ => .requireAuth (fun _ => ?_) ha
  refine .next rfl (.okOr fun r hr => ?_)
  rw [hr]
  refine .rejectIf fun _ => .rejectIf fun hne => ?_
  refine .next rfl (.rejectIf (fun _ => ?_) (by simp))
  refine .act rfl (.next rfl (.act rfl (.act rfl ?_)))
  refine .act (extendTtl_ok.mpr ⟨by simp, rfl⟩) (.act (extendTtl_ok.mpr ⟨by simp, rfl⟩) ?_)
  exact .ret (a := ()) rfl ⟨r.issuerAddress, _, by simpa using hne, rfl⟩

theorem getIssuerByAddress_ends (a : Address) :
    Ends IssuerError.code (getIssuerByAddress a) env f
      (checks env f.entries (.getIssuerByAddress a)) (fun _ => f.entries)
      fun _ f' => ∃ id, f'.toStorage =
        ((f.access env.minimumTtl env.sequence .persistent (.addressIssuer a)).access env.minimumTtl
          env.sequence .persistent (.issuer id)).extend TTL_THRESHOLD_LEDGERS TTL_EXTEND_TO_LEDGERS
            env.sequence (.addressIssuer a) := by
  unfold getIssuerByAddress
  simp only [checks]
  refine .next rfl (.okOr fun id hid => ?_)
  rw [hid]
  refine .next rfl (.okOr (fun r hr => ?_) (by simp))
  exact .act (extendTtl_ok.mpr ⟨by simp [hid], rfl⟩) (.ret rfl ⟨id, rfl⟩)

end

section
variable {env : Env} {d d' : Entries DataKey.Value} {v : Value} {events : List Event}

/-- A change to a record that goes through has passed its checks. -/
theorem Amends.passes {id : BytesN 32} {allowed : IssuerRecord → Prop}
    {change : IssuerRecord → IssuerRecord} {event : Event} {blocked : IssuerRecord → Bool}
    {error : IssuerError} (h : Amends env d id allowed change event v d' events)
    (hblocked : ∀ r, allowed r → blocked r = false) :
    refusal (amendChecks env d id blocked error) = none := by
  obtain ⟨admin, r, ha, hs, hr, hallowed, _⟩ := h
  simp [amendChecks, Check.requireAuth, ha, hs, hr, hblocked r hallowed]

theorem SetsStatus.passes {id : BytesN 32} {status : IssuerStatus}
    (h : SetsStatus env d id status v d' events) :
    refusal (statusChecks env d id status) = none :=
  Amends.passes h fun r hallowed => by
    cases hst : r.status <;> simp_all

theorem Effect.passes {c : Call} (h : Effect env d c v d' events) :
    refusal (checks env d c) = none := by
  cases c with
  | initializeContract admin =>
    obtain ⟨hnone, hvalid, hs, _⟩ := h
    simp [checks, Check.requireAuth, hnone, hvalid, hs]
  | getAdmin =>
    obtain ⟨a, ha, _⟩ := h
    simp [checks, ha]
  | registerIssuer id a m =>
    obtain ⟨admin, ha, hvalid, hs, hid, hfree, _⟩ := h
    simp [checks, Check.requireAuth, ha, hvalid, hs, hid, hfree]
  | updateIssuer id m => exact Amends.passes h fun r hr => by simpa using hr
  | suspendIssuer id => exact SetsStatus.passes h
  | reactivateIssuer id => exact SetsStatus.passes h
  | revokeIssuer id => exact SetsStatus.passes h
  | rotateIssuerAddress id a =>
    obtain ⟨admin, r, ha, hvalid, hs, hr, hst, hne, hfree, _⟩ := h
    simp [checks, Check.requireAuth, ha, hvalid, hs, hr, hst, hne, hfree]
  | getIssuer id =>
    obtain ⟨r, hr, _⟩ := h
    simp [checks, hr]
  | isActiveIssuer id => rfl
  | isActiveAddress a => rfl
  | getIssuerByAddress a =>
    obtain ⟨id, r, hid, hr, _⟩ := h
    simp [checks, hid, hr]
  | upgrade c => exact Governance.Effect.passes h

end

/-- The code of every entry point makes its checks in the order of the list. -/
theorem program_refuses (c : Call) :
    Refuses c.program (fun env d _ => checks env d c) (leftover c) where
  error := by
    intro env f e f' h
    cases c with
    | initializeContract admin => exact (initializeContract_ends admin).entry_refused h
    | getAdmin =>
      simp [Call.program, entry, getAdmin, EarnProof.getAdmin] at h
      simp [checks, leftover, h]
    | registerIssuer id a m => exact (registerIssuer_ends id a m).entry_refused h
    | updateIssuer id m => exact (updateIssuer_ends id m).entry_refused h
    | suspendIssuer id => exact (setStatus_ends id .suspended).entry_refused h
    | reactivateIssuer id => exact (setStatus_ends id .active).entry_refused h
    | revokeIssuer id => exact (setStatus_ends id .revoked).entry_refused h
    | rotateIssuerAddress id a => exact (rotateIssuerAddress_ends id a).entry_refused h
    | getIssuer id =>
      simp [Call.program, entry, getIssuer_error] at h
      simp [checks, leftover, h]
    | isActiveIssuer id => simp [Call.program, entry, isActiveIssuer_error] at h
    | isActiveAddress a => simp [Call.program, entry, isActiveAddress_error] at h
    | getIssuerByAddress a => exact (getIssuerByAddress_ends a).entry_refused h
    | upgrade c =>
      rw [program_upgrade] at h
      exact (c.program_refuses governance Event.upgrade).error h
  ok := (program_realizes c).passes fun h => h.2.passes

end EarnProof.IssuerRegistry

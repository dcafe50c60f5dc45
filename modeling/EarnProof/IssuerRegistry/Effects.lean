import EarnProof.IssuerRegistry.Contract

/-! What each issuer-registry call does to the stored values when it returns: the
contract as a table (`Effect`), the code as its realization (`program_realizes`), and
the same for an invocation (`step_cases`). -/
namespace EarnProof.IssuerRegistry
open Soroban

/-- What `is_active_issuer` answers. -/
def activeIssuer (d : Entries DataKey.Value) (id : BytesN 32) : Bool :=
  (d .persistent (.issuer id)).any fun (r : IssuerRecord) => r.status == .active

/-- What `is_active_address` answers. -/
def activeAddress (d : Entries DataKey.Value) (a : Address) : Bool :=
  (d .persistent (.addressIssuer a)).any (activeIssuer d)

/-- What an admin's change to one record does: the record `r` must be `allowed`, its
address stays, and it is stamped with the time. -/
def Amends (env : Env) (d : Entries DataKey.Value) (id : BytesN 32) (allowed : IssuerRecord → Prop)
    (change : IssuerRecord → IssuerRecord) (event : Event) (v : Value) (d' : Entries DataKey.Value)
    (events : List Event) : Prop :=
  ∃ admin r, d .inst .admin = some admin ∧ env.signed admin = true ∧
    d .persistent (.issuer id) = some r ∧ allowed r ∧ v = .unit ∧
    d' = d.put .persistent (.issuer id) (some {change r with updatedAt := env.timestamp}) ∧
    events = [event]

/-- `set_status` refuses only to leave `revoked`. -/
def SetsStatus (env : Env) (d : Entries DataKey.Value) (id : BytesN 32) (status : IssuerStatus) :
    Value → Entries DataKey.Value → List Event → Prop :=
  Amends env d id (fun r => r.status = .revoked → status = .revoked) (fun r => {r with status})
    (statusEvent id env.timestamp status)

/-- The table: what a call that returns found, answered and left. -/
def Effect (env : Env) (d : Entries DataKey.Value) :
    Call → Value → Entries DataKey.Value → List Event → Prop
  | .initializeContract admin, v, d', events =>
    d .inst .admin = none ∧ isValidPrincipalAddress admin = true ∧ env.signed admin = true ∧
      v = .unit ∧
      d' = (d.put .inst .admin (some admin)).put .inst .contractVersion (some (1 : UInt32)) ∧
      events = []
  | .getAdmin, v, d', events =>
    ∃ a, d .inst .admin = some a ∧ v = .address a ∧ d' = d ∧ events = []
  | .registerIssuer id a m, v, d', events =>
    ∃ admin, d .inst .admin = some admin ∧ isValidPrincipalAddress a = true ∧
      env.signed admin = true ∧ d .persistent (.issuer id) = none ∧
      d .persistent (.addressIssuer a) = none ∧ v = .unit ∧
      d' = (d.put .persistent (.issuer id)
        (some ⟨id, a, m, .active, env.timestamp, env.timestamp⟩)).put
          .persistent (.addressIssuer a) (some id) ∧
      events = [.issuerRegistered id a m env.timestamp]
  | .updateIssuer id m, v, d', events =>
    Amends env d id (fun r => r.status ≠ .revoked) (fun r => {r with metadataHash := m})
      (.issuerMetadataUpdated id m env.timestamp) v d' events
  | .suspendIssuer id, v, d', events => SetsStatus env d id .suspended v d' events
  | .reactivateIssuer id, v, d', events => SetsStatus env d id .active v d' events
  | .revokeIssuer id, v, d', events => SetsStatus env d id .revoked v d' events
  | .rotateIssuerAddress id a, v, d', events =>
    ∃ admin r, d .inst .admin = some admin ∧ isValidPrincipalAddress a = true ∧
      env.signed admin = true ∧ d .persistent (.issuer id) = some r ∧ r.status ≠ .revoked ∧
      a ≠ r.issuerAddress ∧ d .persistent (.addressIssuer a) = none ∧ v = .unit ∧
      d' = ((d.put .persistent (.addressIssuer r.issuerAddress) none).put .persistent (.issuer id)
        (some {r with issuerAddress := a, updatedAt := env.timestamp})).put
          .persistent (.addressIssuer a) (some id) ∧
      events = [.issuerAddressRotated id r.issuerAddress a env.timestamp]
  | .getIssuer id, v, d', events =>
    ∃ r, d .persistent (.issuer id) = some r ∧ v = .issuer r ∧ d' = d ∧ events = []
  | .isActiveIssuer id, v, d', events => v = .bool (activeIssuer d id) ∧ d' = d ∧ events = []
  | .isActiveAddress a, v, d', events => v = .bool (activeAddress d a) ∧ d' = d ∧ events = []
  | .getIssuerByAddress a, v, d', events =>
    ∃ id r, d .persistent (.addressIssuer a) = some id ∧ d .persistent (.issuer id) = some r ∧
      v = .issuer r ∧ d' = d ∧ events = []
  | .upgrade c, v, d', events => governance.Effect Event.upgrade env d c v d' events

/-! ### What the changes have found and written -/

section Changes
variable {env : Env} {d d' : Entries DataKey.Value} {v : Value} {events : List Event}

theorem Amends.writes {id : BytesN 32} {allowed : IssuerRecord → Prop}
    {change : IssuerRecord → IssuerRecord} {event : Event}
    (h : Amends env d id allowed change event v d' events) :
    ∃ r, d .persistent (.issuer id) = some r ∧ allowed r ∧ d' =
      d.put .persistent (.issuer id) (some {change r with updatedAt := env.timestamp}) := by
  obtain ⟨_, r, _, _, hr, hallowed, _, hd, _⟩ := h
  exact ⟨r, hr, hallowed, hd⟩

theorem Amends.event_eq {id : BytesN 32} {allowed : IssuerRecord → Prop}
    {change : IssuerRecord → IssuerRecord} {event : Event}
    (h : Amends env d id allowed change event v d' events) : events = [event] := by
  obtain ⟨_, _, _, _, _, _, _, _, hevents⟩ := h
  exact hevents

theorem Effect.register_writes {id : BytesN 32} {a : Address} {m : BytesN 32}
    (h : Effect env d (.registerIssuer id a m) v d' events) :
    d' = (d.put .persistent (.issuer id)
      (some ⟨id, a, m, .active, env.timestamp, env.timestamp⟩)).put
        .persistent (.addressIssuer a) (some id) := by
  obtain ⟨_, _, _, _, _, _, _, hd, _⟩ := h
  exact hd

theorem Effect.rotate_writes {id : BytesN 32} {a : Address}
    (h : Effect env d (.rotateIssuerAddress id a) v d' events) :
    ∃ r, d .persistent (.issuer id) = some r ∧ a ≠ r.issuerAddress ∧ d' =
      ((d.put .persistent (.addressIssuer r.issuerAddress) none).put .persistent (.issuer id)
        (some {r with issuerAddress := a, updatedAt := env.timestamp})).put
          .persistent (.addressIssuer a) (some id) := by
  obtain ⟨_, r, _, _, _, hr, _, hne, _, _, hd, _⟩ := h
  exact ⟨r, hr, hne, hd⟩

/-- The new address of an issuer is no issuer's yet. -/
theorem Effect.rotate_free {id : BytesN 32} {a : Address}
    (h : Effect env d (.rotateIssuerAddress id a) v d' events) :
    d .persistent (.addressIssuer a) = none := by
  obtain ⟨_, _, _, _, _, _, _, _, hfree, _⟩ := h
  exact hfree

end Changes

section Rules
variable {ε : Type} {env : Env} {f f' : Frame DataKey.Value Event Unit}

/-- `get_issuer` extends the record it found. -/
def touchIssuer (env : Env) (id : BytesN 32) (s : Storage DataKey.Value) : Storage DataKey.Value :=
  if (s.entries .persistent (.issuer id)).isSome then
    (s.access env.minimumTtl env.sequence .persistent (.issuer id)).extend
      TTL_THRESHOLD_LEDGERS TTL_EXTEND_TO_LEDGERS env.sequence (.issuer id)
  else s

@[simp] theorem entries_touchIssuer (id : BytesN 32) (s : Storage DataKey.Value) :
    (touchIssuer env id s).entries = s.entries := by
  unfold touchIssuer
  split <;> simp

/-- `get_issuer` finds the record and extends it, or fails and leaves everything alone. -/
theorem getIssuer_run (id : BytesN 32) :
    getIssuer id env f =
      (((f.entries .persistent (.issuer id)).elim (.error (.error .issuerNotFound)) .ok),
        {f with toStorage := touchIssuer env id f.toStorage}) := by
  cases hrec : f.entries .persistent (.issuer id) with
  | none => simp [getIssuer, bind, Soroban.get, okOr, hrec, touchIssuer, Storage.access]
  | some r =>
    simp [getIssuer, bind, pure, Soroban.get, okOr, hrec, touchIssuer, extendIssuerKeyTtl, extendTtl]

theorem getIssuer_ok {id : BytesN 32} {r : IssuerRecord} :
    getIssuer id env f = (.ok r, f') ↔
      f.entries .persistent (.issuer id) = some r ∧
        f' = {f with toStorage := touchIssuer env id f.toStorage} := by
  rw [getIssuer_run]
  cases f.entries .persistent (.issuer id) <;> simp [eq_comm]

theorem isActiveIssuer_ok {id : BytesN 32} {b : Bool} :
    (isActiveIssuer id : Code ε Bool) env f = (.ok b, f') ↔
      b = activeIssuer f.entries id ∧
        f' = {f with toStorage := touchIssuer env id f.toStorage} := by
  unfold isActiveIssuer activeIssuer
  exact attempt_answer_ok (getIssuer_run id) (fun _ _ => rfl) fun _ _ => rfl

/-- How `get_issuer_by_address` ends: the two failures are told apart. -/
theorem getIssuerByAddress_run (a : Address) :
    (getIssuerByAddress a env f).1 =
      (f.entries .persistent (.addressIssuer a)).elim (.error (.error .issuerAddressNotFound))
        fun id => (f.entries .persistent (.issuer id)).elim (.error (.error .issuerNotFound)) .ok := by
  cases hidx : f.entries .persistent (.addressIssuer a) with
  | none => simp [getIssuerByAddress, bind, Soroban.get, okOr, hidx]
  | some id =>
    cases hrec : f.entries .persistent (.issuer id) <;>
      simp [getIssuerByAddress, bind, pure, Soroban.get, okOr, hidx, hrec, extendAddressTtl,
        extendTtl]

/-- `is_active_address` extends the record it was led to, not the index entry. -/
def touchIndexed (env : Env) (a : Address) (s : Storage DataKey.Value) : Storage DataKey.Value :=
  match s.entries .persistent (.addressIssuer a) with
  | some id => touchIssuer env id
      (s.access env.minimumTtl env.sequence .persistent (.addressIssuer a))
  | none => s

@[simp] theorem entries_touchIndexed (a : Address) (s : Storage DataKey.Value) :
    (touchIndexed env a s).entries = s.entries := by
  unfold touchIndexed
  split <;> simp

theorem isActiveAddress_ok {a : Address} {b : Bool} :
    (isActiveAddress a : Code ε Bool) env f = (.ok b, f') ↔
      b = activeAddress f.entries a ∧
        f' = {f with toStorage := touchIndexed env a f.toStorage} := by
  cases hidx : f.entries .persistent (.addressIssuer a) with
  | none => simp [isActiveAddress, activeAddress, touchIndexed, hidx, Storage.access]
  | some id => simp [isActiveAddress, activeAddress, touchIndexed, hidx, isActiveIssuer_ok]

end Rules

/-! ### The code realizes the table -/

theorem updateIssuer_realizes (id m : BytesN 32) :
    Realizes (entry IssuerError.code (fun _ => Value.unit) (updateIssuer id m))
      (fun env d w v d' events w' => w' = w ∧
        Amends env d id (fun r => r.status ≠ .revoked) (fun r => {r with metadataHash := m})
          (.issuerMetadataUpdated id m env.timestamp) v d' events) := by
  intro env f v d' events w'
  simp [updateIssuer, getAdmin, extendIssuerKeyTtl, Amends, and_assoc]

theorem setStatus_realizes (id : BytesN 32) (status : IssuerStatus) :
    Realizes (entry IssuerError.code (fun _ => Value.unit) (setStatus id status))
      (fun env d w v d' events w' => w' = w ∧ SetsStatus env d id status v d' events) := by
  intro env f v d' events w'
  simp [setStatus, getAdmin, extendIssuerKeyTtl, SetsStatus, Amends, and_assoc]

/-- The code of every entry point does what the table says, whatever the lifetimes. -/
theorem program_realizes (c : Call) :
    Realizes c.program (fun env d w v d' events w' => w' = w ∧ Effect env d c v d' events) := by
  cases c with
  | initializeContract admin =>
    intro env f v d' events w'
    simp [Call.program, initializeContract, requireValidAdmin, extendInstance, Effect, and_assoc]
  | getAdmin =>
    intro env f v d' events w'
    simp [Call.program, getAdmin, Effect, and_assoc]
  | registerIssuer id a m =>
    intro env f v d' events w'
    simp [Call.program, registerIssuer, getAdmin, requireValidIssuerAddress, extendIssuerTtl,
      extendIssuerKeyTtl, extendAddressTtl, Effect, and_assoc]
  | updateIssuer id m => exact updateIssuer_realizes id m
  | suspendIssuer id => exact setStatus_realizes id .suspended
  | reactivateIssuer id => exact setStatus_realizes id .active
  | revokeIssuer id => exact setStatus_realizes id .revoked
  | rotateIssuerAddress id a =>
    intro env f v d' events w'
    simp [Call.program, rotateIssuerAddress, getAdmin, requireValidIssuerAddress,
      extendIssuerKeyTtl, extendAddressTtl, Effect, and_assoc]
  | getIssuer id =>
    intro env f v d' events w'
    simp [Call.program, getIssuer_ok, Effect, and_assoc]
  | isActiveIssuer id =>
    intro env f v d' events w'
    simp [Call.program, isActiveIssuer_ok, Effect, and_assoc]
  | isActiveAddress a =>
    intro env f v d' events w'
    simp [Call.program, isActiveAddress_ok, Effect, and_assoc]
  | getIssuerByAddress a =>
    intro env f v d' events w'
    cases hidx : f.entries .persistent (.addressIssuer a) <;>
      simp [Call.program, getIssuerByAddress, extendAddressTtl, Effect, and_assoc, hidx]
  | upgrade c =>
    rw [program_upgrade]
    exact c.program_realizes governance Event.upgrade

/-- An invocation has the effect of its call, or fails because the call has none here,
and then changes nothing. -/
theorem step_cases (self : Address) (i : Invocation Call) (s : Storage DataKey.Value) :
    (∃ v, ((machine self).reply i s).outcome = .ok v ∧
      Effect {i.env with currentContract := self} s.entries i.call v
        ((machine self).next i s).entries ((machine self).reply i s).events) ∨
    (∃ e, (machine self).reply i s = ⟨.error e, []⟩ ∧ (machine self).next i s = s ∧
      ∀ v d' events, ¬ Effect {i.env with currentContract := self} s.entries i.call v d' events) :=
  contractAt_cases program_realizes self i s

end EarnProof.IssuerRegistry

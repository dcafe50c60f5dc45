import EarnProof.ProtocolConfig.Contract

/-! What each protocol-config call does to the stored values when it returns.

`Effect` is the contract as a table: for each entry point, what it requires, what it
returns, what it writes and what it publishes. `program_realizes` says the code does
exactly this, and `step_cases` carries it to an invocation: either the effect of the
call, or a failure that changes nothing and happens only where the table allows no
effect. -/
namespace EarnProof.ProtocolConfig
open Soroban

/-- The stored configuration counter, zero before initialization. -/
def configVersion (d : Entries DataKey.Value) : UInt32 := (d .inst .configVersion).getD 0

/-- What an admin's configuration change does: write one entry and advance the counter. -/
def Configures (env : Env) (d : Entries DataKey.Value) (c : StorageClass) (k : DataKey) (x : k.Value)
    (event : Event) (v : Value) (d' : Entries DataKey.Value) (events : List Event) : Prop :=
  ∃ admin n, d .inst .admin = some admin ∧ env.signed admin = true ∧
    checkedAdd (configVersion d) 1 = some n ∧ v = .unit ∧
    d' = (d.put c k (some x)).put .inst .configVersion (some n) ∧ events = [event]

/-- The table: what a call that returns found, answered and left. -/
def Effect (env : Env) (d : Entries DataKey.Value) :
    Call → Value → Entries DataKey.Value → List Event → Prop
  | .initializeContract admin, v, d', events =>
    d .inst .admin = none ∧ isValidPrincipalAddress admin = true ∧ env.signed admin = true ∧
      v = .unit ∧
      d' = (((d.put .inst .admin (some admin)).put .inst .paused (some false)).put
        .inst .configVersion (some (1 : UInt32))).put .inst .contractVersion (some (1 : UInt32)) ∧
      events = [.initialized admin]
  | .getAdmin, v, d', events =>
    ∃ a, d .inst .admin = some a ∧ v = .address a ∧ d' = d ∧ events = []
  | .setAdmin a, v, d', events =>
    isValidPrincipalAddress a = true ∧ Configures env d .inst .admin a (.adminChanged a) v d' events
  | .isPaused, v, d', events =>
    v = .bool ((d .inst .paused).getD false) ∧ d' = d ∧ events = []
  | .pause, v, d', events => Configures env d .inst .paused true (.paused true) v d' events
  | .unpause, v, d', events => Configures env d .inst .paused false (.unpaused false) v d' events
  | .approveSchemaVersion n, v, d', events =>
    n ≠ 0 ∧ Configures env d .persistent (.schemaVersion n) true (.schemaApproved n) v d' events
  | .deprecateSchemaVersion n, v, d', events =>
    n ≠ 0 ∧ Configures env d .persistent (.schemaVersion n) false (.schemaDeprecated n) v d' events
  | .isSchemaVersionApproved n, v, d', events =>
    v = .bool (n != 0 && (d .persistent (.schemaVersion n)).getD false) ∧ d' = d ∧ events = []
  | .getConfigVersion, v, d', events => v = .u32 (configVersion d) ∧ d' = d ∧ events = []
  | .upgrade c, v, d', events => governance.Effect Event.upgrade env d c v d' events

/-- A configuration change writes its value and the next count. -/
theorem Configures.writes {env : Env} {d d' : Entries DataKey.Value} {c : StorageClass} {k : DataKey}
    {x : k.Value} {event : Event} {v : Value} {events : List Event}
    (h : Configures env d c k x event v d' events) : ∃ n, checkedAdd (configVersion d) 1 = some n ∧
      d' = (d.put c k (some x)).put .inst .configVersion (some n) := by
  obtain ⟨_, n, _, _, hn, _, hd, _⟩ := h
  exact ⟨n, hn, hd⟩

theorem Configures.event_eq {env : Env} {d d' : Entries DataKey.Value} {c : StorageClass}
    {k : DataKey} {x : k.Value} {event : Event} {v : Value} {events : List Event}
    (h : Configures env d c k x event v d' events) : events = [event] := by
  obtain ⟨_, _, _, _, _, _, _, hevents⟩ := h
  exact hevents

section Rules
variable {ε : Type} {env : Env} {f f' : Frame DataKey.Value Event Unit}

@[simp] theorem getConfigVersion_ok {n : UInt32} :
    (getConfigVersion : Code ε UInt32) env f = (.ok n, f') ↔
      n = configVersion f.entries ∧ f' = f := by
  simp [getConfigVersion, configVersion, and_assoc]

@[simp] theorem bumpConfigVersion_ok {u : Unit} :
    (bumpConfigVersion : Code ε Unit) env f = (.ok u, f') ↔
      ∃ n, checkedAdd (configVersion f.entries) 1 = some n ∧
        f' = {f with
          entries := f.entries.put .inst .configVersion (some n)
          instanceUntil := extendUntil TTL_THRESHOLD_LEDGERS TTL_EXTEND_TO_LEDGERS env.sequence
            f.instanceUntil } := by
  simp [bumpConfigVersion, extendInstance, Storage.extendInstance, and_assoc]

/-- The lifetime of a schema flag after `is_schema_version_approved`: extended when the
flag exists. -/
def touchSchema (env : Env) (n : UInt32) (s : Storage DataKey.Value) : Storage DataKey.Value :=
  if n ≠ 0 ∧ (s.entries .persistent (.schemaVersion n)).isSome then
    ((s.access env.minimumTtl env.sequence .persistent (.schemaVersion n)).access
      env.minimumTtl env.sequence .persistent (.schemaVersion n)).extend
        TTL_THRESHOLD_LEDGERS TTL_EXTEND_TO_LEDGERS env.sequence (.schemaVersion n)
  else s

@[simp] theorem entries_touchSchema (n : UInt32) (s : Storage DataKey.Value) :
    (touchSchema env n s).entries = s.entries := by
  unfold touchSchema
  split <;> simp

theorem isSchemaVersionApproved_ok {n : UInt32} {b : Bool} :
    (isSchemaVersionApproved n : Code ε Bool) env f = (.ok b, f') ↔
      b = (n != 0 && (f.entries .persistent (.schemaVersion n)).getD false) ∧
        f' = {f with toStorage := touchSchema env n f.toStorage} := by
  by_cases hn : n = 0
  · simp [isSchemaVersionApproved, touchSchema, hn]
  · cases hflag : f.entries .persistent (.schemaVersion n) with
    | none =>
      simp [isSchemaVersionApproved, touchSchema, hn, hflag, Storage.access, and_assoc]
    | some flag =>
      have hne : (n != 0) = true := by simpa using hn
      simp [isSchemaVersionApproved, touchSchema, hn, hne, hflag, and_assoc]

end Rules

/-! ### The code realizes the table -/

theorem setPaused_realizes (flag : Bool) (event : Event) :
    Realizes (entry ContractError.code (fun _ => Value.unit) (setPaused flag event))
      (fun env d w v d' events w' =>
        w' = w ∧ Configures env d .inst .paused flag event v d' events) := by
  intro env f v d' events w'
  simp [setPaused, getAdmin, Configures, configVersion, and_assoc]

theorem setSchemaVersion_realizes (n : UInt32) (flag : Bool) (event : Event) :
    Realizes (entry ContractError.code (fun _ => Value.unit) (setSchemaVersion n flag event))
      (fun env d w v d' events w' => w' = w ∧ n ≠ 0 ∧
        Configures env d .persistent (.schemaVersion n) flag event v d' events) := by
  intro env f v d' events w'
  simp [setSchemaVersion, getAdmin, ensureNonzeroVersion, extendSchemaTtl, Configures,
    configVersion, and_assoc]
  constructor
  · rintro ⟨admin, ha, hs, hn, m, h⟩
    exact ⟨hn, admin, ha, hs, m, h⟩
  · rintro ⟨hn, admin, ha, hs, m, h⟩
    exact ⟨admin, ha, hs, hn, m, h⟩

theorem setAdmin_realizes (a : Address) :
    Realizes (entry ContractError.code (fun _ => Value.unit) (setAdmin a))
      (fun env d w v d' events w' => w' = w ∧ isValidPrincipalAddress a = true ∧
        Configures env d .inst .admin a (.adminChanged a) v d' events) := by
  intro env f v d' events w'
  simp [setAdmin, getAdmin, requireValidPrincipal, Configures, configVersion, and_assoc]
  constructor
  · rintro ⟨admin, ha, hv, hs, m, h⟩
    exact ⟨hv, admin, ha, hs, m, h⟩
  · rintro ⟨hv, admin, ha, hs, m, h⟩
    exact ⟨admin, ha, hv, hs, m, h⟩

/-- The code of every entry point does what the table says, whatever the lifetimes. -/
theorem program_realizes (c : Call) :
    Realizes c.program (fun env d w v d' events w' => w' = w ∧ Effect env d c v d' events) := by
  cases c with
  | initializeContract admin =>
    intro env f v d' events w'
    simp [Call.program, initializeContract, requireValidPrincipal, extendInstance, Effect,
      and_assoc]
  | getAdmin =>
    intro env f v d' events w'
    simp [Call.program, getAdmin, Effect, and_assoc]
  | setAdmin a => exact setAdmin_realizes a
  | isPaused =>
    intro env f v d' events w'
    simp [Call.program, isPaused, Effect, and_assoc]
  | pause => exact setPaused_realizes true (.paused true)
  | unpause => exact setPaused_realizes false (.unpaused false)
  | approveSchemaVersion n => exact setSchemaVersion_realizes n true (.schemaApproved n)
  | deprecateSchemaVersion n => exact setSchemaVersion_realizes n false (.schemaDeprecated n)
  | isSchemaVersionApproved n =>
    intro env f v d' events w'
    simp only [Call.program, entry_ok, isSchemaVersionApproved_ok, Effect]
    simp
  | getConfigVersion =>
    intro env f v d' events w'
    simp [Call.program, Effect, and_assoc]
  | upgrade c =>
    rw [program_upgrade]
    exact c.program_realizes governance Event.upgrade

/-- An invocation has the effect of its call, or fails because the call has none here,
and then changes nothing. -/
theorem step_cases (self : Address) (i : Invocation Call) (s : Storage DataKey.Value) :
    (∃ v, ((machine self).reply i s).outcome = .ok v ∧
      Effect {i.env with currentContract := self} s.entries i.call v
        ((machine self).next i s).entries ((machine self).reply i s).events) ∨
    (∃ e, (machine self).reply i s = ⟨.error e, []⟩ ∧ (machine self).next i s = s ∧
      ∀ v d' events, ¬ Effect {i.env with currentContract := self} s.entries i.call v d' events) :=
  contractAt_cases program_realizes self i s

end EarnProof.ProtocolConfig

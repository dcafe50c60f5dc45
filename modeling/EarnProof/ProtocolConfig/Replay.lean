import EarnProof.Abstract.LastWrite
import EarnProof.ProtocolConfig.Effects

/-! Rebuilding the protocol configuration from its events. -/
namespace EarnProof.ProtocolConfig
open Soroban

/-- What an indexer keeps: the admin, the pause flag and the flag of every schema
version. -/
@[ext] structure View where
  admin : Option Address
  paused : Option Bool
  schema : UInt32 → Option Bool

def View.empty : View := ⟨none, none, fun _ => none⟩

/-- What an indexer does with an event. -/
def View.apply (x : View) : Event → View
  | .initialized a => {x with admin := some a, paused := some false}
  | .adminChanged a => {x with admin := some a}
  | .paused b => {x with paused := some b}
  | .unpaused b => {x with paused := some b}
  | .schemaApproved n => {x with schema := Function.update x.schema n (some true)}
  | .schemaDeprecated n => {x with schema := Function.update x.schema n (some false)}
  | .upgrade _ => x

/-- The stored part of the view. -/
def view (d : Entries DataKey.Value) : View where
  admin := d .inst .admin
  paused := d .inst .paused
  schema := fun n => d .persistent (.schemaVersion n)

section
variable {env : Env} {d d' : Entries DataKey.Value} {v : Value} {events : List Event}

/-- Writing the counter, the contract version or the allowlist leaves the view alone. -/
theorem view_put_inst {k : DataKey} (o : Option k.Value) (ha : k ≠ .admin) (hp : k ≠ .paused) :
    view (d.put .inst k o) = view d := by
  ext n <;> simp [view, Ne.symm ha, Ne.symm hp]

theorem Configures.view {c : StorageClass} {k : DataKey} {x : k.Value} {event : Event}
    (h : Configures env d c k x event v d' events)
    (hview : view (d.put c k (some x)) = (view d).apply event) :
    view d' = events.foldl View.apply (view d) := by
  obtain ⟨_, n, _, _, _, _, rfl, rfl⟩ := h
  rw [view_put_inst _ (by simp) (by simp)]
  exact hview

theorem view_put_schemaVersion (n : UInt32) (b : Bool) :
    view (d.put .persistent (.schemaVersion n) (some b)) =
      {view d with schema := Function.update (view d).schema n (some b)} := by
  ext m
  · simp [view]
  · simp [view]
  · by_cases h : m = n
    · subst h
      simp [view]
    · simp [view, h]

theorem Effect.view {c : Call} (h : Effect env d c v d' events) :
    view d' = events.foldl View.apply (view d) := by
  cases c with
  | initializeContract admin =>
    obtain ⟨_, _, _, _, rfl, rfl⟩ := h
    rw [view_put_inst _ (by simp) (by simp), view_put_inst _ (by simp) (by simp)]
    ext <;> simp [ProtocolConfig.view, View.apply]
  | setAdmin a => exact Configures.view h.2 (by ext <;> simp [ProtocolConfig.view, View.apply])
  | pause => exact Configures.view h (by ext <;> simp [ProtocolConfig.view, View.apply])
  | unpause => exact Configures.view h (by ext <;> simp [ProtocolConfig.view, View.apply])
  | approveSchemaVersion n => exact Configures.view h.2 (view_put_schemaVersion n true)
  | deprecateSchemaVersion n => exact Configures.view h.2 (view_put_schemaVersion n false)
  | getAdmin =>
    obtain ⟨_, _, _, rfl, rfl⟩ := h
    rfl
  | isPaused =>
    obtain ⟨_, rfl, rfl⟩ := h
    rfl
  | isSchemaVersionApproved n =>
    obtain ⟨_, rfl, rfl⟩ := h
    rfl
  | getConfigVersion =>
    obtain ⟨_, rfl, rfl⟩ := h
    rfl
  | upgrade c =>
    rw [Governance.Effect.foldl h fun _ _ => rfl]
    have hadmin : d' .inst .admin = d .inst .admin :=
      Governance.Effect.frame h (by simp [governance])
    have hpaused : d' .inst .paused = d .inst .paused :=
      Governance.Effect.frame h (by simp [governance])
    have hschema : ∀ n, d' .persistent (.schemaVersion n) = d .persistent (.schemaVersion n) :=
      fun n => Governance.Effect.frame h (by simp)
    simp only [ProtocolConfig.view, hadmin, hpaused, hschema]

end

/-- After every run the indexer's view of the log is the stored one. -/
theorem run_view (self : Address) (is : List (Invocation Call)) :
    view ((machine self).run Storage.empty is).entries =
      (log ((machine self).history Storage.empty is)).foldl View.apply View.empty :=
  contractAt_replay program_realizes view View.apply
    (fun _ _ _ _ _ _ hE => hE.view) self Storage.empty is

/-! ### Which calls publish -/

/-- The calls that change the configuration or the allowlist. -/
def Call.mutates : Call → Bool
  | .initializeContract _ | .setAdmin _ | .pause | .unpause | .approveSchemaVersion _
  | .deprecateSchemaVersion _ => true
  | .getAdmin | .isPaused | .isSchemaVersionApproved _ | .getConfigVersion => false
  | .upgrade c => c.mutates

section
variable {env : Env} {d d' : Entries DataKey.Value} {v : Value} {events : List Event} {c : Call}

theorem Configures.publishes {k : DataKey} {cl : StorageClass} {x : k.Value} {event : Event}
    (h : Configures env d cl k x event v d' events) : events.length = 1 :=
  congrArg List.length h.event_eq

theorem Effect.publishes (h : Effect env d c v d' events) (hc : c.mutates = true) :
    events.length = 1 := by
  cases c with
  | initializeContract admin =>
    obtain ⟨_, _, _, _, _, rfl⟩ := h
    rfl
  | setAdmin a => exact Configures.publishes h.2
  | pause => exact Configures.publishes h
  | unpause => exact Configures.publishes h
  | approveSchemaVersion n => exact Configures.publishes h.2
  | deprecateSchemaVersion n => exact Configures.publishes h.2
  | upgrade c =>
    obtain ⟨e, rfl⟩ := Governance.Effect.publishes h hc
    rfl
  | _ => cases hc

theorem Effect.query (h : Effect env d c v d' events) (hc : c.mutates = false) :
    d' = d ∧ events = [] := by
  cases c with
  | getAdmin =>
    obtain ⟨_, _, _, hd, hev⟩ := h
    exact ⟨hd, hev⟩
  | isPaused => exact h.2
  | isSchemaVersionApproved n => exact h.2
  | getConfigVersion => exact h.2
  | upgrade c => exact Governance.Effect.query h hc
  | _ => cases hc

end

/-! ### Schema versions -/

/-- The schema flag an event announces. -/
def schemaWrite : Event → Option (UInt32 × Option Bool)
  | .schemaApproved n => some (n, some true)
  | .schemaDeprecated n => some (n, some false)
  | _ => none

theorem foldl_schema (events : List Event) (x : View) :
    (events.foldl View.apply x).schema = LastWrite.apply x.schema (events.filterMap schemaWrite) := by
  induction events generalizing x with
  | nil => rfl
  | cons e rest ih =>
    rw [List.foldl_cons, ih]
    cases e <;> rfl

/-- No call gives schema version zero a flag. -/
theorem Effect.schema_zero {env : Env} {d d' : Entries DataKey.Value} {c : Call} {v : Value}
    {events : List Event} (hE : Effect env d c v d' events)
    (hd : d .persistent (.schemaVersion 0) = none) : d' .persistent (.schemaVersion 0) = none := by
  have hview : (ProtocolConfig.view d').schema 0 = (events.foldl View.apply (ProtocolConfig.view d)).schema 0 :=
    congrArg (fun x => x.schema 0) hE.view
  show (ProtocolConfig.view d').schema 0 = none
  rw [hview]
  have hd0 : (ProtocolConfig.view d).schema 0 = none := hd
  cases c with
  | approveSchemaVersion n =>
    obtain ⟨hn, hC⟩ := hE
    rw [hC.event_eq]
    simpa [View.apply, Function.update_of_ne (Ne.symm hn)] using hd0
  | deprecateSchemaVersion n =>
    obtain ⟨hn, hC⟩ := hE
    rw [hC.event_eq]
    simpa [View.apply, Function.update_of_ne (Ne.symm hn)] using hd0
  | initializeContract admin =>
    obtain ⟨_, _, _, _, _, rfl⟩ := hE
    exact hd0
  | setAdmin a =>
    rw [hE.2.event_eq]
    exact hd0
  | pause =>
    rw [Configures.event_eq hE]
    exact hd0
  | unpause =>
    rw [Configures.event_eq hE]
    exact hd0
  | upgrade c =>
    rw [Governance.Effect.foldl hE fun _ _ => rfl]
    exact hd0
  | _ =>
    rw [(Effect.query hE rfl).2]
    exact hd0

theorem run_schema_zero (self : Address) (is : List (Invocation Call)) :
    ((machine self).run Storage.empty is).entries .persistent (.schemaVersion 0) = none :=
  contractAt_invariant program_realizes (fun d => d .persistent (.schemaVersion 0) = none)
    (fun _ _ _ _ _ _ hE hd => hE.schema_zero hd) self rfl is

theorem isSchemaVersionApproved_outcome (self : Address) (env : Env) (s : Storage DataKey.Value)
    (n : UInt32) :
    ((machine self).reply ⟨.isSchemaVersionApproved n, env⟩ s).outcome =
      .ok (.bool (n != 0 && (s.entries .persistent (.schemaVersion n)).getD false)) := by
  have hE : Effect {env with currentContract := self} s.entries (.isSchemaVersionApproved n)
      (.bool (n != 0 && (s.entries .persistent (.schemaVersion n)).getD false)) s.entries [] :=
    ⟨rfl, rfl, rfl⟩
  exact contractAt_outcome program_realizes hE

/-- A schema version is approved when the last event about it approves it. -/
theorem approved_iff_last (self : Address) (is : List (Invocation Call)) (env : Env) (n : UInt32) :
    ((machine self).reply ⟨.isSchemaVersionApproved n, env⟩
        ((machine self).run Storage.empty is)).outcome = .ok (.bool true) ↔
      LastWrite.last n ((log ((machine self).history Storage.empty is)).filterMap schemaWrite) =
        some (some true) := by
  have hview := congrArg View.schema (run_view self is)
  rw [foldl_schema] at hview
  have hflag : ∀ n, ((machine self).run Storage.empty is).entries .persistent (.schemaVersion n) =
      (LastWrite.last n
        ((log ((machine self).history Storage.empty is)).filterMap schemaWrite)).getD none :=
    fun n => (congrFun hview n).trans (LastWrite.apply_eq_last _ _ _)
  have hzero := run_schema_zero self is
  rw [isSchemaVersionApproved_outcome]
  by_cases hn : n = 0
  · subst hn
    rw [hflag] at hzero
    simp only [bne_self_eq_false, Bool.false_and, Except.ok.injEq, Value.bool.injEq,
      Bool.false_eq_true, false_iff]
    intro h
    rw [h] at hzero
    cases hzero
  · have hne : (n != 0) = true := by simpa using hn
    rw [hne, hflag, Bool.true_and]
    rcases LastWrite.last n _ with _ | _ | b <;> simp

end EarnProof.ProtocolConfig

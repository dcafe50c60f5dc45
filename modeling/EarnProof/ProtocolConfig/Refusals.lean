import EarnProof.ProtocolConfig.Effects
import EarnProof.Soroban.Walk
import EarnProof.Upgrade.Refusals

/-! Why a protocol-config call is refused, and the storage that a change leaves. -/
namespace EarnProof.ProtocolConfig
open Soroban

/-- The checks of an admin's configuration change around `own`, the checks of its
arguments: the counter is advanced last. -/
def configureChecks (env : Env) (d : Entries DataKey.Value) (before after : List Check) : List Check :=
  ⟨(d .inst .admin).isNone, .error ContractError.notInitialized.code⟩ ::
    (before ++ .requireAuth env (d .inst .admin) :: after ++
      [⟨(checkedAdd (configVersion d) 1).isNone,
        .abort (.panic "config version overflow: reached maximum")⟩])

/-- The checks of a call, in order. -/
def checks (env : Env) (d : Entries DataKey.Value) : Call → List Check
  | .initializeContract admin =>
    [⟨(d .inst .admin).isSome, .error ContractError.alreadyInitialized.code⟩,
      ⟨!isValidPrincipalAddress admin, .error ContractError.invalidInput.code⟩,
      .requireAuth env (some admin)]
  | .getAdmin => [⟨(d .inst .admin).isNone, .error ContractError.notInitialized.code⟩]
  | .setAdmin a =>
    configureChecks env d
      [⟨!isValidPrincipalAddress a, .error ContractError.invalidInput.code⟩] []
  | .pause | .unpause => configureChecks env d [] []
  | .approveSchemaVersion n | .deprecateSchemaVersion n =>
    configureChecks env d [] [⟨n == 0, .error ContractError.invalidInput.code⟩]
  | .isPaused | .isSchemaVersionApproved _ | .getConfigVersion => []
  | .upgrade c => governance.checks env d c

/-- The values after a refused configuration change: it has `written` its new value when
the counter overflows, and nothing before. -/
def overflowed (d written : Entries DataKey.Value) : Failure ErrorCode → Entries DataKey.Value
  | .abort (.panic _) => written
  | _ => d

/-- What a refused call has made of the values. -/
def leftover : Call → Entries DataKey.Value → Failure ErrorCode → Entries DataKey.Value
  | .setAdmin a, d, e => overflowed d (d.put .inst .admin (some a)) e
  | .pause, d, e => overflowed d (d.put .inst .paused (some true)) e
  | .unpause, d, e => overflowed d (d.put .inst .paused (some false)) e
  | .approveSchemaVersion n, d, e =>
    overflowed d (d.put .persistent (.schemaVersion n) (some true)) e
  | .deprecateSchemaVersion n, d, e =>
    overflowed d (d.put .persistent (.schemaVersion n) (some false)) e
  | .upgrade c, d, e => governance.leftover c d e
  | .initializeContract _, d, _ | .getAdmin, d, _ | .isPaused, d, _
  | .isSchemaVersionApproved _, d, _ | .getConfigVersion, d, _ => d

section
variable {env : Env} {f f' : Frame DataKey.Value Event Unit} {e : Failure ErrorCode}

theorem isSchemaVersionApproved_error {ε : Type} {y : Failure ε} {n : UInt32} :
    (isSchemaVersionApproved n : Code ε Bool) env f ≠ (.error y, f') := by
  unfold isSchemaVersionApproved
  split
  · simp
  · cases hflag : f.entries .persistent (.schemaVersion n) <;> simp [hflag]

/-! ### The changes, walked through -/

/-- The storage with a schema flag that was set and extended, before the change is counted. -/
def flagged (env : Env) (n : UInt32) (flag : Bool) (s : Storage DataKey.Value) :
    Storage DataKey.Value :=
  (s.write env.minimumTtl env.sequence .persistent (.schemaVersion n) flag).extend
    TTL_THRESHOLD_LEDGERS TTL_EXTEND_TO_LEDGERS env.sequence (.schemaVersion n)

theorem initializeContract_ends (admin : Address) :
    Ends ContractError.code (initializeContract admin) env f
      (checks env f.entries (.initializeContract admin)) (fun _ => f.entries)
      fun _ f' => f.InstanceExtended TTL_THRESHOLD_LEDGERS TTL_EXTEND_TO_LEDGERS env.sequence
        f'.toStorage := by
  unfold initializeContract
  refine .next (has_ok.mpr ⟨rfl, rfl⟩) (.rejectIf fun _ => .rejectIf fun _ => .requireAuth fun _ => ?_)
  refine .act rfl (.act rfl (.act rfl (.act rfl (.act rfl (.ret (a := ()) rfl ?_)))))
  exact ⟨fun k => by simp, by simp, by simp⟩

/-- The counter is advanced behind the new value `written`, which stays when that fails. -/
theorem ends_bump {d written : Entries DataKey.Value} {event : Event}
    {Q : Unit → Frame DataKey.Value Event Unit → Prop}
    (hd : configVersion f.entries = configVersion d) (hwritten : f.entries = written)
    (hQ : ∀ f', f.InstanceExtended TTL_THRESHOLD_LEDGERS TTL_EXTEND_TO_LEDGERS env.sequence
      f'.toStorage → Q () f') :
    Ends ContractError.code (bumpConfigVersion >>= fun _ => publish event) env f
      [⟨(checkedAdd (configVersion d) 1).isNone,
        .abort (.panic "config version overflow: reached maximum")⟩] (overflowed d written) Q := by
  unfold bumpConfigVersion
  refine .block (.next (getConfigVersion_ok.mpr ⟨rfl, rfl⟩) (.block ?_))
  refine .expect (fun n hn => ?_) (by rw [hd]) hwritten
  refine .block (.act rfl (.act rfl (.ret (a := ()) rfl (hQ _ ?_))))
  exact ⟨fun k => by simp, by simp, by simp⟩

theorem setAdmin_ends (a : Address) :
    Ends ContractError.code (setAdmin a) env f (checks env f.entries (.setAdmin a))
      (leftover (.setAdmin a) f.entries)
      fun _ f' => f.InstanceExtended TTL_THRESHOLD_LEDGERS TTL_EXTEND_TO_LEDGERS env.sequence
        f'.toStorage := by
  unfold setAdmin
  refine .lookup (.error ContractError.notInitialized) (getAdmin_run rfl) (fun admin ha => ?_) rfl rfl
  refine .rejectIf fun _ => .requireAuth (fun _ => ?_) ha
  exact .act rfl (ends_bump (by simp [configVersion]) (by simp) fun f' h => h.of_write)

theorem setPaused_ends (flag : Bool) (event : Event) :
    Ends ContractError.code (setPaused flag event) env f (configureChecks env f.entries [] [])
      (overflowed f.entries (f.entries.put .inst .paused (some flag)))
      fun _ f' => f.InstanceExtended TTL_THRESHOLD_LEDGERS TTL_EXTEND_TO_LEDGERS env.sequence
        f'.toStorage := by
  unfold setPaused
  refine .lookup (.error ContractError.notInitialized) (getAdmin_run rfl) (fun admin ha => ?_) rfl rfl
  refine .requireAuth (fun _ => ?_) ha
  exact .act rfl (ends_bump (by simp [configVersion]) (by simp) fun f' h => h.of_write)

theorem setSchemaVersion_ends (n : UInt32) (flag : Bool) (event : Event) :
    Ends ContractError.code (setSchemaVersion n flag event) env f
      (configureChecks env f.entries [] [⟨n == 0, .error ContractError.invalidInput.code⟩])
      (overflowed f.entries (f.entries.put .persistent (.schemaVersion n) (some flag)))
      fun _ f' => (flagged env n flag f.toStorage).InstanceExtended TTL_THRESHOLD_LEDGERS
        TTL_EXTEND_TO_LEDGERS env.sequence f'.toStorage := by
  unfold setSchemaVersion
  refine .lookup (.error ContractError.notInitialized) (getAdmin_run rfl) (fun admin ha => ?_) rfl rfl
  refine .requireAuth (fun _ => .rejectIf fun _ => .act rfl ?_) ha
  refine .act (extendTtl_ok.mpr ⟨by simp, rfl⟩) ?_
  exact ends_bump (by simp [configVersion]) (by simp) fun f' h => h

end

/-- A configuration change that goes through has passed its checks. -/
theorem Configures.passes {env : Env} {d d' : Entries DataKey.Value} {c : StorageClass} {k : DataKey}
    {x : k.Value} {event : Event} {v : Value} {events : List Event} {before after : List Check}
    (h : Configures env d c k x event v d' events) (hbefore : refusal before = none)
    (hafter : refusal after = none) : refusal (configureChecks env d before after) = none := by
  obtain ⟨admin, n, ha, hs, hn, _⟩ := h
  simp only [refusal_eq_none] at hbefore hafter ⊢
  simp only [configureChecks, List.cons_append, List.append_assoc, List.mem_cons, List.mem_append,
    List.not_mem_nil, or_false]
  rintro _ (rfl | hc | rfl | hc | rfl)
  · simp [ha]
  · exact hbefore _ hc
  · simp [Check.requireAuth, ha, hs]
  · exact hafter _ hc
  · simp [hn]

theorem Effect.passes {env : Env} {d d' : Entries DataKey.Value} {c : Call} {v : Value}
    {events : List Event} (h : Effect env d c v d' events) : refusal (checks env d c) = none := by
  cases c with
  | initializeContract admin =>
    obtain ⟨hnone, hvalid, hs, _⟩ := h
    simp [checks, Check.requireAuth, hnone, hvalid, hs]
  | getAdmin =>
    obtain ⟨a, ha, _⟩ := h
    simp [checks, ha]
  | setAdmin a => exact Configures.passes h.2 (by simp [h.1]) rfl
  | isPaused => rfl
  | pause => exact Configures.passes h rfl rfl
  | unpause => exact Configures.passes h rfl rfl
  | approveSchemaVersion n => exact Configures.passes h.2 rfl (by simp [h.1])
  | deprecateSchemaVersion n => exact Configures.passes h.2 rfl (by simp [h.1])
  | isSchemaVersionApproved n => rfl
  | getConfigVersion => rfl
  | upgrade c => exact Governance.Effect.passes h

/-- The code of every entry point makes its checks in the order of the list. -/
theorem program_refuses (c : Call) :
    Refuses c.program (fun env d _ => checks env d c) (leftover c) where
  error := by
    intro env f e f' h
    cases c with
    | initializeContract admin => exact (initializeContract_ends admin).entry_refused h
    | getAdmin =>
      simp [Call.program, entry, getAdmin, EarnProof.getAdmin] at h
      simp [checks, leftover, h]
    | setAdmin a => exact (setAdmin_ends a).entry_refused h
    | isPaused => simp [Call.program, entry, isPaused] at h
    | pause => exact (setPaused_ends true _).entry_refused h
    | unpause => exact (setPaused_ends false _).entry_refused h
    | approveSchemaVersion n => exact (setSchemaVersion_ends n true _).entry_refused h
    | deprecateSchemaVersion n => exact (setSchemaVersion_ends n false _).entry_refused h
    | isSchemaVersionApproved n =>
      simp [Call.program, entry, isSchemaVersionApproved_error] at h
    | getConfigVersion => simp [Call.program, entry, getConfigVersion] at h
    | upgrade c =>
      rw [program_upgrade] at h
      exact (c.program_refuses governance Event.upgrade).error h
  ok := (program_realizes c).passes fun h => h.2.passes

end EarnProof.ProtocolConfig

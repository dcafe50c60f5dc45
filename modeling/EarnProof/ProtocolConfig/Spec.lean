import EarnProof.ProtocolConfig.Refusals
import EarnProof.Upgrade.Spec

/-! Protocol-config as decisions on the values: the outcome of each call, and what each
looks at and writes. -/
namespace EarnProof.ProtocolConfig
open Soroban

/-- The outcome of an admin's configuration change. -/
def configured (d : Entries DataKey.Value) (c : StorageClass) (k : DataKey) (x : k.Value)
    (event : Event) : Outcome DataKey.Value Event Value :=
  ⟨.unit, [⟨c, k, some x⟩, ⟨.inst, .configVersion, some (configVersion d + 1)⟩], [event]⟩

/-- What a call that passes its checks does. -/
def outcome (d : Entries DataKey.Value) : Call → Outcome DataKey.Value Event Value
  | .initializeContract admin =>
    ⟨.unit, [⟨.inst, .admin, some admin⟩, ⟨.inst, .paused, some false⟩,
      ⟨.inst, .configVersion, some (1 : UInt32)⟩, ⟨.inst, .contractVersion, some (1 : UInt32)⟩],
      [.initialized admin]⟩
  | .getAdmin => .query ((d .inst .admin).elim .unit .address)
  | .setAdmin a => configured d .inst .admin a (.adminChanged a)
  | .isPaused => .query (.bool ((d .inst .paused).getD false))
  | .pause => configured d .inst .paused true (.paused true)
  | .unpause => configured d .inst .paused false (.unpaused false)
  | .approveSchemaVersion n => configured d .persistent (.schemaVersion n) true (.schemaApproved n)
  | .deprecateSchemaVersion n =>
    configured d .persistent (.schemaVersion n) false (.schemaDeprecated n)
  | .isSchemaVersionApproved n =>
    .query (.bool (n != 0 && (d .persistent (.schemaVersion n)).getD false))
  | .getConfigVersion => .query (.u32 (configVersion d))
  | .upgrade c => governance.outcome Event.upgrade d c

/-- The entries a call decides from. -/
def Call.seen : Call → Set (StorageClass × DataKey)
  | .initializeContract _ | .getAdmin => {(.inst, .admin)}
  | .setAdmin _ | .pause | .unpause | .approveSchemaVersion _ | .deprecateSchemaVersion _ =>
    {(.inst, .admin), (.inst, .configVersion)}
  | .isPaused => {(.inst, .paused)}
  | .isSchemaVersionApproved n => {(.persistent, .schemaVersion n)}
  | .getConfigVersion => {(.inst, .configVersion)}
  | .upgrade c => governance.seen c

/-- The entries a call may write. -/
def Call.touched : Call → Set (StorageClass × DataKey)
  | .initializeContract _ =>
    {(.inst, .admin), (.inst, .paused), (.inst, .configVersion), (.inst, .contractVersion)}
  | .setAdmin _ => {(.inst, .admin), (.inst, .configVersion)}
  | .pause | .unpause => {(.inst, .paused), (.inst, .configVersion)}
  | .approveSchemaVersion n | .deprecateSchemaVersion n =>
    {(.persistent, .schemaVersion n), (.inst, .configVersion)}
  | .getAdmin | .isPaused | .isSchemaVersionApproved _ | .getConfigVersion => ∅
  | .upgrade c => governance.touched c

section
variable {env : Env} {d d' : Entries DataKey.Value} {v : Value} {events : List Event}

theorem checkedAdd_eq {a b n : UInt32} (h : checkedAdd a b = some n) : n = a + b := by
  unfold checkedAdd at h
  split at h
  · exact (Option.some.inj h).symm
  · cases h

theorem Configures.tells {c : StorageClass} {k : DataKey} {x : k.Value} {event : Event}
    (h : Configures env d c k x event v d' events) :
    (configured d c k x event).Tells d v d' events := by
  obtain ⟨_, n, _, _, hn, hv, hd, hevents⟩ := h
  rw [checkedAdd_eq hn] at hd
  exact ⟨hv, hd, hevents⟩

/-- A call that returns has had its outcome. -/
theorem Effect.tells {c : Call} (h : Effect env d c v d' events) :
    (outcome d c).Tells d v d' events := by
  cases c with
  | initializeContract admin =>
    obtain ⟨_, _, _, hv, hd, hevents⟩ := h
    exact ⟨hv, hd, hevents⟩
  | getAdmin =>
    obtain ⟨a, ha, hv, hd, hevents⟩ := h
    refine ⟨?_, hd, hevents⟩
    rw [outcome, ha, hv]
    rfl
  | setAdmin a => exact h.2.tells
  | isPaused => exact ⟨h.1, h.2.1, h.2.2⟩
  | pause => exact Configures.tells h
  | unpause => exact Configures.tells h
  | approveSchemaVersion n => exact h.2.tells
  | deprecateSchemaVersion n => exact h.2.tells
  | isSchemaVersionApproved n => exact ⟨h.1, h.2.1, h.2.2⟩
  | getConfigVersion => exact ⟨h.1, h.2.1, h.2.2⟩
  | upgrade c => exact Governance.Effect.tells h

end

theorem configVersion_agree {d t : Entries DataKey.Value}
    (h : t .inst .configVersion = d .inst .configVersion) :
    configVersion t = configVersion d := congrArg (Option.getD · 0) h

theorem configured_bounded (c : StorageClass) (k : DataKey) (x : k.Value) (event : Event) (env : Env)
    (before after : List Check) :
    Bounded (fun d => configureChecks env d before after) (fun d => configured d c k x event)
      {(.inst, .admin), (.inst, .configVersion)} {(c, k), (.inst, .configVersion)} := by
  refine ⟨fun d t h => ?_, fun d t h => ?_, fun d w hw => ?_⟩
  · have hadmin : t .inst .admin = d .inst .admin := h _ _ (.inl rfl)
    have hversion := configVersion_agree (h _ _ (.inr rfl))
    simp only [configureChecks, hadmin, hversion]
  · simp only [configured, configVersion_agree (h _ _ (.inr rfl))]
  · simp only [configured, List.mem_cons, List.not_mem_nil, or_false] at hw
    rcases hw with rfl | rfl
    · exact .inl rfl
    · exact .inr rfl

/-- A call decides from what it sees, and writes no more than it may. -/
theorem bounded (env : Env) (c : Call) :
    Bounded (fun d => checks env d c) (fun d => outcome d c) c.seen c.touched := by
  cases c with
  | initializeContract admin =>
    refine ⟨fun d t h => ?_, fun _ _ _ => rfl, fun d w hw => ?_⟩
    · have hadmin : t .inst .admin = d .inst .admin := h _ _ rfl
      simp only [checks, hadmin]
    · simp only [outcome, List.mem_cons, List.not_mem_nil, or_false] at hw
      rcases hw with rfl | rfl | rfl | rfl <;> simp [Call.touched, Write.place]
  | getAdmin =>
    exact .lookup (fun d t h => by simp only [checks, h]) (fun d t h => by simp only [outcome, h])
      fun _ => rfl
  | setAdmin a => exact configured_bounded .inst .admin a _ env _ _
  | isPaused =>
    exact .lookup (fun _ _ _ => rfl) (fun d t h => by simp only [outcome, h]) fun _ => rfl
  | pause => exact configured_bounded .inst .paused true _ env _ _
  | unpause => exact configured_bounded .inst .paused false _ env _ _
  | approveSchemaVersion n => exact configured_bounded .persistent (.schemaVersion n) true _ env _ _
  | deprecateSchemaVersion n => exact configured_bounded .persistent (.schemaVersion n) false _ env _ _
  | isSchemaVersionApproved n =>
    exact .lookup (fun _ _ _ => rfl) (fun d t h => by simp only [outcome, h]) fun _ => rfl
  | getConfigVersion =>
    exact .lookup (fun _ _ _ => rfl) (fun d t h => by simp only [outcome, configVersion_agree h])
      fun _ => rfl
  | upgrade c => exact governance.bounded Event.upgrade env c

/-- An invocation replies and writes as its outcome behind its checks. -/
theorem step_behind (self : Address) (i : Invocation Call) (s : Storage DataKey.Value) :
    let r := (outcome s.entries i.call).behind
      (checks {i.env with currentContract := self} s.entries i.call)
    (machine self).reply i s = r.1 ∧ ((machine self).next i s).entries = s.entries.putAll r.2 :=
  contractAt_behind (o := fun _ d c => outcome d c) program_realizes program_refuses
    (fun _ _ _ _ _ _ hE => hE.tells) self i s

end EarnProof.ProtocolConfig

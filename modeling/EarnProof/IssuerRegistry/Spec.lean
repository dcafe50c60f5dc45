import EarnProof.IssuerRegistry.Refusals
import EarnProof.Upgrade.Spec

/-! The issuer registry as decisions on the values: the outcome of each call, and what
each looks at and writes. An index entry leads to a record of any id, so a lookup by
address looks at all of them; a rotation may remove any index entry. -/
namespace EarnProof.IssuerRegistry
open Soroban

/-- The outcome of an admin's change to the record of `id`. -/
def amended (env : Env) (d : Entries DataKey.Value) (id : BytesN 32)
    (change : IssuerRecord → IssuerRecord) (event : Event) : Outcome DataKey.Value Event Value :=
  ⟨.unit, (d .persistent (.issuer id)).toList.map fun r =>
    ⟨.persistent, .issuer id, some {change r with updatedAt := env.timestamp}⟩, [event]⟩

def statusSet (env : Env) (d : Entries DataKey.Value) (id : BytesN 32) (status : IssuerStatus) :
    Outcome DataKey.Value Event Value :=
  amended env d id (fun r => {r with status}) (statusEvent id env.timestamp status)

/-- What a call that passes its checks does. -/
def outcome (env : Env) (d : Entries DataKey.Value) : Call → Outcome DataKey.Value Event Value
  | .initializeContract admin =>
    ⟨.unit, [⟨.inst, .admin, some admin⟩, ⟨.inst, .contractVersion, some (1 : UInt32)⟩], []⟩
  | .getAdmin => .query ((d .inst .admin).elim .unit .address)
  | .registerIssuer id a m =>
    ⟨.unit, [⟨.persistent, .issuer id, some ⟨id, a, m, .active, env.timestamp, env.timestamp⟩⟩,
      ⟨.persistent, .addressIssuer a, some id⟩], [.issuerRegistered id a m env.timestamp]⟩
  | .updateIssuer id m =>
    amended env d id (fun r => {r with metadataHash := m}) (.issuerMetadataUpdated id m env.timestamp)
  | .suspendIssuer id => statusSet env d id .suspended
  | .reactivateIssuer id => statusSet env d id .active
  | .revokeIssuer id => statusSet env d id .revoked
  | .rotateIssuerAddress id a =>
    match d .persistent (.issuer id) with
    | none => .query .unit
    | some r =>
      ⟨.unit, [⟨.persistent, .addressIssuer r.issuerAddress, none⟩,
        ⟨.persistent, .issuer id, some {r with issuerAddress := a, updatedAt := env.timestamp}⟩,
        ⟨.persistent, .addressIssuer a, some id⟩],
        [.issuerAddressRotated id r.issuerAddress a env.timestamp]⟩
  | .getIssuer id => .query ((d .persistent (.issuer id)).elim .unit .issuer)
  | .isActiveIssuer id => .query (.bool (activeIssuer d id))
  | .isActiveAddress a => .query (.bool (activeAddress d a))
  | .getIssuerByAddress a =>
    .query (((d .persistent (.addressIssuer a)).bind fun id => d .persistent (.issuer id)).elim .unit
      .issuer)
  | .upgrade c => governance.outcome Event.upgrade d c

/-- All records. -/
def everyIssuer : Set (StorageClass × DataKey) := {p | ∃ id, p = (.persistent, .issuer id)}

/-- All index entries. -/
def everyAddress : Set (StorageClass × DataKey) := {p | ∃ a, p = (.persistent, .addressIssuer a)}

/-- The entries a call decides from. -/
def Call.seen : Call → Set (StorageClass × DataKey)
  | .initializeContract _ | .getAdmin => {(.inst, .admin)}
  | .registerIssuer id a _ | .rotateIssuerAddress id a =>
    {(.inst, .admin), (.persistent, .issuer id), (.persistent, .addressIssuer a)}
  | .updateIssuer id _ | .suspendIssuer id | .reactivateIssuer id | .revokeIssuer id =>
    {(.inst, .admin), (.persistent, .issuer id)}
  | .getIssuer id | .isActiveIssuer id => {(.persistent, .issuer id)}
  | .isActiveAddress a | .getIssuerByAddress a =>
    {p | p = (.persistent, .addressIssuer a) ∨ p ∈ everyIssuer}
  | .upgrade c => governance.seen c

/-- The entries a call may write. -/
def Call.touched : Call → Set (StorageClass × DataKey)
  | .initializeContract _ => {(.inst, .admin), (.inst, .contractVersion)}
  | .registerIssuer id a _ => {(.persistent, .issuer id), (.persistent, .addressIssuer a)}
  | .updateIssuer id _ | .suspendIssuer id | .reactivateIssuer id | .revokeIssuer id =>
    {(.persistent, .issuer id)}
  | .rotateIssuerAddress id _ => {p | p = (.persistent, .issuer id) ∨ p ∈ everyAddress}
  | .getAdmin | .getIssuer _ | .isActiveIssuer _ | .isActiveAddress _ | .getIssuerByAddress _ => ∅
  | .upgrade c => governance.touched c

section
variable {env : Env} {d d' : Entries DataKey.Value} {v : Value} {events : List Event}

theorem Amends.tells {id : BytesN 32} {allowed : IssuerRecord → Prop}
    {change : IssuerRecord → IssuerRecord} {event : Event}
    (h : Amends env d id allowed change event v d' events) :
    (amended env d id change event).Tells d v d' events := by
  obtain ⟨_, r, _, _, hr, _, hv, hd, hevents⟩ := h
  refine ⟨hv, ?_, hevents⟩
  rw [hd, amended, hr]
  rfl

/-- A call that returns has had its outcome. -/
theorem Effect.tells {c : Call} (h : Effect env d c v d' events) :
    (outcome env d c).Tells d v d' events := by
  cases c with
  | initializeContract admin =>
    obtain ⟨_, _, _, hv, hd, hevents⟩ := h
    exact ⟨hv, hd, hevents⟩
  | getAdmin =>
    obtain ⟨a, ha, hv, hd, hevents⟩ := h
    refine ⟨?_, hd, hevents⟩
    rw [outcome, ha, hv]
    rfl
  | registerIssuer id a m =>
    obtain ⟨_, _, _, _, _, _, hv, hd, hevents⟩ := h
    exact ⟨hv, hd, hevents⟩
  | updateIssuer id m => exact Amends.tells h
  | suspendIssuer id => exact Amends.tells h
  | reactivateIssuer id => exact Amends.tells h
  | revokeIssuer id => exact Amends.tells h
  | rotateIssuerAddress id a =>
    obtain ⟨_, r, _, _, _, hr, _, _, _, hv, hd, hevents⟩ := h
    rw [outcome, hr]
    exact ⟨hv, hd, hevents⟩
  | getIssuer id =>
    obtain ⟨r, hr, hv, hd, hevents⟩ := h
    refine ⟨?_, hd, hevents⟩
    rw [outcome, hr, hv]
    rfl
  | isActiveIssuer id => exact ⟨h.1, h.2.1, h.2.2⟩
  | isActiveAddress a => exact ⟨h.1, h.2.1, h.2.2⟩
  | getIssuerByAddress a =>
    obtain ⟨id, r, hid, hr, hv, hd, hevents⟩ := h
    refine ⟨?_, hd, hevents⟩
    rw [outcome, hid, Option.bind_some, hr, hv]
    rfl
  | upgrade c => exact Governance.Effect.tells h

end

theorem amended_bounded (env : Env) (id : BytesN 32) (blocked : IssuerRecord → Bool)
    (error : IssuerError) (change : IssuerRecord → IssuerRecord) (event : Event) :
    Bounded (fun d => amendChecks env d id blocked error) (fun d => amended env d id change event)
      {(.inst, .admin), (.persistent, .issuer id)} {(.persistent, .issuer id)} := by
  refine ⟨fun d t h => ?_, fun d t h => ?_, fun d w hw => ?_⟩
  · have hadmin : t .inst .admin = d .inst .admin := h _ _ (.inl rfl)
    have hissuer : t .persistent (.issuer id) = d .persistent (.issuer id) := h _ _ (.inr rfl)
    simp only [amendChecks, hadmin, hissuer]
  · have hissuer : t .persistent (.issuer id) = d .persistent (.issuer id) := h _ _ (.inr rfl)
    simp only [amended, hissuer]
  · obtain ⟨r, _, rfl⟩ := List.mem_map.mp hw
    rfl

theorem activeIssuer_agree {d t : Entries DataKey.Value} {id : BytesN 32}
    (h : t .persistent (.issuer id) = d .persistent (.issuer id)) :
    activeIssuer t id = activeIssuer d id := by
  unfold activeIssuer
  rw [h]

/-- A call decides from what it sees, and writes no more than it may. -/
theorem bounded (env : Env) (c : Call) :
    Bounded (fun d => checks env d c) (fun d => outcome env d c) c.seen c.touched := by
  cases c with
  | initializeContract admin =>
    refine ⟨fun d t h => ?_, fun _ _ _ => rfl, fun d w hw => ?_⟩
    · have hadmin : t .inst .admin = d .inst .admin := h _ _ rfl
      simp only [checks, hadmin]
    · simp only [outcome, List.mem_cons, List.not_mem_nil, or_false] at hw
      rcases hw with rfl | rfl <;> simp [Call.touched, Write.place]
  | getAdmin =>
    exact .lookup (fun d t h => by simp only [checks, h]) (fun d t h => by simp only [outcome, h])
      fun _ => rfl
  | registerIssuer id a m =>
    refine ⟨fun d t h => ?_, fun _ _ _ => rfl, fun d w hw => ?_⟩
    · have hadmin : t .inst .admin = d .inst .admin := h _ _ (.inl rfl)
      have hissuer : t .persistent (.issuer id) = d .persistent (.issuer id) := h _ _ (.inr (.inl rfl))
      have haddress : t .persistent (.addressIssuer a) = d .persistent (.addressIssuer a) :=
        h _ _ (.inr (.inr rfl))
      simp only [checks, hadmin, hissuer, haddress]
    · simp only [outcome, List.mem_cons, List.not_mem_nil, or_false] at hw
      rcases hw with rfl | rfl <;> simp [Call.touched, Write.place]
  | updateIssuer id m => exact amended_bounded env id _ _ _ _
  | suspendIssuer id => exact amended_bounded env id _ _ _ _
  | reactivateIssuer id => exact amended_bounded env id _ _ _ _
  | revokeIssuer id => exact amended_bounded env id _ _ _ _
  | rotateIssuerAddress id a =>
    refine ⟨fun d t h => ?_, fun d t h => ?_, fun d w hw => ?_⟩
    · have hadmin : t .inst .admin = d .inst .admin := h _ _ (.inl rfl)
      have hissuer : t .persistent (.issuer id) = d .persistent (.issuer id) := h _ _ (.inr (.inl rfl))
      have haddress : t .persistent (.addressIssuer a) = d .persistent (.addressIssuer a) :=
        h _ _ (.inr (.inr rfl))
      simp only [checks, hadmin, hissuer, haddress]
    · have hissuer : t .persistent (.issuer id) = d .persistent (.issuer id) := h _ _ (.inr (.inl rfl))
      simp only [outcome, hissuer]
    · simp only [outcome] at hw
      split at hw
      · cases hw
      · simp only [List.mem_cons, List.not_mem_nil, or_false] at hw
        rcases hw with rfl | rfl | rfl
        · exact .inr ⟨_, rfl⟩
        · exact .inl rfl
        · exact .inr ⟨_, rfl⟩
  | getIssuer id =>
    exact .lookup (fun d t h => by simp only [checks, h]) (fun d t h => by simp only [outcome, h])
      fun _ => rfl
  | isActiveIssuer id =>
    exact .lookup (fun _ _ _ => rfl) (fun d t h => by simp only [outcome, activeIssuer_agree h])
      fun _ => rfl
  | isActiveAddress a =>
    refine ⟨fun _ _ _ => rfl, fun d t h => ?_, fun d w hw => ?_⟩
    · have haddress : t .persistent (.addressIssuer a) = d .persistent (.addressIssuer a) :=
        h _ _ (.inl rfl)
      have hissuers : activeIssuer t = activeIssuer d :=
        funext fun id => activeIssuer_agree (h _ _ (.inr ⟨id, rfl⟩))
      simp only [outcome, activeAddress, haddress, hissuers]
    · cases hw
  | getIssuerByAddress a =>
    have hlookup : ∀ d t : Entries DataKey.Value, AgreeOn (Call.getIssuerByAddress a).seen d t →
        t .persistent (.addressIssuer a) = d .persistent (.addressIssuer a) ∧
          (fun id => t .persistent (.issuer id)) = fun id => d .persistent (.issuer id) :=
      fun d t h => ⟨h _ _ (.inl rfl), funext fun id => h _ _ (.inr ⟨id, rfl⟩)⟩
    refine ⟨fun d t h => ?_, fun d t h => ?_, fun d w hw => ?_⟩
    · obtain ⟨haddress, hissuers⟩ := hlookup d t h
      have hmissing : (fun id => (t .persistent (.issuer id)).isNone) =
          fun id => (d .persistent (.issuer id)).isNone :=
        funext fun id => congrArg Option.isNone (congrFun hissuers id)
      simp only [checks, haddress, hmissing]
    · obtain ⟨haddress, hissuers⟩ := hlookup d t h
      simp only [outcome, haddress, hissuers]
    · cases hw
  | upgrade c => exact governance.bounded Event.upgrade env c

/-- An invocation replies and writes as its outcome behind its checks. -/
theorem step_behind (self : Address) (i : Invocation Call) (s : Storage DataKey.Value) :
    let env : Env := {i.env with currentContract := self}
    let r := (outcome env s.entries i.call).behind (checks env s.entries i.call)
    (machine self).reply i s = r.1 ∧ ((machine self).next i s).entries = s.entries.putAll r.2 :=
  contractAt_behind program_realizes program_refuses (fun _ _ _ _ _ _ hE => hE.tells) self i s

end EarnProof.IssuerRegistry

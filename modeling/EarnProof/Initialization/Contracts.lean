import EarnProof.Initialization.Law
import EarnProof.IssuerRegistry.Replay
import EarnProof.ProofRegistry.Lifecycle
import EarnProof.ProtocolConfig.Replay

/-! The three contracts are initialized once. The two registries keep their admin and the
proof registry its dependencies; the admin of protocol-config hands over by `set_admin`
only. -/
namespace EarnProof
open Soroban

namespace ProtocolConfig

def Call.initializes : Call → Bool
  | .initializeContract _ => true
  | .getAdmin | .setAdmin _ | .isPaused | .pause | .unpause | .approveSchemaVersion _
  | .deprecateSchemaVersion _ | .isSchemaVersionApproved _ | .getConfigVersion | .upgrade _ => false

section
variable {env : Env} {d d' : Entries DataKey.Value} {c : Call} {v : Value} {events : List Event}

/-- Who the admin is after a call that does not initialize. -/
theorem Effect.admin (h : Effect env d c v d' events) (hc : c.initializes = false) :
    d' .inst .admin = d .inst .admin ∨
      ∃ a b, c = .setAdmin b ∧ d .inst .admin = some a ∧ env.signed a = true ∧
        isValidPrincipalAddress b = true ∧ d' .inst .admin = some b := by
  have hconfigures : ∀ {cl k x event}, Configures env d cl k x event v d' events → k ≠ .admin →
      d' .inst .admin = d .inst .admin := by
    intro cl k x event h hk
    obtain ⟨_, n, _, _, _, _, rfl, _⟩ := h
    simp [Ne.symm hk]
  cases c with
  | initializeContract admin => cases hc
  | setAdmin b =>
    obtain ⟨hvalid, a, n, ha, hs, _, _, rfl, _⟩ := h
    exact .inr ⟨a, b, rfl, ha, hs, hvalid, by simp⟩
  | pause => exact .inl (hconfigures h (by simp))
  | unpause => exact .inl (hconfigures h (by simp))
  | approveSchemaVersion n => exact .inl (hconfigures h.2 (by simp))
  | deprecateSchemaVersion n => exact .inl (hconfigures h.2 (by simp))
  | upgrade u => exact .inl (Governance.Effect.admin h)
  | _ =>
    obtain ⟨rfl, _⟩ := Effect.query h rfl
    exact .inl rfl

theorem Effect.guarded (h : Effect env d c v d' events) (hc : c.initializes = false)
    (hm : c.mutates = true) : d .inst .admin ≠ none := by
  have hconfigures : ∀ {cl k x event}, Configures env d cl k x event v d' events →
      d .inst .admin ≠ none := by
    intro cl k x event h
    obtain ⟨_, _, ha, _⟩ := h
    simp [ha]
  cases c with
  | initializeContract admin => cases hc
  | setAdmin b => exact hconfigures h.2
  | pause => exact hconfigures h
  | unpause => exact hconfigures h
  | approveSchemaVersion n => exact hconfigures h.2
  | deprecateSchemaVersion n => exact hconfigures h.2
  | upgrade u =>
    obtain ⟨p, hp, _⟩ := Governance.Effect.signed h hm
    exact fun hnone => by cases hnone.symm.trans hp
  | _ => cases hm

end

theorem oneShot : OneShot governance Call.initializes Call.mutates Effect where
  init := by
    intro env d c v d' events hc h
    cases c with
    | initializeContract admin =>
      obtain ⟨hnone, hvalid, _, _, rfl, _⟩ := h
      exact ⟨hnone, admin, hvalid, by simp⟩
    | _ => cases hc
  guarded := fun hc hm h hempty => h.guarded hc hm (by rw [hempty]; rfl)
  query := fun hc h => (h.query hc).1
  admin := fun hc h => by
    rcases h.admin hc with hsame | ⟨a, b, _, ha, _, hvalid, hb⟩
    · exact .inl hsame
    · exact .inr ⟨a, b, ha, hb, hvalid⟩

end ProtocolConfig

namespace IssuerRegistry

def Call.initializes : Call → Bool
  | .initializeContract _ => true
  | .getAdmin | .registerIssuer _ _ _ | .updateIssuer _ _ | .suspendIssuer _ | .reactivateIssuer _
  | .revokeIssuer _ | .rotateIssuerAddress _ _ | .getIssuer _ | .isActiveIssuer _
  | .isActiveAddress _ | .getIssuerByAddress _ | .upgrade _ => false

section
variable {env : Env} {d d' : Entries DataKey.Value} {c : Call} {v : Value} {events : List Event}

/-- Only initialization sets the admin. -/
theorem Effect.admin (h : Effect env d c v d' events) (hc : c.initializes = false) :
    d' .inst .admin = d .inst .admin := by
  have hamends : ∀ {id allowed change event}, Amends env d id allowed change event v d' events →
      d' .inst .admin = d .inst .admin := by
    intro id allowed change event h
    obtain ⟨r, _, _, rfl⟩ := h.writes
    simp
  cases c with
  | initializeContract admin => cases hc
  | registerIssuer id a m =>
    obtain rfl := Effect.register_writes h
    simp
  | updateIssuer id m => exact hamends h
  | suspendIssuer id => exact hamends h
  | reactivateIssuer id => exact hamends h
  | revokeIssuer id => exact hamends h
  | rotateIssuerAddress id a =>
    obtain ⟨r, _, _, rfl⟩ := Effect.rotate_writes h
    simp
  | upgrade u => exact Governance.Effect.admin h
  | _ =>
    obtain ⟨rfl, _⟩ := Effect.query h rfl
    rfl

theorem Effect.guarded (h : Effect env d c v d' events) (hc : c.initializes = false)
    (hm : c.mutates = true) : d .inst .admin ≠ none := by
  have hamends : ∀ {id allowed change event}, Amends env d id allowed change event v d' events →
      d .inst .admin ≠ none := by
    intro id allowed change event h
    obtain ⟨_, _, ha, _⟩ := h
    simp [ha]
  cases c with
  | initializeContract admin => cases hc
  | registerIssuer id a m =>
    obtain ⟨_, ha, _⟩ := h
    simp [ha]
  | updateIssuer id m => exact hamends h
  | suspendIssuer id => exact hamends h
  | reactivateIssuer id => exact hamends h
  | revokeIssuer id => exact hamends h
  | rotateIssuerAddress id a =>
    obtain ⟨_, _, ha, _⟩ := h
    simp [ha]
  | upgrade u =>
    obtain ⟨p, hp, _⟩ := Governance.Effect.signed h hm
    exact fun hnone => by cases hnone.symm.trans hp
  | _ => cases hm

end

theorem oneShot : OneShot governance Call.initializes Call.mutates Effect where
  init := by
    intro env d c v d' events hc h
    cases c with
    | initializeContract admin =>
      obtain ⟨hnone, hvalid, _, _, rfl, _⟩ := h
      exact ⟨hnone, admin, hvalid, by simp⟩
    | _ => cases hc
  guarded := fun hc hm h hempty => h.guarded hc hm (by rw [hempty]; rfl)
  query := fun hc h => (h.query hc).1
  admin := fun hc h => .inl (h.admin hc)

end IssuerRegistry

namespace ProofRegistry

/-- The calls that can change something. -/
def Call.mutates : Call → Bool
  | .initializeContract _ _ _ | .registerProof _ _ _ _ _ | .revokeProof _ | .adminRevokeProof _ =>
    true
  | .getProof _ | .isValidProof _ | .isRevoked _ | .getAdmin | .getIssuerRegistry
  | .getProtocolConfig => false
  | .upgrade c => c.mutates

def Call.initializes : Call → Bool
  | .initializeContract _ _ _ => true
  | .registerProof _ _ _ _ _ | .revokeProof _ | .adminRevokeProof _ | .getProof _ | .isValidProof _
  | .isRevoked _ | .getAdmin | .getIssuerRegistry | .getProtocolConfig | .upgrade _ => false

section
variable {W : Type} {clients : Clients W} {env : Env} {d d' : Entries DataKey.Value} {w w' : W}
  {c : Call} {v : Value} {events : List Event}

theorem Effect.query (h : Effect clients env d w c v d' events w') (hc : c.mutates = false) :
    d' = d := by
  cases c with
  | getProof id =>
    obtain ⟨_, _, _, _, hd, _⟩ := h
    exact hd
  | isValidProof id => exact h.2.2.1
  | isRevoked id => exact h.2.2.1
  | getAdmin =>
    obtain ⟨_, _, _, _, hd, _⟩ := h
    exact hd
  | getIssuerRegistry =>
    obtain ⟨_, _, _, _, hd, _⟩ := h
    exact hd
  | getProtocolConfig =>
    obtain ⟨_, _, _, _, hd, _⟩ := h
    exact hd
  | upgrade u => exact (Governance.Effect.query h.2 hc).1
  | _ => cases hc

/-- A registration needs the dependencies and a revocation needs the record. -/
theorem Effect.guarded (h : Effect clients env d w c v d' events w') (hc : c.initializes = false)
    (hm : c.mutates = true) : d ≠ Entries.empty := by
  intro hempty
  subst hempty
  have hrevokes : ∀ {id byAdmin}, ¬ Revokes env Entries.empty id byAdmin v d' events := by
    intro id byAdmin h
    obtain ⟨_, _, hr, _⟩ := h
    cases hr
  cases c with
  | initializeContract a i p => cases hc
  | registerProof id c a n e =>
    obtain ⟨_, _, _, _, _, hcfg, _⟩ := h
    cases hcfg
  | revokeProof id => exact hrevokes h.2
  | adminRevokeProof id => exact hrevokes h.2
  | upgrade u =>
    obtain ⟨p, hp, _⟩ := Governance.Effect.signed h.2 hm
    cases hp
  | _ => cases hm

theorem Effect.sameWiring_of_not_initializes (h : Effect clients env d w c v d' events w')
    (hc : c.initializes = false) : SameWiring d d' := by
  rcases h.wiring with hsame | ⟨_, a, i, p, heq, _⟩
  · exact hsame
  · rw [heq] at hc
    cases hc

/-- A proof call leaves the instance entries alone. -/
theorem Effect.instance (h : Effect clients env d w c v d' events w') (hc : c.initializes = false)
    (hu : ∀ u, c ≠ .upgrade u) (k : DataKey) : d' .inst k = d .inst k := by
  have hrevokes : ∀ {id byAdmin}, Revokes env d id byAdmin v d' events → d' .inst k = d .inst k := by
    intro id byAdmin h
    obtain ⟨r, _, _, rfl⟩ := h.writes
    simp
  cases c with
  | initializeContract a i p => cases hc
  | registerProof id c a n e =>
    obtain rfl := Effect.register_writes h
    simp
  | revokeProof id => exact hrevokes h.2
  | adminRevokeProof id => exact hrevokes h.2
  | upgrade u => exact absurd rfl (hu u)
  | _ => rw [h.query rfl]

/-- The admin, the dependencies and the version are absent, or they are there and the
dependencies are two valid addresses other than the registry at `self`. -/
def Provisioned (self : Address) (d : Entries DataKey.Value) : Prop :=
  (d .inst .admin = none ∧ d .inst .issuerRegistry = none ∧ d .inst .protocolConfig = none ∧
    d .inst .contractVersion = none) ∨
  ∃ a i p n, d .inst .admin = some a ∧ d .inst .issuerRegistry = some i ∧
    d .inst .protocolConfig = some p ∧ d .inst .contractVersion = some n ∧
    isValidPrincipalAddress i = true ∧ isValidPrincipalAddress p = true ∧
    i ≠ p ∧ i ≠ self ∧ p ≠ self

theorem Effect.provisioned (h : Effect clients env d w c v d' events w')
    (hd : Provisioned env.currentContract d) : Provisioned env.currentContract d' := by
  cases hc : c.initializes with
  | true =>
    cases c with
    | initializeContract a i p =>
      obtain ⟨_, _, _, hi, hp, hiself, hpself, hne, _, _, rfl, _⟩ := h
      exact .inr ⟨a, i, p, 1, by simp, by simp, by simp, by simp, hi, hp, hne, hiself, hpself⟩
    | _ => cases hc
  | false =>
    by_cases hu : ∃ u, c = .upgrade u
    · obtain ⟨u, rfl⟩ := hu
      have hsame := h.sameWiring_of_not_initializes hc
      have hversion : d' .inst .contractVersion = d .inst .contractVersion ∨
          (d .inst .admin ≠ none ∧ d' .inst .contractVersion ≠ none) := by
        cases hm : u.mutates with
        | false => exact .inl (by rw [h.query hm])
        | true =>
          obtain ⟨a, ha, _⟩ := Governance.Effect.signed h.2 hm
          have hadmin : d .inst .admin = some a := ha
          cases hv : d' .inst .contractVersion with
          | some n => exact .inr ⟨by simp [hadmin], by simp⟩
          | none => exact .inl (Governance.Effect.version_none h.2 hv).symm
      rw [Provisioned, hsame.admin, hsame.issuerRegistry, hsame.protocolConfig]
      rcases hd with ⟨ha, hi, hp, hv⟩ | ⟨a, i, p, n, ha, hi, hp, hv, hrest⟩
      · rcases hversion with hsame | ⟨hsome, _⟩
        · exact .inl ⟨ha, hi, hp, hsame.trans hv⟩
        · exact absurd ha hsome
      · rcases hversion with hsame | ⟨_, hsome⟩
        · exact .inr ⟨a, i, p, n, ha, hi, hp, hsame.trans hv, hrest⟩
        · obtain ⟨n', hn'⟩ := Option.ne_none_iff_exists'.mp hsome
          exact .inr ⟨a, i, p, n', ha, hi, hp, hn', hrest⟩
    · have hinst := h.instance hc fun u heq => hu ⟨u, heq⟩
      rw [Provisioned, hinst, hinst, hinst, hinst]
      exact hd

end

theorem oneShot : OneShot governance (fun r : Request => r.call.initializes)
    (fun r => r.call.mutates) RequestEffect where
  init := by
    intro env d r v d' events hc h
    obtain ⟨c, clients⟩ := r
    cases c with
    | initializeContract a i p =>
      obtain ⟨_, hnone, hvalid, _, _, _, _, _, _, _, rfl, _⟩ := h
      exact ⟨hnone, a, hvalid, by simp⟩
    | _ => cases hc
  guarded := fun hc hm h => Effect.guarded h hc hm
  query := fun hc h => Effect.query h hc
  admin := fun hc h => .inl (Effect.sameWiring_of_not_initializes h hc).admin

end ProofRegistry

/-! ### References -/

/-- The admin of protocol-config changes in a `set_admin` it signed. -/
def ProtocolConfig.HandsOver (self : Address) : Prop :=
  ∀ is i a, let s := (machine self).run Storage.empty is
    s.entries .inst .admin = some a →
    ((machine self).next i s).entries .inst .admin = some a ∨
      ∃ b, i.call = .setAdmin b ∧ ((machine self).reply i s).Succeeded ∧ i.env.signed a = true ∧
        ((machine self).next i s).entries .inst .admin = some b

theorem ProtocolConfig.handsOver (self : Address) : HandsOver self := by
  intro is i a s ha
  rcases step_cases self i s with ⟨v, hv, hE⟩ | ⟨e, _, hs, _⟩
  · cases hc : i.call.initializes with
    | true =>
      obtain ⟨hnone, _⟩ := oneShot.init hc hE
      rw [read_admin, ha] at hnone
      cases hnone
    | false =>
      rcases hE.admin hc with hsame | ⟨a', b, hcall, ha', hsigned, _, hb⟩
      · exact .inl (hsame.trans ha)
      · rw [ha] at ha'
        cases ha'
        exact .inr ⟨b, hcall, ⟨v, hv⟩, hsigned, hb⟩
  · rw [hs]
    exact .inl ha

/-- The admin of the issuer registry never changes. -/
def IssuerRegistry.KeepsAdmin (self : Address) : Prop :=
  ∀ is js a, let s := (machine self).run Storage.empty is
    s.entries .inst .admin = some a → ((machine self).run s js).entries .inst .admin = some a

theorem IssuerRegistry.keepsAdmin (self : Address) : KeepsAdmin self := by
  intro is js a s ha
  refine contractAt_invariant program_realizes (fun d => d .inst .admin = some a)
    (fun env d c v d' events hE hd => ?_) self ha js
  cases hc : c.initializes with
  | true =>
    obtain ⟨hnone, _⟩ := oneShot.init hc hE
    rw [read_admin, hd] at hnone
    cases hnone
  | false => exact (hE.admin hc).trans hd

/-- The admin and the dependencies of the proof registry never change, and are what an
initialization accepts. -/
structure ProofRegistry.KeepsReferences (self : Address) : Prop where
  provisioned : ∀ is, Provisioned self ((machine self).run Storage.empty is).entries
  fixed : ∀ is js, let s := (machine self).run Storage.empty is
    s.entries .inst .admin ≠ none → SameWiring s.entries ((machine self).run s js).entries

theorem ProofRegistry.keepsReferences (self : Address) : KeepsReferences self where
  provisioned := by
    intro is
    refine (machine self).invariant_run (fun s => Provisioned self s.entries) (fun i s hs => ?_)
      (.inl ⟨rfl, rfl, rfl, rfl⟩) is
    rcases step_cases self i s with ⟨v, _, hE⟩ | ⟨e, _, hs', _⟩
    · exact Effect.provisioned hE hs
    · rw [hs']
      exact hs
  fixed := by
    intro is js s hadmin
    refine (contractAt_invariant request_realizes
      (fun d => d .inst .admin ≠ none ∧ SameWiring s.entries d)
      (fun env d r v d' events hE hd => ?_) self ⟨hadmin, .refl _⟩ js).2
    have hstep := Effect.sameWiring hE hd.1
    exact ⟨by rw [hstep.admin]; exact hd.1, hd.2.trans hstep⟩

/-- Each contract is initialized once, does nothing before, and afterwards has a valid
admin; what it refers to stays, but for the hand-over of protocol-config. -/
theorem contracts_initializationLaw (self : Address) :
    (InitializationLaw ProtocolConfig.governance ProtocolConfig.Call.initializes
        ProtocolConfig.Call.mutates (ProtocolConfig.machine self) ∧
      ProtocolConfig.HandsOver self) ∧
    (InitializationLaw IssuerRegistry.governance IssuerRegistry.Call.initializes
        IssuerRegistry.Call.mutates (IssuerRegistry.machine self) ∧
      IssuerRegistry.KeepsAdmin self) ∧
    InitializationLaw ProofRegistry.governance (fun r => r.call.initializes)
        (fun r => r.call.mutates) (ProofRegistry.machine self) ∧
      ProofRegistry.KeepsReferences self :=
  ⟨⟨ProtocolConfig.oneShot.law ProtocolConfig.program_realizes self, ProtocolConfig.handsOver self⟩,
    ⟨IssuerRegistry.oneShot.law IssuerRegistry.program_realizes self,
      IssuerRegistry.keepsAdmin self⟩,
    ProofRegistry.oneShot.law ProofRegistry.request_realizes self,
    ProofRegistry.keepsReferences self⟩

end EarnProof

import EarnProof.IssuerRegistry.Effects
import EarnProof.ProofRegistry.Effects
import EarnProof.ProtocolConfig.Effects
import EarnProof.Upgrade.Law

/-! The three contracts obey the upgrade law. -/
namespace EarnProof
open Soroban

/-- The governance call that a call is, if it is one. -/
def ProtocolConfig.Call.upgradeOf : ProtocolConfig.Call → Option UpgradeCall
  | .upgrade u => some u
  | _ => none

def IssuerRegistry.Call.upgradeOf : IssuerRegistry.Call → Option UpgradeCall
  | .upgrade u => some u
  | _ => none

def ProofRegistry.Request.upgradeOf (r : ProofRegistry.Request) : Option UpgradeCall :=
  match r.call with
  | .upgrade u => some u
  | _ => none

/-- What a call other than governance leaves of it: everything, unless it initializes. -/
def LeavesGovernance {K : Type} {V : K → Type} (G : Governance V) (d d' : Entries V) : Prop :=
  (∀ h, (G.allowedWasm h).read d' = (G.allowedWasm h).read d) ∧
    ((G.contractVersion.read d' = G.contractVersion.read d ∧
      (G.admin.read d' = none ↔ G.admin.read d = none)) ∨
    (G.admin.read d = none ∧ G.admin.read d' ≠ none ∧ G.contractVersion.read d' = some 1))

/-- What changes nothing leaves governance alone. -/
theorem LeavesGovernance.refl {K : Type} {V : K → Type} (G : Governance V) (d : Entries V) :
    LeavesGovernance G d d :=
  ⟨fun _ => rfl, .inl ⟨rfl, Iff.rfl⟩⟩

section
variable {env : Env} {v : Value}

namespace ProtocolConfig
variable {d d' : Entries DataKey.Value} {events : List Event}

/-- Only the initialization touches governance from outside: it starts it. -/
theorem leavesGovernance {c : Call} (hc : c.upgradeOf = none) (h : Effect env d c v d' events) :
    LeavesGovernance governance d d' := by
  cases c with
  | initializeContract admin =>
    obtain ⟨hnone, _, _, _, rfl, _⟩ := h
    exact ⟨fun _ => rfl, .inr ⟨hnone, by simp [Slot.read, governance], by simp [Slot.read, governance]⟩⟩
  | setAdmin a =>
    obtain ⟨_, admin, n, ha, _, _, _, rfl, _⟩ := h
    simp [LeavesGovernance, Slot.read, governance, ha]
  | pause =>
    obtain ⟨admin, n, ha, _, _, _, rfl, _⟩ := h
    simp [LeavesGovernance, Slot.read, governance]
  | unpause =>
    obtain ⟨admin, n, ha, _, _, _, rfl, _⟩ := h
    simp [LeavesGovernance, Slot.read, governance]
  | approveSchemaVersion n =>
    obtain ⟨_, admin, n, ha, _, _, _, rfl, _⟩ := h
    simp [LeavesGovernance, Slot.read, governance]
  | deprecateSchemaVersion n =>
    obtain ⟨_, admin, n, ha, _, _, _, rfl, _⟩ := h
    simp [LeavesGovernance, Slot.read, governance]
  | getAdmin =>
    obtain ⟨_, _, _, rfl, _⟩ := h
    exact .refl _ _
  | isPaused =>
    obtain ⟨_, rfl, _⟩ := h
    exact .refl _ _
  | isSchemaVersionApproved n =>
    obtain ⟨_, rfl, _⟩ := h
    exact .refl _ _
  | getConfigVersion =>
    obtain ⟨_, rfl, _⟩ := h
    exact .refl _ _
  | upgrade u => cases hc

/-- protocol-config runs governance as it is, and its other calls leave it alone. -/
theorem governs : Governs governance Event.upgrade Call.upgradeOf Effect where
  upgrade := by
    intro env d c u v d' events hu
    cases c <;> cases hu
    rfl
  allowed := fun hc h => (leavesGovernance hc h).1
  version := fun hc h => (leavesGovernance hc h).2

end ProtocolConfig

namespace IssuerRegistry
variable {d d' : Entries DataKey.Value} {events : List Event}

theorem leavesGovernance {c : Call} (hc : c.upgradeOf = none) (h : Effect env d c v d' events) :
    LeavesGovernance governance d d' := by
  have hamends : ∀ {id allowed change event}, Amends env d id allowed change event v d' events →
      LeavesGovernance governance d d' := by
    intro id allowed change event h
    obtain ⟨r, _, _, rfl⟩ := h.writes
    simp [LeavesGovernance, Slot.read, governance]
  cases c with
  | initializeContract admin =>
    obtain ⟨hnone, _, _, _, rfl, _⟩ := h
    exact ⟨fun _ => rfl, .inr ⟨hnone, by simp [Slot.read, governance], by simp [Slot.read, governance]⟩⟩
  | registerIssuer id a m =>
    obtain rfl := Effect.register_writes h
    simp [LeavesGovernance, Slot.read, governance]
  | updateIssuer id m => exact hamends h
  | suspendIssuer id => exact hamends h
  | reactivateIssuer id => exact hamends h
  | revokeIssuer id => exact hamends h
  | rotateIssuerAddress id a =>
    obtain ⟨r, _, _, rfl⟩ := Effect.rotate_writes h
    simp [LeavesGovernance, Slot.read, governance]
  | getAdmin =>
    obtain ⟨_, _, _, rfl, _⟩ := h
    exact .refl _ _
  | getIssuer id =>
    obtain ⟨_, _, _, rfl, _⟩ := h
    exact .refl _ _
  | isActiveIssuer id =>
    obtain ⟨_, rfl, _⟩ := h
    exact .refl _ _
  | isActiveAddress a =>
    obtain ⟨_, rfl, _⟩ := h
    exact .refl _ _
  | getIssuerByAddress a =>
    obtain ⟨_, _, _, _, _, rfl, _⟩ := h
    exact .refl _ _
  | upgrade u => cases hc

/-- So does issuer-registry. -/
theorem governs : Governs governance Event.upgrade Call.upgradeOf Effect where
  upgrade := by
    intro env d c u v d' events hu
    cases c <;> cases hu
    rfl
  allowed := fun hc h => (leavesGovernance hc h).1
  version := fun hc h => (leavesGovernance hc h).2

end IssuerRegistry

namespace ProofRegistry
variable {d d' : Entries DataKey.Value} {events : List Event}

theorem leavesGovernance {r : Request} (hr : r.upgradeOf = none)
    (h : RequestEffect env d r v d' events) : LeavesGovernance governance d d' := by
  have hrevokes : ∀ {id byAdmin}, Revokes env d id byAdmin v d' events →
      LeavesGovernance governance d d' := by
    intro id byAdmin h
    obtain ⟨r, _, _, rfl⟩ := h.writes
    simp [LeavesGovernance, Slot.read, governance]
  obtain ⟨c, clients⟩ := r
  cases c with
  | initializeContract a i p =>
    obtain ⟨_, hnone, _, _, _, _, _, _, _, _, rfl, _⟩ := h
    exact ⟨fun _ => rfl, .inr ⟨hnone, by simp [Slot.read, governance], by simp [Slot.read, governance]⟩⟩
  | registerProof id c a n e =>
    obtain rfl := Effect.register_writes h
    simp [LeavesGovernance, Slot.read, governance]
  | revokeProof id => exact hrevokes h.2
  | adminRevokeProof id => exact hrevokes h.2
  | getProof id =>
    obtain ⟨_, _, _, _, rfl, _⟩ := h
    exact .refl _ _
  | isValidProof id =>
    obtain ⟨_, _, rfl, _⟩ := h
    exact .refl _ _
  | isRevoked id =>
    obtain ⟨_, _, rfl, _⟩ := h
    exact .refl _ _
  | getAdmin =>
    obtain ⟨_, _, _, _, rfl, _⟩ := h
    exact .refl _ _
  | getIssuerRegistry =>
    obtain ⟨_, _, _, _, rfl, _⟩ := h
    exact .refl _ _
  | getProtocolConfig =>
    obtain ⟨_, _, _, _, rfl, _⟩ := h
    exact .refl _ _
  | upgrade u => cases hr

/-- So does proof-registry, whatever its dependencies answer. -/
theorem governs : Governs governance id Request.upgradeOf RequestEffect where
  upgrade := by
    intro env d r u v d' events hu
    obtain ⟨c, clients⟩ := r
    cases c <;> cases hu
    exact and_iff_right rfl
  allowed := fun hr h => (leavesGovernance hr h).1
  version := fun hr h => (leavesGovernance hr h).2

end ProofRegistry
end

/-- One law for the three copies of upgrade governance, whatever the dependencies of the
proof registry answer. -/
theorem contracts_upgradeLaw (self : Address) :
    UpgradeLaw ProtocolConfig.governance ProtocolConfig.Call.upgradeOf
        (ProtocolConfig.machine self) ∧
      UpgradeLaw IssuerRegistry.governance IssuerRegistry.Call.upgradeOf
        (IssuerRegistry.machine self) ∧
      UpgradeLaw ProofRegistry.governance ProofRegistry.Request.upgradeOf
        (ProofRegistry.machine self) :=
  ⟨ProtocolConfig.governs.law ProtocolConfig.program_realizes self,
    IssuerRegistry.governs.law IssuerRegistry.program_realizes self,
    ProofRegistry.governs.law ProofRegistry.request_realizes self⟩

end EarnProof

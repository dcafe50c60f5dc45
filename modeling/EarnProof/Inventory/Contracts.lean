import EarnProof.Initialization.Contracts
import EarnProof.Inventory.Law
import EarnProof.Upgrade.Contracts

/-! The three contracts obey the inventory law.

Every variant but `AllowedWasm` has its row. The allowlist is kept in the instance
entry under keys that carry the hash, so an accepted approval puts a key there that
the inventory does not list. -/
namespace EarnProof
open Soroban

theorem no_allowedWasm : ∀ row ∈ STORAGE_NAMESPACES, row.variantName ≠ "AllowedWasm" := by decide

theorem not_listed {K : Type} {codec : KeyCodec K} {c : StorageClass} {k : K}
    (hname : codec.variantName k = "AllowedWasm") : ¬ Listed codec c k := by
  intro h
  obtain ⟨row, hrow, _, hrow_name, _⟩ := h
  exact no_allowedWasm row hrow (hrow_name.trans hname)

namespace ProtocolConfig

def DataKey.variantName : DataKey → String
  | .admin => "Admin"
  | .paused => "Paused"
  | .configVersion => "ConfigVersion"
  | .schemaVersion _ => "SchemaVersion"
  | .allowedWasm _ => "AllowedWasm"
  | .contractVersion => "ContractVersion"

def DataKey.payload : DataKey → List ScVal
  | .schemaVersion n => [.u32 n]
  | .allowedWasm h => [.bytes h.bytes]
  | .admin | .paused | .configVersion | .contractVersion => []

def codec : KeyCodec DataKey where
  contract := "protocol-config"
  variantName := DataKey.variantName
  payload := DataKey.payload
  injective := by
    intro k k' hname hpayload
    cases k <;> cases k' <;> simp [DataKey.variantName, DataKey.payload] at hname hpayload ⊢
    · exact hpayload
    · exact BytesN.bytes_inj hpayload

/-- The class a key is written in. -/
def DataKey.home : DataKey → StorageClass
  | .schemaVersion _ => .persistent
  | .admin | .paused | .configVersion | .allowedWasm _ | .contractVersion => .inst

theorem Effect.atHome {env : Env} {d d' : Entries DataKey.Value} {c : Call} {v : Value}
    {events : List Event} (hE : Effect env d c v d' events) (h : AtHome DataKey.home d) :
    AtHome DataKey.home d' := by
  have hconfigures : ∀ {cl k x event}, Configures env d cl k x event v d' events → k.home = cl →
      AtHome DataKey.home d' := by
    intro cl k x event hE hk
    obtain ⟨n, _, rfl⟩ := hE.writes
    exact (h.put _ hk).put _
  cases c with
  | initializeContract admin =>
    obtain ⟨_, _, _, _, rfl, _⟩ := hE
    exact (((h.put _).put _).put _).put _
  | setAdmin a => exact hconfigures hE.2 rfl
  | pause => exact hconfigures hE rfl
  | unpause => exact hconfigures hE rfl
  | approveSchemaVersion n => exact hconfigures hE.2 rfl
  | deprecateSchemaVersion n => exact hconfigures hE.2 rfl
  | upgrade u => exact Governance.Effect.atHome hE rfl (fun _ => rfl) h
  | _ =>
    obtain ⟨rfl, _⟩ := Effect.query hE rfl
    exact h

theorem inventories : Inventories codec DataKey.home governance Effect where
  keeps := Effect.atHome
  home_allowed := fun _ => rfl
  listed := by
    intro k hk
    cases k with
    | allowedWasm hash => exact absurd rfl (hk hash)
    | admin => exact ⟨⟨"protocol-config", "Admin", 0, .inst⟩, by decide, rfl, rfl, rfl, rfl⟩
    | paused => exact ⟨⟨"protocol-config", "Paused", 0, .inst⟩, by decide, rfl, rfl, rfl, rfl⟩
    | configVersion =>
      exact ⟨⟨"protocol-config", "ConfigVersion", 0, .inst⟩, by decide, rfl, rfl, rfl, rfl⟩
    | contractVersion =>
      exact ⟨⟨"protocol-config", "ContractVersion", 0, .inst⟩, by decide, rfl, rfl, rfl, rfl⟩
    | schemaVersion n =>
      exact ⟨⟨"protocol-config", "SchemaVersion", 1, .persistent⟩, by decide, rfl, rfl, rfl, rfl⟩
  unlisted := fun _ _ => not_listed rfl

end ProtocolConfig

namespace IssuerRegistry

def DataKey.variantName : DataKey → String
  | .admin => "Admin"
  | .issuer _ => "Issuer"
  | .addressIssuer _ => "AddressIssuer"
  | .allowedWasm _ => "AllowedWasm"
  | .contractVersion => "ContractVersion"

def DataKey.payload : DataKey → List ScVal
  | .issuer id => [.bytes id.bytes]
  | .addressIssuer a => [.address a]
  | .allowedWasm h => [.bytes h.bytes]
  | .admin | .contractVersion => []

def codec : KeyCodec DataKey where
  contract := "issuer-registry"
  variantName := DataKey.variantName
  payload := DataKey.payload
  injective := by
    intro k k' hname hpayload
    cases k <;> cases k' <;> simp [DataKey.variantName, DataKey.payload] at hname hpayload ⊢
    · exact BytesN.bytes_inj hpayload
    · exact hpayload
    · exact BytesN.bytes_inj hpayload

/-- The class a key is written in. -/
def DataKey.home : DataKey → StorageClass
  | .issuer _ | .addressIssuer _ => .persistent
  | .admin | .allowedWasm _ | .contractVersion => .inst

theorem Effect.atHome {env : Env} {d d' : Entries DataKey.Value} {c : Call} {v : Value}
    {events : List Event} (hE : Effect env d c v d' events) (h : AtHome DataKey.home d) :
    AtHome DataKey.home d' := by
  have hamends : ∀ {id allowed change event}, Amends env d id allowed change event v d' events →
      AtHome DataKey.home d' := by
    intro id allowed change event hE
    obtain ⟨r, _, _, rfl⟩ := hE.writes
    exact h.put _
  cases c with
  | initializeContract admin =>
    obtain ⟨_, _, _, _, rfl, _⟩ := hE
    exact (h.put _).put _
  | registerIssuer id a m =>
    obtain rfl := Effect.register_writes hE
    exact (h.put _).put _
  | updateIssuer id m => exact hamends hE
  | suspendIssuer id => exact hamends hE
  | reactivateIssuer id => exact hamends hE
  | revokeIssuer id => exact hamends hE
  | rotateIssuerAddress id a =>
    obtain ⟨r, _, _, rfl⟩ := Effect.rotate_writes hE
    exact ((h.put _).put _).put _
  | upgrade u => exact Governance.Effect.atHome hE rfl (fun _ => rfl) h
  | _ =>
    obtain ⟨rfl, _⟩ := Effect.query hE rfl
    exact h

theorem inventories : Inventories codec DataKey.home governance Effect where
  keeps := Effect.atHome
  home_allowed := fun _ => rfl
  listed := by
    intro k hk
    cases k with
    | allowedWasm hash => exact absurd rfl (hk hash)
    | admin => exact ⟨⟨"issuer-registry", "Admin", 0, .inst⟩, by decide, rfl, rfl, rfl, rfl⟩
    | contractVersion =>
      exact ⟨⟨"issuer-registry", "ContractVersion", 0, .inst⟩, by decide, rfl, rfl, rfl, rfl⟩
    | issuer id =>
      exact ⟨⟨"issuer-registry", "Issuer", 1, .persistent⟩, by decide, rfl, rfl, rfl, rfl⟩
    | addressIssuer a =>
      exact ⟨⟨"issuer-registry", "AddressIssuer", 1, .persistent⟩, by decide, rfl, rfl, rfl, rfl⟩
  unlisted := fun _ _ => not_listed rfl

end IssuerRegistry

namespace ProofRegistry

def DataKey.variantName : DataKey → String
  | .admin => "Admin"
  | .issuerRegistry => "IssuerRegistry"
  | .protocolConfig => "ProtocolConfig"
  | .proof _ => "Proof"
  | .allowedWasm _ => "AllowedWasm"
  | .contractVersion => "ContractVersion"

def DataKey.payload : DataKey → List ScVal
  | .proof id => [.bytes id.bytes]
  | .allowedWasm h => [.bytes h.bytes]
  | .admin | .issuerRegistry | .protocolConfig | .contractVersion => []

def codec : KeyCodec DataKey where
  contract := "proof-registry"
  variantName := DataKey.variantName
  payload := DataKey.payload
  injective := by
    intro k k' hname hpayload
    cases k <;> cases k' <;> simp [DataKey.variantName, DataKey.payload] at hname hpayload ⊢
    · exact BytesN.bytes_inj hpayload
    · exact BytesN.bytes_inj hpayload

/-- The class a key is written in. -/
def DataKey.home : DataKey → StorageClass
  | .proof _ => .persistent
  | .admin | .issuerRegistry | .protocolConfig | .allowedWasm _ | .contractVersion => .inst

theorem RequestEffect.atHome {env : Env} {d d' : Entries DataKey.Value} {r : Request} {v : Value}
    {events : List Event} (hE : RequestEffect env d r v d' events) (h : AtHome DataKey.home d) :
    AtHome DataKey.home d' := by
  have hrevokes : ∀ {id byAdmin}, Revokes env d id byAdmin v d' events →
      AtHome DataKey.home d' := by
    intro id byAdmin hE
    obtain ⟨r, _, _, rfl⟩ := hE.writes
    exact h.put _
  obtain ⟨c, clients⟩ := r
  cases c with
  | initializeContract a i p =>
    obtain rfl := Effect.initialize_writes hE
    exact (((h.put _).put _).put _).put _
  | registerProof id c a n e =>
    obtain rfl := Effect.register_writes hE
    exact h.put _
  | revokeProof id => exact hrevokes hE.2
  | adminRevokeProof id => exact hrevokes hE.2
  | upgrade u => exact Governance.Effect.atHome hE.2 rfl (fun _ => rfl) h
  | _ =>
    rw [Effect.query hE rfl]
    exact h

theorem inventories : Inventories codec DataKey.home governance RequestEffect where
  keeps := RequestEffect.atHome
  home_allowed := fun _ => rfl
  listed := by
    intro k hk
    cases k with
    | allowedWasm hash => exact absurd rfl (hk hash)
    | admin => exact ⟨⟨"proof-registry", "Admin", 0, .inst⟩, by decide, rfl, rfl, rfl, rfl⟩
    | issuerRegistry =>
      exact ⟨⟨"proof-registry", "IssuerRegistry", 0, .inst⟩, by decide, rfl, rfl, rfl, rfl⟩
    | protocolConfig =>
      exact ⟨⟨"proof-registry", "ProtocolConfig", 0, .inst⟩, by decide, rfl, rfl, rfl, rfl⟩
    | contractVersion =>
      exact ⟨⟨"proof-registry", "ContractVersion", 0, .inst⟩, by decide, rfl, rfl, rfl, rfl⟩
    | proof id =>
      exact ⟨⟨"proof-registry", "Proof", 1, .persistent⟩, by decide, rfl, rfl, rfl, rfl⟩
  unlisted := fun _ _ => not_listed rfl

end ProofRegistry

/-- What a contract stores is inventoried exactly while its upgrade allowlist is empty, and
after every call of a run exactly when the run has no accepted `approve_upgrade`. -/
theorem contracts_inventoried (self : Address) :
    InventoryLaw ProtocolConfig.codec ProtocolConfig.governance ProtocolConfig.Call.upgradeOf
        (ProtocolConfig.machine self) ∧
      InventoryLaw IssuerRegistry.codec IssuerRegistry.governance IssuerRegistry.Call.upgradeOf
        (IssuerRegistry.machine self) ∧
      InventoryLaw ProofRegistry.codec ProofRegistry.governance ProofRegistry.Request.upgradeOf
        (ProofRegistry.machine self) :=
  ⟨ProtocolConfig.inventories.law ProtocolConfig.program_realizes ProtocolConfig.governs self,
    IssuerRegistry.inventories.law IssuerRegistry.program_realizes IssuerRegistry.governs self,
    ProofRegistry.inventories.law ProofRegistry.request_realizes ProofRegistry.governs self⟩

/-- After one accepted approval the instance entry of protocol-config holds a key with a
payload that the inventory does not list, and more keys than it has instance rows. -/
theorem approved_upgrade_uninventoried :
    let self : Address := .mk .contract (.fill 32 11)
    let admin : Address := .mk .account (.fill 32 1)
    let hash : BytesN 32 := .fill 32 7
    let env : Env :=
      { currentContract := self, timestamp := 1, sequence := 1, signed := fun a => a == admin
        installable := fun _ => true, minimumTtl := 4096 }
    let d := ((ProtocolConfig.machine self).run Storage.empty
      [⟨.initializeContract admin, env⟩, ⟨.upgrade (.approveUpgrade hash 2), env⟩]).entries
    (d .inst (.allowedWasm hash)).isSome ∧
      ¬ Listed ProtocolConfig.codec .inst (.allowedWasm hash) ∧
      ProtocolConfig.codec.payload (.allowedWasm hash) ≠ [] ∧
      (namespacesFor "protocol-config" .inst).length = 4 ∧
      5 ≤ {k | (d .inst k).isSome}.encard ∧ ¬ Inventoried ProtocolConfig.codec d := by
  intro self admin hash env d
  let keys : List ProtocolConfig.DataKey :=
    [.admin, .paused, .configVersion, .contractVersion, .allowedWasm hash]
  have hpresent : (keys.all fun k => (d .inst k).isSome) = true := by decide +kernel
  have hmem : ∀ k ∈ keys, (d .inst k).isSome := List.all_eq_true.mp hpresent
  have hallowed : (d .inst (.allowedWasm hash)).isSome := hmem _ (by simp [keys])
  have hunlisted : ¬ Listed ProtocolConfig.codec .inst (.allowedWasm hash) :=
    ProtocolConfig.inventories.unlisted .inst hash
  refine ⟨hallowed, hunlisted, List.cons_ne_nil _ _, by decide, ?_,
    fun hd => hunlisted (hd.listed .inst _ hallowed)⟩
  have hnodup : keys.Nodup := by decide
  calc (5 : ℕ∞)
      = (keys.toFinset : Set ProtocolConfig.DataKey).encard := by
        rw [Set.encard_coe_eq_coe_finsetCard, List.toFinset_card_of_nodup hnodup]
        rfl
    _ ≤ {k | (d .inst k).isSome}.encard :=
        Set.encard_le_encard fun k hk => hmem k (List.mem_toFinset.mp hk)

end EarnProof

import EarnProof.Soroban.Contract
import EarnProof.Upgrade.Governance

/-! The protocol-config contract: admin, pause flag, approved schema versions, and a
counter of configuration changes. -/
namespace EarnProof.ProtocolConfig
open Soroban

/-- The keys of the contract. `allowedWasm` maps an approved build to the version it
installs. -/
inductive DataKey where
  | admin
  | paused
  | configVersion
  | schemaVersion (version : UInt32)
  | allowedWasm (wasmHash : BytesN 32)
  | contractVersion
  deriving DecidableEq

abbrev DataKey.Value : DataKey → Type
  | .admin => Address
  | .paused => Bool
  | .configVersion => UInt32
  | .schemaVersion _ => Bool
  | .allowedWasm _ => UInt32
  | .contractVersion => UInt32

/-- What the contract publishes, one event for each successful change. -/
inductive Event where
  | initialized (admin : Address)
  | adminChanged (newAdmin : Address)
  | paused (paused : Bool)
  | unpaused (paused : Bool)
  | schemaApproved (version : UInt32)
  | schemaDeprecated (version : UInt32)
  | upgrade (e : UpgradeEvent)
  deriving DecidableEq

abbrev Code (ε α : Type) := Program DataKey.Value Event Unit ε α

/-- Where upgrade governance keeps its data. -/
def governance : Governance DataKey.Value where
  admin := ⟨.admin, rfl⟩
  contractVersion := ⟨.contractVersion, rfl⟩
  allowedWasm := fun h => ⟨.allowedWasm h, rfl⟩
  admin_version := by simp
  admin_allowed := by simp
  version_allowed := by simp
  allowed_injective := by simp

@[simp] theorem read_admin (d : Entries DataKey.Value) :
    governance.admin.read d = d .inst .admin := rfl

/-! ### Private helpers -/

def requireValidPrincipal (address : Address) : Code ContractError Unit :=
  requireValid .invalidInput address

/-- Schema versions start at 1; version 0 is never approved. -/
def ensureNonzeroVersion (version : UInt32) : Code ContractError Unit :=
  rejectIf (version == 0) .invalidInput

/-- Keeps a schema flag from being archived. -/
def extendSchemaTtl {ε : Type} (version : UInt32) : Code ε Unit :=
  extendTtl (.schemaVersion version) TTL_THRESHOLD_LEDGERS TTL_EXTEND_TO_LEDGERS

/-- `u32::checked_add` -/
def checkedAdd (a b : UInt32) : Option UInt32 :=
  if a.toNat + b.toNat < UInt32.size then some (a + b) else none

/-- The number of the configuration, zero before the initialization. -/
def getConfigVersion {ε : Type} : Code ε UInt32 := do
  return (← get .inst .configVersion).getD 0

/-- Every change of the configuration counts, and a change that cannot be counted fails. -/
def bumpConfigVersion {ε : Type} : Code ε Unit := do
  let current ← getConfigVersion
  let newVersion ← expect (checkedAdd current 1) "config version overflow: reached maximum"
  set .inst .configVersion newVersion
  extendInstance

/-! ### Entry points -/

/-- Installs the admin, once, with the protocol running. -/
def initializeContract (admin : Address) : Code ContractError Unit := do
  rejectIf (← has .inst .admin) .alreadyInitialized
  requireValidPrincipal admin
  requireAuth admin
  set .inst .admin admin
  set .inst .paused false
  set .inst .configVersion (1 : UInt32)
  set .inst .contractVersion (1 : UInt32)
  extendInstance
  publish (.initialized admin)

/-- The stored admin. -/
def getAdmin : Code ContractError Address := EarnProof.getAdmin governance

/-- The stored admin hands over to another. -/
def setAdmin (newAdmin : Address) : Code ContractError Unit := do
  let admin ← getAdmin
  requireValidPrincipal newAdmin
  requireAuth admin
  set .inst .admin newAdmin
  bumpConfigVersion
  publish (.adminChanged newAdmin)

/-- What the registries ask before they accept a proof. A contract without data is not
paused. -/
def isPaused {ε : Type} : Code ε Bool := do
  return (← get .inst .paused).getD false

/-- `pause` and `unpause` differ in the flag and the event. -/
def setPaused (flag : Bool) (event : Event) : Code ContractError Unit := do
  let admin ← getAdmin
  requireAuth admin
  set .inst .paused flag
  bumpConfigVersion
  publish event

/-- The emergency stop: while it holds no proof is registered. -/
def pause : Code ContractError Unit := setPaused true (.paused true)

/-- Lifts the stop. -/
def unpause : Code ContractError Unit := setPaused false (.unpaused false)

/-- `approve_schema_version` and `deprecate_schema_version` differ in the flag and the
event. -/
def setSchemaVersion (version : UInt32) (flag : Bool) (event : Event) : Code ContractError Unit := do
  let admin ← getAdmin
  requireAuth admin
  ensureNonzeroVersion version
  set .persistent (.schemaVersion version) flag
  extendSchemaTtl version
  bumpConfigVersion
  publish event

/-- Lets proofs of this schema version be registered. -/
def approveSchemaVersion (version : UInt32) : Code ContractError Unit :=
  setSchemaVersion version true (.schemaApproved version)

/-- Proofs of this schema version are registered no more; the flag stays stored. -/
def deprecateSchemaVersion (version : UInt32) : Code ContractError Unit :=
  setSchemaVersion version false (.schemaDeprecated version)

/-- Whether proofs of this version may be registered. A flag that is asked for is kept
alive. -/
def isSchemaVersionApproved {ε : Type} (version : UInt32) : Code ε Bool :=
  if version = 0 then return false
  else do
    let approved := (← get .persistent (.schemaVersion version)).getD false
    if ← has .persistent (.schemaVersion version) then
      extendTtl (.schemaVersion version) TTL_THRESHOLD_LEDGERS TTL_EXTEND_TO_LEDGERS
      return approved
    else
      return approved

/-- The monotonic contract version, which starts at 1 with the initialization. -/
def getContractVersion {ε : Type} : Code ε UInt32 := EarnProof.getContractVersion governance

/-- The admin puts a hash on the allowlist, with the version it is to install: above the one
in force, so that no downgrade is approved. -/
def approveUpgrade {ε : Type} (wasmHash : BytesN 32) (newVersion : UInt32) : Code ε Unit :=
  EarnProof.approveUpgrade governance .upgrade wasmHash newVersion

/-- The admin takes a hash off the allowlist without applying it. The hash need not be on
it. -/
def revokeUpgrade {ε : Type} (wasmHash : BytesN 32) : Code ε Unit :=
  EarnProof.revokeUpgrade governance .upgrade wasmHash

/-- Whether the hash is on the allowlist. -/
def isUpgradeAllowed {ε : Type} (wasmHash : BytesN 32) : Code ε Bool :=
  EarnProof.isUpgradeAllowed governance wasmHash

/-- The admin installs an approved build: the version advances and the approval is consumed.
-/
def upgradeContract {ε : Type} (wasmHash : BytesN 32) : Code ε Unit :=
  EarnProof.upgradeContract governance .upgrade wasmHash

/-- The entry points, with their arguments. -/
inductive Call where
  | initializeContract (admin : Address)
  | getAdmin
  | setAdmin (newAdmin : Address)
  | isPaused
  | pause
  | unpause
  | approveSchemaVersion (version : UInt32)
  | deprecateSchemaVersion (version : UInt32)
  | isSchemaVersionApproved (version : UInt32)
  | getConfigVersion
  | upgrade (call : UpgradeCall)
  deriving DecidableEq

/-- What an entry point runs; its errors become codes and its result a value. -/
def Call.program : Call → Code ErrorCode Value
  | .initializeContract admin => entry ContractError.code (fun _ => .unit) (ProtocolConfig.initializeContract admin)
  | .getAdmin => entry ContractError.code .address ProtocolConfig.getAdmin
  | .setAdmin a => entry ContractError.code (fun _ => .unit) (ProtocolConfig.setAdmin a)
  | .isPaused => entry id .bool ProtocolConfig.isPaused
  | .pause => entry ContractError.code (fun _ => .unit) ProtocolConfig.pause
  | .unpause => entry ContractError.code (fun _ => .unit) ProtocolConfig.unpause
  | .approveSchemaVersion v =>
    entry ContractError.code (fun _ => .unit) (ProtocolConfig.approveSchemaVersion v)
  | .deprecateSchemaVersion v =>
    entry ContractError.code (fun _ => .unit) (ProtocolConfig.deprecateSchemaVersion v)
  | .isSchemaVersionApproved v => entry id .bool (ProtocolConfig.isSchemaVersionApproved v)
  | .getConfigVersion => entry id .u32 ProtocolConfig.getConfigVersion
  | .upgrade .getContractVersion => entry id .u32 getContractVersion
  | .upgrade (.approveUpgrade h v) => entry id (fun _ => .unit) (approveUpgrade h v)
  | .upgrade (.revokeUpgrade h) => entry id (fun _ => .unit) (revokeUpgrade h)
  | .upgrade (.isUpgradeAllowed h) => entry id .bool (isUpgradeAllowed h)
  | .upgrade (.upgradeContract h) => entry id (fun _ => .unit) (upgradeContract h)

/-- The governance calls are those that every contract has. -/
theorem program_upgrade (c : UpgradeCall) :
    (Call.upgrade c).program = c.program governance Event.upgrade := by
  cases c <;> rfl

/-- The contract at address `self`, one invocation at a time. -/
def machine (self : Address) :
    Machine (Invocation Call) (Receipt Event Value) (Storage DataKey.Value) :=
  contractAt Call.program self

end EarnProof.ProtocolConfig

import EarnProof.Soroban.Contract
import EarnProof.Upgrade.Governance

/-! The issuer-registry contract: issuer records by id, and the index from an issuer's
current address back to its id. -/
namespace EarnProof.IssuerRegistry
open Soroban

/-- The keys of the contract. `addressIssuer` is the index, from the current address of an
issuer to its id. -/
inductive DataKey where
  | admin
  | issuer (issuerIdHash : BytesN 32)
  | addressIssuer (address : Address)
  | allowedWasm (wasmHash : BytesN 32)
  | contractVersion
  deriving DecidableEq

abbrev DataKey.Value : DataKey → Type
  | .admin => Address
  | .issuer _ => IssuerRecord
  | .addressIssuer _ => BytesN 32
  | .allowedWasm _ => UInt32
  | .contractVersion => UInt32

/-- What the contract publishes, one event for each successful change after the
initialization. -/
inductive Event where
  | issuerRegistered (issuerIdHash : BytesN 32) (issuerAddress : Address)
      (metadataHash : BytesN 32) (createdAt : UInt64)
  | issuerMetadataUpdated (issuerIdHash metadataHash : BytesN 32) (updatedAt : UInt64)
  | issuerSuspended (issuerIdHash : BytesN 32) (updatedAt : UInt64)
  | issuerReactivated (issuerIdHash : BytesN 32) (updatedAt : UInt64)
  | issuerRevoked (issuerIdHash : BytesN 32) (updatedAt : UInt64)
  /-- Carries both addresses, so an indexer can move its mapping without reading storage. -/
  | issuerAddressRotated (issuerIdHash : BytesN 32) (oldAddress newAddress : Address)
      (updatedAt : UInt64)
  | upgrade (e : UpgradeEvent)
  deriving DecidableEq

abbrev Code (ε α : Type) := Program DataKey.Value Event Unit ε α

/-- Where upgrade governance keeps its data. -/
def governance : Governance DataKey.Value where
  admin := ⟨.admin, rfl⟩
  contractVersion := ⟨.contractVersion, rfl⟩
  allowedWasm := fun h => ⟨.allowedWasm h, rfl⟩
  admin_version := by simp
  admin_allowed := by simp
  version_allowed := by simp
  allowed_injective := by simp

@[simp] theorem read_admin (d : Entries DataKey.Value) :
    governance.admin.read d = d .inst .admin := rfl

/-! ### Private helpers -/

def requireValidAdmin (address : Address) : Code ContractError Unit :=
  requireValid .invalidInput address

def requireValidIssuerAddress (address : Address) : Code IssuerError Unit :=
  requireValid .invalidAddress address

/-- Keeps an entry from being archived. -/
def extendIssuerKeyTtl {ε : Type} (key : DataKey) : Code ε Unit :=
  extendTtl key TTL_THRESHOLD_LEDGERS TTL_EXTEND_TO_LEDGERS

def extendIssuerTtl {ε : Type} (issuerIdHash : BytesN 32) : Code ε Unit :=
  extendIssuerKeyTtl (.issuer issuerIdHash)

def extendAddressTtl {ε : Type} (issuerAddress : Address) : Code ε Unit :=
  extendTtl (.addressIssuer issuerAddress) TTL_THRESHOLD_LEDGERS TTL_EXTEND_TO_LEDGERS

/-! ### Entry points -/

/-- Installs the admin, once. Nothing is published. -/
def initializeContract (admin : Address) : Code ContractError Unit := do
  rejectIf (← has .inst .admin) .alreadyInitialized
  requireValidAdmin admin
  requireAuth admin
  set .inst .admin admin
  set .inst .contractVersion (1 : UInt32)
  extendInstance

/-- The stored admin. -/
def getAdmin : Code ContractError Address := EarnProof.getAdmin governance

/-- The admin lets in an issuer, under an id and an address that no other has. A contract
without an admin answers `IssuerNotFound`, here and in every change below. -/
def registerIssuer (issuerIdHash : BytesN 32) (issuerAddress : Address)
    (metadataHash : BytesN 32) : Code IssuerError Unit := do
  let admin ← mapErr getAdmin fun _ => .issuerNotFound
  requireValidIssuerAddress issuerAddress
  requireAuth admin
  rejectIf (← has .persistent (.issuer issuerIdHash)) .issuerAlreadyRegistered
  rejectIf (← has .persistent (.addressIssuer issuerAddress)) .issuerAddressAlreadyRegistered
  let now ← timestamp
  let record : IssuerRecord :=
    { issuerIdHash, issuerAddress, metadataHash
      status := .active, createdAt := now, updatedAt := now }
  set .persistent (.issuer issuerIdHash) record
  set .persistent (.addressIssuer issuerAddress) issuerIdHash
  extendIssuerTtl issuerIdHash
  extendAddressTtl issuerAddress
  publish (.issuerRegistered issuerIdHash issuerAddress metadataHash now)

/-- Replaces the hash of an issuer's public metadata, unless the issuer is revoked. -/
def updateIssuer (issuerIdHash metadataHash : BytesN 32) : Code IssuerError Unit := do
  let admin ← mapErr getAdmin fun _ => .issuerNotFound
  requireAuth admin
  let record : IssuerRecord ← okOr (← get .persistent (.issuer issuerIdHash)) .issuerNotFound
  rejectIf (record.status == .revoked) .issuerRevoked
  let now ← timestamp
  set .persistent (.issuer issuerIdHash) {record with metadataHash, updatedAt := now}
  extendIssuerKeyTtl (.issuer issuerIdHash)
  publish (.issuerMetadataUpdated issuerIdHash metadataHash now)

/-- The event that announces a status. -/
def statusEvent (issuerIdHash : BytesN 32) (updatedAt : UInt64) : IssuerStatus → Event
  | .active => .issuerReactivated issuerIdHash updatedAt
  | .suspended => .issuerSuspended issuerIdHash updatedAt
  | .revoked => .issuerRevoked issuerIdHash updatedAt

/-- The change behind the three that follow. A revoked issuer takes no other status. -/
def setStatus (issuerIdHash : BytesN 32) (status : IssuerStatus) : Code IssuerError Unit := do
  let admin ← mapErr getAdmin fun _ => .issuerNotFound
  requireAuth admin
  let record : IssuerRecord ← okOr (← get .persistent (.issuer issuerIdHash)) .issuerNotFound
  rejectIf (record.status == .revoked && status != .revoked) .invalidTransition
  let now ← timestamp
  set .persistent (.issuer issuerIdHash) {record with status, updatedAt := now}
  extendIssuerKeyTtl (.issuer issuerIdHash)
  publish (statusEvent issuerIdHash now status)

/-- Suspends an issuer: its address is not active until it is reactivated. -/
def suspendIssuer (issuerIdHash : BytesN 32) : Code IssuerError Unit :=
  setStatus issuerIdHash .suspended

/-- Ends a suspension. -/
def reactivateIssuer (issuerIdHash : BytesN 32) : Code IssuerError Unit :=
  setStatus issuerIdHash .active

/-- Revokes an issuer, for good. -/
def revokeIssuer (issuerIdHash : BytesN 32) : Code IssuerError Unit :=
  setStatus issuerIdHash .revoked

/-- Moves an issuer to an address that no issuer holds, and its index entry with it. The old
address is released. -/
def rotateIssuerAddress (issuerIdHash : BytesN 32) (newAddress : Address) :
    Code IssuerError Unit := do
  let admin ← mapErr getAdmin fun _ => .issuerNotFound
  requireValidIssuerAddress newAddress
  requireAuth admin
  let record : IssuerRecord ← okOr (← get .persistent (.issuer issuerIdHash)) .issuerNotFound
  rejectIf (record.status == .revoked) .issuerRevoked
  rejectIf (newAddress == record.issuerAddress) .invalidAddress
  rejectIf (← has .persistent (.addressIssuer newAddress)) .issuerAddressAlreadyRegistered
  remove .persistent (.addressIssuer record.issuerAddress)
  let now ← timestamp
  set .persistent (.issuer issuerIdHash) {record with issuerAddress := newAddress, updatedAt := now}
  set .persistent (.addressIssuer newAddress) issuerIdHash
  extendIssuerKeyTtl (.issuer issuerIdHash)
  extendAddressTtl newAddress
  publish (.issuerAddressRotated issuerIdHash record.issuerAddress newAddress now)

/-- The record of an id, which is kept alive. -/
def getIssuer (issuerIdHash : BytesN 32) : Code IssuerError IssuerRecord := do
  let record : IssuerRecord ← okOr (← get .persistent (.issuer issuerIdHash)) .issuerNotFound
  extendIssuerKeyTtl (.issuer issuerIdHash)
  return record

/-- Whether the id is of an active issuer. -/
def isActiveIssuer {ε : Type} (issuerIdHash : BytesN 32) : Code ε Bool := do
  match ← attempt (getIssuer issuerIdHash) with
  | .ok record => return record.status == .active
  | .error _ => return false

/-- What the proof registry asks of the address that signs a registration. The record is
kept alive, the index entry is not. -/
def isActiveAddress {ε : Type} (issuerAddress : Address) : Code ε Bool := do
  let issuerIdHash ← get .persistent (DataKey.addressIssuer issuerAddress)
  match issuerIdHash with
  | some id => isActiveIssuer id
  | none => return false

/-- The record behind an address. The index entry is kept alive, the record is not. -/
def getIssuerByAddress (issuerAddress : Address) : Code IssuerError IssuerRecord := do
  let issuerIdHash : BytesN 32 ←
    okOr (← get .persistent (.addressIssuer issuerAddress)) .issuerAddressNotFound
  let record : IssuerRecord ← okOr (← get .persistent (.issuer issuerIdHash)) .issuerNotFound
  extendAddressTtl issuerAddress
  return record

/-- The monotonic contract version, which starts at 1 with the initialization. -/
def getContractVersion {ε : Type} : Code ε UInt32 := EarnProof.getContractVersion governance

/-- The admin puts a hash on the allowlist, with the version it is to install: above the one
in force, so that no downgrade is approved. -/
def approveUpgrade {ε : Type} (wasmHash : BytesN 32) (newVersion : UInt32) : Code ε Unit :=
  EarnProof.approveUpgrade governance .upgrade wasmHash newVersion

/-- The admin takes a hash off the allowlist without applying it. The hash need not be on
it. -/
def revokeUpgrade {ε : Type} (wasmHash : BytesN 32) : Code ε Unit :=
  EarnProof.revokeUpgrade governance .upgrade wasmHash

/-- Whether the hash is on the allowlist. -/
def isUpgradeAllowed {ε : Type} (wasmHash : BytesN 32) : Code ε Bool :=
  EarnProof.isUpgradeAllowed governance wasmHash

/-- The admin installs an approved build: the version advances and the approval is consumed.
-/
def upgradeContract {ε : Type} (wasmHash : BytesN 32) : Code ε Unit :=
  EarnProof.upgradeContract governance .upgrade wasmHash

/-- The entry points, with their arguments. -/
inductive Call where
  | initializeContract (admin : Address)
  | getAdmin
  | registerIssuer (issuerIdHash : BytesN 32) (issuerAddress : Address) (metadataHash : BytesN 32)
  | updateIssuer (issuerIdHash metadataHash : BytesN 32)
  | suspendIssuer (issuerIdHash : BytesN 32)
  | reactivateIssuer (issuerIdHash : BytesN 32)
  | revokeIssuer (issuerIdHash : BytesN 32)
  | rotateIssuerAddress (issuerIdHash : BytesN 32) (newAddress : Address)
  | getIssuer (issuerIdHash : BytesN 32)
  | isActiveIssuer (issuerIdHash : BytesN 32)
  | isActiveAddress (issuerAddress : Address)
  | getIssuerByAddress (issuerAddress : Address)
  | upgrade (call : UpgradeCall)
  deriving DecidableEq

/-- What an entry point runs; its errors become codes and its result a value. -/
def Call.program : Call → Code ErrorCode Value
  | .initializeContract admin =>
    entry ContractError.code (fun _ => .unit) (IssuerRegistry.initializeContract admin)
  | .getAdmin => entry ContractError.code .address IssuerRegistry.getAdmin
  | .registerIssuer id a m =>
    entry IssuerError.code (fun _ => .unit) (IssuerRegistry.registerIssuer id a m)
  | .updateIssuer id m => entry IssuerError.code (fun _ => .unit) (IssuerRegistry.updateIssuer id m)
  | .suspendIssuer id => entry IssuerError.code (fun _ => .unit) (IssuerRegistry.suspendIssuer id)
  | .reactivateIssuer id =>
    entry IssuerError.code (fun _ => .unit) (IssuerRegistry.reactivateIssuer id)
  | .revokeIssuer id => entry IssuerError.code (fun _ => .unit) (IssuerRegistry.revokeIssuer id)
  | .rotateIssuerAddress id a =>
    entry IssuerError.code (fun _ => .unit) (IssuerRegistry.rotateIssuerAddress id a)
  | .getIssuer id => entry IssuerError.code .issuer (IssuerRegistry.getIssuer id)
  | .isActiveIssuer issuer => entry id .bool (IssuerRegistry.isActiveIssuer issuer)
  | .isActiveAddress a => entry id .bool (IssuerRegistry.isActiveAddress a)
  | .getIssuerByAddress a => entry IssuerError.code .issuer (IssuerRegistry.getIssuerByAddress a)
  | .upgrade .getContractVersion => entry id .u32 getContractVersion
  | .upgrade (.approveUpgrade h v) => entry id (fun _ => .unit) (approveUpgrade h v)
  | .upgrade (.revokeUpgrade h) => entry id (fun _ => .unit) (revokeUpgrade h)
  | .upgrade (.isUpgradeAllowed h) => entry id .bool (isUpgradeAllowed h)
  | .upgrade (.upgradeContract h) => entry id (fun _ => .unit) (upgradeContract h)

/-- The governance calls are those that every contract has. -/
theorem program_upgrade (c : UpgradeCall) :
    (Call.upgrade c).program = c.program governance Event.upgrade := by
  cases c <;> rfl

/-- The contract at address `self`, one invocation at a time. -/
def machine (self : Address) :
    Machine (Invocation Call) (Receipt Event Value) (Storage DataKey.Value) :=
  contractAt Call.program self

end EarnProof.IssuerRegistry

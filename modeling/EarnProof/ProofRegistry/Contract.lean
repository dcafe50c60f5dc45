import EarnProof.Soroban.Contract
import EarnProof.Upgrade.Governance

/-! The proof-registry contract: proof records by id, registered under the answers of
two other contracts.

The dependencies are called through `Clients`, which may answer anything, differently
on each call, fail, and change the world `W` they live in. -/
namespace EarnProof.ProofRegistry
open Soroban

/-- The keys of the contract. `issuerRegistry` and `protocolConfig` hold the addresses of
the contracts it depends on. -/
inductive DataKey where
  | admin
  | issuerRegistry
  | protocolConfig
  | proof (proofIdHash : BytesN 32)
  | allowedWasm (wasmHash : BytesN 32)
  | contractVersion
  deriving DecidableEq

abbrev DataKey.Value : DataKey → Type
  | .admin => Address
  | .issuerRegistry => Address
  | .protocolConfig => Address
  | .proof _ => ProofRecord
  | .allowedWasm _ => UInt32
  | .contractVersion => UInt32

/-- The contract publishes upgrade events only. -/
abbrev Event := UpgradeEvent

/-- The client methods, by the address they are sent to. -/
structure Clients (W : Type) where
  isPaused : Address → Env → W → Except Abort Bool × W
  isSchemaVersionApproved : Address → UInt32 → Env → W → Except Abort Bool × W
  isActiveAddress : Address → Address → Env → W → Except Abort Bool × W

abbrev Code (W ε α : Type) := Program DataKey.Value Event W ε α

/-- Where upgrade governance keeps its data. -/
def governance : Governance DataKey.Value where
  admin := ⟨.admin, rfl⟩
  contractVersion := ⟨.contractVersion, rfl⟩
  allowedWasm := fun h => ⟨.allowedWasm h, rfl⟩
  admin_version := by simp
  admin_allowed := by simp
  version_allowed := by simp
  allowed_injective := by simp

@[simp] theorem read_admin (d : Entries DataKey.Value) :
    governance.admin.read d = d .inst .admin := rfl

section Programs
variable {W ε : Type}

/-! ### Private helpers -/

def requireValidPrincipal (address : Address) : Code W ContractError Unit :=
  requireValid .invalidInput address

def requireValidIssuerAddress (address : Address) : Code W ProofError Unit :=
  requireValid .invalidAddress address

/-- The dependencies are two other contracts, each at an address of its own. -/
def validateDependencyAddresses (issuerRegistry protocolConfig : Address) :
    Code W ContractError Unit := do
  rejectIf (!isValidPrincipalAddress issuerRegistry || !isValidPrincipalAddress protocolConfig)
    .invalidInput
  let current ← currentContractAddress
  rejectIf (issuerRegistry == current || protocolConfig == current ||
    issuerRegistry == protocolConfig) .invalidInput

/-- Keeps a proof from being archived. -/
def extendProofKeyTtl (key : DataKey) : Code W ε Unit :=
  extendTtl key TTL_THRESHOLD_LEDGERS TTL_EXTEND_TO_LEDGERS

/-! ### Entry points -/

/-- Installs the admin and the dependencies, once. Nothing is published. -/
def initializeContract (admin issuerRegistry protocolConfig : Address) :
    Code W ContractError Unit := do
  rejectIf (← has .inst .admin) .alreadyInitialized
  requireValidPrincipal admin
  validateDependencyAddresses issuerRegistry protocolConfig
  requireAuth admin
  set .inst .admin admin
  set .inst .issuerRegistry issuerRegistry
  set .inst .protocolConfig protocolConfig
  set .inst .contractVersion (1 : UInt32)
  extendInstance

/-- The stored admin. -/
def getAdmin : Code W ContractError Address := EarnProof.getAdmin governance

def getIssuerRegistry : Code W ContractError Address := do
  okOr (← get .inst DataKey.issuerRegistry) .notInitialized

def getProtocolConfig : Code W ContractError Address := do
  okOr (← get .inst DataKey.protocolConfig) .notInitialized

/-- An issuer commits to a proof under a new id. It signs for itself: the protocol runs, the
schema version is approved and its address is active, as the dependencies answer now. -/
def registerProof (clients : Clients W) (proofIdHash commitmentHash : BytesN 32)
    (issuerAddress : Address) (schemaVersion : UInt32) (expiresAt : UInt64) :
    Code W ProofError Unit := do
  requireValidIssuerAddress issuerAddress
  let protocolConfig ← mapErr getProtocolConfig fun _ => .proofNotFound
  let issuerRegistry ← mapErr getIssuerRegistry fun _ => .proofNotFound
  let current ← currentContractAddress
  rejectIf (issuerAddress == current || issuerAddress == protocolConfig ||
    issuerAddress == issuerRegistry) .invalidAddress
  requireAuth issuerAddress
  rejectIf (schemaVersion == 0) .invalidSchemaVersion
  let start ← timestamp
  rejectIf (expiresAt ≤ start) .proofExpired
  let protocolConfig ← mapErr getProtocolConfig fun _ => .proofNotFound
  -- A paused protocol and an inactive issuer both answer `InvalidSchemaVersion`.
  rejectIf (← callContract (clients.isPaused protocolConfig)) .invalidSchemaVersion
  rejectIf (!(← callContract (clients.isSchemaVersionApproved protocolConfig schemaVersion)))
    .schemaVersionNotApproved
  let issuerRegistry ← mapErr getIssuerRegistry fun _ => .proofNotFound
  rejectIf (!(← callContract (clients.isActiveAddress issuerRegistry issuerAddress)))
    .invalidSchemaVersion
  rejectIf (← has .persistent (.proof proofIdHash)) .proofAlreadyRegistered
  let now ← timestamp
  let record : ProofRecord :=
    { proofIdHash, commitmentHash, issuerAddress, status := .active, schemaVersion, expiresAt
      createdAt := now, revokedAt := 0 }
  set .persistent (.proof proofIdHash) record
  extendProofKeyTtl (.proof proofIdHash)

/-- The change behind the two that follow, signed by the issuer of the record or by the
admin. A proof is revoked once. -/
def setRevoked (proofIdHash : BytesN 32) (byAdmin : Bool) : Code W ProofError Unit := do
  let record : ProofRecord ← okOr (← get .persistent (.proof proofIdHash)) .proofNotFound
  if byAdmin then
    let admin ← mapErr getAdmin fun _ => .proofNotFound
    requireAuth admin
  else
    requireAuth record.issuerAddress
  rejectIf (record.status == .revoked) .proofAlreadyRevoked
  let now ← timestamp
  set .persistent (.proof proofIdHash) {record with status := .revoked, revokedAt := now}
  extendProofKeyTtl (.proof proofIdHash)

/-- The issuer revokes its proof. -/
def revokeProof (proofIdHash : BytesN 32) : Code W ProofError Unit := setRevoked proofIdHash false

/-- The admin revokes a proof, whoever issued it. -/
def adminRevokeProof (proofIdHash : BytesN 32) : Code W ProofError Unit :=
  setRevoked proofIdHash true

/-- The record of an id, which is kept alive. -/
def getProof (proofIdHash : BytesN 32) : Code W ProofError ProofRecord := do
  let record : ProofRecord ← okOr (← get .persistent (.proof proofIdHash)) .proofNotFound
  extendProofKeyTtl (.proof proofIdHash)
  return record

/-- What a verifier asks: the proof is there, not revoked and not past its expiration. Its
issuer is not asked again. -/
def isValidProof (proofIdHash : BytesN 32) : Code W ε Bool := do
  match ← attempt (getProof proofIdHash) with
  | .ok record => return record.status == .active && decide ((← timestamp) ≤ record.expiresAt)
  | .error _ => return false

/-- Whether a proof is there and revoked. -/
def isRevoked (proofIdHash : BytesN 32) : Code W ε Bool := do
  match ← attempt (getProof proofIdHash) with
  | .ok record => return record.status == .revoked
  | .error _ => return false

/-- The monotonic contract version, which starts at 1 with the initialization. -/
def getContractVersion : Code W ε UInt32 := EarnProof.getContractVersion governance

/-- The admin puts a hash on the allowlist, with the version it is to install: above the one
in force, so that no downgrade is approved. -/
def approveUpgrade (wasmHash : BytesN 32) (newVersion : UInt32) : Code W ε Unit :=
  EarnProof.approveUpgrade governance id wasmHash newVersion

/-- The admin takes a hash off the allowlist without applying it. The hash need not be on
it. -/
def revokeUpgrade (wasmHash : BytesN 32) : Code W ε Unit :=
  EarnProof.revokeUpgrade governance id wasmHash

/-- Whether the hash is on the allowlist. -/
def isUpgradeAllowed (wasmHash : BytesN 32) : Code W ε Bool :=
  EarnProof.isUpgradeAllowed governance wasmHash

/-- The admin installs an approved build: the version advances and the approval is consumed.
-/
def upgradeContract (wasmHash : BytesN 32) : Code W ε Unit :=
  EarnProof.upgradeContract governance id wasmHash

end Programs

/-- The entry points, with their arguments. -/
inductive Call where
  | initializeContract (admin issuerRegistry protocolConfig : Address)
  | registerProof (proofIdHash commitmentHash : BytesN 32) (issuerAddress : Address)
      (schemaVersion : UInt32) (expiresAt : UInt64)
  | revokeProof (proofIdHash : BytesN 32)
  | adminRevokeProof (proofIdHash : BytesN 32)
  | getProof (proofIdHash : BytesN 32)
  | isValidProof (proofIdHash : BytesN 32)
  | isRevoked (proofIdHash : BytesN 32)
  | getAdmin
  | getIssuerRegistry
  | getProtocolConfig
  | upgrade (call : UpgradeCall)
  deriving DecidableEq

/-- What an entry point runs; its errors become codes and its result a value. -/
def Call.program {W : Type} (clients : Clients W) : Call → Code W ErrorCode Value
  | .initializeContract a i p =>
    entry ContractError.code (fun _ => .unit) (ProofRegistry.initializeContract a i p)
  | .registerProof i c a v e =>
    entry ProofError.code (fun _ => .unit) (ProofRegistry.registerProof clients i c a v e)
  | .revokeProof i => entry ProofError.code (fun _ => .unit) (ProofRegistry.revokeProof i)
  | .adminRevokeProof i => entry ProofError.code (fun _ => .unit) (ProofRegistry.adminRevokeProof i)
  | .getProof i => entry ProofError.code .proof (ProofRegistry.getProof i)
  | .isValidProof i => entry id .bool (ProofRegistry.isValidProof i)
  | .isRevoked i => entry id .bool (ProofRegistry.isRevoked i)
  | .getAdmin => entry ContractError.code .address ProofRegistry.getAdmin
  | .getIssuerRegistry => entry ContractError.code .address ProofRegistry.getIssuerRegistry
  | .getProtocolConfig => entry ContractError.code .address ProofRegistry.getProtocolConfig
  | .upgrade .getContractVersion => entry id .u32 getContractVersion
  | .upgrade (.approveUpgrade h v) => entry id (fun _ => .unit) (approveUpgrade h v)
  | .upgrade (.revokeUpgrade h) => entry id (fun _ => .unit) (revokeUpgrade h)
  | .upgrade (.isUpgradeAllowed h) => entry id .bool (isUpgradeAllowed h)
  | .upgrade (.upgradeContract h) => entry id (fun _ => .unit) (upgradeContract h)

/-- The governance calls are those that every contract has. -/
theorem program_upgrade {W : Type} (clients : Clients W) (c : UpgradeCall) :
    (Call.upgrade c).program clients = c.program governance id := by
  cases c <;> rfl

/-- A call together with how the dependencies will answer it. -/
structure Request where
  call : Call
  clients : Clients Unit

/-- The contract at address `self`, one invocation at a time, with dependencies that
may answer each invocation in any way. -/
def machine (self : Address) :
    Machine (Invocation Request) (Receipt Event Value) (Storage DataKey.Value) :=
  contractAt (fun r => r.call.program r.clients) self

end EarnProof.ProofRegistry

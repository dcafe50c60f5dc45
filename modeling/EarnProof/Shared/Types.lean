import EarnProof.Soroban.Program

/-! Constants, error codes, records and address validation shared by the contracts. -/
namespace EarnProof
open Soroban

def TTL_THRESHOLD_LEDGERS : Nat := 50000

/-- Target ledgers for extended TTL. -/
def TTL_EXTEND_TO_LEDGERS : Nat := 500000

/-- `u32::MAX` -/
def u32Max : UInt32 := 4294967295

theorem le_u32Max (n : UInt32) : n ≤ u32Max := by
  rw [UInt32.le_iff_toNat_le]
  exact Nat.le_of_lt_succ n.toNat_lt

theorem toNat_lt_of_ne_u32Max {n : UInt32} (h : n ≠ u32Max) : n.toNat + 1 < UInt32.size := by
  have hne : n.toNat ≠ 4294967295 := fun heq => h (UInt32.toNat_inj.mp heq)
  have hlt := n.toNat_lt
  simp only [UInt32.size]
  omega

/-- A version below the last has the next one above it. -/
theorem lt_succ_of_ne_u32Max {n : UInt32} (h : n ≠ u32Max) : n < n + 1 := by
  have hlt := toNat_lt_of_ne_u32Max h
  simp only [UInt32.size] at hlt
  rw [UInt32.lt_iff_toNat_lt, UInt32.toNat_add]
  simp only [UInt32.toNat_one]
  omega

/-! ### Addresses -/

def STRKEY_ADDRESS_LEN : Nat := 56

/-- The text of an address in a buffer of fixed length; left zero when it does not fit. -/
def addressBytes (address : Address) : List UInt8 :=
  let value := address.toString
  if value.length = STRKEY_ADDRESS_LEN then value else List.replicate STRKEY_ADDRESS_LEN 0

/-- The text of the account with 32 zero bytes. -/
def ZERO_PAYLOAD_STRKEY : List UInt8 :=
  "GAAAAAAAAAAAAAAAAAAAAAAAAAAAAAAAAAAAAAAAAAAAAAAAAAAAAWHF".toList.map fun c => .ofNat c.toNat

def isZeroOrSentinelAddress (address : Address) : Bool :=
  addressBytes address == ZERO_PAYLOAD_STRKEY

def isValidPrincipalAddress (address : Address) : Bool :=
  let value := address.toString
  if value.isEmpty || value.length != STRKEY_ADDRESS_LEN then false
  else if isZeroOrSentinelAddress address then false
  -- b'A'..=b'Z' | b'2'..=b'7'
  else (addressBytes address).all fun byte => (65 ≤ byte && byte ≤ 90) || (50 ≤ byte && byte ≤ 55)

/-! ### Errors -/

/-- Common errors (1-99). -/
inductive ContractError where
  | alreadyInitialized
  | notInitialized
  | unauthorized
  | alreadyExists
  | notFound
  | invalidState
  | invalidInput
  | invalidAddress
  | protocolPaused
  deriving DecidableEq

def ContractError.code : ContractError → ErrorCode
  | .alreadyInitialized => 1
  | .notInitialized => 2
  | .unauthorized => 20
  | .alreadyExists => 40
  | .notFound => 41
  | .invalidState => 42
  | .invalidInput => 60
  | .invalidAddress => 61
  | .protocolPaused => 80

/-- The name of the variant, as `{:?}` prints it. -/
def ContractError.debug : ContractError → String
  | .alreadyInitialized => "AlreadyInitialized"
  | .notInitialized => "NotInitialized"
  | .unauthorized => "Unauthorized"
  | .alreadyExists => "AlreadyExists"
  | .notFound => "NotFound"
  | .invalidState => "InvalidState"
  | .invalidInput => "InvalidInput"
  | .invalidAddress => "InvalidAddress"
  | .protocolPaused => "ProtocolPaused"

/-- Issuer-specific errors (200-299). -/
inductive IssuerError where
  | issuerAlreadyRegistered
  | issuerNotFound
  | issuerAddressAlreadyRegistered
  | issuerAddressNotFound
  | issuerRevoked
  | issuerInactive
  | invalidTransition
  | invalidAddress
  deriving DecidableEq

def IssuerError.code : IssuerError → ErrorCode
  | .issuerAlreadyRegistered => 200
  | .issuerNotFound => 201
  | .issuerAddressAlreadyRegistered => 202
  | .issuerAddressNotFound => 203
  | .issuerRevoked => 204
  | .issuerInactive => 205
  | .invalidTransition => 206
  | .invalidAddress => 207

/-- Proof-specific errors (300-399). -/
inductive ProofError where
  | proofAlreadyRegistered
  | proofNotFound
  | proofAlreadyRevoked
  | proofExpired
  | invalidSchemaVersion
  | schemaVersionNotApproved
  | invalidAddress
  deriving DecidableEq

def ProofError.code : ProofError → ErrorCode
  | .proofAlreadyRegistered => 300
  | .proofNotFound => 301
  | .proofAlreadyRevoked => 302
  | .proofExpired => 303
  | .invalidSchemaVersion => 304
  | .schemaVersionNotApproved => 305
  | .invalidAddress => 306

/-! ### Records -/

inductive IssuerStatus where
  | active
  | suspended
  | revoked
  deriving DecidableEq

inductive ProofStatus where
  | active
  | revoked
  deriving DecidableEq

structure IssuerRecord where
  issuerIdHash : BytesN 32
  issuerAddress : Address
  metadataHash : BytesN 32
  status : IssuerStatus
  createdAt : UInt64
  updatedAt : UInt64
  deriving DecidableEq

structure ProofRecord where
  proofIdHash : BytesN 32
  commitmentHash : BytesN 32
  issuerAddress : Address
  status : ProofStatus
  schemaVersion : UInt32
  expiresAt : UInt64
  createdAt : UInt64
  revokedAt : UInt64
  deriving DecidableEq

/-- What an entry point returns. -/
inductive Value where
  | unit
  | bool (b : Bool)
  | u32 (n : UInt32)
  | address (a : Address)
  | issuer (r : IssuerRecord)
  | proof (r : ProofRecord)
  deriving DecidableEq

end EarnProof

import EarnProof.Shared.Types
import Mathlib.Data.List.Nodup

/-! The published errors: what each code means to a caller, and how a client treats a
code it meets, known or not. -/
namespace EarnProof.ErrorCatalog
open Soroban

/-- Whether a code is returned by the current release. -/
inductive Status where
  | returned
  | reserved
  deriving DecidableEq

/-- Whether retrying the same call can ever succeed. -/
inductive Retry where
  /-- Retrying it unchanged will fail identically, forever. -/
  | never
  /-- The call succeeds once an operator or admin changes protocol state. -/
  | afterOperatorAction
  /-- The call succeeds if the caller changes the request. -/
  | afterCallerChange
  deriving DecidableEq

/-- Which contract or shared range a code belongs to. -/
inductive Domain where
  | common
  | protocolConfig
  | issuerRegistry
  | proofRegistry
  | unallocated
  deriving DecidableEq

/-- One published error. -/
structure ErrorSpec where
  code : ErrorCode
  name : String
  enumName : String
  domain : Domain
  status : Status
  cause : String
  retry : Retry
  remediation : String
  httpStatus : UInt16
  clientMessage : String
  deriving DecidableEq

/-- Every published error, ordered by code. -/
def ERROR_CATALOG : List ErrorSpec :=
  [ { code := 1
      name := "AlreadyInitialized"
      enumName := "ContractError"
      domain := .common
      status := .returned
      cause := "initialize was called on a contract that already has an admin."
      retry := .never
      remediation := "Treat the deployment as already provisioned. Verify the recorded admin " ++
        "before assuming the deployment is the one you expected."
      httpStatus := 409
      clientMessage := "Contract is already initialized" },
    { code := 2
      name := "NotInitialized"
      enumName := "ContractError"
      domain := .common
      status := .returned
      cause := "A call read instance state on a contract that was never initialized."
      retry := .afterOperatorAction
      remediation := "Initialize the contract, or point the client at the correct deployed " ++
        "address. Do not retry against the same uninitialized contract."
      httpStatus := 500
      clientMessage := "Service temporarily unavailable" },
    { code := 20
      name := "Unauthorized"
      enumName := "ContractError"
      domain := .common
      status := .reserved
      cause := "Reserved for an explicit authorization rejection. The contracts currently " ++
        "enforce authorization through require_auth, which aborts the invocation with a host " ++
        "authorization error rather than returning this code."
      retry := .never
      remediation := "Sign with the address the operation requires. Clients must treat a host " ++
        "authorization abort and this code as the same outcome, and neither reveals which " ++
        "address would have been accepted."
      httpStatus := 403
      clientMessage := "Insufficient permissions" },
    { code := 40
      name := "AlreadyExists"
      enumName := "ContractError"
      domain := .common
      status := .reserved
      cause := "Reserved for a generic duplicate-write rejection. The registries return their " ++
        "own specific codes instead: 200, 202, and 300."
      retry := .never
      remediation := "Read the existing record instead of rewriting it. Handle the specific " ++
        "codes 200, 202, and 300, and treat this one as a forward-compatible synonym."
      httpStatus := 409
      clientMessage := "Resource already exists" },
    { code := 41
      name := "NotFound"
      enumName := "ContractError"
      domain := .common
      status := .reserved
      cause := "Reserved for a generic missing-record rejection. The registries return their " ++
        "own specific codes instead: 201, 203, and 301."
      retry := .afterCallerChange
      remediation := "Confirm the identifier hash was derived with the documented hashing " ++
        "rules. Handle the specific codes 201, 203, and 301, and treat this one as a " ++
        "forward-compatible synonym."
      httpStatus := 404
      clientMessage := "Resource not found" },
    { code := 42
      name := "InvalidState"
      enumName := "ContractError"
      domain := .common
      status := .reserved
      cause := "Reserved for a generic lifecycle rejection. The issuer registry returns 204 and " ++
        "206 instead, and the proof registry returns 302."
      retry := .never
      remediation := "Read the current status and choose an operation the lifecycle allows. " ++
        "Handle the specific codes 204, 206, and 302, and treat this one as a " ++
        "forward-compatible synonym."
      httpStatus := 400
      clientMessage := "Operation not permitted in current state" },
    { code := 60
      name := "InvalidInput"
      enumName := "ContractError"
      domain := .common
      status := .returned
      cause := "An argument failed validation, such as a zero schema version."
      retry := .afterCallerChange
      remediation := "Correct the argument. Retrying the identical request will fail identically."
      httpStatus := 400
      clientMessage := "Invalid input provided" },
    { code := 80
      name := "ProtocolPaused"
      enumName := "ContractError"
      domain := .common
      status := .reserved
      cause := "Reserved for the pause rejection. A paused protocol is currently reported by " ++
        "the proof registry as 304, not as this code."
      retry := .afterOperatorAction
      remediation := "Poll is_paused rather than waiting for this code: a paused protocol " ++
        "surfaces as 304 in the current release. Treat both as the same operator-action outcome."
      httpStatus := 503
      clientMessage := "Service temporarily paused" },
    { code := 200
      name := "IssuerAlreadyRegistered"
      enumName := "IssuerError"
      domain := .issuerRegistry
      status := .returned
      cause := "register_issuer was called with an issuer_id_hash that already has a record."
      retry := .never
      remediation := "Use update_issuer to change metadata, or rotate_issuer_address to change " ++
        "the address. Registration is one-time per identifier."
      httpStatus := 409
      clientMessage := "Issuer already registered" },
    { code := 201
      name := "IssuerNotFound"
      enumName := "IssuerError"
      domain := .issuerRegistry
      status := .returned
      cause := "A call referenced an issuer_id_hash with no record, or the registry has no " ++
        "admin yet."
      retry := .afterCallerChange
      remediation := "Register the issuer first, or confirm the identifier hash. If the " ++
        "registry is uninitialized, every call returns this code until an admin is set."
      httpStatus := 404
      clientMessage := "Issuer not found" },
    { code := 202
      name := "IssuerAddressAlreadyRegistered"
      enumName := "IssuerError"
      domain := .issuerRegistry
      status := .returned
      cause := "A registration or rotation targeted a Stellar address already bound to an issuer."
      retry := .never
      remediation := "Choose an unused address. An address maps to at most one issuer so that " ++
        "address-based lookups stay unambiguous."
      httpStatus := 409
      clientMessage := "Issuer address already registered" },
    { code := 203
      name := "IssuerAddressNotFound"
      enumName := "IssuerError"
      domain := .issuerRegistry
      status := .returned
      cause := "An address lookup found no entry in the reverse index."
      retry := .afterCallerChange
      remediation := "The address is not a registered issuer. Note that a rotated-away address " ++
        "returns this code, because the old index entry is removed."
      httpStatus := 404
      clientMessage := "Issuer address not found" },
    { code := 204
      name := "IssuerRevoked"
      enumName := "IssuerError"
      domain := .issuerRegistry
      status := .returned
      cause := "The operation targeted an issuer whose status is Revoked."
      retry := .never
      remediation := "Revocation is terminal. Register a new issuer identifier if the party is " ++
        "to be readmitted."
      httpStatus := 403
      clientMessage := "Issuer has been revoked" },
    { code := 205
      name := "IssuerInactive"
      enumName := "IssuerError"
      domain := .issuerRegistry
      status := .reserved
      cause := "Reserved for the suspended-issuer rejection. A suspended issuer is currently " ++
        "reported by the proof registry as 304, not as this code."
      retry := .afterOperatorAction
      remediation := "Call is_active_address before registering rather than waiting for this " ++
        "code: a suspended issuer surfaces as 304 in the current release. An admin must " ++
        "reactivate the issuer; suspension is reversible, revocation is not."
      httpStatus := 403
      clientMessage := "Issuer is not active" },
    { code := 206
      name := "InvalidTransition"
      enumName := "IssuerError"
      domain := .issuerRegistry
      status := .returned
      cause := "A status change was requested that the lifecycle does not allow, such as " ++
        "reactivating a revoked issuer."
      retry := .never
      remediation := "Read the current status and choose a permitted transition."
      httpStatus := 400
      clientMessage := "Invalid status transition" },
    { code := 300
      name := "ProofAlreadyRegistered"
      enumName := "ProofError"
      domain := .proofRegistry
      status := .returned
      cause := "register_proof was called with a proof_id_hash that already has a record."
      retry := .never
      remediation := "Proof records are immutable once written, including after archival and " ++
        "restoration. Register a new identifier rather than replacing a commitment."
      httpStatus := 409
      clientMessage := "Proof already registered" },
    { code := 301
      name := "ProofNotFound"
      enumName := "ProofError"
      domain := .proofRegistry
      status := .returned
      cause := "A call referenced a proof_id_hash with no record, or the proof registry has no " ++
        "instance state to read its dependencies from."
      retry := .afterCallerChange
      remediation := "Confirm the identifier hash. If register_proof returns this code, the " ++
        "registry itself is uninitialized and no write took place."
      httpStatus := 404
      clientMessage := "Proof not found" },
    { code := 302
      name := "ProofAlreadyRevoked"
      enumName := "ProofError"
      domain := .proofRegistry
      status := .returned
      cause := "A revocation targeted a proof already in the Revoked state."
      retry := .never
      remediation := "Treat the revocation as complete. Revocation is terminal and idempotent " ++
        "in effect, though not in return value."
      httpStatus := 400
      clientMessage := "Proof already revoked" },
    { code := 303
      name := "ProofExpired"
      enumName := "ProofError"
      domain := .proofRegistry
      status := .returned
      cause := "register_proof was given an expires_at at or before the current ledger timestamp."
      retry := .afterCallerChange
      remediation := "Send an expiration in the future relative to ledger time, not to " ++
        "wall-clock time on the calling host."
      httpStatus := 400
      clientMessage := "Invalid proof expiration" },
    { code := 304
      name := "InvalidSchemaVersion"
      enumName := "ProofError"
      domain := .proofRegistry
      status := .returned
      cause := "register_proof was given schema version zero, or a precondition that the " ++
        "registry currently reports through this same code failed: the protocol is paused, or " ++
        "the issuer address is not active."
      retry := .afterOperatorAction
      remediation := "Check three things in order: that the schema version is non-zero, that " ++
        "is_paused is false, and that is_active_address is true for the issuer. This code is " ++
        "overloaded in the current release; see the ambiguity note in docs/errors.md."
      httpStatus := 400
      clientMessage := "Invalid schema version" },
    { code := 305
      name := "SchemaVersionNotApproved"
      enumName := "ProofError"
      domain := .proofRegistry
      status := .returned
      cause := "The schema version is non-zero but is not approved in protocol-config, either " ++
        "because it was never approved or because it was deprecated."
      retry := .afterOperatorAction
      remediation := "A protocol operator must approve the version. A registry pointed at an " ++
        "uninitialized protocol config also returns this code, because no version can be " ++
        "approved there."
      httpStatus := 400
      clientMessage := "Schema version not approved" }]

/-- Looks up a published error by code. -/
def spec (code : ErrorCode) : Option ErrorSpec := ERROR_CATALOG.find? fun entry => entry.code == code

/-- Classifies any code by range. -/
def domainFor (code : ErrorCode) : Domain :=
  if 1 ≤ code ∧ code ≤ 99 then .common
  else if 100 ≤ code ∧ code ≤ 199 then .protocolConfig
  else if 200 ≤ code ∧ code ≤ 299 then .issuerRegistry
  else if 300 ≤ code ∧ code ≤ 399 then .proofRegistry
  else .unallocated

/-- Retry classification for any code, known or not. An unknown code is never retried: its
call may have had an effect. -/
def retryFor (code : ErrorCode) : Retry :=
  match spec code with
  | some entry => entry.retry
  | none => .never

/-! ### The table as a whole -/

theorem catalog_ordered : (ERROR_CATALOG.map ErrorSpec.code).Pairwise (· < ·) := by decide

theorem code_injective {entry entry' : ErrorSpec} (h : entry ∈ ERROR_CATALOG)
    (h' : entry' ∈ ERROR_CATALOG) (heq : entry.code = entry'.code) : entry = entry' := by
  have hnodup : (ERROR_CATALOG.map ErrorSpec.code).Nodup :=
    catalog_ordered.imp fun hlt => UInt32.ne_of_lt hlt
  exact List.inj_on_of_nodup_map hnodup h h' heq

theorem spec_eq_some {code : ErrorCode} {entry : ErrorSpec} :
    spec code = some entry ↔ entry ∈ ERROR_CATALOG ∧ entry.code = code := by
  constructor
  · intro h
    exact ⟨List.mem_of_find?_eq_some h, by simpa using List.find?_some h⟩
  · intro h
    obtain ⟨hmem, rfl⟩ := h
    cases hfind : spec entry.code with
    | none => exact absurd (List.find?_eq_none.mp hfind entry hmem) (by simp)
    | some found =>
      have hcode : found.code = entry.code := by simpa using List.find?_some hfind
      rw [code_injective (List.mem_of_find?_eq_some hfind) hmem hcode]

/-- Every entry is listed in the domain its code falls in. -/
theorem domain_eq {entry : ErrorSpec} (h : entry ∈ ERROR_CATALOG) :
    entry.domain = domainFor entry.code := by
  revert entry
  decide

end EarnProof.ErrorCatalog

import EarnProof.Shared.Types
import Mathlib.Tactic.Simproc.ExistsAndEq

/-! What the three contracts write alike.

Each contract carries its own copy of the same code: the admin read, the address
check, the instance extension, and upgrade governance with its three events. It is
stated once here over the slots it uses (`Governance`), and each contract's function
is its instance at the contract's own keys. -/
namespace EarnProof
open Soroban

/-- Emitted by upgrade governance. -/
inductive UpgradeEvent where
  | upgradeAllowlisted (wasmHash : BytesN 32) (newContractVersion : UInt32) (approvedBy : Address)
  | upgradeRevoked (wasmHash : BytesN 32) (revokedBy : Address)
  | contractUpgraded (newWasmHash : BytesN 32) (oldContractVersion newContractVersion : UInt32)
      (upgradedBy : Address)
  deriving DecidableEq

/-- Where a contract keeps its admin, its version and its upgrade allowlist. -/
structure Governance {K : Type} (V : K → Type) where
  admin : Slot V Address
  contractVersion : Slot V UInt32
  allowedWasm : BytesN 32 → Slot V UInt32
  admin_version : admin.key ≠ contractVersion.key
  admin_allowed : ∀ h, admin.key ≠ (allowedWasm h).key
  version_allowed : ∀ h, contractVersion.key ≠ (allowedWasm h).key
  allowed_injective : ∀ h h', (allowedWasm h).key = (allowedWasm h').key → h = h'

section Programs
variable {K : Type} {V : K → Type} {Ev W ε : Type}

/-- `require_valid_principal`, `require_valid_admin` and `require_valid_issuer_address`
differ in the error only. -/
def requireValid (e : ε) (address : Address) : Program V Ev W ε Unit :=
  rejectIf (!isValidPrincipalAddress address) e

def extendInstance : Program V Ev W ε Unit :=
  extendInstanceTtl TTL_THRESHOLD_LEDGERS TTL_EXTEND_TO_LEDGERS

variable [DecidableEq K] (G : Governance V) (wrap : UpgradeEvent → Ev)

def getAdmin : Program V Ev W ContractError Address := do
  okOr (← G.admin.get) .notInitialized

def getContractVersion : Program V Ev W ε UInt32 := do
  return (← G.contractVersion.get).getD 0

def approveUpgrade (wasmHash : BytesN 32) (newVersion : UInt32) : Program V Ev W ε Unit := do
  let admin ← expectOk ContractError.debug (getAdmin G) "contract not initialized"
  requireAuth admin
  let current ← getContractVersion G
  panicIf (newVersion ≤ current) "new_version must be greater than current contract version"
  (G.allowedWasm wasmHash).set newVersion
  extendInstance
  publish (wrap (.upgradeAllowlisted wasmHash newVersion admin))

def revokeUpgrade (wasmHash : BytesN 32) : Program V Ev W ε Unit := do
  let admin ← expectOk ContractError.debug (getAdmin G) "contract not initialized"
  requireAuth admin
  (G.allowedWasm wasmHash).remove
  publish (wrap (.upgradeRevoked wasmHash admin))

def isUpgradeAllowed (wasmHash : BytesN 32) : Program V Ev W ε Bool := do
  return (← (G.allowedWasm wasmHash).get).isSome

def upgradeContract (wasmHash : BytesN 32) : Program V Ev W ε Unit := do
  let admin ← expectOk ContractError.debug (getAdmin G) "contract not initialized"
  requireAuth admin
  let newVersion ← expect (← (G.allowedWasm wasmHash).get) "wasm hash not on allowlist"
  let oldVersion ← getContractVersion G
  panicIf (newVersion ≤ oldVersion) "upgrade would not advance contract version"
  (G.allowedWasm wasmHash).remove
  updateCurrentContractWasm wasmHash
  G.contractVersion.set newVersion
  extendInstance
  publish (wrap (.contractUpgraded wasmHash oldVersion newVersion admin))

/-! ### When they return, and what they leave -/

variable {G} {wrap} {env : Env} {f f' : Frame V Ev W}

omit [DecidableEq K] in
@[simp] theorem requireValid_ok {e : ε} {address : Address} {u : Unit} :
    (requireValid e address : Program V Ev W ε Unit) env f = (.ok u, f') ↔
      isValidPrincipalAddress address = true ∧ f' = f := by
  simp [requireValid]

/-- A stored contract version, zero when there is none. -/
def Governance.version (G : Governance V) (d : Entries V) : UInt32 := (G.contractVersion.read d).getD 0

@[simp] theorem getAdmin_ok {a : Address} :
    (getAdmin G : Program V Ev W ContractError Address) env f = (.ok a, f') ↔
      G.admin.read f.entries = some a ∧ f' = f := by
  simp [getAdmin, and_assoc]

@[simp] theorem getContractVersion_ok {v : UInt32} :
    (getContractVersion G : Program V Ev W ε UInt32) env f = (.ok v, f') ↔
      v = G.version f.entries ∧ f' = f := by
  simp [getContractVersion, Governance.version, and_assoc]

theorem approveUpgrade_ok {wasmHash : BytesN 32} {newVersion : UInt32} {u : Unit} :
    (approveUpgrade G wrap wasmHash newVersion : Program V Ev W ε Unit) env f = (.ok u, f') ↔
      ∃ admin, G.admin.read f.entries = some admin ∧ env.signed admin = true ∧
        G.version f.entries < newVersion ∧
        f' = {f with
          entries := (G.allowedWasm wasmHash).put f.entries (some newVersion)
          instanceUntil := extendUntil TTL_THRESHOLD_LEDGERS TTL_EXTEND_TO_LEDGERS env.sequence
            f.instanceUntil
          events := f.events ++ [wrap (.upgradeAllowlisted wasmHash newVersion admin)]} := by
  simp [approveUpgrade, extendInstance, and_assoc, Storage.extendInstance]

theorem revokeUpgrade_ok {wasmHash : BytesN 32} {u : Unit} :
    (revokeUpgrade G wrap wasmHash : Program V Ev W ε Unit) env f = (.ok u, f') ↔
      ∃ admin, G.admin.read f.entries = some admin ∧ env.signed admin = true ∧
        f' = {f with
          entries := (G.allowedWasm wasmHash).put f.entries none
          events := f.events ++ [wrap (.upgradeRevoked wasmHash admin)]} := by
  simp [revokeUpgrade, and_assoc]

@[simp] theorem isUpgradeAllowed_ok {wasmHash : BytesN 32} {b : Bool} :
    (isUpgradeAllowed G wasmHash : Program V Ev W ε Bool) env f = (.ok b, f') ↔
      b = ((G.allowedWasm wasmHash).read f.entries).isSome ∧ f' = f := by
  simp [isUpgradeAllowed, and_assoc]

theorem upgradeContract_ok {wasmHash : BytesN 32} {u : Unit} :
    (upgradeContract G wrap wasmHash : Program V Ev W ε Unit) env f = (.ok u, f') ↔
      ∃ admin newVersion, G.admin.read f.entries = some admin ∧ env.signed admin = true ∧
        (G.allowedWasm wasmHash).read f.entries = some newVersion ∧
        G.version f.entries < newVersion ∧ env.installable wasmHash = true ∧
        f' = {f with
          entries := G.contractVersion.put ((G.allowedWasm wasmHash).put f.entries none)
            (some newVersion)
          instanceUntil := extendUntil TTL_THRESHOLD_LEDGERS TTL_EXTEND_TO_LEDGERS env.sequence
            f.instanceUntil
          events := f.events ++
            [wrap (.contractUpgraded wasmHash (G.version f.entries) newVersion admin)]} := by
  simp [upgradeContract, extendInstance, and_assoc, Storage.extendInstance]

end Programs

/-! ### The entry points of governance -/

inductive UpgradeCall where
  | getContractVersion
  | approveUpgrade (wasmHash : BytesN 32) (newVersion : UInt32)
  | revokeUpgrade (wasmHash : BytesN 32)
  | isUpgradeAllowed (wasmHash : BytesN 32)
  | upgradeContract (wasmHash : BytesN 32)
  deriving DecidableEq

/-- The calls that change the allowlist or the version. -/
def UpgradeCall.mutates : UpgradeCall → Bool
  | .approveUpgrade _ _ | .revokeUpgrade _ | .upgradeContract _ => true
  | .getContractVersion | .isUpgradeAllowed _ => false

def UpgradeCall.program {K : Type} [DecidableEq K] {V : K → Type} {Ev W : Type} (G : Governance V)
    (wrap : UpgradeEvent → Ev) : UpgradeCall → Program V Ev W ErrorCode Value
  | .getContractVersion => entry id .u32 (EarnProof.getContractVersion G)
  | .approveUpgrade h v => entry id (fun _ => .unit) (EarnProof.approveUpgrade G wrap h v)
  | .revokeUpgrade h => entry id (fun _ => .unit) (EarnProof.revokeUpgrade G wrap h)
  | .isUpgradeAllowed h => entry id .bool (EarnProof.isUpgradeAllowed G h)
  | .upgradeContract h => entry id (fun _ => .unit) (EarnProof.upgradeContract G wrap h)

/-- What a governance call that returns has done to the values. -/
def Governance.Effect {K : Type} [DecidableEq K] {V : K → Type} {Ev : Type} (G : Governance V)
    (wrap : UpgradeEvent → Ev) (env : Env) (d : Entries V) :
    UpgradeCall → Value → Entries V → List Ev → Prop
  | .getContractVersion, v, d', events => v = .u32 (G.version d) ∧ d' = d ∧ events = []
  | .approveUpgrade h n, v, d', events =>
    ∃ admin, G.admin.read d = some admin ∧ env.signed admin = true ∧ G.version d < n ∧
      v = .unit ∧ d' = (G.allowedWasm h).put d (some n) ∧
      events = [wrap (.upgradeAllowlisted h n admin)]
  | .revokeUpgrade h, v, d', events =>
    ∃ admin, G.admin.read d = some admin ∧ env.signed admin = true ∧
      v = .unit ∧ d' = (G.allowedWasm h).put d none ∧ events = [wrap (.upgradeRevoked h admin)]
  | .isUpgradeAllowed h, v, d', events =>
    v = .bool ((G.allowedWasm h).read d).isSome ∧ d' = d ∧ events = []
  | .upgradeContract h, v, d', events =>
    ∃ admin n, G.admin.read d = some admin ∧ env.signed admin = true ∧
      (G.allowedWasm h).read d = some n ∧ G.version d < n ∧ env.installable h = true ∧
      v = .unit ∧ d' = G.contractVersion.put ((G.allowedWasm h).put d none) (some n) ∧
      events = [wrap (.contractUpgraded h (G.version d) n admin)]

theorem UpgradeCall.program_realizes {K : Type} [DecidableEq K] {V : K → Type} {Ev W : Type}
    (G : Governance V) (wrap : UpgradeEvent → Ev) (c : UpgradeCall) :
    Realizes (c.program G wrap : Program V Ev W ErrorCode Value)
      (fun env d w v d' events w' => w' = w ∧ G.Effect wrap env d c v d' events) := by
  intro env f v d' events w'
  cases c with
  | getContractVersion => simp [program, Governance.Effect, and_assoc]
  | approveUpgrade h n => simp [program, Governance.Effect, approveUpgrade_ok, and_assoc]
  | revokeUpgrade h => simp [program, Governance.Effect, revokeUpgrade_ok, and_assoc]
  | isUpgradeAllowed h => simp [program, Governance.Effect, and_assoc]
  | upgradeContract h => simp [program, Governance.Effect, upgradeContract_ok, and_assoc]

namespace Governance.Effect
variable {K : Type} [DecidableEq K] {V : K → Type} {Ev : Type} {G : Governance V}
  {wrap : UpgradeEvent → Ev} {env : Env} {d d' : Entries V} {u : UpgradeCall} {v : Value}
  {events : List Ev}

/-- An upgrade consumes its approval and installs the approved version. -/
theorem upgrade_writes {hash : BytesN 32}
    (h : G.Effect wrap env d (.upgradeContract hash) v d' events) :
    ∃ n, (G.allowedWasm hash).read d = some n ∧ G.version d < n ∧
      d' = G.contractVersion.put ((G.allowedWasm hash).put d none) (some n) := by
  obtain ⟨_, n, _, _, hn, hlt, _, _, hd, _⟩ := h
  exact ⟨n, hn, hlt, hd⟩

/-- Governance writes the contract version and the allowlist, nothing else. -/
theorem frame (h : G.Effect wrap env d u v d' events) {c : StorageClass} {k : K}
    (hk : c = .inst → k ≠ G.contractVersion.key ∧ ∀ hash, k ≠ (G.allowedWasm hash).key) :
    d' c k = d c k := by
  cases u with
  | getContractVersion =>
    obtain ⟨_, rfl, _⟩ := h
    rfl
  | approveUpgrade hash n =>
    obtain ⟨_, _, _, _, _, rfl, _⟩ := h
    exact Slot.put_frame _ _ _ fun hc => (hk hc).2 hash
  | revokeUpgrade hash =>
    obtain ⟨_, _, _, _, rfl, _⟩ := h
    exact Slot.put_frame _ _ _ fun hc => (hk hc).2 hash
  | isUpgradeAllowed hash =>
    obtain ⟨_, rfl, _⟩ := h
    rfl
  | upgradeContract hash =>
    obtain ⟨n, _, _, rfl⟩ := upgrade_writes h
    rw [Slot.put_frame _ _ _ fun hc => (hk hc).1]
    exact Slot.put_frame _ _ _ fun hc => (hk hc).2 hash

/-- A governance call that changes something publishes one upgrade event. -/
theorem publishes (h : G.Effect wrap env d u v d' events) (hu : u.mutates = true) :
    ∃ e, events = [wrap e] := by
  cases u with
  | approveUpgrade hash n =>
    obtain ⟨_, _, _, _, _, _, rfl⟩ := h
    exact ⟨_, rfl⟩
  | revokeUpgrade hash =>
    obtain ⟨_, _, _, _, _, rfl⟩ := h
    exact ⟨_, rfl⟩
  | upgradeContract hash =>
    obtain ⟨_, _, _, _, _, _, _, _, _, rfl⟩ := h
    exact ⟨_, rfl⟩
  | getContractVersion => cases hu
  | isUpgradeAllowed hash => cases hu

theorem admin (h : G.Effect wrap env d u v d' events) : G.admin.read d' = G.admin.read d := by
  cases u with
  | getContractVersion =>
    obtain ⟨_, rfl, _⟩ := h
    rfl
  | approveUpgrade hash n =>
    obtain ⟨_, _, _, _, _, rfl, _⟩ := h
    exact Slot.read_put_of_ne (G.admin_allowed hash) _ _
  | revokeUpgrade hash =>
    obtain ⟨_, _, _, _, rfl, _⟩ := h
    exact Slot.read_put_of_ne (G.admin_allowed hash) _ _
  | isUpgradeAllowed hash =>
    obtain ⟨_, rfl, _⟩ := h
    rfl
  | upgradeContract hash =>
    obtain ⟨n, _, _, rfl⟩ := upgrade_writes h
    rw [Slot.read_put_of_ne G.admin_version]
    exact Slot.read_put_of_ne (G.admin_allowed hash) _ _

theorem query (h : G.Effect wrap env d u v d' events) (hu : u.mutates = false) :
    d' = d ∧ events = [] := by
  cases u with
  | approveUpgrade hash n => cases hu
  | revokeUpgrade hash => cases hu
  | upgradeContract hash => cases hu
  | getContractVersion => exact h.2
  | isUpgradeAllowed hash => exact h.2

theorem signed (h : G.Effect wrap env d u v d' events) (hu : u.mutates = true) :
    ∃ p, G.admin.read d = some p ∧ env.signed p = true := by
  cases u with
  | approveUpgrade hash n =>
    obtain ⟨admin, ha, hs, _⟩ := h
    exact ⟨admin, ha, hs⟩
  | revokeUpgrade hash =>
    obtain ⟨admin, ha, hs, _⟩ := h
    exact ⟨admin, ha, hs⟩
  | upgradeContract hash =>
    obtain ⟨admin, _, ha, hs, _⟩ := h
    exact ⟨admin, ha, hs⟩
  | getContractVersion => cases hu
  | isUpgradeAllowed hash => cases hu

/-- A version that is missing was missing before. -/
theorem version_none (h : G.Effect wrap env d u v d' events)
    (hnone : G.contractVersion.read d' = none) : G.contractVersion.read d = none := by
  cases u with
  | getContractVersion =>
    obtain ⟨_, rfl, _⟩ := h
    exact hnone
  | approveUpgrade hash n =>
    obtain ⟨_, _, _, _, _, rfl, _⟩ := h
    exact (Slot.read_put_of_ne (G.version_allowed hash) _ _).symm.trans hnone
  | revokeUpgrade hash =>
    obtain ⟨_, _, _, _, rfl, _⟩ := h
    exact (Slot.read_put_of_ne (G.version_allowed hash) _ _).symm.trans hnone
  | isUpgradeAllowed hash =>
    obtain ⟨_, rfl, _⟩ := h
    exact hnone
  | upgradeContract hash =>
    obtain ⟨n, _, _, rfl⟩ := upgrade_writes h
    rw [Slot.read_put_self] at hnone
    cases hnone

/-- Governance events leave an indexer's view alone when the view says so. -/
theorem foldl {X : Type} {apply : X → Ev → X} (h : G.Effect wrap env d u v d' events)
    (happly : ∀ x e, apply x (wrap e) = x) (x : X) : events.foldl apply x = x := by
  cases hu : u.mutates with
  | false =>
    rw [(h.query hu).2]
    rfl
  | true =>
    obtain ⟨e, rfl⟩ := h.publishes hu
    exact happly x e

end Governance.Effect
end EarnProof

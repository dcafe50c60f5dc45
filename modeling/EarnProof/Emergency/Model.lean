import EarnProof.System.Machine

/-! What an emergency operation is supposed to do.

The operators' rules, without contracts: a pause flag, two flags for each issuer, two for
each proof. Pausing stops registrations and nothing else, a revoked issuer stays revoked,
and a proof is revoked once. -/
namespace EarnProof.Emergency
open Soroban

/-- The issuers of a deployment: their ids are distinct, and so are their addresses. -/
structure Population (I : Type) where
  id : I → BytesN 32
  address : I → Address
  id_injective : Function.Injective id
  address_injective : Function.Injective address

/-- One step an operator or an issuer can take during an incident. -/
inductive Op (I : Type) where
  | pause
  | unpause
  | rotateAdmin (next : Address)
  | suspendIssuer (issuer : I)
  | reactivateIssuer (issuer : I)
  | revokeIssuer (issuer : I)
  | revokeProof (proof : BytesN 32)
  | registerProof (proof commitment : BytesN 32) (issuer : I) (schemaVersion : UInt32)
      (expiresAt : UInt64)

@[ext] structure Model (I : Type) where
  paused : Bool
  issuerSuspended : I → Bool
  issuerRevoked : I → Bool
  proofRevoked : BytesN 32 → Bool
  proofRegistered : BytesN 32 → Bool

namespace Model
variable {I : Type}

/-- Every issuer active, and the fixture proofs registered. -/
def new (fixtures : BytesN 32 → Bool) : Model I where
  paused := false
  issuerSuspended := fun _ => false
  issuerRevoked := fun _ => false
  proofRevoked := fun _ => false
  proofRegistered := fixtures

/-- Whether the issuer may register proofs. -/
def admits (m : Model I) (issuer : I) : Bool :=
  !m.paused && !m.issuerSuspended issuer && !m.issuerRevoked issuer

variable [DecidableEq I]

/-- Applies an operation, and answers `false` where the rules reject it. -/
def apply (m : Model I) : Op I → Bool × Model I
  | .pause => (true, {m with paused := true})
  | .unpause => (true, {m with paused := false})
  | .rotateAdmin _ => (true, m)
  | .suspendIssuer i =>
    if m.issuerRevoked i then (false, m)
    else (true, {m with issuerSuspended := Function.update m.issuerSuspended i true})
  | .reactivateIssuer i =>
    if m.issuerRevoked i then (false, m)
    else (true, {m with issuerSuspended := Function.update m.issuerSuspended i false})
  | .revokeIssuer i =>
    (true, { m with
      issuerRevoked := Function.update m.issuerRevoked i true
      issuerSuspended := Function.update m.issuerSuspended i false })
  | .revokeProof p =>
    if !m.proofRegistered p || m.proofRevoked p then (false, m)
    else (true, {m with proofRevoked := Function.update m.proofRevoked p true})
  | .registerProof p _ i _ _ =>
    if m.admits i && !m.proofRegistered p then
      (true, { m with
        proofRegistered := Function.update m.proofRegistered p true
        proofRevoked := Function.update m.proofRevoked p false })
    else (false, m)

/-- The rules, one operation at a time. -/
def machine : Machine (Op I) Bool (Model I) where
  step := fun op m => m.apply op

/-- A rejected operation leaves the model untouched. -/
theorem rejected {m : Model I} {op : Op I} (h : (m.apply op).1 = false) : (m.apply op).2 = m := by
  cases op with
  | pause => cases h
  | unpause => cases h
  | rotateAdmin _ => cases h
  | revokeIssuer _ => cases h
  | _ =>
    simp only [apply] at h ⊢
    grind

end Model
end EarnProof.Emergency

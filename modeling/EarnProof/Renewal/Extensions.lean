import EarnProof.IssuerRegistry.Refusals
import EarnProof.ProofRegistry.Refusals
import EarnProof.ProtocolConfig.Refusals
import EarnProof.Soroban.Lifetime

/-! Which entries a call extends.

`Call.extended` is the table of extension triggers of each contract, and
`program_ages` that the code extends these entries and shortens none. Upgrade calls
touch the instance entry alone. -/
namespace EarnProof
open Soroban

/-- The lifetime of `k` from one frame to another, under the thresholds of the contracts. -/
abbrev Renews {K Ev W : Type} {V : K → Type} (env : Env) (k : K) (extended : Bool)
    (f f' : Frame V Ev W) : Prop :=
  Ages TTL_THRESHOLD_LEDGERS TTL_EXTEND_TO_LEDGERS env.minimumTtl env.sequence extended
    (f.lifetime k) (f'.lifetime k)

section Rules
variable {K Ev W : Type} {V : K → Type} {env : Env} {k : K} {f f' : Frame V Ev W}

theorem Renews.of_eq (h : f'.lifetime k = f.lifetime k) : Renews env k false f f' := by
  unfold Renews
  rw [h]
  exact .refl

theorem Renews.of_renew [DecidableEq K] {k' : K} {v : V k'} (h : f'.toStorage =
    f.toStorage.renew TTL_THRESHOLD_LEDGERS TTL_EXTEND_TO_LEDGERS env.minimumTtl env.sequence k' v) :
    Renews env k (k = k') f f' := by
  unfold Renews
  rw [h]
  exact ages_renew _ _ _ _

/-- Upgrade calls leave the persistent entries alone. -/
theorem UpgradeCall.program_lifetime [DecidableEq K] {G : Governance V} {wrap : UpgradeEvent → Ev}
    {c : UpgradeCall} {v : Value} (h : c.program G wrap env f = (.ok v, f')) :
    f'.lifetime k = f.lifetime k := by
  cases c with
  | getContractVersion =>
    simp only [UpgradeCall.program, entry_ok, getContractVersion_ok] at h
    obtain ⟨_, ⟨_, rfl⟩, _⟩ := h
    rfl
  | approveUpgrade hash n =>
    obtain ⟨_, h⟩ := (approveUpgrade_ends hash n).entry_returned h
    exact h.lifetime
  | revokeUpgrade hash =>
    obtain ⟨_, h⟩ := (revokeUpgrade_ends hash).entry_returned h
    rw [h]
    exact Storage.lifetime_congr (by simp) rfl
  | isUpgradeAllowed hash =>
    simp only [UpgradeCall.program, entry_ok, isUpgradeAllowed_ok] at h
    obtain ⟨_, ⟨_, rfl⟩, _⟩ := h
    rfl
  | upgradeContract hash =>
    obtain ⟨_, h⟩ := (upgradeContract_ends hash).entry_returned h
    exact h.lifetime

end Rules

namespace ProofRegistry

/-- The proof whose entry a call extends. -/
def Call.extended : Call → DataKey → Bool
  | .registerProof id _ _ _ _, k => k = .proof id
  | .revokeProof id, k => k = .proof id
  | .adminRevokeProof id, k => k = .proof id
  | .getProof id, k => k = .proof id
  | .isValidProof id, k => k = .proof id
  | .isRevoked id, k => k = .proof id
  | _, _ => false

variable {W ε : Type} {clients : Clients W} {env : Env} {f f' : Frame DataKey.Value Event W}

theorem touchProof_ages (env : Env) (id : BytesN 32) (s : Storage DataKey.Value) (k : DataKey) :
    Ages TTL_THRESHOLD_LEDGERS TTL_EXTEND_TO_LEDGERS env.minimumTtl env.sequence (k = .proof id)
      (s.lifetime k) ((touchProof env id s).lifetime k) :=
  ages_find _ _ _

/-- The calls of the proof registry extend what the table says. -/
theorem program_ages {c : Call} {v : Value} (h : c.program clients env f = (.ok v, f'))
    (k : DataKey) : Renews env k (c.extended k) f f' := by
  cases c with
  | initializeContract a i p =>
    obtain ⟨_, h⟩ := (initializeContract_ends clients a i p).entry_returned h
    exact .of_eq h.lifetime
  | registerProof id c a n e =>
    obtain ⟨_, h⟩ := (registerProof_ends clients id c a n e).entry_returned h
    exact .of_renew h
  | revokeProof id =>
    obtain ⟨_, r, h⟩ := (setRevoked_ends id false).entry_returned h
    exact .of_renew h
  | adminRevokeProof id =>
    obtain ⟨_, r, h⟩ := (setRevoked_ends id true).entry_returned h
    exact .of_renew h
  | getProof id =>
    simp only [Call.program, entry_ok, getProof_ok] at h
    obtain ⟨_, ⟨_, rfl⟩, _⟩ := h
    exact touchProof_ages env id f.toStorage k
  | isValidProof id =>
    simp only [Call.program, entry_ok, isValidProof_ok] at h
    obtain ⟨_, ⟨_, rfl⟩, _⟩ := h
    exact touchProof_ages env id f.toStorage k
  | isRevoked id =>
    simp only [Call.program, entry_ok, isRevoked_ok] at h
    obtain ⟨_, ⟨_, rfl⟩, _⟩ := h
    exact touchProof_ages env id f.toStorage k
  | getAdmin =>
    simp only [Call.program, ProofRegistry.getAdmin, entry_ok, getAdmin_ok] at h
    obtain ⟨_, ⟨_, rfl⟩, _⟩ := h
    exact .of_eq rfl
  | getIssuerRegistry =>
    simp only [Call.program, entry_ok, getIssuerRegistry_ok] at h
    obtain ⟨_, ⟨_, rfl⟩, _⟩ := h
    exact .of_eq rfl
  | getProtocolConfig =>
    simp only [Call.program, entry_ok, getProtocolConfig_ok] at h
    obtain ⟨_, ⟨_, rfl⟩, _⟩ := h
    exact .of_eq rfl
  | upgrade c =>
    rw [program_upgrade] at h
    exact .of_eq (UpgradeCall.program_lifetime h)

end ProofRegistry

namespace ProtocolConfig

/-- The schema flag whose entry a call extends. -/
def Call.extended : Call → DataKey → Bool
  | .approveSchemaVersion n, k => k = .schemaVersion n
  | .deprecateSchemaVersion n, k => k = .schemaVersion n
  | .isSchemaVersionApproved n, k => n ≠ 0 ∧ k = .schemaVersion n
  | _, _ => false

variable {ε : Type} {env : Env} {f f' : Frame DataKey.Value Event Unit}

/-- The count of the change touches the instance entry only. -/
theorem flagged_ages {n : UInt32} {flag : Bool}
    (h : (flagged env n flag f.toStorage).InstanceExtended TTL_THRESHOLD_LEDGERS
      TTL_EXTEND_TO_LEDGERS env.sequence f'.toStorage) (k : DataKey) :
    Renews env k (k = .schemaVersion n) f f' := by
  unfold Renews
  rw [h.lifetime]
  exact ages_write f.toStorage (.schemaVersion n) k flag

theorem touchSchema_ages (env : Env) (n : UInt32) (s : Storage DataKey.Value) (k : DataKey) :
    Ages TTL_THRESHOLD_LEDGERS TTL_EXTEND_TO_LEDGERS env.minimumTtl env.sequence
      (n ≠ 0 ∧ k = .schemaVersion n) (s.lifetime k) ((touchSchema env n s).lifetime k) := by
  unfold touchSchema
  by_cases hn : n = 0
  · simpa [hn] using Ages.refl
  · by_cases hk : k = .schemaVersion n
    · subst hk
      simp only [ne_eq, hn, not_false_eq_true, true_and, decide_true]
      split
      · simpa [Function.comp_assoc] using Ages.touch
      · rename_i hnone
        have hgone : s.lifetime (.schemaVersion n) = none := by simpa using hnone
        rw [hgone]
        exact .gone
    · simp only [hk, and_false, decide_false]
      split
      · simpa [hk] using Ages.refl
      · exact .refl

/-- The calls of the protocol configuration extend what the table says. -/
theorem program_ages {c : Call} {v : Value} (h : c.program env f = (.ok v, f')) (k : DataKey) :
    Renews env k (c.extended k) f f' := by
  cases c with
  | initializeContract admin =>
    obtain ⟨_, h⟩ := (initializeContract_ends admin).entry_returned h
    exact .of_eq h.lifetime
  | getAdmin =>
    simp only [Call.program, ProtocolConfig.getAdmin, entry_ok, getAdmin_ok] at h
    obtain ⟨_, ⟨_, rfl⟩, _⟩ := h
    exact .of_eq rfl
  | setAdmin a =>
    obtain ⟨_, h⟩ := (setAdmin_ends a).entry_returned h
    exact .of_eq h.lifetime
  | isPaused =>
    simp only [Call.program, isPaused, entry_ok, bind_ok, get_ok, pure_ok, Storage.access_inst] at h
    obtain ⟨_, ⟨_, _, ⟨_, rfl⟩, _, rfl⟩, _⟩ := h
    exact .of_eq rfl
  | pause =>
    obtain ⟨_, h⟩ := (setPaused_ends true _).entry_returned h
    exact .of_eq h.lifetime
  | unpause =>
    obtain ⟨_, h⟩ := (setPaused_ends false _).entry_returned h
    exact .of_eq h.lifetime
  | approveSchemaVersion n =>
    obtain ⟨_, h⟩ := (setSchemaVersion_ends n true _).entry_returned h
    exact flagged_ages h k
  | deprecateSchemaVersion n =>
    obtain ⟨_, h⟩ := (setSchemaVersion_ends n false _).entry_returned h
    exact flagged_ages h k
  | isSchemaVersionApproved n =>
    simp only [Call.program, entry_ok, isSchemaVersionApproved_ok] at h
    obtain ⟨_, ⟨_, rfl⟩, _⟩ := h
    exact touchSchema_ages env n f.toStorage k
  | getConfigVersion =>
    simp only [Call.program, entry_ok, getConfigVersion_ok] at h
    obtain ⟨_, ⟨_, rfl⟩, _⟩ := h
    exact .of_eq rfl
  | upgrade c =>
    rw [program_upgrade] at h
    exact .of_eq (UpgradeCall.program_lifetime h)

end ProtocolConfig

namespace IssuerRegistry

/-- The entries a call extends. `is_active_address` extends the record it is led to and
`get_issuer_by_address` the index entry it started from. -/
def Call.extended (d : Entries DataKey.Value) : Call → DataKey → Bool
  | .registerIssuer id a _, k => k = .issuer id ∨ k = .addressIssuer a
  | .updateIssuer id _, k => k = .issuer id
  | .suspendIssuer id, k => k = .issuer id
  | .reactivateIssuer id, k => k = .issuer id
  | .revokeIssuer id, k => k = .issuer id
  | .rotateIssuerAddress id a, k => k = .issuer id ∨ k = .addressIssuer a
  | .getIssuer id, k => k = .issuer id
  | .isActiveIssuer id, k => k = .issuer id
  | .isActiveAddress a, k => (d .persistent (.addressIssuer a)).any fun id => k = .issuer id
  | .getIssuerByAddress a, k => k = .addressIssuer a
  | _, _ => false

variable {ε : Type} {env : Env} {f f' : Frame DataKey.Value Event Unit}

theorem touchIssuer_ages (env : Env) (id : BytesN 32) (s : Storage DataKey.Value) (k : DataKey) :
    Ages TTL_THRESHOLD_LEDGERS TTL_EXTEND_TO_LEDGERS env.minimumTtl env.sequence (k = .issuer id)
      (s.lifetime k) ((touchIssuer env id s).lifetime k) :=
  ages_find _ _ _

theorem lifetime_touchIssuer_of_ne {id : BytesN 32} {s : Storage DataKey.Value} {k : DataKey}
    (h : k ≠ .issuer id) : (touchIssuer env id s).lifetime k = s.lifetime k := by
  unfold touchIssuer
  split
  · rw [Storage.lifetime_extend_of_ne h, Storage.lifetime_access_of_ne h]
  · rfl

theorem touchIndexed_ages (env : Env) (a : Address) (s : Storage DataKey.Value) (k : DataKey) :
    Ages TTL_THRESHOLD_LEDGERS TTL_EXTEND_TO_LEDGERS env.minimumTtl env.sequence
      ((s.entries .persistent (.addressIssuer a)).any fun id => k = .issuer id)
      (s.lifetime k) ((touchIndexed env a s).lifetime k) := by
  unfold touchIndexed
  cases s.entries .persistent (.addressIssuer a) with
  | none => exact .refl
  | some id =>
    simp only [Option.any_some]
    by_cases hk : k = .addressIssuer a
    · subst hk
      rw [lifetime_touchIssuer_of_ne (by simp)]
      simpa using Ages.access
    · have h := touchIssuer_ages env id (s.access env.minimumTtl env.sequence .persistent
        (.addressIssuer a)) k
      rwa [Storage.lifetime_access_of_ne hk] at h

theorem registered_ages (env : Env) (id : BytesN 32) (a : Address) (r : IssuerRecord)
    (s : Storage DataKey.Value) (k : DataKey) :
    Ages TTL_THRESHOLD_LEDGERS TTL_EXTEND_TO_LEDGERS env.minimumTtl env.sequence
      (k = .issuer id ∨ k = .addressIssuer a) (s.lifetime k)
      ((registered env id a r s).lifetime k) := by
  unfold registered
  by_cases hid : k = .issuer id
  · subst hid
    simpa using Ages.renew
  · by_cases ha : k = .addressIssuer a
    · subst ha
      simpa using Ages.renew
    · simp [hid, ha]
      exact .refl

theorem rotated_ages (env : Env) (id : BytesN 32) {old a : Address} (hne : a ≠ old)
    (r : IssuerRecord) (s : Storage DataKey.Value) (k : DataKey) :
    Ages TTL_THRESHOLD_LEDGERS TTL_EXTEND_TO_LEDGERS env.minimumTtl env.sequence
      (k = .issuer id ∨ k = .addressIssuer a) (s.lifetime k)
      ((rotated env id old a r s).lifetime k) := by
  unfold rotated
  by_cases hid : k = .issuer id
  · subst hid
    simpa using Ages.renew
  · by_cases ha : k = .addressIssuer a
    · subst ha
      simpa [hne] using Ages.renew
    · by_cases hold : k = .addressIssuer old
      · subst hold
        simpa [ha] using Ages.gone
      · simp [hid, ha, hold]
        exact .refl

theorem found_ages (env : Env) (a : Address) (id : BytesN 32) (s : Storage DataKey.Value)
    (k : DataKey) :
    Ages TTL_THRESHOLD_LEDGERS TTL_EXTEND_TO_LEDGERS env.minimumTtl env.sequence
      (k = .addressIssuer a) (s.lifetime k)
      ((((s.access env.minimumTtl env.sequence .persistent (.addressIssuer a)).access env.minimumTtl
        env.sequence .persistent (.issuer id)).extend TTL_THRESHOLD_LEDGERS TTL_EXTEND_TO_LEDGERS
          env.sequence (.addressIssuer a)).lifetime k) := by
  by_cases ha : k = .addressIssuer a
  · subst ha
    simpa using Ages.touch
  · by_cases hid : k = .issuer id
    · subst hid
      simpa using Ages.access
    · simp [hid, ha]
      exact .refl

/-- The calls of the issuer registry extend what the table says. -/
theorem program_ages {c : Call} {v : Value} (h : c.program env f = (.ok v, f')) (k : DataKey) :
    Renews env k (c.extended f.entries k) f f' := by
  cases c with
  | initializeContract admin =>
    obtain ⟨_, h⟩ := (initializeContract_ends admin).entry_returned h
    exact .of_eq h.lifetime
  | getAdmin =>
    simp only [Call.program, IssuerRegistry.getAdmin, entry_ok, getAdmin_ok] at h
    obtain ⟨_, ⟨_, rfl⟩, _⟩ := h
    exact .of_eq rfl
  | registerIssuer id a m =>
    obtain ⟨_, r, h⟩ := (registerIssuer_ends id a m).entry_returned h
    unfold Renews
    rw [h]
    exact registered_ages env id a r f.toStorage k
  | updateIssuer id m =>
    obtain ⟨_, r, h⟩ := (updateIssuer_ends id m).entry_returned h
    exact .of_renew h
  | suspendIssuer id =>
    obtain ⟨_, r, h⟩ := (setStatus_ends id .suspended).entry_returned h
    exact .of_renew h
  | reactivateIssuer id =>
    obtain ⟨_, r, h⟩ := (setStatus_ends id .active).entry_returned h
    exact .of_renew h
  | revokeIssuer id =>
    obtain ⟨_, r, h⟩ := (setStatus_ends id .revoked).entry_returned h
    exact .of_renew h
  | rotateIssuerAddress id a =>
    obtain ⟨_, old, r, hne, h⟩ := (rotateIssuerAddress_ends id a).entry_returned h
    unfold Renews
    rw [h]
    exact rotated_ages env id hne r f.toStorage k
  | getIssuer id =>
    simp only [Call.program, entry_ok, getIssuer_ok] at h
    obtain ⟨_, ⟨_, rfl⟩, _⟩ := h
    exact touchIssuer_ages env id f.toStorage k
  | isActiveIssuer id =>
    simp only [Call.program, entry_ok, isActiveIssuer_ok] at h
    obtain ⟨_, ⟨_, rfl⟩, _⟩ := h
    exact touchIssuer_ages env id f.toStorage k
  | isActiveAddress a =>
    simp only [Call.program, entry_ok, isActiveAddress_ok] at h
    obtain ⟨_, ⟨_, rfl⟩, _⟩ := h
    exact touchIndexed_ages env a f.toStorage k
  | getIssuerByAddress a =>
    obtain ⟨_, id, h⟩ := (getIssuerByAddress_ends a).entry_returned h
    unfold Renews
    rw [h]
    exact found_ages env a id f.toStorage k
  | upgrade c =>
    rw [program_upgrade] at h
    exact .of_eq (UpgradeCall.program_lifetime h)

end IssuerRegistry
end EarnProof

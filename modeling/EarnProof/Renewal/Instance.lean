import EarnProof.Renewal.Triggers

/-! The instance entries of the three contracts.

A contract keeps its admin, its flags and its references in one instance entry. A call
to the contract restores it when it is archived, and `register_proof` so restores all
three. Few calls extend it: in the registries only `initialize` and the two upgrade
calls that write, in the protocol configuration every configuration change as well
(`extendsInstance`). Reading keeps no instance alive. -/
namespace EarnProof
open Soroban

/-- What a call at an invocation does to the lifetime of an instance entry. -/
def aged (env : Env) (loads renews : Bool) (live : Nat) : Nat :=
  let loaded := if loads then restoreUntil env.minimumTtl env.sequence live else live
  if renews then
    extendUntil TTL_THRESHOLD_LEDGERS TTL_EXTEND_TO_LEDGERS env.sequence loaded
  else loaded

section Aged
variable {env : Env} {loads renews : Bool} {live : Nat}

theorem le_aged : live ≤ aged env loads renews live := by
  have hloaded : live ≤ if loads then restoreUntil env.minimumTtl env.sequence live else live := by
    split
    · exact le_restoreUntil
    · exact Nat.le_refl _
  unfold aged
  simp only
  split
  · exact Nat.le_trans hloaded le_extendUntil
  · exact hloaded

theorem aged_of_live (h : env.sequence ≤ live) : aged env loads renews live =
    if renews then
      extendUntil TTL_THRESHOLD_LEDGERS TTL_EXTEND_TO_LEDGERS env.sequence live
    else live := by
  unfold aged
  rw [restoreUntil_of_le h]
  simp

end Aged

/-! ### The programs -/

/-- A frame whose instance entry was extended when the flag says so. -/
abbrev Extended {K Ev W : Type} {V : K → Type} (env : Env) (renews : Bool) (f f' : Frame V Ev W) :
    Prop :=
  f'.instanceUntil = if renews then
    extendUntil TTL_THRESHOLD_LEDGERS TTL_EXTEND_TO_LEDGERS env.sequence f.instanceUntil
  else f.instanceUntil

theorem Extended.kept {K Ev W : Type} {V : K → Type} {env : Env} {f f' : Frame V Ev W}
    (h : f'.instanceUntil = f.instanceUntil) : Extended env false f f' := h

/-- A call that leaves `s` keeps the instance entry as `s` has it. -/
theorem Extended.of_eq {K Ev W : Type} {V : K → Type} {env : Env} {f f' : Frame V Ev W}
    {s : Storage V} (h : f'.toStorage = s) (hs : s.instanceUntil = f.instanceUntil) :
    Extended env false f f' :=
  .kept ((congrArg Storage.instanceUntil h).trans hs)

/-- The upgrade calls that extend the instance, in every contract. -/
def UpgradeCall.extendsInstance : UpgradeCall → Bool
  | .approveUpgrade _ _ | .upgradeContract _ => true
  | .getContractVersion | .revokeUpgrade _ | .isUpgradeAllowed _ => false

theorem UpgradeCall.program_extended {K Ev W : Type} [DecidableEq K] {V : K → Type} {env : Env}
    {f f' : Frame V Ev W} {G : Governance V} {wrap : UpgradeEvent → Ev} {c : UpgradeCall} {v : Value}
    (h : c.program G wrap env f = (.ok v, f')) : Extended env c.extendsInstance f f' := by
  cases c with
  | getContractVersion =>
    simp only [UpgradeCall.program, entry_ok, getContractVersion_ok] at h
    obtain ⟨_, ⟨_, rfl⟩, _⟩ := h
    rfl
  | approveUpgrade hash n =>
    obtain ⟨_, h⟩ := (approveUpgrade_ends hash n).entry_returned h
    exact h.instanceUntil
  | revokeUpgrade hash =>
    obtain ⟨_, h⟩ := (revokeUpgrade_ends hash).entry_returned h
    exact .of_eq h rfl
  | isUpgradeAllowed hash =>
    simp only [UpgradeCall.program, entry_ok, isUpgradeAllowed_ok] at h
    obtain ⟨_, ⟨_, rfl⟩, _⟩ := h
    rfl
  | upgradeContract hash =>
    obtain ⟨_, h⟩ := (upgradeContract_ends hash).entry_returned h
    exact h.instanceUntil

namespace ProofRegistry

def Call.extendsInstance : Call → Bool
  | .initializeContract _ _ _ => true
  | .upgrade c => c.extendsInstance
  | _ => false

variable {W : Type} {clients : Clients W} {env : Env} {f f' : Frame DataKey.Value Event W}

@[simp] theorem instanceUntil_touchProof (id : BytesN 32) (s : Storage DataKey.Value) :
    (touchProof env id s).instanceUntil = s.instanceUntil := by
  unfold touchProof
  split <;> simp

theorem program_extended {c : Call} {v : Value} (h : c.program clients env f = (.ok v, f')) :
    Extended env c.extendsInstance f f' := by
  cases c with
  | initializeContract a i p =>
    obtain ⟨_, h⟩ := (initializeContract_ends clients a i p).entry_returned h
    exact h.instanceUntil
  | registerProof id c a n e =>
    obtain ⟨_, h⟩ := (registerProof_ends clients id c a n e).entry_returned h
    exact .of_eq h (by simp)
  | revokeProof id =>
    obtain ⟨_, r, h⟩ := (setRevoked_ends id false).entry_returned h
    exact .of_eq h (by simp)
  | adminRevokeProof id =>
    obtain ⟨_, r, h⟩ := (setRevoked_ends id true).entry_returned h
    exact .of_eq h (by simp)
  | getProof id =>
    simp only [Call.program, entry_ok, getProof_ok] at h
    obtain ⟨_, ⟨_, rfl⟩, _⟩ := h
    exact .kept (by simp)
  | isValidProof id =>
    simp only [Call.program, entry_ok, isValidProof_ok] at h
    obtain ⟨_, ⟨_, rfl⟩, _⟩ := h
    exact .kept (by simp)
  | isRevoked id =>
    simp only [Call.program, entry_ok, isRevoked_ok] at h
    obtain ⟨_, ⟨_, rfl⟩, _⟩ := h
    exact .kept (by simp)
  | getAdmin =>
    simp only [Call.program, ProofRegistry.getAdmin, entry_ok, getAdmin_ok] at h
    obtain ⟨_, ⟨_, rfl⟩, _⟩ := h
    rfl
  | getIssuerRegistry =>
    simp only [Call.program, entry_ok, getIssuerRegistry_ok] at h
    obtain ⟨_, ⟨_, rfl⟩, _⟩ := h
    rfl
  | getProtocolConfig =>
    simp only [Call.program, entry_ok, getProtocolConfig_ok] at h
    obtain ⟨_, ⟨_, rfl⟩, _⟩ := h
    rfl
  | upgrade c =>
    rw [program_upgrade] at h
    exact UpgradeCall.program_extended h

end ProofRegistry

namespace ProtocolConfig

def Call.extendsInstance : Call → Bool
  | .initializeContract _ | .setAdmin _ | .pause | .unpause | .approveSchemaVersion _
  | .deprecateSchemaVersion _ => true
  | .upgrade c => c.extendsInstance
  | .getAdmin | .isPaused | .isSchemaVersionApproved _ | .getConfigVersion => false

variable {env : Env} {f f' : Frame DataKey.Value Event Unit}

@[simp] theorem instanceUntil_touchSchema (n : UInt32) (s : Storage DataKey.Value) :
    (touchSchema env n s).instanceUntil = s.instanceUntil := by
  unfold touchSchema
  split <;> simp

@[simp] theorem instanceUntil_flagged (n : UInt32) (flag : Bool) (s : Storage DataKey.Value) :
    (flagged env n flag s).instanceUntil = s.instanceUntil := by
  simp [flagged]

theorem program_extended {c : Call} {v : Value} (h : c.program env f = (.ok v, f')) :
    Extended env c.extendsInstance f f' := by
  cases c with
  | initializeContract admin =>
    obtain ⟨_, h⟩ := (initializeContract_ends admin).entry_returned h
    exact h.instanceUntil
  | getAdmin =>
    simp only [Call.program, ProtocolConfig.getAdmin, entry_ok, getAdmin_ok] at h
    obtain ⟨_, ⟨_, rfl⟩, _⟩ := h
    rfl
  | setAdmin a =>
    obtain ⟨_, h⟩ := (setAdmin_ends a).entry_returned h
    exact h.instanceUntil
  | isPaused =>
    simp only [Call.program, isPaused, entry_ok, bind_ok, get_ok, pure_ok, Storage.access_inst] at h
    obtain ⟨_, ⟨_, _, ⟨_, rfl⟩, _, rfl⟩, _⟩ := h
    rfl
  | pause =>
    obtain ⟨_, h⟩ := (setPaused_ends true _).entry_returned h
    exact h.instanceUntil
  | unpause =>
    obtain ⟨_, h⟩ := (setPaused_ends false _).entry_returned h
    exact h.instanceUntil
  | approveSchemaVersion n =>
    obtain ⟨_, h⟩ := (setSchemaVersion_ends n true _).entry_returned h
    exact h.instanceUntil.trans (by rw [instanceUntil_flagged]; rfl)
  | deprecateSchemaVersion n =>
    obtain ⟨_, h⟩ := (setSchemaVersion_ends n false _).entry_returned h
    exact h.instanceUntil.trans (by rw [instanceUntil_flagged]; rfl)
  | isSchemaVersionApproved n =>
    simp only [Call.program, entry_ok, isSchemaVersionApproved_ok] at h
    obtain ⟨_, ⟨_, rfl⟩, _⟩ := h
    exact .kept (by simp)
  | getConfigVersion =>
    simp only [Call.program, entry_ok, getConfigVersion_ok] at h
    obtain ⟨_, ⟨_, rfl⟩, _⟩ := h
    rfl
  | upgrade c =>
    rw [program_upgrade] at h
    exact UpgradeCall.program_extended h

end ProtocolConfig

namespace IssuerRegistry

def Call.extendsInstance : Call → Bool
  | .initializeContract _ => true
  | .upgrade c => c.extendsInstance
  | _ => false

variable {env : Env} {f f' : Frame DataKey.Value Event Unit}

@[simp] theorem instanceUntil_touchIssuer (id : BytesN 32) (s : Storage DataKey.Value) :
    (touchIssuer env id s).instanceUntil = s.instanceUntil := by
  unfold touchIssuer
  split <;> simp

@[simp] theorem instanceUntil_touchIndexed (a : Address) (s : Storage DataKey.Value) :
    (touchIndexed env a s).instanceUntil = s.instanceUntil := by
  unfold touchIndexed
  split <;> simp

theorem program_extended {c : Call} {v : Value} (h : c.program env f = (.ok v, f')) :
    Extended env c.extendsInstance f f' := by
  cases c with
  | initializeContract admin =>
    obtain ⟨_, h⟩ := (initializeContract_ends admin).entry_returned h
    exact h.instanceUntil
  | getAdmin =>
    simp only [Call.program, IssuerRegistry.getAdmin, entry_ok, getAdmin_ok] at h
    obtain ⟨_, ⟨_, rfl⟩, _⟩ := h
    rfl
  | registerIssuer id a m =>
    obtain ⟨_, r, h⟩ := (registerIssuer_ends id a m).entry_returned h
    exact .of_eq h (by simp [registered])
  | updateIssuer id m =>
    obtain ⟨_, r, h⟩ := (updateIssuer_ends id m).entry_returned h
    exact .of_eq h (by simp)
  | suspendIssuer id =>
    obtain ⟨_, r, h⟩ := (setStatus_ends id .suspended).entry_returned h
    exact .of_eq h (by simp)
  | reactivateIssuer id =>
    obtain ⟨_, r, h⟩ := (setStatus_ends id .active).entry_returned h
    exact .of_eq h (by simp)
  | revokeIssuer id =>
    obtain ⟨_, r, h⟩ := (setStatus_ends id .revoked).entry_returned h
    exact .of_eq h (by simp)
  | rotateIssuerAddress id a =>
    obtain ⟨_, old, r, _, h⟩ := (rotateIssuerAddress_ends id a).entry_returned h
    exact .of_eq h (by simp [rotated])
  | getIssuer id =>
    simp only [Call.program, entry_ok, getIssuer_ok] at h
    obtain ⟨_, ⟨_, rfl⟩, _⟩ := h
    exact .kept (by simp)
  | isActiveIssuer id =>
    simp only [Call.program, entry_ok, isActiveIssuer_ok] at h
    obtain ⟨_, ⟨_, rfl⟩, _⟩ := h
    exact .kept (by simp)
  | isActiveAddress a =>
    simp only [Call.program, entry_ok, isActiveAddress_ok] at h
    obtain ⟨_, ⟨_, rfl⟩, _⟩ := h
    exact .kept (by simp)
  | getIssuerByAddress a =>
    obtain ⟨_, id, h⟩ := (getIssuerByAddress_ends a).entry_returned h
    exact .of_eq h (by simp)
  | upgrade c =>
    rw [program_upgrade] at h
    exact UpgradeCall.program_extended h

end IssuerRegistry

/-! ### The system -/

namespace System

/-- The instance entries of a deployment. -/
inductive Instance where
  | config
  | issuers
  | proofs
  deriving DecidableEq

def instanceUntil (s : System) : Instance → Nat
  | .config => s.config.instanceUntil
  | .issuers => s.issuers.instanceUntil
  | .proofs => s.proofs.instanceUntil

/-- The instances a call loads: that of its contract, and all three for `register_proof`. -/
def Call.loads : Call → Instance → Bool
  | .proofs (.registerProof _ _ _ _ _), _ => true
  | .config _, .config => true
  | .issuers _, .issuers => true
  | .proofs _, .proofs => true
  | _, _ => false

/-- The instances a call extends: that of its contract, or none. -/
def Call.extendsInstance : Call → Instance → Bool
  | .config c, .config => c.extendsInstance
  | .issuers c, .issuers => c.extendsInstance
  | .proofs c, .proofs => c.extendsInstance
  | _, _ => false

variable (dep : Deployment)

/-- A call that goes through loads and extends what the tables say. -/
theorem step_instance {i : Invocation Call} {s : System} (hok : ((machine dep).reply i s).Succeeded)
    (k : Instance) : ((machine dep).next i s).instanceUntil k =
      aged i.env (i.call.loads k) (i.call.extendsInstance k) (s.instanceUntil k) := by
  obtain ⟨call, env⟩ := i
  cases call with
  | config c =>
    have hinvoke : (invoke c.program {env with currentContract := dep.protocolConfig} s.config
        ()).1.Succeeded := hok
    obtain ⟨v, f, hrun, hnext⟩ := invoke_run hinvoke
    have hext := ProtocolConfig.program_extended hrun
    cases k with
    | config =>
      simp only [Machine.next, machine, step, contractAt, ProtocolConfig.machine, hnext]
      exact hext
    | issuers => rfl
    | proofs => rfl
  | issuers c =>
    have hinvoke : (invoke c.program {env with currentContract := dep.issuerRegistry} s.issuers
        ()).1.Succeeded := hok
    obtain ⟨v, f, hrun, hnext⟩ := invoke_run hinvoke
    have hext := IssuerRegistry.program_extended hrun
    cases k with
    | config => rfl
    | issuers =>
      simp only [Machine.next, machine, step, contractAt, IssuerRegistry.machine, hnext]
      exact hext
    | proofs => rfl
  | proofs c =>
    obtain ⟨v, f, hrun, hnext⟩ := proofs_run dep hok
    have hext := ProofRegistry.program_extended hrun
    have hE := (ProofRegistry.program_realizes (clients dep) _ _ _ _ _ _ _).mp
      ⟨f, rfl, hrun, rfl, rfl⟩
    rw [hnext]
    cases c with
    | registerProof id cm a n e =>
      obtain ⟨_, hconfig, hissuers⟩ := registerProof_dependencies dep hE
      cases k with
      | config =>
        simp only [instanceUntil, hconfig, ProtocolConfig.instanceUntil_touchSchema]
        simp [Storage.load, aged, Call.loads, Call.extendsInstance]
      | issuers =>
        simp only [instanceUntil, hissuers, IssuerRegistry.instanceUntil_touchIndexed]
        simp [Storage.load, aged, Call.loads, Call.extendsInstance]
      | proofs => exact hext
    | _ =>
      obtain ⟨hworld, _⟩ := hE
      cases k with
      | config => simp [instanceUntil, hworld, aged, Call.loads, Call.extendsInstance]
      | issuers => simp [instanceUntil, hworld, aged, Call.loads, Call.extendsInstance]
      | proofs => exact hext

/-! ### Runs -/

/-- A step that goes through and extends the instance `k`. -/
def extendsAt (k : Instance) (t : SystemStep) : Bool :=
  decide t.reply.Succeeded && t.input.call.extendsInstance k

theorem step_aged (i : Invocation Call) (s : System) (k : Instance) :
    (((machine dep).reply i s).Succeeded ∧ ((machine dep).next i s).instanceUntil k =
      aged i.env (i.call.loads k) (i.call.extendsInstance k) (s.instanceUntil k)) ∨
    (¬ ((machine dep).reply i s).Succeeded ∧ (machine dep).next i s = s) := by
  rcases step_cases dep i s with ⟨v, hv, _⟩ | ⟨e, hr, hnext, _⟩
  · exact .inl ⟨⟨v, hv⟩, step_instance dep ⟨v, hv⟩ k⟩
  · exact .inr ⟨Receipt.not_succeeded hr, hnext⟩

theorem instance_renewsBy (k : Instance) :
    (machine dep).RenewsBy (fun s => s.instanceUntil k) (fun i => i.env.sequence) (extendsAt k)
      TTL_THRESHOLD_LEDGERS TTL_EXTEND_TO_LEDGERS := by
  intro i s
  rcases step_aged dep i s k with ⟨hok, haged⟩ | ⟨hfail, hsame⟩
  · refine ⟨Nat.le_trans le_aged (Nat.le_of_eq haged.symm), fun hlive => ?_⟩
    refine haged.trans ((aged_of_live hlive).trans ?_)
    simp [extendsAt, Machine.stepAt, hok]
  · rw [hsame]
    refine ⟨Nat.le_refl _, fun _ => ?_⟩
    simp [extendsAt, Machine.stepAt, hfail]

/-- More than the threshold remains after a step that extends. -/
theorem extended_above {t : SystemStep} {s : System} {is : List (Invocation Call)} {k : Instance}
    (ht : t ∈ (machine dep).history s is) (hext : extendsAt k t = true) :
    t.input.env.sequence + TTL_THRESHOLD_LEDGERS < t.post.instanceUntil k := by
  obtain ⟨a, _, _, heq⟩ := (machine dep).mem_history ht
  obtain ⟨hok, hcall⟩ := Bool.and_eq_true_iff.mp hext
  rw [heq] at hok
  rw [heq]
  have haged := step_instance dep (of_decide_eq_true hok) k
  show t.input.env.sequence + TTL_THRESHOLD_LEDGERS <
    ((machine dep).next t.input ((machine dep).run s a)).instanceUntil k
  rw [haged, hcall]
  exact add_lt_extendUntil threshold_lt_extendTo

/-- `live` is the last ledger of the instance `k` when it was last restored, if ever, by a
step that found it archived: what it had in `s`, or the minimum lifetime. -/
def Restored (k : Instance) (s : System) (steps : List SystemStep) (live : Nat) : Prop :=
  live = s.instanceUntil k ∨ ∃ t ∈ steps, t.reply.Succeeded ∧ t.input.call.loads k = true ∧
    t.pre.instanceUntil k < t.input.env.sequence ∧
    live = t.input.env.sequence + t.input.env.minimumTtl - 1

theorem Restored.append {k : Instance} {s : System} {steps : List SystemStep} {live : Nat}
    (h : Restored k s steps live) (more : List SystemStep) : Restored k s (steps ++ more) live :=
  h.imp id fun ⟨t, ht, h⟩ => ⟨t, List.mem_append_left _ ht, h⟩

/-- A run that extends nothing only restores. -/
theorem run_restores {s : System} {is : List (Invocation Call)} {k : Instance}
    (hno : ∀ t ∈ (machine dep).history s is, extendsAt k t = false) :
    Restored k s ((machine dep).history s is) (((machine dep).run s is).instanceUntil k) := by
  induction is using List.reverseRecOn with
  | nil => exact .inl rfl
  | append_singleton is i ih =>
    rw [Machine.history_snoc] at hno ⊢
    rw [Machine.run_snoc]
    have hbefore := ih fun t ht => hno t (List.mem_append_left _ ht)
    have hlast := hno _ (List.mem_append_right _ (List.mem_singleton.mpr rfl))
    rcases step_aged dep i ((machine dep).run s is) k with ⟨hok, haged⟩ | ⟨_, hsame⟩
    · have hext : i.call.extendsInstance k = false := by
        simpa [extendsAt, Machine.stepAt, hok] using hlast
      rw [hext] at haged
      by_cases hlive : i.env.sequence ≤ ((machine dep).run s is).instanceUntil k
      · rw [haged, aged_of_live hlive]
        exact hbefore.append _
      · cases hloads : i.call.loads k with
        | false =>
          rw [haged, hloads]
          exact hbefore.append _
        | true =>
          have hrestored : ((machine dep).next i ((machine dep).run s is)).instanceUntil k =
              i.env.sequence + i.env.minimumTtl - 1 := by
            rw [haged, hloads]
            simp only [aged, restoreUntil, if_true, if_pos (Nat.lt_of_not_le hlive)]
            rfl
          exact .inr ⟨_, List.mem_append_right _ (List.mem_singleton.mpr rfl), hok, hloads,
            Nat.lt_of_not_le hlive, hrestored⟩
    · rw [hsame]
      exact hbefore.append _

end System
end EarnProof

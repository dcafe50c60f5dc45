import EarnProof.Soroban.Walk
import EarnProof.Upgrade.Governance

/-! Why a governance call is refused, and the storage that a change leaves. -/
namespace EarnProof
open Soroban

section
variable {K : Type} [DecidableEq K] {V : K → Type} {Ev W : Type}

/-- The checks of a governance call, in order. The deployer is asked last. -/
def Governance.checks (G : Governance V) (env : Env) (d : Entries V) : UpgradeCall → List Check
  | .getContractVersion | .isUpgradeAllowed _ => []
  | .approveUpgrade _ n =>
    [⟨(G.admin.read d).isNone, .abort (.panic "contract not initialized: NotInitialized")⟩,
      .requireAuth env (G.admin.read d),
      ⟨n ≤ G.version d,
        .abort (.panic "new_version must be greater than current contract version")⟩]
  | .revokeUpgrade _ =>
    [⟨(G.admin.read d).isNone, .abort (.panic "contract not initialized: NotInitialized")⟩,
      .requireAuth env (G.admin.read d)]
  | .upgradeContract h =>
    [⟨(G.admin.read d).isNone, .abort (.panic "contract not initialized: NotInitialized")⟩,
      .requireAuth env (G.admin.read d),
      ⟨((G.allowedWasm h).read d).isNone, .abort (.panic "wasm hash not on allowlist")⟩,
      ⟨((G.allowedWasm h).read d).any (· ≤ G.version d),
        .abort (.panic "upgrade would not advance contract version")⟩,
      ⟨!env.installable h, .abort .host⟩]

/-- What a refused governance call has written: the deployer is asked after the allowlist
entry was removed. -/
def Governance.leftover (G : Governance V) :
    UpgradeCall → Entries V → Failure ErrorCode → Entries V
  | .upgradeContract h, d, .abort .host => (G.allowedWasm h).put d none
  | _, d, _ => d

theorem Governance.Effect.passes {G : Governance V} {wrap : UpgradeEvent → Ev} {env : Env}
    {d d' : Entries V} {u : UpgradeCall} {v : Value} {events : List Ev}
    (h : G.Effect wrap env d u v d' events) : refusal (G.checks env d u) = none := by
  cases u with
  | getContractVersion => rfl
  | approveUpgrade hash n =>
    obtain ⟨admin, ha, hs, hn, _⟩ := h
    simp [Governance.checks, Check.requireAuth, ha, hs, hn]
  | revokeUpgrade hash =>
    obtain ⟨admin, ha, hs, _⟩ := h
    simp [Governance.checks, Check.requireAuth, ha, hs]
  | isUpgradeAllowed hash => rfl
  | upgradeContract hash =>
    obtain ⟨admin, n, ha, hs, hn, hlt, hok, _⟩ := h
    simp [Governance.checks, Check.requireAuth, ha, hs, hn, hlt, hok]

theorem getAdmin_run {G : Governance V} {env : Env} {f : Frame V Ev W} {o : Option Address}
    (h : G.admin.read f.entries = o) :
    (getAdmin G : Program V Ev W ContractError Address) env f =
      (o.elim (.error (.error .notInitialized)) .ok, f) := by
  subst h
  cases ha : G.admin.read f.entries with
  | none => exact bind_error.mpr (.inr ⟨none, f, by simp [ha], by simp⟩)
  | some a => exact getAdmin_ok.mpr ⟨ha, rfl⟩

section Walk
variable {ε β : Type} {code : ε → ErrorCode} {G : Governance V} {env : Env} {f : Frame V Ev W}
  {l : List Check} {left : Failure ErrorCode → Entries V} {Q : β → Frame V Ev W → Prop}
  {g : Address → Program V Ev W ε β} {o : Option Address}

/-- `get_admin(..).map_err(..)?` -/
theorem ends_admin {h : ContractError → ε}
    (hg : ∀ a, o = some a → Ends code (g a) env f l left Q)
    (ho : G.admin.read f.entries = o := by simp)
    (hleft : f.entries = left (.error (code (h .notInitialized))) := by first | rfl | simp) :
    Ends code (mapErr (getAdmin G) h >>= g) env f
      (⟨o.isNone, .error (code (h .notInitialized))⟩ :: l) left Q := by
  have hx : mapErr (getAdmin G) h env f = (o.elim (.error (.error (h .notInitialized))) .ok, f) := by
    unfold mapErr
    rw [getAdmin_run ho]
    cases o <;> rfl
  exact .lookup (.error (h .notInitialized)) hx hg rfl hleft

/-- `get_admin(..).expect(..)` -/
theorem ends_expectAdmin
    (hg : ∀ a, o = some a → Ends code (g a) env f l left Q)
    (ho : G.admin.read f.entries = o := by simp)
    (hleft : f.entries = left (.abort (.panic "contract not initialized: NotInitialized")) := by
      first | rfl | simp) :
    Ends code (expectOk ContractError.debug (getAdmin G) "contract not initialized" >>= g) env f
      (⟨o.isNone, .abort (.panic "contract not initialized: NotInitialized")⟩ :: l) left Q := by
  have hx : (expectOk ContractError.debug (getAdmin G) "contract not initialized" :
      Program V Ev W ε Address) env f =
        (o.elim (.error (.abort (.panic "contract not initialized: NotInitialized"))) .ok, f) := by
    unfold expectOk
    rw [getAdmin_run ho]
    cases o <;> rfl
  exact .lookup (.abort (.panic "contract not initialized: NotInitialized")) hx hg rfl hleft

end Walk

section Changes
variable {G : Governance V} {wrap : UpgradeEvent → Ev} {env : Env} {f : Frame V Ev W}

theorem approveUpgrade_ends (hash : BytesN 32) (n : UInt32) :
    Ends id (approveUpgrade G wrap hash n : Program V Ev W ErrorCode Unit) env f
      (G.checks env f.entries (.approveUpgrade hash n)) (G.leftover (.approveUpgrade hash n) f.entries)
      fun _ f' => f.InstanceExtended TTL_THRESHOLD_LEDGERS TTL_EXTEND_TO_LEDGERS env.sequence
        f'.toStorage := by
  unfold approveUpgrade
  refine ends_expectAdmin fun admin ha => ?_
  refine .requireAuth (fun _ => ?_) ha
  refine .next (getContractVersion_ok.mpr ⟨rfl, rfl⟩) ?_
  refine .panicIf fun _ => ?_
  refine .act (Slot.set_ok.mpr rfl) (.act rfl (.ret rfl ?_))
  exact ⟨fun k => by simp, by simp, by simp⟩

theorem revokeUpgrade_ends (hash : BytesN 32) :
    Ends id (revokeUpgrade G wrap hash : Program V Ev W ErrorCode Unit) env f
      (G.checks env f.entries (.revokeUpgrade hash)) (G.leftover (.revokeUpgrade hash) f.entries)
      fun _ f' => f'.toStorage =
        {f.toStorage with entries := (G.allowedWasm hash).put f.entries none} := by
  unfold revokeUpgrade
  refine ends_expectAdmin fun admin ha => ?_
  refine .requireAuth (fun _ => ?_) ha
  exact .act (Slot.remove_ok.mpr rfl) (.ret rfl rfl)

theorem upgradeContract_ends (hash : BytesN 32) :
    Ends id (upgradeContract G wrap hash : Program V Ev W ErrorCode Unit) env f
      (G.checks env f.entries (.upgradeContract hash)) (G.leftover (.upgradeContract hash) f.entries)
      fun _ f' => f.InstanceExtended TTL_THRESHOLD_LEDGERS TTL_EXTEND_TO_LEDGERS env.sequence
        f'.toStorage := by
  unfold upgradeContract
  refine ends_expectAdmin fun admin ha => ?_
  refine .requireAuth (fun _ => ?_) ha
  refine .next (Slot.get_ok.mpr ⟨rfl, rfl⟩) ?_
  refine .expect fun n hn => ?_
  refine .next (getContractVersion_ok.mpr ⟨rfl, rfl⟩) ?_
  refine .panicIf (fun _ => ?_) (by rw [hn]; rfl)
  -- The deployer is asked when the approval is gone already.
  refine .act (Slot.remove_ok.mpr rfl) ?_
  refine .check (fun hp => updateCurrentContractWasm_error.mpr ⟨?_, rfl, rfl⟩) (fun hp => ?_) rfl rfl
  · simpa using hp
  · refine .act (updateCurrentContractWasm_ok.mpr ⟨by simpa using hp, rfl⟩) ?_
    refine .act (Slot.set_ok.mpr rfl) (.act rfl (.ret rfl ?_))
    exact ⟨fun k => by simp, by simp, by simp⟩

end Changes

theorem UpgradeCall.program_refuses (G : Governance V) (wrap : UpgradeEvent → Ev) (c : UpgradeCall) :
    Refuses (c.program G wrap : Program V Ev W ErrorCode Value) (fun env d _ => G.checks env d c)
      (G.leftover c) where
  error := by
    intro env f e f' h
    cases c with
    | getContractVersion => simp [program, entry, EarnProof.getContractVersion] at h
    | approveUpgrade hash n => exact (approveUpgrade_ends hash n).entry_refused h
    | revokeUpgrade hash => exact (revokeUpgrade_ends hash).entry_refused h
    | isUpgradeAllowed hash => simp [program, entry, EarnProof.isUpgradeAllowed] at h
    | upgradeContract hash => exact (upgradeContract_ends hash).entry_refused h
  ok := (c.program_realizes G wrap).passes fun h => h.2.passes

end
end EarnProof

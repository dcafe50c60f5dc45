import EarnProof.Upgrade.Contracts

/-! The recovery from a bad upgrade: approve a fixed build at a higher version, then
install it. It is available below the last version a `u32` holds, and at that version
never again. -/
namespace EarnProof
open Soroban

section
variable {K C Ev : Type} [DecidableEq K] {V : K → Type}

/-- The approval of `h` at version `v` goes through, and in the state it leaves the upgrade
to `h` does. -/
def ForwardFixes (m : Machine (Invocation C) (Receipt Ev Value) (Storage V))
    (call : UpgradeCall → C) (s : Storage V) (h : BytesN 32) (env env' : Env) (v : UInt32) : Prop :=
  (m.reply ⟨call (.approveUpgrade h v), env⟩ s).Succeeded ∧
    (m.reply ⟨call (.upgradeContract h), env'⟩
      (m.next ⟨call (.approveUpgrade h v), env⟩ s)).Succeeded

section Law
variable {program : C → Program V Ev Unit ErrorCode Value}
  {Effect : Env → Entries V → C → Value → Entries V → List Ev → Prop}
  {G : Governance V} {wrap : UpgradeEvent → Ev} {upgradeOf : C → Option UpgradeCall}
  (hprog : ∀ c, Realizes (program c) fun env d w v d' events w' =>
    w' = w ∧ Effect env d c v d' events)
  (hG : Governs G wrap upgradeOf Effect) {call : UpgradeCall → C}
  (hcall : ∀ u, upgradeOf (call u) = some u) (self : Address)
include hprog hG hcall

/-- An approval that goes through is for a version above the one in force. -/
theorem version_lt_of_forwardFixes {s : Storage V} {h : BytesN 32} {env env' : Env} {v : UInt32}
    (hfix : ForwardFixes (contractAt program self) call s h env env' v) :
    G.version s.entries < v := by
  obtain ⟨_, _, _, hE⟩ := (contractAt_succeeded hprog).mp hfix.1
  obtain ⟨_, _, _, hlt, _⟩ := (hG.upgrade (hcall _)).mp hE
  exact hlt

/-- Every version above the one in force fixes forward, whoever else has been approved. -/
theorem forwardFixes_of_version_lt {s : Storage V} {a : Address} {h : BytesN 32} {env env' : Env}
    {v : UInt32} (ha : G.admin.read s.entries = some a) (hs : env.signed a = true)
    (hs' : env'.signed a = true) (hh : env'.installable h = true) (hlt : G.version s.entries < v) :
    ForwardFixes (contractAt program self) call s h env env' v := by
  have hE : Effect {env with currentContract := self} s.entries (call (.approveUpgrade h v)) .unit
      ((G.allowedWasm h).put s.entries (some v)) [wrap (.upgradeAllowlisted h v a)] :=
    (hG.upgrade (hcall _)).mpr ⟨a, ha, hs, hlt, rfl, rfl, rfl⟩
  have happroved : ((contractAt program self).reply ⟨call (.approveUpgrade h v), env⟩ s).outcome =
        .ok .unit ∧
      ((contractAt program self).next ⟨call (.approveUpgrade h v), env⟩ s).entries =
        (G.allowedWasm h).put s.entries (some v) :=
    ⟨contractAt_outcome hprog hE, (contractAt_ok hprog hE).2⟩
  refine ⟨⟨.unit, happroved.1⟩, (contractAt_succeeded hprog).mpr ?_⟩
  rw [happroved.2]
  have hread : G.admin.read ((G.allowedWasm h).put s.entries (some v)) = some a := by
    rw [Slot.read_put_of_ne (G.admin_allowed h)]
    exact ha
  have hversion : G.version ((G.allowedWasm h).put s.entries (some v)) < v := by
    rw [Governance.version, Slot.read_put_of_ne (G.version_allowed h)]
    exact hlt
  exact ⟨.unit, _, _, (hG.upgrade (hcall _)).mpr
    ⟨a, v, hread, hs', Slot.read_put_self _ _ _, hversion, hh, rfl, rfl, rfl⟩⟩

theorem exists_forwardFixes_iff {s : Storage V} {a : Address} {h : BytesN 32} {env env' : Env}
    (ha : G.admin.read s.entries = some a) (hs : env.signed a = true)
    (hs' : env'.signed a = true) (hh : env'.installable h = true) :
    (∃ v, ForwardFixes (contractAt program self) call s h env env' v) ↔
      G.version s.entries ≠ u32Max := by
  constructor
  · rintro ⟨v, hfix⟩ hlast
    have hlt := version_lt_of_forwardFixes hprog hG hcall self hfix
    rw [hlast, ← UInt32.not_le] at hlt
    exact hlt (le_u32Max v)
  · intro hne
    exact ⟨_, forwardFixes_of_version_lt hprog hG hcall self ha hs hs' hh
      (lt_succ_of_ne_u32Max hne)⟩

omit hcall in
/-- The last version is never left. -/
theorem run_u32Max {s : Storage V} (hadmin : G.admin.read s.entries ≠ none)
    (hlast : G.version s.entries = u32Max) (js : List (Invocation C)) :
    G.version ((contractAt program self).run s js).entries = u32Max := by
  refine (contractAt_invariant hprog
    (fun d => G.admin.read d ≠ none ∧ G.version d = u32Max)
    (fun env d c v d' events hE hd => ?_) self ⟨hadmin, hlast⟩ js).2
  cases hu : upgradeOf c with
  | some u =>
    have hE' := (hG.upgrade hu).mp hE
    refine ⟨hE'.admin ▸ hd.1, ?_⟩
    rcases hE'.version with heq | ⟨_, _, hlt⟩
    · rw [heq]
      exact hd.2
    · rw [hd.2, ← UInt32.not_le] at hlt
      exact absurd (le_u32Max _) hlt
  | none =>
    rcases hG.version hu hE with ⟨hv, ha⟩ | ⟨hnone, _⟩
    · exact ⟨fun hn => hd.1 (ha.mp hn), by rw [Governance.version, hv]; exact hd.2⟩
    · exact absurd hnone hd.1

end Law

/-- In every state a contract reaches with an admin, and for every hash the host accepts, an
admin's forward fix exists exactly below the last version; and once there, it is gone for
good. -/
structure ForwardFixLaw (G : Governance V) (call : UpgradeCall → C)
    (m : Machine (Invocation C) (Receipt Ev Value) (Storage V)) : Prop where
  available_iff : ∀ is a h env env', G.admin.read (m.run Storage.empty is).entries = some a →
    env.signed a = true → env'.signed a = true → env'.installable h = true →
    ((∃ v, ForwardFixes m call (m.run Storage.empty is) h env env' v) ↔
      G.version (m.run Storage.empty is).entries ≠ u32Max)
  gone : ∀ is, G.admin.read (m.run Storage.empty is).entries ≠ none →
    G.version (m.run Storage.empty is).entries = u32Max →
    ∀ js h env env' v, ¬ ForwardFixes m call (m.run (m.run Storage.empty is) js) h env env' v

theorem Governs.forwardFix {program : C → Program V Ev Unit ErrorCode Value}
    {Effect : Env → Entries V → C → Value → Entries V → List Ev → Prop}
    {G : Governance V} {wrap : UpgradeEvent → Ev} {upgradeOf : C → Option UpgradeCall}
    (hG : Governs G wrap upgradeOf Effect)
    (hprog : ∀ c, Realizes (program c) fun env d w v d' events w' =>
      w' = w ∧ Effect env d c v d' events) {call : UpgradeCall → C}
    (hcall : ∀ u, upgradeOf (call u) = some u) (self : Address) :
    ForwardFixLaw G call (contractAt program self) where
  available_iff := fun _ _ _ _ _ ha hs hs' hh =>
    exists_forwardFixes_iff hprog hG hcall self ha hs hs' hh
  gone := fun is hadmin hlast js h env env' v hfix => by
    have hlt := version_lt_of_forwardFixes hprog hG hcall self hfix
    rw [run_u32Max hprog hG self hadmin hlast js, ← UInt32.not_le] at hlt
    exact hlt (le_u32Max v)

end

/-- The three contracts obey the law, whatever the dependencies of the proof registry
answer. -/
theorem contracts_forwardFixLaw (self : Address) (clients : ProofRegistry.Clients Unit) :
    ForwardFixLaw ProtocolConfig.governance ProtocolConfig.Call.upgrade
        (ProtocolConfig.machine self) ∧
      ForwardFixLaw IssuerRegistry.governance IssuerRegistry.Call.upgrade
        (IssuerRegistry.machine self) ∧
      ForwardFixLaw ProofRegistry.governance (fun u => ⟨.upgrade u, clients⟩)
        (ProofRegistry.machine self) :=
  ⟨ProtocolConfig.governs.forwardFix ProtocolConfig.program_realizes (fun _ => rfl) self,
    IssuerRegistry.governs.forwardFix IssuerRegistry.program_realizes (fun _ => rfl) self,
    ProofRegistry.governs.forwardFix ProofRegistry.request_realizes (fun _ => rfl) self⟩

/-- An approved upgrade to the last version leaves protocol-config without a forward fix. -/
theorem last_version_locks :
    let m := ProtocolConfig.machine (.mk .contract (.fill 32 11))
    let admin : Address := .mk .account (.fill 32 1)
    let env : Env :=
      { currentContract := admin, timestamp := 1, sequence := 1, signed := fun a => a == admin
        installable := fun _ => true, minimumTtl := 4096 }
    let s := m.run Storage.empty
      [⟨.initializeContract admin, env⟩,
        ⟨.upgrade (.approveUpgrade (.fill 32 7) u32Max), env⟩,
        ⟨.upgrade (.upgradeContract (.fill 32 7)), env⟩]
    ProtocolConfig.governance.admin.read s.entries = some admin ∧ env.signed admin = true ∧
      env.installable (.fill 32 8) = true ∧
      ¬ ∃ v, ForwardFixes m .upgrade s (.fill 32 8) env env v := by
  intro m admin env s
  have hversion : ProtocolConfig.governance.version s.entries = u32Max := by decide +kernel
  refine ⟨by decide +kernel, by decide, rfl, ?_⟩
  rintro ⟨v, hfix⟩
  have hlt := version_lt_of_forwardFixes ProtocolConfig.program_realizes ProtocolConfig.governs
    (fun _ => rfl) _ hfix
  rw [hversion, ← UInt32.not_le] at hlt
  exact hlt (le_u32Max v)

end EarnProof

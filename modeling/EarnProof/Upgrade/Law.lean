import EarnProof.Abstract.LastWrite
import EarnProof.Soroban.Contract
import EarnProof.Upgrade.Governance

/-! The upgrade law of a contract.

A contract whose upgrade calls are the shared governance code, and whose other calls
leave governance alone except that initialization sets version one, obeys one law in
every run: the allowlist holds what the last governance call on each hash granted,
and an upgrade goes through exactly when that grant is above the version in force. -/
namespace EarnProof
open Soroban

/-- The hash whose allowlist entry a governance call writes. -/
def UpgradeCall.target : UpgradeCall → Option (BytesN 32)
  | .approveUpgrade h _ | .revokeUpgrade h | .upgradeContract h => some h
  | .getContractVersion | .isUpgradeAllowed _ => none

/-- The version a last governance call on a hash leaves approved. -/
def granted : Option UpgradeCall → Option UInt32
  | some (.approveUpgrade _ n) => some n
  | _ => none

namespace Governance.Effect
variable {K : Type} [DecidableEq K] {V : K → Type} {Ev : Type} {G : Governance V}
  {wrap : UpgradeEvent → Ev} {env : Env} {d d' : Entries V} {u : UpgradeCall} {v : Value}
  {events : List Ev}

theorem allowed_self (h : G.Effect wrap env d u v d' events) {hash : BytesN 32}
    (hu : u.target = some hash) : (G.allowedWasm hash).read d' = granted (some u) := by
  cases u with
  | approveUpgrade hash' n =>
    obtain ⟨_, _, _, _, _, rfl, _⟩ := h
    cases hu
    exact Slot.read_put_self _ _ _
  | revokeUpgrade hash' =>
    obtain ⟨_, _, _, _, rfl, _⟩ := h
    cases hu
    exact Slot.read_put_self _ _ _
  | upgradeContract hash' =>
    obtain ⟨n, _, _, rfl⟩ := Governance.Effect.upgrade_writes h
    cases hu
    rw [Slot.read_put_of_ne (G.version_allowed hash).symm]
    exact Slot.read_put_self _ _ _
  | getContractVersion => cases hu
  | isUpgradeAllowed hash' => cases hu

theorem allowed_of_ne (h : G.Effect wrap env d u v d' events) {hash : BytesN 32}
    (hu : u.target ≠ some hash) : (G.allowedWasm hash).read d' = (G.allowedWasm hash).read d := by
  have hkey : ∀ hash', u.target = some hash' →
      (G.allowedWasm hash).key ≠ (G.allowedWasm hash').key := by
    intro hash' hu' hkey
    rw [G.allowed_injective _ _ hkey] at hu
    exact hu hu'
  cases u with
  | approveUpgrade hash' n =>
    obtain ⟨_, _, _, _, _, rfl, _⟩ := h
    exact Slot.read_put_of_ne (hkey hash' rfl) _ _
  | revokeUpgrade hash' =>
    obtain ⟨_, _, _, _, rfl, _⟩ := h
    exact Slot.read_put_of_ne (hkey hash' rfl) _ _
  | upgradeContract hash' =>
    obtain ⟨n, _, _, rfl⟩ := Governance.Effect.upgrade_writes h
    rw [Slot.read_put_of_ne (G.version_allowed hash).symm]
    exact Slot.read_put_of_ne (hkey hash' rfl) _ _
  | getContractVersion =>
    obtain ⟨_, rfl, _⟩ := h
    rfl
  | isUpgradeAllowed hash' =>
    obtain ⟨_, rfl, _⟩ := h
    rfl

/-- The version moves at an upgrade only, and then up. -/
theorem version (h : G.Effect wrap env d u v d' events) :
    G.version d' = G.version d ∨
      ∃ hash, u = .upgradeContract hash ∧ G.version d < G.version d' := by
  cases u with
  | getContractVersion =>
    obtain ⟨_, rfl, _⟩ := h
    exact .inl rfl
  | approveUpgrade hash n =>
    obtain ⟨_, _, _, _, _, rfl, _⟩ := h
    exact .inl (congrArg (·.getD 0) (Slot.read_put_of_ne (G.version_allowed hash) _ _))
  | revokeUpgrade hash =>
    obtain ⟨_, _, _, _, rfl, _⟩ := h
    exact .inl (congrArg (·.getD 0) (Slot.read_put_of_ne (G.version_allowed hash) _ _))
  | isUpgradeAllowed hash =>
    obtain ⟨_, rfl, _⟩ := h
    exact .inl rfl
  | upgradeContract hash =>
    obtain ⟨_, n, _, _, _, hlt, _, _, rfl, _⟩ := h
    refine .inr ⟨hash, rfl, ?_⟩
    have hn : G.version (G.contractVersion.put ((G.allowedWasm hash).put d none) (some n)) = n := by
      simp [Governance.version]
    rw [hn]
    exact hlt

end Governance.Effect

/-! ### Contracts under governance -/

section Law
variable {K C Ev : Type} [DecidableEq K] {V : K → Type}

/-- A table of effects whose upgrade calls are governance over `G`, and whose other
calls leave governance as it is or initialize it. -/
structure Governs (G : Governance V) (wrap : UpgradeEvent → Ev) (upgradeOf : C → Option UpgradeCall)
    (Effect : Env → Entries V → C → Value → Entries V → List Ev → Prop) : Prop where
  upgrade : ∀ {env d c u v d' events}, upgradeOf c = some u →
    (Effect env d c v d' events ↔ G.Effect wrap env d u v d' events)
  allowed : ∀ {env d c v d' events}, upgradeOf c = none → Effect env d c v d' events →
    ∀ h, (G.allowedWasm h).read d' = (G.allowedWasm h).read d
  version : ∀ {env d c v d' events}, upgradeOf c = none → Effect env d c v d' events →
    (G.contractVersion.read d' = G.contractVersion.read d ∧
      (G.admin.read d' = none ↔ G.admin.read d = none)) ∨
    (G.admin.read d = none ∧ G.admin.read d' ≠ none ∧ G.contractVersion.read d' = some 1)

variable {program : C → Program V Ev Unit ErrorCode Value}
  {Effect : Env → Entries V → C → Value → Entries V → List Ev → Prop}

/-- The successful governance calls of a run, each under the hash it is about. -/
def governanceCalls (upgradeOf : C → Option UpgradeCall)
    (steps : List (Machine.Step (Invocation C) (Receipt Ev Value) (Storage V))) :
    List (BytesN 32 × UpgradeCall) :=
  steps.filterMap fun t =>
    if t.reply.Succeeded then
      (upgradeOf t.input.call).bind fun u => u.target.map fun h => (h, u)
    else none

/-- The most recent successful governance call on a hash. -/
def lastGovernance (upgradeOf : C → Option UpgradeCall) (h : BytesN 32)
    (steps : List (Machine.Step (Invocation C) (Receipt Ev Value) (Storage V))) :
    Option UpgradeCall :=
  LastWrite.last h (governanceCalls upgradeOf steps)

variable {G : Governance V} {wrap : UpgradeEvent → Ev} {upgradeOf : C → Option UpgradeCall}
  (hprog : ∀ c, Realizes (program c) fun env d w v d' events w' =>
    w' = w ∧ Effect env d c v d' events)
  (hG : Governs G wrap upgradeOf Effect) (self : Address)
include hprog hG

/-- One more step moves the allowlist entry of `h` as its last governance call says. -/
theorem governs_allowed_step (i : Invocation C) (s : Storage V)
    (steps : List (Machine.Step (Invocation C) (Receipt Ev Value) (Storage V))) (h : BytesN 32)
    (hs : (G.allowedWasm h).read s.entries = granted (lastGovernance upgradeOf h steps)) :
    (G.allowedWasm h).read ((contractAt program self).next i s).entries =
      granted (lastGovernance upgradeOf h (steps ++ [(contractAt program self).stepAt i s])) := by
  have hcalls : governanceCalls upgradeOf (steps ++ [(contractAt program self).stepAt i s]) =
      governanceCalls upgradeOf steps ++
        governanceCalls upgradeOf [(contractAt program self).stepAt i s] := by
    simp [governanceCalls]
  rw [lastGovernance, hcalls]
  rcases contractAt_cases hprog self i s with ⟨v, hv, hE⟩ | ⟨e, hr, hnext, _⟩
  · have hok : ((contractAt program self).reply i s).Succeeded := ⟨v, hv⟩
    cases hu : upgradeOf i.call with
    | none =>
      have hnone : governanceCalls upgradeOf [(contractAt program self).stepAt i s] = [] := by
        simp [governanceCalls, Machine.stepAt, hu]
      rw [hnone, List.append_nil, hG.allowed hu hE h]
      exact hs
    | some u =>
      have hE' := (hG.upgrade hu).mp hE
      cases ht : u.target with
      | none =>
        have hnone : governanceCalls upgradeOf [(contractAt program self).stepAt i s] = [] := by
          simp [governanceCalls, Machine.stepAt, hu, ht]
        rw [hnone, List.append_nil, hE'.allowed_of_ne (by simp [ht])]
        exact hs
      | some h' =>
        have hone : governanceCalls upgradeOf [(contractAt program self).stepAt i s] =
            [(h', u)] := by
          simp [governanceCalls, Machine.stepAt, hu, ht, hok]
        rw [hone]
        by_cases heq : h' = h
        · subst heq
          rw [LastWrite.last_append_self]
          exact hE'.allowed_self ht
        · rw [LastWrite.last_append_of_ne heq, hE'.allowed_of_ne (by simpa [ht] using heq)]
          exact hs
  · have hfail : ¬ ((contractAt program self).reply i s).Succeeded :=
      Receipt.not_succeeded (congrArg Receipt.outcome hr)
    have hnone : governanceCalls upgradeOf [(contractAt program self).stepAt i s] = [] := by
      simp [governanceCalls, Machine.stepAt, hfail]
    rw [hnone, List.append_nil, hnext]
    exact hs

/-- The allowlist entry of a hash is what its last governance call granted. -/
theorem governs_allowed (is : List (Invocation C)) (h : BytesN 32) :
    (G.allowedWasm h).read ((contractAt program self).run Storage.empty is).entries =
      granted (lastGovernance upgradeOf h ((contractAt program self).history Storage.empty is)) := by
  refine (contractAt program self).history_induction
    (fun _ steps s =>
      (G.allowedWasm h).read s.entries = granted (lastGovernance upgradeOf h steps))
    ?_ (fun _ i ih => governs_allowed_step hprog hG self i _ _ h ih) is
  simp [lastGovernance, governanceCalls, granted]

/-- The version is zero exactly before initialization. -/
theorem governs_version_zero (is : List (Invocation C)) :
    G.version ((contractAt program self).run Storage.empty is).entries = 0 ↔
      G.admin.read ((contractAt program self).run Storage.empty is).entries = none := by
  refine contractAt_invariant hprog (fun d => G.version d = 0 ↔ G.admin.read d = none)
    (fun env d c v d' events hE hd => ?_) self (by simp [Governance.version]) is
  cases hu : upgradeOf c with
  | some u =>
    have hE' := (hG.upgrade hu).mp hE
    rw [hE'.admin]
    rcases hE'.version with heq | ⟨hash, rfl, hlt⟩
    · rw [heq]
      exact hd
    · obtain ⟨admin, _, hadmin, _⟩ := hE'
      have hpos : G.version d' ≠ 0 := fun h0 => by
        rw [h0] at hlt
        exact absurd hlt (UInt32.not_lt_zero)
      simp [hpos, hadmin]
  | none =>
    rcases hG.version hu hE with ⟨hv, ha⟩ | ⟨_, ha, hv⟩
    · rw [Governance.version, hv, ha]
      exact hd
    · simp [Governance.version, hv, ha]

theorem governs_version_step (is : List (Invocation C))
    {t : Machine.Step (Invocation C) (Receipt Ev Value) (Storage V)}
    (ht : t ∈ (contractAt program self).history Storage.empty is) :
    G.version t.post.entries = G.version t.pre.entries ∨
      (G.admin.read t.pre.entries = none ∧ G.admin.read t.post.entries ≠ none ∧
        G.version t.post.entries = 1) ∨
      (t.reply.Succeeded ∧ G.version t.pre.entries < G.version t.post.entries ∧
        ∃ h, upgradeOf t.input.call = some (.upgradeContract h)) := by
  rcases contractAt_history hprog self ht with ⟨v, hv, hE⟩ | ⟨e, _, hs⟩
  · cases hu : upgradeOf t.input.call with
    | some u =>
      rcases ((hG.upgrade hu).mp hE).version with heq | ⟨hash, rfl, hlt⟩
      · exact .inl heq
      · exact .inr (.inr ⟨⟨v, hv⟩, hlt, hash, rfl⟩)
    | none =>
      rcases hG.version hu hE with ⟨heq, _⟩ | ⟨hpre, hpost, heq⟩
      · exact .inl (congrArg (·.getD 0) heq)
      · exact .inr (.inl ⟨hpre, hpost, congrArg (·.getD 0) heq⟩)
  · rw [hs]
    exact .inl rfl

omit hprog hG [DecidableEq K] in
theorem lastGovernance_target {h : BytesN 32} {u : UpgradeCall}
    {steps : List (Machine.Step (Invocation C) (Receipt Ev Value) (Storage V))}
    (hlast : lastGovernance upgradeOf h steps = some u) : u.target = some h := by
  obtain ⟨t, _, ht⟩ := List.mem_filterMap.mp (LastWrite.mem_of_last hlast)
  split at ht
  · obtain ⟨u', _, hu'⟩ := Option.bind_eq_some_iff.mp ht
    obtain ⟨h', hh, heq⟩ := Option.map_eq_some_iff.mp hu'
    cases heq
    exact hh
  · cases ht

omit hprog hG [DecidableEq K] in
/-- A hash is granted a version when its last governance call approved it at that version. -/
theorem granted_last {h : BytesN 32} {n : UInt32}
    {steps : List (Machine.Step (Invocation C) (Receipt Ev Value) (Storage V))} :
    granted (lastGovernance upgradeOf h steps) = some n ↔
      lastGovernance upgradeOf h steps = some (.approveUpgrade h n) := by
  constructor
  · intro hg
    cases hlast : lastGovernance upgradeOf h steps with
    | none =>
      rw [hlast] at hg
      cases hg
    | some u =>
      have ht := lastGovernance_target hlast
      rw [hlast] at hg
      cases u with
      | approveUpgrade h' n' =>
        cases hg
        cases ht
        rfl
      | _ => cases hg
  · intro hlast
    rw [hlast]
    rfl

theorem governs_upgrade_iff (is : List (Invocation C)) (i : Invocation C) (h : BytesN 32)
    (hi : upgradeOf i.call = some (.upgradeContract h)) :
    ((contractAt program self).reply i ((contractAt program self).run Storage.empty is)).Succeeded ↔
      ∃ admin n, G.admin.read ((contractAt program self).run Storage.empty is).entries = some admin ∧
        i.env.signed admin = true ∧ i.env.installable h = true ∧
        lastGovernance upgradeOf h ((contractAt program self).history Storage.empty is) =
          some (.approveUpgrade h n) ∧
        G.version ((contractAt program self).run Storage.empty is).entries < n := by
  rw [contractAt_succeeded hprog]
  have hallowed := governs_allowed hprog hG self is h
  constructor
  · rintro ⟨v, d', events, hE⟩
    obtain ⟨admin, n, ha, hs, hn, hlt, hinst, _⟩ := (hG.upgrade hi).mp hE
    rw [hallowed, granted_last] at hn
    exact ⟨admin, n, ha, hs, hinst, hn, hlt⟩
  · rintro ⟨admin, n, ha, hs, hinst, hn, hlt⟩
    rw [← granted_last, ← hallowed] at hn
    exact ⟨.unit, _, _, (hG.upgrade hi).mpr ⟨admin, n, ha, hs, hn, hlt, hinst, rfl, rfl, rfl⟩⟩

/-- What a successful upgrade leaves: the granted version, no entry for the hash, and
everything else as it was. -/
theorem governs_upgrade_effect (is : List (Invocation C)) (i : Invocation C) (h : BytesN 32)
    (hi : upgradeOf i.call = some (.upgradeContract h)) (n : UInt32)
    (hok : ((contractAt program self).reply i
      ((contractAt program self).run Storage.empty is)).Succeeded)
    (hn : lastGovernance upgradeOf h ((contractAt program self).history Storage.empty is) =
      some (.approveUpgrade h n)) :
    let s := (contractAt program self).run Storage.empty is
    let s' := (contractAt program self).next i s
    G.version s'.entries = n ∧ (G.allowedWasm h).read s'.entries = none ∧
      (∀ h', h' ≠ h →
        (G.allowedWasm h').read s'.entries = (G.allowedWasm h').read s.entries) ∧
      ∀ c k, (c = .inst → k ≠ G.contractVersion.key ∧ k ≠ (G.allowedWasm h).key) →
        s'.entries c k = s.entries c k := by
  intro s s'
  have hread : (G.allowedWasm h).read s.entries = some n := by
    rw [governs_allowed hprog hG self is h, granted_last]
    exact hn
  rcases contractAt_cases hprog self i s with ⟨v, _, hE⟩ | ⟨e, hr, _⟩
  · have hE' := (hG.upgrade hi).mp hE
    have hself := hE'.allowed_self rfl
    have hother : ∀ h', h' ≠ h →
        (G.allowedWasm h').read s'.entries = (G.allowedWasm h').read s.entries :=
      fun h' hne => hE'.allowed_of_ne (by simpa [UpgradeCall.target] using Ne.symm hne)
    obtain ⟨_, n', _, _, hn', _, _, _, hd, _⟩ := hE'
    rw [hread] at hn'
    cases hn'
    refine ⟨?_, hself, hother, fun c k hk => ?_⟩
    · show G.version ((contractAt program self).next i s).entries = n
      rw [hd]
      simp [Governance.version]
    · show ((contractAt program self).next i s).entries c k = s.entries c k
      rw [hd, Slot.put_frame _ _ _ fun hc => (hk hc).1]
      exact Slot.put_frame _ _ _ fun hc => (hk hc).2
  · exact absurd hok (Receipt.not_succeeded (congrArg Receipt.outcome hr))

omit hprog hG [DecidableEq K] in
theorem mem_governanceCalls {h : BytesN 32} {u : UpgradeCall}
    {steps : List (Machine.Step (Invocation C) (Receipt Ev Value) (Storage V))}
    (hu : (h, u) ∈ governanceCalls upgradeOf steps) :
    ∃ t ∈ steps, t.reply.Succeeded ∧ upgradeOf t.input.call = some u := by
  obtain ⟨t, hmem, ht⟩ := List.mem_filterMap.mp hu
  split at ht
  · rename_i hok
    obtain ⟨u', hu', heq⟩ := Option.bind_eq_some_iff.mp ht
    obtain ⟨_, _, hpair⟩ := Option.map_eq_some_iff.mp heq
    cases hpair
    exact ⟨t, hmem, hok, hu'⟩
  · cases ht

/-- Between two upgrades to one hash it was approved anew. -/
theorem governs_approval_once (is js : List (Invocation C)) (i j : Invocation C) (h : BytesN 32)
    (hi : upgradeOf i.call = some (.upgradeContract h))
    (hj : upgradeOf j.call = some (.upgradeContract h))
    (hiok : ((contractAt program self).reply i
      ((contractAt program self).run Storage.empty is)).Succeeded)
    (hjok : ((contractAt program self).reply j
      ((contractAt program self).run Storage.empty (is ++ [i] ++ js))).Succeeded) :
    ∃ t ∈ (contractAt program self).history
        ((contractAt program self).run Storage.empty (is ++ [i])) js,
      t.reply.Succeeded ∧ ∃ n, upgradeOf t.input.call = some (.approveUpgrade h n) := by
  obtain ⟨_, n, _, _, _, hlast, _⟩ := (governs_upgrade_iff hprog hG self _ j h hj).mp hjok
  have hfirst : lastGovernance upgradeOf h
      ((contractAt program self).history Storage.empty (is ++ [i])) = some (.upgradeContract h) := by
    have hone : governanceCalls upgradeOf [(contractAt program self).stepAt i
        ((contractAt program self).run Storage.empty is)] = [(h, .upgradeContract h)] := by
      simp [governanceCalls, Machine.stepAt, hi, hiok, UpgradeCall.target]
    rw [Machine.history_snoc, lastGovernance, governanceCalls, List.filterMap_append]
    show LastWrite.last h (governanceCalls upgradeOf _ ++ governanceCalls upgradeOf _) = _
    rw [hone, LastWrite.last_append_self]
  rw [Machine.history_append, lastGovernance, governanceCalls, List.filterMap_append] at hlast
  have hmem := LastWrite.mem_of_last_append hlast (by
    show lastGovernance upgradeOf h _ ≠ _
    rw [hfirst]
    simp)
  obtain ⟨t, ht, hok, hcall⟩ := mem_governanceCalls hmem
  exact ⟨t, ht, hok, n, hcall⟩

end Law

/-! ### The law -/

/-- What every run of a contract from empty storage obeys. -/
structure UpgradeLaw {K C Ev : Type} [DecidableEq K] {V : K → Type} (G : Governance V)
    (upgradeOf : C → Option UpgradeCall)
    (m : Machine (Invocation C) (Receipt Ev Value) (Storage V)) : Prop where
  version_zero : ∀ is, G.version (m.run Storage.empty is).entries = 0 ↔
    G.admin.read (m.run Storage.empty is).entries = none
  version_step : ∀ is, ∀ t ∈ m.history Storage.empty is,
    G.version t.post.entries = G.version t.pre.entries ∨
      (G.admin.read t.pre.entries = none ∧ G.admin.read t.post.entries ≠ none ∧
        G.version t.post.entries = 1) ∨
      (t.reply.Succeeded ∧ G.version t.pre.entries < G.version t.post.entries ∧
        ∃ h, upgradeOf t.input.call = some (.upgradeContract h))
  upgrade_iff : ∀ is i h, upgradeOf i.call = some (.upgradeContract h) →
    ((m.reply i (m.run Storage.empty is)).Succeeded ↔
      ∃ admin n, G.admin.read (m.run Storage.empty is).entries = some admin ∧
        i.env.signed admin = true ∧ i.env.installable h = true ∧
        lastGovernance upgradeOf h (m.history Storage.empty is) = some (.approveUpgrade h n) ∧
        G.version (m.run Storage.empty is).entries < n)
  upgrade_effect : ∀ is i h, upgradeOf i.call = some (.upgradeContract h) → ∀ n,
    (m.reply i (m.run Storage.empty is)).Succeeded →
    lastGovernance upgradeOf h (m.history Storage.empty is) = some (.approveUpgrade h n) →
    let s := m.run Storage.empty is
    let s' := m.next i s
    G.version s'.entries = n ∧ (G.allowedWasm h).read s'.entries = none ∧
      (∀ h', h' ≠ h →
        (G.allowedWasm h').read s'.entries = (G.allowedWasm h').read s.entries) ∧
      ∀ c k, (c = .inst → k ≠ G.contractVersion.key ∧ k ≠ (G.allowedWasm h).key) →
        s'.entries c k = s.entries c k
  approval_once : ∀ is js i j h, upgradeOf i.call = some (.upgradeContract h) →
    upgradeOf j.call = some (.upgradeContract h) →
    (m.reply i (m.run Storage.empty is)).Succeeded →
    (m.reply j (m.run Storage.empty (is ++ [i] ++ js))).Succeeded →
    ∃ t ∈ m.history (m.run Storage.empty (is ++ [i])) js,
      t.reply.Succeeded ∧ ∃ n, upgradeOf t.input.call = some (.approveUpgrade h n)

theorem Governs.law {K C Ev : Type} [DecidableEq K] {V : K → Type} {G : Governance V}
    {wrap : UpgradeEvent → Ev} {upgradeOf : C → Option UpgradeCall}
    {program : C → Program V Ev Unit ErrorCode Value}
    {Effect : Env → Entries V → C → Value → Entries V → List Ev → Prop}
    (hG : Governs G wrap upgradeOf Effect)
    (hprog : ∀ c, Realizes (program c) fun env d w v d' events w' =>
      w' = w ∧ Effect env d c v d' events) (self : Address) :
    UpgradeLaw G upgradeOf (contractAt program self) where
  version_zero := governs_version_zero hprog hG self
  version_step := fun is _ ht => governs_version_step hprog hG self is ht
  upgrade_iff := governs_upgrade_iff hprog hG self
  upgrade_effect := governs_upgrade_effect hprog hG self
  approval_once := governs_approval_once hprog hG self

end EarnProof

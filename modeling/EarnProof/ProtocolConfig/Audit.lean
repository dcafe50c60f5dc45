import EarnProof.ProtocolConfig.Refusals
import EarnProof.ProtocolConfig.Replay

/-! The configuration counter as an audit record.

Every configuration change advances the counter by one and nothing else moves it after
initialization, so the counter tells how many changes a run has made, and two states
with the same counter have the same configuration. A counter at its last value stays
there and refuses every further change. -/
namespace EarnProof.ProtocolConfig
open Soroban

/-- The five configuration changes. -/
def Call.configures : Call → Bool
  | .setAdmin _ | .pause | .unpause | .approveSchemaVersion _ | .deprecateSchemaVersion _ => true
  | .initializeContract _ | .getAdmin | .isPaused | .isSchemaVersionApproved _ | .getConfigVersion
  | .upgrade _ => false

abbrev ConfigStep := Machine.Step (Invocation Call) (Receipt Event Value) (Storage DataKey.Value)

/-- How many configuration changes a run has made. -/
def changes (steps : List ConfigStep) : Nat :=
  steps.countP fun t => t.input.call.configures && decide t.reply.Succeeded

/-! ### What a call does to the counter -/

theorem toNat_of_checkedAdd {n m : UInt32} (h : checkedAdd n 1 = some m) :
    m.toNat = n.toNat + 1 := by
  unfold checkedAdd at h
  split at h
  · next hlt =>
    cases h
    simp only [UInt32.toNat_one, UInt32.size] at hlt
    rw [UInt32.toNat_add]
    simp only [UInt32.toNat_one]
    omega
  · cases h

theorem checkedAdd_eq_none {n : UInt32} : checkedAdd n 1 = none ↔ n = u32Max := by
  constructor
  · intro h
    by_contra hne
    have hlt := toNat_lt_of_ne_u32Max hne
    unfold checkedAdd at h
    rw [if_pos (by simpa using hlt)] at h
    cases h
  · intro h
    subst h
    decide

section
variable {env : Env} {d d' : Entries DataKey.Value} {v : Value} {events : List Event} {c : Call}

theorem Configures.moves {cl : StorageClass} {k : DataKey} {x : k.Value} {event : Event}
    (h : Configures env d cl k x event v d' events)
    (hadmin : (d.put cl k (some x)) .inst .admin ≠ none) :
    (configVersion d').toNat = (configVersion d).toNat + 1 ∧
      d .inst .admin ≠ none ∧ d' .inst .admin ≠ none := by
  obtain ⟨admin, n, ha, _, hn, _, rfl, _⟩ := h
  refine ⟨?_, by simp [ha], by simpa using hadmin⟩
  rw [← toNat_of_checkedAdd hn]
  simp [configVersion]

/-- With room in the counter the admin makes any configuration change. -/
theorem configures_of_room {cl : StorageClass} {k : DataKey} {x : k.Value} {event : Event}
    {a : Address} (ha : d .inst .admin = some a) (hs : env.signed a = true)
    (hroom : configVersion d ≠ u32Max) :
    ∃ n, n.toNat = (configVersion d).toNat + 1 ∧ Configures env d cl k x event .unit
      ((d.put cl k (some x)).put .inst .configVersion (some n)) [event] := by
  obtain ⟨n, hn⟩ := Option.ne_none_iff_exists'.mp (mt checkedAdd_eq_none.mp hroom)
  exact ⟨n, toNat_of_checkedAdd hn, a, n, ha, hs, hn, rfl, rfl, rfl⟩

/-- A configuration change advances the counter, initialization sets it to one, and every
other call leaves the counter and the configuration alone. -/
theorem Effect.moves (h : Effect env d c v d' events) :
    (c.configures = true ∧ (configVersion d').toNat = (configVersion d).toNat + 1 ∧
      d .inst .admin ≠ none ∧ d' .inst .admin ≠ none) ∨
    (c.configures = false ∧ d .inst .admin = none ∧ d' .inst .admin ≠ none ∧
      configVersion d' = 1) ∨
    (c.configures = false ∧ configVersion d' = configVersion d ∧
      ProtocolConfig.view d' = ProtocolConfig.view d) := by
  cases c with
  | initializeContract admin =>
    obtain ⟨hnone, _, _, _, rfl, _⟩ := h
    exact .inr (.inl ⟨rfl, hnone, by simp, by simp [configVersion]⟩)
  | setAdmin a => exact .inl ⟨rfl, Configures.moves h.2 (by simp)⟩
  | pause =>
    obtain ⟨admin, _, ha, _⟩ := id h
    exact .inl ⟨rfl, Configures.moves h (by simp [ha])⟩
  | unpause =>
    obtain ⟨admin, _, ha, _⟩ := id h
    exact .inl ⟨rfl, Configures.moves h (by simp [ha])⟩
  | approveSchemaVersion n =>
    obtain ⟨_, admin, _, ha, _⟩ := id h
    exact .inl ⟨rfl, Configures.moves h.2 (by simp [ha])⟩
  | deprecateSchemaVersion n =>
    obtain ⟨_, admin, _, ha, _⟩ := id h
    exact .inl ⟨rfl, Configures.moves h.2 (by simp [ha])⟩
  | upgrade u =>
    refine .inr (.inr ⟨rfl, ?_, ?_⟩)
    · have hcounter : d' .inst .configVersion = d .inst .configVersion :=
        Governance.Effect.frame h (by simp [governance])
      rw [configVersion, hcounter, configVersion]
    · rw [Effect.view h, Governance.Effect.foldl h fun _ _ => rfl]
  | _ =>
    obtain ⟨rfl, _⟩ := Effect.query h rfl
    exact .inr (.inr ⟨rfl, rfl, rfl⟩)

end

/-! ### The counter of a run -/

variable (self : Address)

theorem changes_append (steps steps' : List ConfigStep) :
    changes (steps ++ steps') = changes steps + changes steps' :=
  List.countP_append

theorem changes_stepAt (i : Invocation Call) (s : Storage DataKey.Value) :
    changes [(machine self).stepAt i s] =
      if i.call.configures = true ∧ ((machine self).reply i s).Succeeded then 1 else 0 := by
  by_cases h : i.call.configures = true ∧ ((machine self).reply i s).Succeeded
  · simp [changes, Machine.stepAt, h]
  · rw [if_neg h]
    simpa [changes, Machine.stepAt] using h

/-- The counter of an uninitialized contract is zero, and it has made no change. -/
def Counted (steps : List ConfigStep) (d : Entries DataKey.Value) : Prop :=
  (d .inst .admin = none ∧ configVersion d = 0 ∧ changes steps = 0) ∨
    (d .inst .admin ≠ none ∧ (configVersion d).toNat = 1 + changes steps)

theorem run_counted (is : List (Invocation Call)) :
    Counted ((machine self).history Storage.empty is)
      ((machine self).run Storage.empty is).entries := by
  refine (machine self).history_induction (fun _ steps s => Counted steps s.entries)
    (.inl ⟨rfl, rfl, rfl⟩) (fun is i ih => ?_) is
  have hcount := changes_stepAt self i ((machine self).run Storage.empty is)
  rcases step_cases self i ((machine self).run Storage.empty is) with ⟨v, hv, hE⟩ | ⟨e, hr, hs, _⟩
  · have hok : ((machine self).reply i ((machine self).run Storage.empty is)).Succeeded := ⟨v, hv⟩
    rcases hE.moves with ⟨hc, hnext, hpre, hpost⟩ | ⟨hc, hpre, hpost, hone⟩ | ⟨hc, hsame, hview⟩
    · rw [if_pos ⟨hc, hok⟩] at hcount
      rcases ih with ⟨hnone, _⟩ | ⟨_, ih⟩
      · exact absurd hnone hpre
      · exact .inr ⟨hpost, by rw [changes_append, hcount, hnext, ih]; omega⟩
    · rw [if_neg (by simp [hc])] at hcount
      rcases ih with ⟨_, _, ih⟩ | ⟨hsome, _⟩
      · exact .inr ⟨hpost, by rw [changes_append, hcount, ih, hone]; rfl⟩
      · exact absurd hpre hsome
    · rw [if_neg (by simp [hc])] at hcount
      have hadmin := congrArg View.admin hview
      simp only [view] at hadmin
      rw [Counted, changes_append, hcount, hadmin, hsame]
      exact ih
  · have hfail : ¬ ((machine self).reply i ((machine self).run Storage.empty is)).Succeeded :=
      Receipt.not_succeeded (congrArg Receipt.outcome hr)
    rw [if_neg fun h => hfail h.2] at hcount
    rw [Counted, changes_append, hcount, hs]
    exact ih

/-- Along a run the counter never falls, and while it stays the configuration does. -/
theorem run_monotone (is js : List (Invocation Call)) :
    let s := (machine self).run Storage.empty is
    let s' := (machine self).run s js
    (configVersion s.entries).toNat ≤ (configVersion s'.entries).toNat ∧
      (configVersion s'.entries = configVersion s.entries → view s'.entries = view s.entries) := by
  intro s s'
  induction js using List.reverseRecOn with
  | nil => exact ⟨Nat.le_refl _, fun _ => rfl⟩
  | append_singleton js i ih =>
    obtain ⟨hle, hview⟩ := ih
    have hs' : s' = (machine self).next i ((machine self).run s js) := (machine self).run_snoc _ _ _
    have hcounted := run_counted self (is ++ js)
    rw [Machine.run_append] at hcounted
    rw [hs']
    rcases step_cases self i ((machine self).run s js) with ⟨v, _, hE⟩ | ⟨e, _, hsame, _⟩
    · rcases hE.moves with ⟨_, hnext, _⟩ | ⟨_, hpre, _, hone⟩ | ⟨_, hsame, hsameView⟩
      · refine ⟨by omega, fun heq => ?_⟩
        rw [heq] at hnext
        omega
      · rcases hcounted with ⟨_, hzero, _⟩ | ⟨hsome, _⟩
        · have hlt : (configVersion ((machine self).run s js).entries).toNat = 0 := by
            rw [hzero]
            rfl
          rw [hone]
          refine ⟨by omega, fun heq => ?_⟩
          rw [← heq] at hle
          have hfalse : (1 : UInt32).toNat ≤ 0 := hlt ▸ hle
          exact absurd hfalse (by decide)
        · exact absurd hpre hsome
      · rw [hsame, hsameView]
        exact ⟨hle, hview⟩
    · rw [hsame]
      exact ⟨hle, hview⟩

/-! ### At the last value -/

/-- A configuration change at the last counter value fails. -/
theorem not_configures_of_u32Max {i : Invocation Call} {s : Storage DataKey.Value}
    (hlast : configVersion s.entries = u32Max) (hc : i.call.configures = true) :
    ¬ ((machine self).reply i s).Succeeded := by
  intro hok
  rcases step_cases self i s with ⟨v, _, hE⟩ | ⟨e, hr, _⟩
  · rcases hE.moves with ⟨_, hnext, _⟩ | ⟨hno, _⟩ | ⟨hno, _⟩
    · have hlt := (configVersion ((machine self).next i s).entries).toNat_lt
      rw [hnext, hlast] at hlt
      exact absurd hlt (by decide)
    · rw [hc] at hno
      cases hno
    · rw [hc] at hno
      cases hno
  · exact Receipt.not_succeeded (congrArg Receipt.outcome hr) hok

/-- The upgrade calls an admin makes go through on their own conditions, and the two
queries always. -/
structure UpgradesAvailable (s : Storage DataKey.Value) : Prop where
  approve : ∀ a env h n, s.entries .inst .admin = some a → env.signed a = true →
    (((machine self).reply ⟨.upgrade (.approveUpgrade h n), env⟩ s).Succeeded ↔
      governance.version s.entries < n)
  revoke : ∀ a env h, s.entries .inst .admin = some a → env.signed a = true →
    ((machine self).reply ⟨.upgrade (.revokeUpgrade h), env⟩ s).Succeeded
  upgrade : ∀ a env h, s.entries .inst .admin = some a → env.signed a = true →
    (((machine self).reply ⟨.upgrade (.upgradeContract h), env⟩ s).Succeeded ↔
      ∃ n, s.entries .inst (.allowedWasm h) = some n ∧ governance.version s.entries < n ∧
        env.installable h = true)
  query : ∀ env u, u.mutates = false → ((machine self).reply ⟨.upgrade u, env⟩ s).Succeeded

theorem upgradesAvailable (s : Storage DataKey.Value) : UpgradesAvailable self s where
  approve := by
    intro a env h n ha hs
    rw [machine, contractAt_succeeded program_realizes]
    constructor
    · intro hok
      obtain ⟨_, _, _, _, _, _, hlt, _⟩ := hok
      exact hlt
    · intro hlt
      exact ⟨_, _, _, a, ha, hs, hlt, rfl, rfl, rfl⟩
  revoke := by
    intro a env h ha hs
    rw [machine, contractAt_succeeded program_realizes]
    exact ⟨_, _, _, a, ha, hs, rfl, rfl, rfl⟩
  upgrade := by
    intro a env h ha hs
    rw [machine, contractAt_succeeded program_realizes]
    constructor
    · intro hok
      obtain ⟨_, _, _, _, n, _, _, hn, hlt, hinst, _⟩ := hok
      exact ⟨n, hn, hlt, hinst⟩
    · intro hok
      obtain ⟨n, hn, hlt, hinst⟩ := hok
      exact ⟨_, _, _, a, n, ha, hs, hn, hlt, hinst, rfl, rfl, rfl⟩
  query := by
    intro env u hu
    rw [machine, contractAt_succeeded program_realizes]
    cases u with
    | getContractVersion => exact ⟨_, _, _, rfl, rfl, rfl⟩
    | isUpgradeAllowed h => exact ⟨_, _, _, rfl, rfl, rfl⟩
    | _ => cases hu

/-- The last value is reached by pausing often enough: initialization by `a` and `n` pauses
leave the counter at `n + 1`. -/
theorem run_pauses {a : Address} {env : Env} (hvalid : isValidPrincipalAddress a = true)
    (hs : env.signed a = true) (n : Nat) (hn : n + 1 < UInt32.size) :
    let s := (machine self).run Storage.empty
      (⟨.initializeContract a, env⟩ :: List.replicate n ⟨.pause, env⟩)
    s.entries .inst .admin = some a ∧ (configVersion s.entries).toNat = n + 1 := by
  induction n with
  | zero =>
    have hE : Effect {env with currentContract := self} Entries.empty (.initializeContract a) .unit
        _ _ := ⟨rfl, hvalid, hs, rfl, rfl, rfl⟩
    have hnext : ((machine self).next ⟨.initializeContract a, env⟩ Storage.empty).entries = _ :=
      (contractAt_ok program_realizes hE).2
    intro s
    show (((machine self).next ⟨.initializeContract a, env⟩ Storage.empty).entries .inst .admin =
      some a) ∧ _
    rw [hnext]
    exact ⟨by simp, by simp [s, Machine.run, hnext, configVersion]⟩
  | succ n ih =>
    intro s
    obtain ⟨ha, hcounter⟩ := ih (by omega)
    let before := (machine self).run Storage.empty
      (⟨.initializeContract a, env⟩ :: List.replicate n ⟨.pause, env⟩)
    have hs' : s = (machine self).next ⟨.pause, env⟩ before := by
      have hsplit : (⟨.initializeContract a, env⟩ :: List.replicate (n + 1) ⟨.pause, env⟩ :
          List (Invocation Call)) =
            (⟨.initializeContract a, env⟩ :: List.replicate n ⟨.pause, env⟩) ++ [⟨.pause, env⟩] := by
        rw [List.replicate_succ', List.cons_append]
      exact (congrArg ((machine self).run Storage.empty) hsplit).trans (Machine.run_snoc _ _ _ _)
    have hne : configVersion before.entries ≠ u32Max := by
      intro hlast
      rw [hlast] at hcounter
      have hsize : (4294967295 : Nat) = n + 1 := hcounter
      simp only [UInt32.size] at hn
      omega
    obtain ⟨m, hm, hE⟩ : ∃ m, m.toNat = (configVersion before.entries).toNat + 1 ∧
        Effect {env with currentContract := self} before.entries .pause .unit
          ((before.entries.put .inst .paused (some true)).put .inst .configVersion (some m))
          [.paused true] := configures_of_room ha hs hne
    have hnext : ((machine self).next ⟨.pause, env⟩ before).entries = _ :=
      (contractAt_ok program_realizes hE).2
    rw [hs', hnext]
    refine ⟨by simpa using ha, ?_⟩
    have hcounter' : (configVersion before.entries).toNat = n + 1 := hcounter
    rw [← hcounter', ← hm]
    simp [configVersion]

theorem run_pauses_last {a : Address} {env : Env} (hvalid : isValidPrincipalAddress a = true)
    (hs : env.signed a = true) {n : Nat} (hn : n + 1 = u32Max.toNat) :
    configVersion ((machine self).run Storage.empty
      (⟨.initializeContract a, env⟩ :: List.replicate n ⟨.pause, env⟩)).entries = u32Max := by
  have hlt : n + 1 < UInt32.size := hn ▸ u32Max.toNat_lt
  exact UInt32.toNat_inj.mp ((run_pauses self hvalid hs n hlt).2.trans hn)

/-- The counter counts the configuration changes since initialization; two states of a run
with the same counter have the same configuration; and at its last value no change goes
through any more, while upgrades do. -/
theorem config_version_audit (is : List (Invocation Call)) :
    let m := machine self
    let s := m.run Storage.empty is
    (∀ env, ∃ n, (m.reply ⟨.getConfigVersion, env⟩ s).outcome = .ok (.u32 n) ∧
      n.toNat = if s.entries .inst .admin = none then 0
        else 1 + changes (m.history Storage.empty is)) ∧
    ∀ js, let s' := m.run s js
      (configVersion s'.entries = configVersion s.entries → view s'.entries = view s.entries) ∧
      (configVersion s.entries = u32Max → configVersion s'.entries = u32Max ∧
        view s'.entries = view s.entries ∧
        (∀ i, i.call.configures = true → ¬ (m.reply i s').Succeeded) ∧
        UpgradesAvailable self s') := by
  intro m s
  refine ⟨fun env => ⟨configVersion s.entries, ?_, ?_⟩, fun js => ?_⟩
  · have hE : Effect {env with currentContract := self} s.entries .getConfigVersion
        (.u32 (configVersion s.entries)) s.entries [] := ⟨rfl, rfl, rfl⟩
    exact contractAt_outcome program_realizes hE
  · rcases run_counted self is with ⟨hnone, hzero, _⟩ | ⟨hsome, hcount⟩
    · rw [if_pos hnone, hzero]
      rfl
    · rw [if_neg hsome]
      exact hcount
  · intro s'
    obtain ⟨hle, hview⟩ := run_monotone self is js
    refine ⟨hview, fun hlast => ?_⟩
    have hlast' : configVersion s'.entries = u32Max := by
      refine UInt32.le_antisymm (le_u32Max _) ?_
      rw [← hlast, UInt32.le_iff_toNat_le]
      exact hle
    exact ⟨hlast', hview (hlast'.trans hlast.symm),
      fun i hc => not_configures_of_u32Max self hlast' hc, upgradesAvailable self s'⟩

/-- After 4294967294 pauses the counter is at its last value and unpausing fails. -/
theorem config_version_audit_exhausted :
    let self : Address := .mk .contract (.fill 32 11)
    let admin : Address := .mk .account (.fill 32 1)
    let env : Env :=
      { currentContract := admin, timestamp := 1, sequence := 1, signed := fun a => a == admin
        installable := fun _ => true, minimumTtl := 4096 }
    ∃ is, configVersion ((machine self).run Storage.empty is).entries = u32Max ∧
      ¬ ((machine self).reply ⟨.unpause, env⟩ ((machine self).run Storage.empty is)).Succeeded := by
  intro self admin env
  -- Over any list of inputs, so that the long one is never unfolded.
  have hexhausted : ∀ is, configVersion ((machine self).run Storage.empty is).entries = u32Max →
      ¬ ((machine self).reply ⟨.unpause, env⟩ ((machine self).run Storage.empty is)).Succeeded :=
    fun is hlast => (((config_version_audit self is).2 []).2 hlast).2.2.1 ⟨.unpause, env⟩ rfl
  have hlast := run_pauses_last self (by decide +kernel : isValidPrincipalAddress admin = true)
    (by decide : env.signed admin = true) (by decide : 4294967294 + 1 = u32Max.toNat)
  exact ⟨_, hlast, hexhausted _ hlast⟩

end EarnProof.ProtocolConfig

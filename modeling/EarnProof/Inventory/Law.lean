import EarnProof.Shared.StorageNamespaces
import EarnProof.Upgrade.Law

/-! The inventory law of a contract.

A contract writes each key in one class, its home, and the inventory has a row for
every key in its home but those of the upgrade allowlist. So what is stored is
inventoried exactly while the allowlist is empty, and it stays so in every run in
which no `approve_upgrade` is accepted. -/
namespace EarnProof
open Soroban

section Home
variable {K : Type} {V : K → Type} {home : K → StorageClass}

/-- Nothing is stored outside its class. -/
def AtHome (home : K → StorageClass) (d : Entries V) : Prop := ∀ c k, c ≠ home k → d c k = none

theorem AtHome.empty : AtHome home (Entries.empty : Entries V) := fun _ _ _ => rfl

variable [DecidableEq K] {d : Entries V}

theorem AtHome.put (h : AtHome home d) {c : StorageClass} {k : K} (o : Option (V k))
    (hk : home k = c := by rfl) : AtHome home (d.put c k o) := by
  intro c' k' hne
  by_cases hkey : k' = k
  · subst hkey
    rw [Entries.put_class d k' k' o (by rw [← hk]; exact hne)]
    exact h c' k' hne
  · rw [Entries.put_key d c c' o hkey]
    exact h c' k' hne

theorem AtHome.put_slot {α : Type} (h : AtHome home d) {s : Slot V α} (hs : home s.key = .inst)
    (o : Option α) : AtHome home (s.put d o) :=
  h.put _ hs

/-- Governance writes slots of the instance entry. -/
theorem Governance.Effect.atHome {Ev : Type} {G : Governance V} {wrap : UpgradeEvent → Ev} {env : Env}
    {d' : Entries V} {u : UpgradeCall} {v : Value} {events : List Ev}
    (hE : G.Effect wrap env d u v d' events) (hversion : home G.contractVersion.key = .inst)
    (hallowed : ∀ hash, home (G.allowedWasm hash).key = .inst) (h : AtHome home d) :
    AtHome home d' := by
  cases u with
  | getContractVersion =>
    obtain ⟨_, rfl, _⟩ := hE
    exact h
  | approveUpgrade hash n =>
    obtain ⟨_, _, _, _, _, rfl, _⟩ := hE
    exact h.put_slot (hallowed hash) _
  | revokeUpgrade hash =>
    obtain ⟨_, _, _, _, rfl, _⟩ := hE
    exact h.put_slot (hallowed hash) _
  | isUpgradeAllowed hash =>
    obtain ⟨_, rfl, _⟩ := hE
    exact h
  | upgradeContract hash =>
    obtain ⟨n, _, _, rfl⟩ := Governance.Effect.upgrade_writes hE
    exact (h.put_slot (hallowed hash) _).put_slot hversion _

omit [DecidableEq K] in
theorem read_none_iff {α : Type} (s : Slot V α) : s.read d = none ↔ d .inst s.key = none := by
  obtain ⟨k, rfl⟩ := s
  rfl

end Home

section Law
variable {K C Ev : Type} [DecidableEq K] {V : K → Type}

/-- No hash is on the upgrade allowlist. -/
def AllowlistEmpty (G : Governance V) (d : Entries V) : Prop :=
  ∀ hash, (G.allowedWasm hash).read d = none

/-- A table of effects that writes each key at home, where all but the allowlist are listed. -/
structure Inventories (codec : KeyCodec K) (home : K → StorageClass) (G : Governance V)
    (Effect : Env → Entries V → C → Value → Entries V → List Ev → Prop) : Prop where
  keeps : ∀ {env d c v d' events}, Effect env d c v d' events → AtHome home d → AtHome home d'
  home_allowed : ∀ hash, home (G.allowedWasm hash).key = .inst
  listed : ∀ k, (∀ hash, k ≠ (G.allowedWasm hash).key) → Listed codec (home k) k
  unlisted : ∀ c hash, ¬ Listed codec c (G.allowedWasm hash).key

variable {codec : KeyCodec K} {home : K → StorageClass} {G : Governance V}
  {wrap : UpgradeEvent → Ev} {upgradeOf : C → Option UpgradeCall}
  {program : C → Program V Ev Unit ErrorCode Value}
  {Effect : Env → Entries V → C → Value → Entries V → List Ev → Prop}

omit [DecidableEq K] in
/-- At home, what is stored outside the instance is listed. -/
theorem Inventories.listed_of_stored (hI : Inventories codec home G Effect) {d : Entries V}
    (hhome : AtHome home d) {c : StorageClass} (hc : c ≠ .inst) {k : K} (hk : d c k ≠ none) :
    Listed codec c k := by
  have hclass : c = home k := by
    by_contra hne
    exact hk (hhome c k hne)
  subst hclass
  refine hI.listed k fun hash heq => hc ?_
  rw [heq]
  exact hI.home_allowed hash

omit [DecidableEq K] in
/-- At home, the stored keys are inventoried exactly while the allowlist is empty. -/
theorem Inventories.inventoried_iff (hI : Inventories codec home G Effect) {d : Entries V}
    (hhome : AtHome home d) : Inventoried codec d ↔ AllowlistEmpty G d := by
  constructor
  · intro hd hash
    by_contra hsome
    have hpresent : (d .inst (G.allowedWasm hash).key).isSome := by
      rw [← Option.ne_none_iff_isSome]
      exact fun hnone => hsome ((read_none_iff _).mpr hnone)
    exact hI.unlisted .inst hash (hd.listed .inst _ hpresent)
  · intro hempty
    refine Inventoried.of_listed fun c k hk => ?_
    have hclass : c = home k := by
      by_contra hne
      rw [hhome c k hne] at hk
      cases hk
    subst hclass
    refine hI.listed k fun hash heq => ?_
    subst heq
    rw [hI.home_allowed, (read_none_iff _).mp (hempty hash)] at hk
    cases hk

/-- A step that puts a hash on the allowlist: the stored admin signs an `approve_upgrade`
with a version above the one in force. -/
def Approves (G : Governance V) (upgradeOf : C → Option UpgradeCall)
    (t : Machine.Step (Invocation C) (Receipt Ev Value) (Storage V)) : Prop :=
  ∃ hash n admin, upgradeOf t.input.call = some (.approveUpgrade hash n) ∧
    G.admin.read t.pre.entries = some admin ∧ t.input.env.signed admin = true ∧
    G.version t.pre.entries < n

/-- What every run of a contract from empty storage obeys. -/
structure InventoryLaw (codec : KeyCodec K) (G : Governance V) (upgradeOf : C → Option UpgradeCall)
    (m : Machine (Invocation C) (Receipt Ev Value) (Storage V)) : Prop where
  states : ∀ is, Inventoried codec (m.run Storage.empty is).entries ↔
    AllowlistEmpty G (m.run Storage.empty is).entries
  runs : ∀ is, (∀ a, a <+: is → Inventoried codec (m.run Storage.empty a).entries) ↔
    ∀ t ∈ m.history Storage.empty is, ¬ Approves G upgradeOf t

section Run
variable (hprog : ∀ c, Realizes (program c) fun env d w v d' events w' =>
    w' = w ∧ Effect env d c v d' events)
  (hG : Governs G wrap upgradeOf Effect) (self : Address)
include hprog hG

/-- An accepted approval leaves its hash on the allowlist. -/
theorem approves_step {i : Invocation C} {s : Storage V}
    (h : Approves G upgradeOf ((contractAt program self).stepAt i s)) :
    ¬ AllowlistEmpty G ((contractAt program self).next i s).entries := by
  obtain ⟨hash, n, admin, hu, ha, hs, hn⟩ := h
  have hE : Effect {i.env with currentContract := self} s.entries i.call .unit
      ((G.allowedWasm hash).put s.entries (some n)) [wrap (.upgradeAllowlisted hash n admin)] :=
    (hG.upgrade hu).mpr ⟨admin, ha, hs, hn, rfl, rfl, rfl⟩
  intro hempty
  have hread := hempty hash
  rw [(contractAt_ok hprog hE).2, Slot.read_put_self] at hread
  cases hread

/-- Without one, an empty allowlist stays empty. -/
theorem allowlistEmpty_step {i : Invocation C} {s : Storage V}
    (hno : ¬ Approves G upgradeOf ((contractAt program self).stepAt i s))
    (hempty : AllowlistEmpty G s.entries) :
    AllowlistEmpty G ((contractAt program self).next i s).entries := by
  rcases contractAt_cases hprog self i s with ⟨v, _, hE⟩ | ⟨e, _, hs, _⟩
  · intro hash
    cases hu : upgradeOf i.call with
    | none =>
      rw [hG.allowed hu hE hash]
      exact hempty hash
    | some u =>
      have hgov := (hG.upgrade hu).mp hE
      by_cases htarget : u.target = some hash
      · rw [hgov.allowed_self htarget]
        cases u with
        | approveUpgrade hash' n =>
          obtain ⟨admin, ha, hsigned, hn, _⟩ := hgov
          exact absurd ⟨hash', n, admin, hu, ha, hsigned, hn⟩ hno
        | _ => rfl
      · rw [hgov.allowed_of_ne htarget]
        exact hempty hash
  · rw [hs]
    exact hempty

/-- A run without an accepted approval leaves the allowlist empty. -/
theorem allowlistEmpty_run (is : List (Invocation C))
    (hno : ∀ t ∈ (contractAt program self).history Storage.empty is, ¬ Approves G upgradeOf t) :
    AllowlistEmpty G ((contractAt program self).run Storage.empty is).entries := by
  refine (contractAt program self).history_induction
    (fun _ steps s => (∀ t ∈ steps, ¬ Approves G upgradeOf t) → AllowlistEmpty G s.entries)
    (fun _ hash => Slot.read_empty _) (fun is i ih hno => ?_) is hno
  refine allowlistEmpty_step hprog hG self (hno _ (by simp)) (ih fun t ht => hno t ?_)
  exact List.mem_append_left _ ht

omit [DecidableEq K] hG in
theorem Inventories.atHome_run (hI : Inventories codec home G Effect) (is : List (Invocation C)) :
    AtHome home ((contractAt program self).run Storage.empty is).entries :=
  contractAt_invariant hprog (AtHome home) (fun _ _ _ _ _ _ hE h => hI.keeps hE h) self AtHome.empty
    is

theorem Inventories.law (hI : Inventories codec home G Effect) :
    InventoryLaw codec G upgradeOf (contractAt program self) := by
  have hstates : ∀ is, Inventoried codec ((contractAt program self).run Storage.empty is).entries ↔
      AllowlistEmpty G ((contractAt program self).run Storage.empty is).entries :=
    fun is => hI.inventoried_iff (hI.atHome_run hprog self is)
  refine ⟨hstates, fun is => ⟨fun h t ht happroves => ?_, fun h a ha => ?_⟩⟩
  · obtain ⟨a, b, hsplit, heq⟩ := (contractAt program self).mem_history ht
    rw [heq] at happroves
    have hpre : a ++ [t.input] <+: is := ⟨b, by rw [hsplit, List.append_assoc]; rfl⟩
    have hinv := (hstates _).mp (h _ hpre)
    rw [Machine.run_snoc] at hinv
    exact approves_step hprog hG self happroves hinv
  · obtain ⟨b, rfl⟩ := ha
    refine (hstates a).mpr (allowlistEmpty_run hprog hG self a fun t ht => h t ?_)
    rw [Machine.history_append]
    exact List.mem_append_left _ ht

end Run
end Law
end EarnProof

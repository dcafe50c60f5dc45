import Mathlib.Order.BourbakiWitt
import EarnProof.Abstract.Footprint
import EarnProof.IssuerRegistry.Footprint
import EarnProof.ProofRegistry.Footprint
import EarnProof.System.Gate
import EarnProof.System.Refusals

/-! Independent changes commute.

A change to an issuer, and a change to a proof, is local: it reads and writes the cells
of its footprint, whatever the rest of the deployment holds. Two changes to different
issuers whose addresses are apart, or to different proofs, write nothing that the other
looks at, so they can be made in either order: each has the same reply, and the same
values are left, also when one of them or both fail. -/
namespace EarnProof.System
open Soroban Footprint

/-! ### Cells -/

/-- A place in the storage of one of the contracts. -/
inductive Cell where
  | config (c : StorageClass) (k : ProtocolConfig.DataKey)
  | issuers (c : StorageClass) (k : IssuerRegistry.DataKey)
  | proofs (c : StorageClass) (k : ProofRegistry.DataKey)

abbrev Cell.Content : Cell → Type
  | .config _ k => Option k.Value
  | .issuers _ k => Option k.Value
  | .proofs _ k => Option k.Value

def look (s : System) : (i : Cell) → i.Content
  | .config c k => s.config.entries c k
  | .issuers c k => s.issuers.entries c k
  | .proofs c k => s.proofs.entries c k

theorem values_ext {s t : System} (h : ∀ i, look s i = look t i) : s.values = t.values := by
  refine Values.ext ?_ ?_ ?_
  · funext c k
    exact h (.config c k)
  · funext c k
    exact h (.issuers c k)
  · funext c k
    exact h (.proofs c k)

def issuerCells (F : Set (StorageClass × IssuerRegistry.DataKey)) : Set Cell :=
  {i | ∃ p ∈ F, i = .issuers p.1 p.2}

def proofCells (F : Set (StorageClass × ProofRegistry.DataKey)) : Set Cell :=
  {i | ∃ p ∈ F, i = .proofs p.1 p.2}

/-- What the dependencies of the proof registry hold. -/
def dependencyCells : Set Cell := {i | (∃ c k, i = .config c k) ∨ ∃ c k, i = .issuers c k}

variable (dep : Deployment) {env : Env} {s : System}

/-! ### A change to an issuer -/

theorem issuers_agree {c : IssuerRegistry.Call} (hc : c.target ≠ none) {t : System}
    (h : AgreeOn (IssuerRegistry.reads ∪ IssuerRegistry.footprint s.issuers.entries c)
      s.issuers.entries t.issuers.entries) :
    (machine dep).reply ⟨.issuers c, env⟩ t = (machine dep).reply ⟨.issuers c, env⟩ s ∧
      Follows (IssuerRegistry.footprint s.issuers.entries c) t.issuers.entries
        ((machine dep).next ⟨.issuers c, env⟩ s).issuers.entries
        ((machine dep).next ⟨.issuers c, env⟩ t).issuers.entries := by
  have hreply : ∀ u, (machine dep).reply ⟨.issuers c, env⟩ u =
      ((IssuerRegistry.machine dep.issuerRegistry).reply ⟨c, env⟩ u.issuers).mapEvents .issuers :=
    fun _ => rfl
  have hnext : ∀ u, ((machine dep).next ⟨.issuers c, env⟩ u).issuers =
      (IssuerRegistry.machine dep.issuerRegistry).next ⟨c, env⟩ u.issuers := fun _ => rfl
  rw [hreply, hreply, hnext, hnext]
  rcases contractAt_transfer IssuerRegistry.program_realizes IssuerRegistry.program_refuses
    dep.issuerRegistry c env s.issuers t.issuers (IssuerRegistry.checks_agree h hc)
    (fun v d₁ events hE => IssuerRegistry.Effect.follows hE hc h) with
    ⟨v, events, hs, ht, hfollows⟩ | ⟨e, hs, ht, hs', ht'⟩
  · exact ⟨congrArg (Receipt.mapEvents _) (ht.trans hs.symm), hfollows⟩
  · refine ⟨congrArg (Receipt.mapEvents _) (ht.trans hs.symm), ?_⟩
    unfold IssuerRegistry.machine
    rw [hs', ht']
    exact .refl (h.mono Set.subset_union_right)

theorem issuers_local {c : IssuerRegistry.Call} (hc : c.target ≠ none) :
    Local look ((machine dep).step ⟨.issuers c, env⟩) (issuerCells IssuerRegistry.reads)
      (issuerCells (IssuerRegistry.footprint s.issuers.entries c)) s := by
  have hagree : ∀ t, Agree look (issuerCells IssuerRegistry.reads ∪
      issuerCells (IssuerRegistry.footprint s.issuers.entries c)) s t →
      AgreeOn (IssuerRegistry.reads ∪ IssuerRegistry.footprint s.issuers.entries c)
        s.issuers.entries t.issuers.entries := by
    intro t h cl k hk
    refine h (.issuers cl k) ?_
    rcases hk with hk | hk
    · exact .inl ⟨_, hk, rfl⟩
    · exact .inr ⟨_, hk, rfl⟩
  constructor
  · intro t h
    exact (issuers_agree dep hc (hagree t h)).1
  · intro t h i hi
    obtain ⟨p, hp, rfl⟩ := hi
    exact (issuers_agree dep hc (hagree t h)).2.writes p.1 p.2 hp
  · intro t h i hi
    cases i with
    | config cl k => rfl
    | issuers cl k =>
      exact (issuers_agree dep hc (hagree t h)).2.frame cl k fun hk => hi ⟨_, hk, rfl⟩
    | proofs cl k => rfl

/-! ### A change to a proof -/

theorem proofs_agree {c : ProofRegistry.Call} (hc : c.target ≠ none) {t : System}
    (hconfig : t.config.entries = s.config.entries)
    (hissuers : t.issuers.entries = s.issuers.entries)
    (h : AgreeOn (ProofRegistry.reads ∪ ProofRegistry.footprint c) s.proofs.entries
      t.proofs.entries) :
    (machine dep).reply ⟨.proofs c, env⟩ t = (machine dep).reply ⟨.proofs c, env⟩ s ∧
      Follows (ProofRegistry.footprint c) t.proofs.entries
        ((machine dep).next ⟨.proofs c, env⟩ s).proofs.entries
        ((machine dep).next ⟨.proofs c, env⟩ t).proofs.entries := by
  let run (u : System) := invoke (c.program (clients dep))
    {env with currentContract := dep.proofRegistry} u.proofs (u.config, u.issuers)
  have hreply : ∀ u, (machine dep).reply ⟨.proofs c, env⟩ u = (run u).1.mapEvents .proofs :=
    fun _ => rfl
  have hnext : ∀ u, ((machine dep).next ⟨.proofs c, env⟩ u).proofs = (run u).2.1 := fun _ => rfl
  have hchecks : ProofRegistry.checks (clients dep) {env with currentContract := dep.proofRegistry}
        t.proofs.entries (t.config, t.issuers) c =
      ProofRegistry.checks (clients dep) {env with currentContract := dep.proofRegistry}
        s.proofs.entries (s.config, s.issuers) c := by
    have hs : (s.config, s.issuers).1.entries = s.values.config := rfl
    have ht : (t.config, t.issuers).1.entries = s.values.config := hconfig
    rw [clients_checks dep hs rfl, clients_checks dep ht hissuers,
      ProofRegistry.checks_agree h hc]
  have heffect : ∀ v d₁ events w₁, ProofRegistry.Effect (clients dep)
        {env with currentContract := dep.proofRegistry} s.proofs.entries (s.config, s.issuers) c v d₁
        events w₁ →
      ∃ t₁ w₁', ProofRegistry.Effect (clients dep) {env with currentContract := dep.proofRegistry}
        t.proofs.entries (t.config, t.issuers) c v t₁ events w₁' ∧
        Follows (ProofRegistry.footprint c) t.proofs.entries d₁ t₁ := by
    intro v d₁ events w₁ hE
    have hanswered : ProofRegistry.Effect (answers dep s.values)
        {env with currentContract := dep.proofRegistry} s.proofs.entries () c v d₁ events () :=
      (clients_effect dep _ rfl rfl).mpr ⟨w₁, hE⟩
    obtain ⟨t₁, ht, hfollows⟩ := hanswered.follows hc h
    have ht' : ∃ w₁', ProofRegistry.Effect (clients dep)
        {env with currentContract := dep.proofRegistry} t.proofs.entries (t.config, t.issuers) c v t₁
        events w₁' :=
      (clients_effect dep _ hconfig hissuers).mp ht
    obtain ⟨w₁', ht'⟩ := ht'
    exact ⟨t₁, w₁', ht', hfollows⟩
  rw [hreply, hreply, hnext, hnext]
  rcases invoke_transfer (ProofRegistry.program_realizes (clients dep) c)
    (ProofRegistry.program_refuses (clients dep) c) hchecks heffect with
    ⟨v, events, hs, ht, hfollows⟩ | ⟨e, hs, ht⟩
  · exact ⟨congrArg (Receipt.mapEvents _) (ht.trans hs.symm), hfollows⟩
  · have hs' : run s = _ := hs
    have ht' : run t = _ := ht
    rw [hs', ht']
    exact ⟨rfl, .refl (h.mono Set.subset_union_right)⟩

/-- It leaves the values of the dependencies alone. -/
theorem proofs_frame (c : ProofRegistry.Call) (t : System) :
    ((machine dep).next ⟨.proofs c, env⟩ t).config.entries = t.config.entries ∧
      ((machine dep).next ⟨.proofs c, env⟩ t).issuers.entries = t.issuers.entries := by
  rcases step_cases dep ⟨.proofs c, env⟩ t with ⟨v, _, _, _, hconfig, hissuers⟩ | ⟨e, _, hsame, _⟩
  · exact ⟨hconfig, hissuers⟩
  · rw [hsame]
    exact ⟨rfl, rfl⟩

theorem proofs_local {c : ProofRegistry.Call} (hc : c.target ≠ none) :
    Local look ((machine dep).step ⟨.proofs c, env⟩)
      (dependencyCells ∪ proofCells ProofRegistry.reads)
      (proofCells (ProofRegistry.footprint c)) s := by
  have hagree : ∀ t, Agree look ((dependencyCells ∪ proofCells ProofRegistry.reads) ∪
      proofCells (ProofRegistry.footprint c)) s t →
      t.config.entries = s.config.entries ∧ t.issuers.entries = s.issuers.entries ∧
        AgreeOn (ProofRegistry.reads ∪ ProofRegistry.footprint c) s.proofs.entries
          t.proofs.entries := by
    intro t h
    refine ⟨?_, ?_, fun cl k hk => h (.proofs cl k) ?_⟩
    · funext cl k
      exact h (.config cl k) (.inl (.inl (.inl ⟨cl, k, rfl⟩)))
    · funext cl k
      exact h (.issuers cl k) (.inl (.inl (.inr ⟨cl, k, rfl⟩)))
    · rcases hk with hk | hk
      · exact .inl (.inr ⟨_, hk, rfl⟩)
      · exact .inr ⟨_, hk, rfl⟩
  constructor
  · intro t h
    obtain ⟨hconfig, hissuers, hproofs⟩ := hagree t h
    exact (proofs_agree dep hc hconfig hissuers hproofs).1
  · intro t h i hi
    obtain ⟨hconfig, hissuers, hproofs⟩ := hagree t h
    obtain ⟨p, hp, rfl⟩ := hi
    exact (proofs_agree dep hc hconfig hissuers hproofs).2.writes p.1 p.2 hp
  · intro t h i hi
    obtain ⟨hconfig, hissuers, hproofs⟩ := hagree t h
    cases i with
    | config cl k => exact congrFun (congrFun (proofs_frame dep c t).1 cl) k
    | issuers cl k => exact congrFun (congrFun (proofs_frame dep c t).2 cl) k
    | proofs cl k =>
      exact (proofs_agree dep hc hconfig hissuers hproofs).2.frame cl k fun hk => hi ⟨_, hk, rfl⟩

/-! ### Two changes -/

/-- Changes to two issuers whose addresses are apart, or to two proofs. -/
def Independent (x : Values) : Call → Call → Prop
  | .issuers c, .issuers c' =>
    c.target ≠ none ∧ c'.target ≠ none ∧ c.target ≠ c'.target ∧
      Disjoint (IssuerRegistry.addresses x.issuers c) (IssuerRegistry.addresses x.issuers c')
  | .proofs c, .proofs c' => c.target ≠ none ∧ c'.target ≠ none ∧ c.target ≠ c'.target
  | _, _ => False

/-- The cells of a change to an issuer are apart from what another looks at. -/
theorem issuerCells_disjoint {d : Entries IssuerRegistry.DataKey.Value} {c c' : IssuerRegistry.Call}
    (hne : c.target ≠ c'.target)
    (h : Disjoint (IssuerRegistry.addresses d c) (IssuerRegistry.addresses d c')) :
    Disjoint (issuerCells (IssuerRegistry.footprint d c))
      (issuerCells IssuerRegistry.reads ∪ issuerCells (IssuerRegistry.footprint d c')) := by
  refine Set.disjoint_left.mpr fun i hi hi' => ?_
  obtain ⟨p, hp, rfl⟩ := hi
  rcases hi' with ⟨q, hq, heq⟩ | ⟨q, hq, heq⟩
  · cases hq
    rcases hp with ⟨id, _, rfl⟩ | ⟨a, _, rfl⟩ <;> cases heq
  · rcases hp with ⟨id, hid, rfl⟩ | ⟨a, ha, rfl⟩
    · rcases hq with ⟨id', hid', rfl⟩ | ⟨a', _, rfl⟩
      · cases heq
        exact hne (hid.trans hid'.symm)
      · cases heq
    · rcases hq with ⟨id', _, rfl⟩ | ⟨a', ha', rfl⟩
      · cases heq
      · cases heq
        exact Set.disjoint_left.mp h ha ha'

theorem proofCells_disjoint {c c' : ProofRegistry.Call} (hne : c.target ≠ c'.target) :
    Disjoint (proofCells (ProofRegistry.footprint c))
      ((dependencyCells ∪ proofCells ProofRegistry.reads) ∪
        proofCells (ProofRegistry.footprint c')) := by
  refine Set.disjoint_left.mpr fun i hi hi' => ?_
  obtain ⟨p, ⟨id, hid, rfl⟩, rfl⟩ := hi
  rcases hi' with ((⟨_, _, heq⟩ | ⟨_, _, heq⟩) | ⟨q, hq, heq⟩) | ⟨q, ⟨id', hid', rfl⟩, heq⟩
  · cases heq
  · cases heq
  · rcases hq with rfl | rfl | rfl <;> cases heq
  · cases heq
    exact hne (hid.trans hid'.symm)

/-- Two independent changes, in either order: each replies as it would alone, and the same
values are left. -/
theorem independent_changes_commute (s : System) (i j : Invocation Call)
    (h : Independent s.values i.call j.call) :
    let m := machine dep
    m.reply j (m.next i s) = m.reply j s ∧ m.reply i (m.next j s) = m.reply i s ∧
      (m.next j (m.next i s)).values = (m.next i (m.next j s)).values := by
  intro m
  have hcommute : ∀ {R R' W W' : Set Cell}, Local look (m.step i) R W s →
      Local look (m.step j) R' W' s → Disjoint W (R' ∪ W') → Disjoint W' (R ∪ W) →
      m.reply j (m.next i s) = m.reply j s ∧ m.reply i (m.next j s) = m.reply i s ∧
        (m.next j (m.next i s)).values = (m.next i (m.next j s)).values := by
    intro R R' W W' hi hj hW hW'
    exact ⟨hi.reply_after hj hW, hj.reply_after hi hW', values_ext (hi.commute hj hW hW')⟩
  obtain ⟨c, env⟩ := i
  obtain ⟨c', env'⟩ := j
  cases c with
  | config c => exact h.elim
  | issuers c =>
    cases c' with
    | config c' => exact h.elim
    | issuers c' =>
      obtain ⟨hc, hc', hne, haddresses⟩ := h
      exact hcommute (issuers_local dep hc) (issuers_local dep hc')
        (issuerCells_disjoint hne haddresses) (issuerCells_disjoint hne.symm haddresses.symm)
    | proofs c' => exact h.elim
  | proofs c =>
    cases c' with
    | config c' => exact h.elim
    | issuers c' => exact h.elim
    | proofs c' =>
      obtain ⟨hc, hc', hne⟩ := h
      exact hcommute (proofs_local dep hc) (proofs_local dep hc') (proofCells_disjoint hne)
        (proofCells_disjoint hne.symm)

namespace Example

/-- The first issuer moves to another address. -/
def rotation : Invocation Call :=
  ⟨.issuers (.rotateIssuerAddress (.fill 32 21) (address .account 3)), signedBy 2 [admin]⟩

/-- A second issuer is registered. -/
def secondIssuer : Invocation Call :=
  ⟨.issuers (.registerIssuer (.fill 32 22) (address .account 4) (.fill 32 31)), signedBy 2 [admin]⟩

end Example

theorem rotation_and_registration_commute :
    let m := machine Example.deployment
    let s := m.run empty Example.setup
    let i := Example.rotation
    let j := Example.secondIssuer
    m.reply j (m.next i s) = m.reply j s ∧ m.reply i (m.next j s) = m.reply i s ∧
      (m.next j (m.next i s)).values = (m.next i (m.next j s)).values := by
  intro m s i j
  have hstored : IssuerRegistry.storedAddress s.values.issuers (.fill 32 21) =
      some Example.issuer := by decide +kernel
  have hnew : IssuerRegistry.storedAddress s.values.issuers (.fill 32 22) = none := by
    decide +kernel
  refine independent_changes_commute Example.deployment s i j ⟨by decide, by decide, by decide, ?_⟩
  refine Set.disjoint_left.mpr fun a ha ha' => ?_
  have hrotation : some (Example.address .account 3) = some a ∨ some Example.issuer = some a := by
    rw [← hstored]
    exact (IssuerRegistry.mem_addresses rfl).mp ha
  have hsecond : some (Example.address .account 4) = some a ∨ none = some a := by
    rw [← hnew]
    exact (IssuerRegistry.mem_addresses rfl).mp ha'
  rcases hsecond with hsecond | hnone
  · cases hsecond
    rcases hrotation with hnew | hold
    · exact absurd hnew (by decide)
    · exact absurd hold (by decide)
  · cases hnone

end EarnProof.System

import EarnProof.ProofRegistry.Refusals
import EarnProof.Soroban.Footprint

/-! What a change to one proof looks at: the admin, the two dependencies and the record of
its id, which is all it writes. On values that agree there it does the same, with the
same answers. -/
namespace EarnProof.ProofRegistry
open Soroban

/-- The proof that a call changes. -/
def Call.target : Call → Option (BytesN 32)
  | .registerProof id _ _ _ _ | .revokeProof id | .adminRevokeProof id => some id
  | .initializeContract _ _ _ | .getProof _ | .isValidProof _ | .isRevoked _ | .getAdmin
  | .getIssuerRegistry | .getProtocolConfig | .upgrade _ => none

def footprint (c : Call) : Set (StorageClass × DataKey) :=
  {p | ∃ id, c.target = some id ∧ p = (.persistent, .proof id)}

/-- What such a call reads besides. -/
def reads : Set (StorageClass × DataKey) :=
  {(.inst, .admin), (.inst, .protocolConfig), (.inst, .issuerRegistry)}

variable {W : Type} {clients : Clients W} {env : Env} {d t d₁ : Entries DataKey.Value} {w w' : W}
  {c : Call} {v : Value} {events : List Event}

theorem proof_mem {id : BytesN 32} (hc : c.target = some id) :
    (.persistent, .proof id) ∈ footprint c :=
  ⟨id, hc, rfl⟩

theorem agree_admin (h : AgreeOn (reads ∪ footprint c) d t) : t .inst .admin = d .inst .admin :=
  h .inst .admin (.inl (by simp [reads]))

theorem agree_protocolConfig (h : AgreeOn (reads ∪ footprint c) d t) :
    t .inst .protocolConfig = d .inst .protocolConfig :=
  h .inst .protocolConfig (.inl (by simp [reads]))

theorem agree_issuerRegistry (h : AgreeOn (reads ∪ footprint c) d t) :
    t .inst .issuerRegistry = d .inst .issuerRegistry :=
  h .inst .issuerRegistry (.inl (by simp [reads]))

theorem agree_proof {id : BytesN 32} (h : AgreeOn (reads ∪ footprint c) d t)
    (hc : c.target = some id) : t .persistent (.proof id) = d .persistent (.proof id) :=
  h _ _ (.inr (proof_mem hc))

/-- The checks look nowhere else. -/
theorem checks_agree (h : AgreeOn (reads ∪ footprint c) d t) (hc : c.target ≠ none) :
    checks clients env t w c = checks clients env d w c := by
  have hadmin := agree_admin h
  have hconfig := agree_protocolConfig h
  have hissuers := agree_issuerRegistry h
  cases c with
  | registerProof id cm a n e =>
    simp only [checks, registerChecks, hconfig, hissuers, agree_proof h rfl]
  | revokeProof id => simp only [checks, revokeChecks, hadmin, agree_proof h rfl]
  | adminRevokeProof id => simp only [checks, revokeChecks, hadmin, agree_proof h rfl]
  | _ => exact absurd rfl hc

theorem Revokes.follows {id : BytesN 32} {byAdmin : Bool} (h : Revokes env d id byAdmin v d₁ events)
    (hc : c.target = some id) (hagree : AgreeOn (reads ∪ footprint c) d t) :
    ∃ t₁, Revokes env t id byAdmin v t₁ events ∧ Follows (footprint c) t d₁ t₁ := by
  obtain ⟨r, p, hr, hp, hs, hst, hv, rfl, hevents⟩ := h
  have hrevoker : revoker t byAdmin r = some p := by
    unfold revoker at hp ⊢
    rw [agree_admin hagree]
    exact hp
  refine ⟨_, ⟨r, p, (agree_proof hagree hc).trans hr, hrevoker, hs, hst, hv, rfl, hevents⟩, ?_⟩
  exact (Follows.refl (hagree.mono Set.subset_union_right)).put _ (proof_mem hc)

/-- On values that agree there, a change that goes through makes the same writes. -/
theorem Effect.follows (h : Effect clients env d w c v d₁ events w') (hc : c.target ≠ none)
    (hagree : AgreeOn (reads ∪ footprint c) d t) :
    ∃ t₁, Effect clients env t w c v t₁ events w' ∧ Follows (footprint c) t d₁ t₁ := by
  cases c with
  | registerProof id cm a n e =>
    obtain ⟨cfg, reg, w₁, w₂, hvalid, hcfg, hreg, hself, hac, har, hs, hn, he, hp, happ, hact, hid, hv,
      rfl, hevents⟩ := h
    refine ⟨_, ⟨cfg, reg, w₁, w₂, hvalid, (agree_protocolConfig hagree).trans hcfg,
      (agree_issuerRegistry hagree).trans hreg, hself, hac, har, hs, hn, he, hp, happ, hact,
      (agree_proof hagree rfl).trans hid, hv, rfl, hevents⟩, ?_⟩
    exact (Follows.refl (hagree.mono Set.subset_union_right)).put _ (proof_mem rfl)
  | revokeProof id =>
    obtain ⟨t₁, ht, hfollows⟩ := h.2.follows rfl hagree
    exact ⟨t₁, ⟨h.1, ht⟩, hfollows⟩
  | adminRevokeProof id =>
    obtain ⟨t₁, ht, hfollows⟩ := h.2.follows rfl hagree
    exact ⟨t₁, ⟨h.1, ht⟩, hfollows⟩
  | _ => exact absurd rfl hc

end EarnProof.ProofRegistry

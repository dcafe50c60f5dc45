import EarnProof.IssuerRegistry.Refusals
import EarnProof.Soroban.Footprint

/-! What a change to one issuer looks at.

It reads the admin; the record of its id; and in the index the address it is given
and the address the record has, which a rotation removes. On values that agree there
it does the same. -/
namespace EarnProof.IssuerRegistry
open Soroban

/-- The issuer that a call changes. -/
def Call.target : Call → Option (BytesN 32)
  | .registerIssuer id _ _ | .updateIssuer id _ | .suspendIssuer id | .reactivateIssuer id
  | .revokeIssuer id | .rotateIssuerAddress id _ => some id
  | .initializeContract _ | .getAdmin | .getIssuer _ | .isActiveIssuer _ | .isActiveAddress _
  | .getIssuerByAddress _ | .upgrade _ => none

/-- The address such a call is given. -/
def Call.argument : Call → Option Address
  | .registerIssuer _ a _ | .rotateIssuerAddress _ a => some a
  | _ => none

/-- The address stored for an issuer. -/
def storedAddress (d : Entries DataKey.Value) (id : BytesN 32) : Option Address :=
  (d .persistent (.issuer id)).map IssuerRecord.issuerAddress

/-- The address a call is given together with the address stored for its issuer. -/
def addresses (d : Entries DataKey.Value) (c : Call) : Set Address :=
  {a | c.argument = some a ∨ c.target.bind (storedAddress d) = some a}

/-- The record and the index entries that a call is about. -/
def footprint (d : Entries DataKey.Value) (c : Call) : Set (StorageClass × DataKey) :=
  {p | (∃ id, c.target = some id ∧ p = (.persistent, .issuer id)) ∨
    ∃ a ∈ addresses d c, p = (.persistent, .addressIssuer a)}

/-- What every change reads besides. -/
def reads : Set (StorageClass × DataKey) := {(.inst, .admin)}

section
variable {env : Env} {d t : Entries DataKey.Value} {c : Call}

theorem issuer_mem {id : BytesN 32} (hc : c.target = some id) :
    (.persistent, .issuer id) ∈ footprint d c :=
  .inl ⟨id, hc, rfl⟩

theorem argument_mem {a : Address} (hc : c.argument = some a) :
    (.persistent, .addressIssuer a) ∈ footprint d c :=
  .inr ⟨a, .inl hc, rfl⟩

theorem stored_mem {id : BytesN 32} {r : IssuerRecord} (hc : c.target = some id)
    (hr : d .persistent (.issuer id) = some r) :
    (.persistent, .addressIssuer r.issuerAddress) ∈ footprint d c :=
  .inr ⟨_, .inr (by simp [hc, storedAddress, hr]), rfl⟩

theorem mem_addresses {id : BytesN 32} {a : Address} (hc : c.target = some id) :
    a ∈ addresses d c ↔ c.argument = some a ∨ storedAddress d id = some a := by
  simp only [addresses, Set.mem_ofPred_eq, hc, Option.bind_some]

theorem agree_admin (h : AgreeOn (reads ∪ footprint d c) d t) : t .inst .admin = d .inst .admin :=
  h .inst .admin (.inl rfl)

theorem agree_issuer {id : BytesN 32} (h : AgreeOn (reads ∪ footprint d c) d t)
    (hc : c.target = some id) : t .persistent (.issuer id) = d .persistent (.issuer id) :=
  h _ _ (.inr (issuer_mem hc))

theorem agree_argument {a : Address} (h : AgreeOn (reads ∪ footprint d c) d t)
    (hc : c.argument = some a) :
    t .persistent (.addressIssuer a) = d .persistent (.addressIssuer a) :=
  h _ _ (.inr (argument_mem hc))

/-- The checks look nowhere else. -/
theorem checks_agree (h : AgreeOn (reads ∪ footprint d c) d t) (hc : c.target ≠ none) :
    checks env t c = checks env d c := by
  have hadmin := agree_admin h
  cases c with
  | registerIssuer id a m => simp only [checks, hadmin, agree_issuer h rfl, agree_argument h rfl]
  | updateIssuer id m => simp only [checks, amendChecks, hadmin, agree_issuer h rfl]
  | suspendIssuer id => simp only [checks, statusChecks, amendChecks, hadmin, agree_issuer h rfl]
  | reactivateIssuer id => simp only [checks, statusChecks, amendChecks, hadmin, agree_issuer h rfl]
  | revokeIssuer id => simp only [checks, statusChecks, amendChecks, hadmin, agree_issuer h rfl]
  | rotateIssuerAddress id a =>
    simp only [checks, hadmin, agree_issuer h rfl, agree_argument h rfl]
  | _ => exact absurd rfl hc

end

section
variable {env : Env} {d t d₁ : Entries DataKey.Value} {c : Call} {v : Value} {events : List Event}

theorem Amends.follows {id : BytesN 32} {allowed : IssuerRecord → Prop}
    {change : IssuerRecord → IssuerRecord} {event : Event}
    (h : Amends env d id allowed change event v d₁ events) (hc : c.target = some id)
    (hagree : AgreeOn (reads ∪ footprint d c) d t) :
    ∃ t₁, Amends env t id allowed change event v t₁ events ∧ Follows (footprint d c) t d₁ t₁ := by
  obtain ⟨admin, r, ha, hs, hr, hallowed, hv, rfl, hevents⟩ := h
  refine ⟨_, ⟨admin, r, (agree_admin hagree).trans ha, hs, (agree_issuer hagree hc).trans hr, hallowed,
    hv, rfl, hevents⟩, ?_⟩
  exact (Follows.refl (hagree.mono Set.subset_union_right)).put _ (issuer_mem hc)

/-- On values that agree there, a change that goes through makes the same writes. -/
theorem Effect.follows (h : Effect env d c v d₁ events) (hc : c.target ≠ none)
    (hagree : AgreeOn (reads ∪ footprint d c) d t) :
    ∃ t₁, Effect env t c v t₁ events ∧ Follows (footprint d c) t d₁ t₁ := by
  have hadmin := agree_admin hagree
  have hstart : Follows (footprint d c) t d t := .refl (hagree.mono Set.subset_union_right)
  cases c with
  | registerIssuer id a m =>
    obtain ⟨admin, ha, hvalid, hs, hid, hfree, hv, rfl, hevents⟩ := h
    refine ⟨_, ⟨admin, hadmin.trans ha, hvalid, hs, (agree_issuer hagree rfl).trans hid,
      (agree_argument hagree rfl).trans hfree, hv, rfl, hevents⟩, ?_⟩
    exact (hstart.put _ (issuer_mem rfl)).put _ (argument_mem rfl)
  | updateIssuer id m => exact Amends.follows h rfl hagree
  | suspendIssuer id => exact Amends.follows h rfl hagree
  | reactivateIssuer id => exact Amends.follows h rfl hagree
  | revokeIssuer id => exact Amends.follows h rfl hagree
  | rotateIssuerAddress id a =>
    obtain ⟨admin, r, ha, hvalid, hs, hr, hst, hne, hfree, hv, rfl, hevents⟩ := h
    refine ⟨_, ⟨admin, r, hadmin.trans ha, hvalid, hs, (agree_issuer hagree rfl).trans hr, hst, hne,
      (agree_argument hagree rfl).trans hfree, hv, rfl, hevents⟩, ?_⟩
    exact ((hstart.put _ (stored_mem rfl hr)).put _ (issuer_mem rfl)).put _ (argument_mem rfl)
  | _ => exact absurd rfl hc

end
end EarnProof.IssuerRegistry

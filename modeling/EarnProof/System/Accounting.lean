import EarnProof.Abstract.Occupancy
import EarnProof.Inventory.Contracts
import EarnProof.System.Past

/-! What the deployment stores, counted.

Every contract keeps its persistent entries at home (`run_housed`), so they are the
records, the index and the flags. A record is filled by its registration alone and
never emptied, and the index is as large as the records. The persistent entries of a
registry are then counted by its registrations, whatever else the run did. -/
namespace EarnProof
open Soroban Occupancy

theorem AtHome.temporary {K : Type} {V : K → Type} {home : K → StorageClass} {d : Entries V}
    (h : AtHome home d) (hhome : ∀ k, .temporary ≠ home k) : filled (d .temporary) = ∅ := by
  ext k
  simp [mem_filled, h .temporary k (hhome k)]

/-! ### The persistent keys of each contract -/

namespace ProtocolConfig

/-- The stored approval flags. -/
def schemaFlags (d : Entries DataKey.Value) : UInt32 → Option Bool :=
  fun n => d .persistent (.schemaVersion n)

theorem filled_persistent {d : Entries DataKey.Value} (h : AtHome DataKey.home d) :
    filled (d .persistent) = DataKey.schemaVersion '' filled (schemaFlags d) := by
  ext k
  rw [mem_filled, Set.mem_image]
  constructor
  · intro hk
    cases k with
    | schemaVersion n => exact ⟨n, mem_filled.mpr hk, rfl⟩
    | _ => exact absurd (h .persistent _ (by simp [DataKey.home])) hk
  · rintro ⟨n, hn, rfl⟩
    exact mem_filled.mp hn

/-- `approve_schema_version` or `deprecate_schema_version`. -/
def Call.setsSchema : Call → Bool
  | .approveSchemaVersion _ | .deprecateSchemaVersion _ => true
  | _ => false

theorem Effect.schemaFlags_encard {env : Env} {d d' : Entries DataKey.Value} {c : Call} {v : Value}
    {events : List Event} (h : Effect env d c v d' events) :
    (filled (schemaFlags d')).encard ≤
      (filled (schemaFlags d)).encard + if c.setsSchema then 1 else 0 := by
  have hset : ∀ {m : UInt32} {flag : Bool} {event : Event},
      Configures env d .persistent (.schemaVersion m) flag event v d' events →
      (filled (schemaFlags d')).encard ≤ (filled (schemaFlags d)).encard + 1 := by
    intro m flag event hC
    have hupdate : schemaFlags d' = Function.update (schemaFlags d) m (some flag) := by
      obtain ⟨_, _, rfl⟩ := hC.writes
      funext n
      by_cases hn : n = m
      · subst hn
        simp [schemaFlags]
      · simp [schemaFlags, hn]
    rw [hupdate]
    exact encard_update_le _
  have hkeep : (∀ n, c.schemaFlag n = none) → schemaFlags d' = schemaFlags d := by
    intro hnone
    funext n
    have hflag := Effect.schemaFlag h n
    rw [hnone n, Option.none_or] at hflag
    exact hflag
  cases c with
  | approveSchemaVersion m => exact hset h.2
  | deprecateSchemaVersion m => exact hset h.2
  | _ =>
    rw [hkeep fun _ => rfl]
    exact le_self_add

end ProtocolConfig

namespace IssuerRegistry

theorem filled_persistent {d : Entries DataKey.Value} (h : AtHome DataKey.home d) :
    filled (d .persistent) =
      DataKey.issuer '' filled (records d) ∪ DataKey.addressIssuer '' filled (index d) := by
  ext k
  rw [mem_filled, Set.mem_union, Set.mem_image, Set.mem_image]
  constructor
  · intro hk
    cases k with
    | issuer id => exact .inl ⟨id, mem_filled.mpr hk, rfl⟩
    | addressIssuer a => exact .inr ⟨a, mem_filled.mpr hk, rfl⟩
    | _ => exact absurd (h .persistent _ (by simp [DataKey.home])) hk
  · rintro (⟨id, hid, rfl⟩ | ⟨a, ha, rfl⟩)
    · exact mem_filled.mp hid
    · exact mem_filled.mp ha

/-- Each record has its address in the index, so there are two entries for each. -/
theorem Keeps.encard_persistent {d : Entries DataKey.Value} {D : IssuerDirectory} (hD : Keeps d D)
    (h : AtHome DataKey.home d) :
    (filled (d .persistent)).encard = 2 * (filled (IssuerRegistry.records d)).encard := by
  have hindex : (filled (IssuerRegistry.index d)).encard =
      (filled (IssuerRegistry.records d)).encard := by
    rw [hD.index, hD.records]
    show {a | (D.index a).isSome}.encard = {id | (D.records id).isSome}.encard
    rw [← D.finite_index.cast_ncard_eq, ← D.finite.cast_ncard_eq, D.ncard_index]
  have hissuer : Function.Injective DataKey.issuer := fun _ _ heq => DataKey.issuer.inj heq
  have haddress : Function.Injective DataKey.addressIssuer := fun _ _ heq =>
    DataKey.addressIssuer.inj heq
  have hdisjoint : Disjoint (DataKey.issuer '' filled (IssuerRegistry.records d))
      (DataKey.addressIssuer '' filled (IssuerRegistry.index d)) := by
    rw [Set.disjoint_left]
    rintro _ ⟨id, _, rfl⟩ ⟨a, _, heq⟩
    cases heq
  rw [filled_persistent h, Set.encard_union_eq hdisjoint, hissuer.encard_image,
    haddress.encard_image, hindex, two_mul]

def Call.registersIssuer : Call → Bool
  | .registerIssuer _ _ _ => true
  | _ => false

theorem Change.records_encard {now : UInt64} {d d' : Entries DataKey.Value} {c : Call}
    (h : Change now d c d') (hc : c.registersIssuer = false) :
    filled (records d') = filled (records d) := by
  cases h with
  | keep hrecords _ => rw [hrecords]
  | register => cases hc
  | amend hr _ _ _ _ hrecords _ => rw [hrecords, filled_update_of_filled _ (by rw [hr]; simp)]
  | rotate hr _ _ _ hrecords _ => rw [hrecords, filled_update_of_filled _ (by rw [hr]; simp)]

theorem Effect.records_encard {env : Env} {d d' : Entries DataKey.Value} {c : Call} {v : Value}
    {events : List Event} (h : Effect env d c v d' events) :
    (filled (records d')).encard =
      (filled (records d)).encard + if c.registersIssuer then 1 else 0 := by
  cases c with
  | registerIssuer id a m =>
    obtain ⟨_, _, _, _, hid, _, _, rfl, _⟩ := h
    have hfree : records d id = none := hid
    rw [records_put_addressIssuer, records_put_issuer, encard_update_of_free _ hfree]
    rfl
  | _ =>
    rw [h.change.records_encard rfl]
    exact (add_zero _).symm

end IssuerRegistry

namespace ProofRegistry

theorem filled_persistent {d : Entries DataKey.Value} (h : AtHome DataKey.home d) :
    filled (d .persistent) = DataKey.proof '' filled (proofs d) := by
  ext k
  rw [mem_filled, Set.mem_image]
  constructor
  · intro hk
    cases k with
    | proof id => exact ⟨id, mem_filled.mpr hk, rfl⟩
    | _ => exact absurd (h .persistent _ (by simp [DataKey.home])) hk
  · rintro ⟨id, hid, rfl⟩
    exact mem_filled.mp hid

def Call.registersProof : Call → Bool
  | .registerProof _ _ _ _ _ => true
  | _ => false

theorem Change.proofs_encard {now : UInt64} {d d' : Entries DataKey.Value} {c : Call}
    (h : Change now d c d') :
    (filled (proofs d')).encard =
      (filled (proofs d)).encard + if c.registersProof then 1 else 0 := by
  cases h with
  | keep hc h =>
    have hno : c.registersProof = false := by
      cases c with
      | registerProof id => simpa [Call.writes] using hc id
      | _ => rfl
    rw [h, hno]
    exact (add_zero _).symm
  | register hnone h =>
    rw [h, encard_update_of_free _ hnone]
    rfl
  | revoke hc hr hactive h =>
    rw [h, filled_update_of_filled _ (by rw [hr]; simp)]
    rcases hc with rfl | rfl <;> exact (add_zero _).symm

end ProofRegistry

/-! ### Over runs -/

namespace System
variable (dep : Deployment) (is : List (Invocation Call))

/-- The contracts keep their entries at home. -/
structure Housed (x : Values) : Prop where
  config : AtHome ProtocolConfig.DataKey.home x.config
  issuers : AtHome IssuerRegistry.DataKey.home x.issuers
  proofs : AtHome ProofRegistry.DataKey.home x.proofs

theorem Effect.housed {dep : Deployment} {env : Env} {x x' : Values} {c : Call} {v : Value}
    (h : Effect dep env x c v x') (hx : Housed x) : Housed x' := by
  refine ⟨?_, ?_, ?_⟩
  · rcases h.config_cases with ⟨_, _, _, hE⟩ | ⟨_, hsame⟩
    · exact ProtocolConfig.Effect.atHome hE hx.config
    · rw [hsame]
      exact hx.config
  · rcases h.issuers_cases with ⟨_, _, _, hE⟩ | ⟨_, hsame⟩
    · exact IssuerRegistry.Effect.atHome hE hx.issuers
    · rw [hsame]
      exact hx.issuers
  · rcases h.proofs_cases with ⟨pc, events, _, hE⟩ | ⟨_, hsame⟩
    · have hrequest : ProofRegistry.RequestEffect {env with currentContract := dep.proofRegistry}
          x.proofs ⟨pc, answers dep x⟩ v x'.proofs events := hE
      exact ProofRegistry.RequestEffect.atHome hrequest hx.proofs
    · rw [hsame]
      exact hx.proofs

theorem run_housed : Housed ((machine dep).run empty is).values :=
  run_invariant dep Housed (fun _ _ _ _ _ hE hx => hE.housed hx)
    ⟨AtHome.empty, AtHome.empty, AtHome.empty⟩ is

/-- How many deeds are calls that `p` picks. -/
def deedCount (p : Call → Bool) (ds : List Deed) : Nat := ds.countP fun x => p x.1

theorem deedCount_snoc (p : Call → Bool) (ds : List Deed) (c : Call) (t : UInt64) :
    deedCount p (ds ++ [(c, t)]) = deedCount p ds + if p c then 1 else 0 := by
  rw [deedCount, List.countP_append, ← deedCount]
  cases hc : p c <;> simp [hc]

def Call.setsSchema : Call → Bool
  | .config c => c.setsSchema
  | _ => false

def Call.registersIssuer : Call → Bool
  | .issuers c => c.registersIssuer
  | _ => false

def Call.registersProof : Call → Bool
  | .proofs c => c.registersProof
  | _ => false

theorem run_schemaFlags_encard :
    (filled (ProtocolConfig.schemaFlags ((machine dep).run empty is).values.config)).encard ≤
      deedCount Call.setsSchema (deeds ((machine dep).history empty is)) := by
  refine deeds_induction dep (P := fun ds x =>
    (filled (ProtocolConfig.schemaFlags x.config)).encard ≤ deedCount Call.setsSchema ds)
    (by simp [filled, ProtocolConfig.schemaFlags, values, empty]) ?_ is
  intro ds env x c v x' hx hE
  rw [deedCount_snoc]
  rcases hE.config_cases with ⟨cc, events, rfl, hC⟩ | ⟨hnot, hsame⟩
  · refine hC.schemaFlags_encard.trans ?_
    push_cast
    exact add_le_add hx le_rfl
  · rw [hsame]
    exact hx.trans (Nat.cast_le.mpr (Nat.le_add_right _ _))

theorem run_records_encard :
    (filled (IssuerRegistry.records ((machine dep).run empty is).values.issuers)).encard =
      deedCount Call.registersIssuer (deeds ((machine dep).history empty is)) := by
  refine deeds_induction dep (P := fun ds x =>
    (filled (IssuerRegistry.records x.issuers)).encard = deedCount Call.registersIssuer ds)
    (by simp [filled, values, empty, deedCount]) ?_ is
  intro ds env x c v x' hx hE
  rw [deedCount_snoc]
  rcases hE.issuers_cases with ⟨ic, events, rfl, hI⟩ | ⟨hnot, hsame⟩
  · rw [hI.records_encard, hx]
    push_cast
    rfl
  · rw [hsame, hx]
    cases c with
    | issuers ic => exact absurd rfl (hnot ic)
    | _ => rfl

theorem run_proofs_encard :
    (filled (ProofRegistry.proofs ((machine dep).run empty is).values.proofs)).encard =
      deedCount Call.registersProof (deeds ((machine dep).history empty is)) := by
  refine deeds_induction dep (P := fun ds x =>
    (filled (ProofRegistry.proofs x.proofs)).encard = deedCount Call.registersProof ds)
    (by simp [filled, ProofRegistry.proofs, values, empty, deedCount]) ?_ is
  intro ds env x c v x' hx hE
  rw [deedCount_snoc]
  rcases hE.proofs with ⟨pc, rfl, hchange⟩ | ⟨hnot, hsame⟩
  · rw [hchange.proofs_encard, hx]
    push_cast
    rfl
  · rw [hsame, hx]
    cases c with
    | proofs pc => exact absurd rfl (hnot pc)
    | _ => rfl

/-- The persistent entries after every run are the flags, records and index entries its
successful calls name. A registered issuer takes two, a registered proof one and a named
schema version one, and nothing else changes how many there are: a rotation moves an index
entry from one address to another. Temporary storage is empty. -/
theorem storage_accounted (dep : Deployment) (is : List (Invocation Call)) :
    let x := ((machine dep).run empty is).values
    let ds := deeds ((machine dep).history empty is)
    (filled (x.proofs .persistent) = ProofRegistry.DataKey.proof '' {id | ∃ a, IssuedBy ds id a} ∧
      (filled (x.proofs .persistent)).encard = deedCount Call.registersProof ds) ∧
    (filled (x.issuers .persistent) =
        IssuerRegistry.DataKey.issuer '' {id | issuerDeeds id ds ≠ []} ∪
          IssuerRegistry.DataKey.addressIssuer '' {a | ¬ Vacant a ds} ∧
      (filled (x.issuers .persistent)).encard = 2 * deedCount Call.registersIssuer ds) ∧
    (filled (x.config .persistent) = ProtocolConfig.DataKey.schemaVersion ''
        {n | configWord (ProtocolConfig.Call.schemaFlag n) ds ≠ none} ∧
      (filled (x.config .persistent)).encard ≤ deedCount Call.setsSchema ds) ∧
    filled (x.proofs .temporary) = ∅ ∧ filled (x.issuers .temporary) = ∅ ∧
      filled (x.config .temporary) = ∅ := by
  intro x ds
  have hhome : Housed x := run_housed dep is
  obtain ⟨D, hD⟩ := run_keeps dep is
  have hproof : Function.Injective ProofRegistry.DataKey.proof := fun _ _ heq =>
    ProofRegistry.DataKey.proof.inj heq
  have hschema : Function.Injective ProtocolConfig.DataKey.schemaVersion := fun _ _ heq =>
    ProtocolConfig.DataKey.schemaVersion.inj heq
  refine ⟨⟨?_, ?_⟩, ⟨?_, ?_⟩, ⟨?_, ?_⟩, ?_, ?_, ?_⟩
  · rw [ProofRegistry.filled_persistent hhome.proofs]
    congr 1
    ext id
    rw [mem_filled, Option.ne_none_iff_exists']
    constructor
    · rintro ⟨r, hr⟩
      exact ⟨r.issuerAddress, (run_issuedBy dep is id _).mpr ⟨r, hr, rfl⟩⟩
    · rintro ⟨a, ha⟩
      obtain ⟨r, hr, _⟩ := (run_issuedBy dep is id a).mp ha
      exact ⟨r, hr⟩
  · rw [ProofRegistry.filled_persistent hhome.proofs, hproof.encard_image]
    exact run_proofs_encard dep is
  · rw [IssuerRegistry.filled_persistent hhome.issuers]
    congr 2
    · ext id
      exact mem_filled.trans (not_congr (run_told dep is id).chronicle.1)
    · ext a
      exact mem_filled.trans (not_congr (run_vacant dep is a).symm)
  · rw [hD.encard_persistent hhome.issuers]
    exact congrArg (2 * ·) (run_records_encard dep is)
  · rw [ProtocolConfig.filled_persistent hhome.config]
    congr 1
    ext n
    rw [mem_filled]
    exact not_congr (by rw [← run_schemaVersion]; rfl)
  · rw [ProtocolConfig.filled_persistent hhome.config, hschema.encard_image]
    exact run_schemaFlags_encard dep is
  · exact hhome.proofs.temporary (fun k => by cases k <;> simp [ProofRegistry.DataKey.home])
  · exact hhome.issuers.temporary (fun k => by cases k <;> simp [IssuerRegistry.DataKey.home])
  · exact hhome.config.temporary (fun k => by cases k <;> simp [ProtocolConfig.DataKey.home])

end System
end EarnProof

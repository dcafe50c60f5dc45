import EarnProof.Initialization.Contracts
import EarnProof.ProtocolConfig.Audit
import EarnProof.System.Gate
import EarnProof.System.History
import EarnProof.System.Validity

/-! What the deeds of a run say about the state it reached.

A flag, an admin or a reference is the last word of the deeds on it (`configWord`,
`issuersWord`), the configuration counter is the number of changes, an address is taken
when a career ends there, and a proof is there or revoked when a deed says so. Nothing
else of the run enters the state that calls are checked against. -/
namespace EarnProof

/-! ### What a call sets -/

namespace ProtocolConfig
open Soroban

def Call.pausedFlag : Call → Option Bool
  | .initializeContract _ | .unpause => some false
  | .pause => some true
  | _ => none

def Call.schemaFlag (n : UInt32) : Call → Option Bool
  | .approveSchemaVersion m => if m = n then some true else none
  | .deprecateSchemaVersion m => if m = n then some false else none
  | _ => none

def Call.newAdmin : Call → Option Address
  | .initializeContract a | .setAdmin a => some a
  | _ => none

section
variable {env : Env} {d d' : Entries DataKey.Value} {v : Value} {events : List Event}

/-- A configuration change leaves the other entries alone. -/
theorem Configures.frame {k k' : DataKey} {cl cl' : StorageClass} {x : k.Value} {event : Event}
    (h : Configures env d cl k x event v d' events) (hk : cl' ≠ cl ∨ k' ≠ k)
    (hcounter : k' ≠ .configVersion) : d' cl' k' = d cl' k' := by
  obtain ⟨n, _, rfl⟩ := h.writes
  rw [Entries.put_key _ _ _ _ hcounter]
  rcases hk with hk | hk
  · exact Entries.put_class _ _ _ _ hk
  · exact Entries.put_key _ _ _ _ hk

theorem Effect.pausedFlag {c : Call} (h : Effect env d c v d' events) :
    d' .inst .paused = c.pausedFlag.or (d .inst .paused) := by
  cases c with
  | initializeContract admin =>
    obtain ⟨_, _, _, _, rfl, _⟩ := h
    simp [Call.pausedFlag]
  | setAdmin a => exact Configures.frame h.2 (.inr (by simp)) (by simp)
  | pause | unpause =>
    obtain ⟨n, _, rfl⟩ := Configures.writes h
    simp [Call.pausedFlag]
  | approveSchemaVersion n => exact Configures.frame h.2 (.inr (by simp)) (by simp)
  | deprecateSchemaVersion n => exact Configures.frame h.2 (.inr (by simp)) (by simp)
  | upgrade c => exact Governance.Effect.frame h (by simp [governance])
  | _ =>
    obtain ⟨rfl, _⟩ := Effect.query h rfl
    rfl

theorem Effect.schemaFlag {c : Call} (h : Effect env d c v d' events) (n : UInt32) :
    d' .persistent (.schemaVersion n) = (c.schemaFlag n).or (d .persistent (.schemaVersion n)) := by
  have hset : ∀ {m : UInt32} {flag : Bool} {event : Event},
      Configures env d .persistent (.schemaVersion m) flag event v d' events →
      d' .persistent (.schemaVersion n) =
        (if m = n then some flag else none).or (d .persistent (.schemaVersion n)) := by
    intro m flag event hC
    by_cases hm : m = n
    · subst hm
      obtain ⟨_, _, rfl⟩ := hC.writes
      simp
    · rw [hC.frame (.inr (by simp [Ne.symm hm])) (by simp), if_neg hm]
      rfl
  cases c with
  | initializeContract admin =>
    obtain ⟨_, _, _, _, rfl, _⟩ := h
    simp [Call.schemaFlag]
  | setAdmin a => exact Configures.frame h.2 (.inl (by simp)) (by simp)
  | pause => exact Configures.frame h (.inl (by simp)) (by simp)
  | unpause => exact Configures.frame h (.inl (by simp)) (by simp)
  | approveSchemaVersion m => exact hset h.2
  | deprecateSchemaVersion m => exact hset h.2
  | upgrade c => exact Governance.Effect.frame h (by simp)
  | _ =>
    obtain ⟨rfl, _⟩ := Effect.query h rfl
    rfl

theorem Effect.newAdmin {c : Call} (h : Effect env d c v d' events) :
    d' .inst .admin = c.newAdmin.or (d .inst .admin) := by
  cases c with
  | initializeContract admin =>
    obtain ⟨_, _, _, _, rfl, _⟩ := h
    simp [Call.newAdmin]
  | setAdmin a =>
    obtain ⟨n, _, rfl⟩ := h.2.writes
    simp [Call.newAdmin]
  | pause => exact Configures.frame h (.inr (by simp)) (by simp)
  | unpause => exact Configures.frame h (.inr (by simp)) (by simp)
  | approveSchemaVersion n => exact Configures.frame h.2 (.inl (by simp)) (by simp)
  | deprecateSchemaVersion n => exact Configures.frame h.2 (.inl (by simp)) (by simp)
  | upgrade c => exact Governance.Effect.frame h (by simp [governance])
  | _ =>
    obtain ⟨rfl, _⟩ := Effect.query h rfl
    rfl

end
end ProtocolConfig

namespace IssuerRegistry
open Soroban

def Call.newAdmin : Call → Option Address
  | .initializeContract a => some a
  | _ => none

theorem Effect.newAdmin {env : Env} {d d' : Entries DataKey.Value} {v : Value} {events : List Event}
    {c : Call} (h : Effect env d c v d' events) :
    d' .inst .admin = c.newAdmin.or (d .inst .admin) := by
  cases c with
  | initializeContract admin =>
    obtain ⟨_, _, _, _, rfl, _⟩ := h
    simp [Call.newAdmin]
  | _ => exact Effect.admin h rfl

end IssuerRegistry

namespace ProofRegistry
open Soroban

/-- A deed that registered a proof named the address of its record. -/
theorem Life.issuer {id : BytesN 32} {told : List Act} {r : ProofRecord}
    (h : Life id told (some r)) {c : BytesN 32} {a : Address} {n : UInt32} {e t : UInt64}
    (hmem : (.registerProof id c a n e, t) ∈ told) : r.issuerAddress = a := by
  cases h with
  | registered c' a' n' e' t' =>
    cases List.mem_singleton.mp hmem
    rfl
  | revoked c' a' n' e' t' rc t'' hrc =>
    rcases List.mem_cons.mp hmem with heq | hmem
    · cases heq
      rfl
    · cases List.mem_singleton.mp hmem
      exact absurd hrc registerProof_not_revokes

end ProofRegistry

namespace System
open Soroban

/-! ### Last words -/

/-- What `f` reads in the protocol-config calls, the last time it reads anything. -/
def configWord {α : Type} (f : ProtocolConfig.Call → Option α) (ds : List Deed) : Option α :=
  LastWrite.latest (fun x => match x.1 with
    | .config c => f c
    | _ => none) ds

/-- The same in the issuer-registry calls. -/
def issuersWord {α : Type} (f : IssuerRegistry.Call → Option α) (ds : List Deed) : Option α :=
  LastWrite.latest (fun x => match x.1 with
    | .issuers c => f c
    | _ => none) ds

section Words
variable (dep : Deployment) (is : List (Invocation Call)) {α : Type}

theorem run_configWord {g : Entries ProtocolConfig.DataKey.Value → Option α}
    {f : ProtocolConfig.Call → Option α} (hempty : g Entries.empty = none)
    (hf : ∀ {env d c v d' events}, ProtocolConfig.Effect env d c v d' events →
      g d' = (f c).or (g d)) :
    g ((machine dep).run empty is).values.config =
      configWord f (deeds ((machine dep).history empty is)) := by
  refine deeds_induction dep (P := fun ds x => g x.config = configWord f ds) hempty ?_ is
  intro ds env x c v x' hx hE
  rw [configWord, LastWrite.latest_snoc, ← configWord, ← hx]
  rcases hE.config_cases with ⟨cc, events, rfl, hC⟩ | ⟨hnot, hsame⟩
  · exact hf hC
  · rw [hsame]
    cases c with
    | config cc => exact absurd rfl (hnot cc)
    | _ => rfl

theorem run_issuersWord {g : Entries IssuerRegistry.DataKey.Value → Option α}
    {f : IssuerRegistry.Call → Option α} (hempty : g Entries.empty = none)
    (hf : ∀ {env d c v d' events}, IssuerRegistry.Effect env d c v d' events →
      g d' = (f c).or (g d)) :
    g ((machine dep).run empty is).values.issuers =
      issuersWord f (deeds ((machine dep).history empty is)) := by
  refine deeds_induction dep (P := fun ds x => g x.issuers = issuersWord f ds) hempty ?_ is
  intro ds env x c v x' hx hE
  rw [issuersWord, LastWrite.latest_snoc, ← issuersWord, ← hx]
  rcases hE.issuers_cases with ⟨ic, events, rfl, hC⟩ | ⟨hnot, hsame⟩
  · exact hf hC
  · rw [hsame]
    cases c with
    | issuers ic => exact absurd rfl (hnot ic)
    | _ => rfl

theorem run_paused : ((machine dep).run empty is).values.config .inst .paused =
    configWord ProtocolConfig.Call.pausedFlag (deeds ((machine dep).history empty is)) :=
  run_configWord dep is rfl fun h => h.pausedFlag

theorem run_schemaVersion (n : UInt32) :
    ((machine dep).run empty is).values.config .persistent (.schemaVersion n) =
      configWord (ProtocolConfig.Call.schemaFlag n) (deeds ((machine dep).history empty is)) :=
  run_configWord dep is (g := fun d => d .persistent (.schemaVersion n)) rfl
    fun h => h.schemaFlag n

theorem run_configAdmin : ((machine dep).run empty is).values.config .inst .admin =
    configWord ProtocolConfig.Call.newAdmin (deeds ((machine dep).history empty is)) :=
  run_configWord dep is rfl fun h => h.newAdmin

theorem run_issuersAdmin : ((machine dep).run empty is).values.issuers .inst .admin =
    issuersWord IssuerRegistry.Call.newAdmin (deeds ((machine dep).history empty is)) :=
  run_issuersWord dep is rfl fun h => h.newAdmin

end Words

/-! ### The configuration counter -/

/-- How many configuration changes the deeds made. -/
def configChanges (ds : List Deed) : Nat :=
  ds.countP fun x => match x.1 with
    | .config c => c.configures
    | _ => false

theorem configChanges_snoc (ds : List Deed) (c : Call) (t : UInt64) :
    configChanges (ds ++ [(c, t)]) = configChanges ds + match c with
      | .config cc => if cc.configures then 1 else 0
      | _ => 0 := by
  rw [configChanges, List.countP_append, ← configChanges]
  cases c with
  | config cc => cases hc : cc.configures <;> simp [hc]
  | _ => simp

theorem run_configVersion (dep : Deployment) (is : List (Invocation Call)) :
    let x := ((machine dep).run empty is).values
    x.config .inst .admin ≠ none → (ProtocolConfig.configVersion x.config).toNat =
      configChanges (deeds ((machine dep).history empty is)) + 1 := by
  have hcounted : ∀ is, let x := ((machine dep).run empty is).values
      let ds := deeds ((machine dep).history empty is)
      (x.config .inst .admin = none → configChanges ds = 0) ∧
        (x.config .inst .admin ≠ none →
          (ProtocolConfig.configVersion x.config).toNat = configChanges ds + 1) := by
    refine deeds_induction dep (P := fun ds x => (x.config .inst .admin = none →
      configChanges ds = 0) ∧ (x.config .inst .admin ≠ none →
        (ProtocolConfig.configVersion x.config).toNat = configChanges ds + 1))
      ⟨fun _ => rfl, fun h => absurd rfl h⟩ ?_
    intro ds env x c v x' hx hE
    rw [configChanges_snoc]
    rcases hE.config_cases with ⟨cc, events, rfl, hC⟩ | ⟨hnot, hsame⟩
    · rcases hC.moves with ⟨hc, hnext, hpre, hpost⟩ | ⟨hc, hpre, hpost, hone⟩ | ⟨hc, hkept, hview⟩
      · simp only [hc, if_true]
        refine ⟨fun hnone => absurd hnone hpost, fun _ => ?_⟩
        rw [hnext, hx.2 hpre]
      · simp only [hc, if_false, Bool.false_eq_true, Nat.add_zero]
        refine ⟨fun hnone => absurd hnone hpost, fun _ => ?_⟩
        rw [hone, hx.1 hpre]
        rfl
      · have hadmin : x'.config .inst .admin = x.config .inst .admin :=
          congrArg ProtocolConfig.View.admin hview
        simp only [hc, if_false, Bool.false_eq_true, Nat.add_zero]
        rw [hadmin, hkept]
        exact hx
    · rw [hsame]
      cases c with
      | config cc => exact absurd rfl (hnot cc)
      | _ => exact hx
  exact (hcounted is).2

/-! ### Issuers and their addresses -/

/-- The status and the address an issuer was last given. -/
def statusOf (id : BytesN 32) (ds : List Deed) : Option IssuerStatus :=
  LastWrite.latest (IssuerRegistry.Call.status ∘ Prod.fst) (issuerDeeds id ds)

def addressOf (id : BytesN 32) (ds : List Deed) : Option Address :=
  LastWrite.latest (IssuerRegistry.Call.argument ∘ Prod.fst) (issuerDeeds id ds)

/-- No issuer was last given the address. -/
def Vacant (a : Address) (ds : List Deed) : Prop := ∀ id, addressOf id ds ≠ some a

section Issuers
variable (dep : Deployment) (is : List (Invocation Call)) (id : BytesN 32)

theorem run_statusOf : statusOf id (deeds ((machine dep).history empty is)) =
    (IssuerRegistry.records ((machine dep).run empty is).values.issuers id).map
      IssuerRecord.status := by
  have htold := run_told dep is id
  cases hr : IssuerRegistry.records ((machine dep).run empty is).values.issuers id with
  | none =>
    rw [statusOf, htold.chronicle.1.mp hr]
    rfl
  | some r => exact (htold.chronicle.2 r hr).status

theorem run_addressOf : addressOf id (deeds ((machine dep).history empty is)) =
    (IssuerRegistry.records ((machine dep).run empty is).values.issuers id).map
      IssuerRecord.issuerAddress := by
  have htold := run_told dep is id
  cases hr : IssuerRegistry.records ((machine dep).run empty is).values.issuers id with
  | none =>
    rw [addressOf, htold.chronicle.1.mp hr]
    rfl
  | some r => exact (htold.chronicle.2 r hr).address

theorem run_vacant (a : Address) : Vacant a (deeds ((machine dep).history empty is)) ↔
    IssuerRegistry.index ((machine dep).run empty is).values.issuers a = none := by
  obtain ⟨D, hD⟩ := run_keeps dep is
  simp only [Vacant, run_addressOf, hD.records, hD.index]
  constructor
  · intro hvacant
    by_contra hsome
    obtain ⟨issuer, hindex⟩ := Option.ne_none_iff_exists'.mp hsome
    obtain ⟨r, hr, ha⟩ := D.grounded hindex
    exact hvacant issuer (by rw [hr]; exact congrArg some ha)
  · intro hnone issuer hsome
    obtain ⟨r, hr, rfl⟩ := Option.map_eq_some_iff.mp hsome
    have hindex := D.indexed hr
    rw [hnone] at hindex
    cases hindex

end Issuers

/-! ### The proof registry -/

/-- The proof registry was initialized with these. -/
def InitializedWith (ds : List Deed) (admin issuers config : Address) : Prop :=
  ∃ t, (.proofs (.initializeContract admin issuers config), t) ∈ ds

/-- The stored references are those that were given. -/
def Referenced (x : Values) (admin issuers config : Address) : Prop :=
  x.proofs .inst .admin = some admin ∧ x.proofs .inst .issuerRegistry = some issuers ∧
    x.proofs .inst .protocolConfig = some config

/-- The proof `id` was registered by the issuer address `a`. -/
def IssuedBy (ds : List Deed) (id : BytesN 32) (a : Address) : Prop :=
  ∃ c n e t, (.proofs (.registerProof id c a n e), t) ∈ ds

/-- The proof `id` was revoked, by its issuer or by the admin. -/
def RevokedBy (ds : List Deed) (id : BytesN 32) : Prop :=
  ∃ c t, c.Revokes id ∧ (.proofs c, t) ∈ ds

theorem Effect.referenced {dep : Deployment} {env : Env} {x x' : Values} {c : Call} {v : Value}
    {ds : List Deed} (h : Effect dep env x c v x')
    (hx : ∀ a i p, InitializedWith ds a i p ↔ Referenced x a i p) (a i p : Address) :
    InitializedWith (ds ++ [(c, env.timestamp)]) a i p ↔ Referenced x' a i p := by
  have hold : (∀ pc, c = .proofs pc → ∀ a i p, pc ≠ .initializeContract a i p) →
      (InitializedWith (ds ++ [(c, env.timestamp)]) a i p ↔ InitializedWith ds a i p) := by
    intro hc
    have hne : ∀ t, (.proofs (.initializeContract a i p), t) ≠ (c, env.timestamp) := fun t heq =>
      hc _ (congrArg Prod.fst heq).symm a i p rfl
    simp [InitializedWith, hne]
  rcases h.proofs_cases with ⟨pc, events, rfl, hE⟩ | ⟨hnot, hsame⟩
  · by_cases hinit : ∃ a i p, pc = .initializeContract a i p
    · obtain ⟨a', i', p', rfl⟩ := hinit
      obtain ⟨_, hnone, _, _, _, _, _, _, _, _, hd, _⟩ := hE
      have hfresh : ¬ InitializedWith ds a i p := by
        rw [hx, Referenced, hnone]
        simp
      have hdeed : InitializedWith (ds ++ [(.proofs (.initializeContract a' i' p'), env.timestamp)])
          a i p ↔ a = a' ∧ i = i' ∧ p = p' := by
        constructor
        · rintro ⟨t, ht⟩
          rcases List.mem_append.mp ht with ht | ht
          · exact absurd ⟨t, ht⟩ hfresh
          · cases List.mem_singleton.mp ht
            exact ⟨rfl, rfl, rfl⟩
        · rintro ⟨rfl, rfl, rfl⟩
          exact ⟨env.timestamp, by simp⟩
      rw [hdeed, Referenced, hd]
      simp [eq_comm]
    · have hsame : ProofRegistry.SameWiring x.proofs x'.proofs := by
        rcases hE.wiring with hsame | ⟨_, a', i', p', heq, _⟩
        · exact hsame
        · exact absurd ⟨a', i', p', heq⟩ hinit
      rw [hold fun pc' heq a i p hpc => hinit ⟨a, i, p, by cases heq; exact hpc⟩, hx, Referenced,
        Referenced, hsame.admin, hsame.issuerRegistry, hsame.protocolConfig]
  · rw [hold fun pc heq => absurd heq (hnot pc), hx, Referenced, Referenced, hsame]

section Proofs
variable (dep : Deployment) (is : List (Invocation Call))

theorem run_referenced (a i p : Address) :
    InitializedWith (deeds ((machine dep).history empty is)) a i p ↔
      Referenced ((machine dep).run empty is).values a i p := by
  refine deeds_induction dep
    (P := fun ds x => ∀ a i p, InitializedWith ds a i p ↔ Referenced x a i p) (fun a i p => ?_)
    (fun hx hE => hE.referenced hx) is a i p
  simp [InitializedWith, Referenced, values, empty]

/-- The references are stored with the admin. -/
theorem run_initialized : (∃ a i p, InitializedWith (deeds ((machine dep).history empty is)) a i p) ↔
    ((machine dep).run empty is).values.proofs .inst .admin ≠ none := by
  have hwiring := run_wiring dep is
  simp only [run_referenced]
  constructor
  · rintro ⟨a, i, p, ha, _⟩
    rw [ha]
    simp
  · intro hadmin
    obtain ⟨a, ha⟩ := Option.ne_none_iff_exists'.mp hadmin
    obtain ⟨i, hi⟩ := Option.ne_none_iff_exists'.mp fun hnone =>
      hadmin (hwiring.issuerRegistry.mp hnone)
    obtain ⟨p, hp⟩ := Option.ne_none_iff_exists'.mp fun hnone =>
      hadmin (hwiring.protocolConfig.mp hnone)
    exact ⟨a, i, p, ha, hi, hp⟩

theorem mem_story_deeds {steps : List SystemStep} {id : BytesN 32} {c : ProofRegistry.Call}
    {t : UInt64} : (c, t) ∈ ProofRegistry.story id (proofActs steps) ↔
      c.writes id = true ∧ (.proofs c, t) ∈ deeds steps := by
  rw [mem_story, mem_deeds]

theorem run_issuedBy (id : BytesN 32) (a : Address) :
    IssuedBy (deeds ((machine dep).history empty is)) id a ↔
      ∃ r, ProofRegistry.proofs ((machine dep).run empty is).values.proofs id = some r ∧
        r.issuerAddress = a := by
  have hlife := run_life dep is id
  constructor
  · rintro ⟨c, n, e, t, hmem⟩
    have hstory : (.registerProof id c a n e, t) ∈
        ProofRegistry.story id (proofActs ((machine dep).history empty is)) :=
      mem_story_deeds.mpr ⟨by simp [ProofRegistry.Call.writes], hmem⟩
    obtain ⟨r, hr⟩ := Option.isSome_iff_exists.mp (hlife.isSome_iff.mpr ⟨e, c, a, n, t, hstory⟩)
    rw [hr] at hlife
    exact ⟨r, hr, hlife.issuer hstory⟩
  · rintro ⟨r, hr, rfl⟩
    rw [hr] at hlife
    obtain ⟨c, n, e, t, hstory⟩ := hlife.registration
    exact ⟨c, n, e, t, (mem_story_deeds.mp hstory).2⟩

theorem run_revokedBy (id : BytesN 32) : RevokedBy (deeds ((machine dep).history empty is)) id ↔
    (ProofRegistry.proofs ((machine dep).run empty is).values.proofs id).any
      (fun r => r.status == .revoked) = true := by
  rw [(run_life dep is id).revoked_iff]
  refine exists_congr fun c => exists_congr fun t => and_congr_right fun hc => ?_
  rw [mem_story_deeds]
  simp [hc.writes]

end Proofs
end System
end EarnProof

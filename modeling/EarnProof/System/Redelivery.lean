import EarnProof.System.Acceptance
import EarnProof.System.Sessions

/-! Calls that arrive more than once.

A client that gets no answer sends its call again. What a call can claim only once
(`Token`) is claimed at most once in every run, so a second registration, revocation or
initialization never counts. A call repeated in the same ledger changes nothing more,
unless it changes the configuration, whose counter moves each time. -/
namespace EarnProof
open Soroban

/-! ### At most once -/

namespace System

/-- What a successful call uses up. -/
inductive Token where
  | configInitialized
  | issuersInitialized
  | proofsInitialized
  | issuer (id : BytesN 32)
  | proof (id : BytesN 32)
  | revocation (id : BytesN 32)
  deriving DecidableEq

def Call.claims : Call → Option Token
  | .config (.initializeContract _) => some .configInitialized
  | .issuers (.initializeContract _) => some .issuersInitialized
  | .issuers (.registerIssuer id _ _) => some (.issuer id)
  | .proofs (.initializeContract _ _ _) => some .proofsInitialized
  | .proofs (.registerProof id _ _ _ _) => some (.proof id)
  | .proofs (.revokeProof id) | .proofs (.adminRevokeProof id) => some (.revocation id)
  | _ => none

/-- The tokens that the deeds used up, in order. -/
def claimed (ds : List Deed) : List Token := ds.filterMap fun x => x.1.claims

theorem mem_claimed {ds : List Deed} {k : Token} :
    k ∈ claimed ds ↔ ∃ c t, (c, t) ∈ ds ∧ c.claims = some k := by
  simp [claimed]

/-- The calls that use up a token. -/
def Token.ClaimedBy : Token → Call → Prop
  | .configInitialized, c => ∃ a, c = .config (.initializeContract a)
  | .issuersInitialized, c => ∃ a, c = .issuers (.initializeContract a)
  | .proofsInitialized, c => ∃ a i p, c = .proofs (.initializeContract a i p)
  | .issuer id, c => ∃ a m, c = .issuers (.registerIssuer id a m)
  | .proof id, c => ∃ cm a n e, c = .proofs (.registerProof id cm a n e)
  | .revocation id, c => ∃ pc : ProofRegistry.Call, pc.Revokes id ∧ c = .proofs pc

theorem Call.claimedBy {c : Call} {k : Token} (h : c.claims = some k) : k.ClaimedBy c := by
  cases c with
  | config c =>
    cases c with
    | initializeContract a =>
      cases h
      exact ⟨a, rfl⟩
    | _ => cases h
  | issuers c =>
    cases c with
    | initializeContract a =>
      cases h
      exact ⟨a, rfl⟩
    | registerIssuer id a m =>
      cases h
      exact ⟨a, m, rfl⟩
    | _ => cases h
  | proofs c =>
    cases c with
    | initializeContract a i p =>
      cases h
      exact ⟨a, i, p, rfl⟩
    | registerProof id cm a n e =>
      cases h
      exact ⟨cm, a, n, e, rfl⟩
    | revokeProof id =>
      cases h
      exact ⟨_, .inl rfl, rfl⟩
    | adminRevokeProof id =>
      cases h
      exact ⟨_, .inr rfl, rfl⟩
    | _ => cases h

theorem Token.ClaimedBy.governs {k : Token} {c : Call} (h : k.ClaimedBy c) : c.governs = false := by
  cases k with
  | configInitialized | issuersInitialized =>
    obtain ⟨_, rfl⟩ := h
    rfl
  | issuer id =>
    obtain ⟨_, _, rfl⟩ := h
    rfl
  | proofsInitialized =>
    obtain ⟨_, _, _, rfl⟩ := h
    rfl
  | proof id =>
    obtain ⟨_, _, _, _, rfl⟩ := h
    rfl
  | revocation id =>
    obtain ⟨_, hc, rfl⟩ := h
    rcases hc with rfl | rfl <;> rfl

/-- After a deed that claims a token no call that claims it is accepted. -/
theorem Token.ClaimedBy.not_accepts {dep : Deployment} {env : Env} {ds : List Deed} {k : Token}
    {c c' : Call} {t : UInt64} (hc : k.ClaimedBy c) (hc' : k.ClaimedBy c') (hmem : (c', t) ∈ ds) :
    ¬ Accepts dep env ds c := by
  cases k with
  | configInitialized =>
    obtain ⟨a, rfl⟩ := hc
    obtain ⟨a', rfl⟩ := hc'
    rintro ⟨hnone, _⟩
    have hfirst := (LastWrite.latest_eq_none _).mp hnone _ hmem
    cases hfirst
  | issuersInitialized =>
    obtain ⟨a, rfl⟩ := hc
    obtain ⟨a', rfl⟩ := hc'
    rintro ⟨hnone, _⟩
    have hfirst := (LastWrite.latest_eq_none _).mp hnone _ hmem
    cases hfirst
  | proofsInitialized =>
    obtain ⟨a, i, p, rfl⟩ := hc
    obtain ⟨a', i', p', rfl⟩ := hc'
    rintro ⟨hnone, _⟩
    exact hnone a' i' p' ⟨t, hmem⟩
  | issuer id =>
    obtain ⟨a, m, rfl⟩ := hc
    obtain ⟨a', m', rfl⟩ := hc'
    rintro ⟨_, _, hnone, _⟩
    have hfirst := (LastWrite.latest_eq_none _).mp hnone _ (mem_issuerDeeds.mpr ⟨rfl, hmem⟩)
    cases hfirst
  | proof id =>
    obtain ⟨cm, a, n, e, rfl⟩ := hc
    obtain ⟨cm', a', n', e', rfl⟩ := hc'
    rintro ⟨_, _, _, _, _, _, _, hcleared⟩
    exact hcleared.fresh a' ⟨cm', n', e', t, hmem⟩
  | revocation id =>
    obtain ⟨pc, hpc, rfl⟩ := hc
    obtain ⟨pc', hpc', rfl⟩ := hc'
    have hrevoked : RevokedBy ds id := ⟨pc', t, hpc', hmem⟩
    rcases hpc with rfl | rfl
    · rintro ⟨_, hno⟩
      exact hno hrevoked
    · rintro ⟨_, hno, _⟩
      exact hno hrevoked

variable (dep : Deployment)

/-- In every run each contract is initialized at most once, each issuer and each proof is
registered at most once, and each proof is revoked at most once. -/
theorem claimed_nodup (is : List (Invocation Call)) :
    (claimed (deeds ((machine dep).history empty is))).Nodup := by
  induction is using List.reverseRecOn with
  | nil => exact List.nodup_nil
  | append_singleton is i ih =>
    rw [deeds_snoc]
    split
    · next hok =>
      rw [claimed, List.filterMap_append, ← claimed]
      cases hc : i.call.claims with
      | none => simpa [hc] using ih
      | some k =>
        have hfresh : k ∉ claimed (deeds ((machine dep).history empty is)) := by
          intro hmem
          obtain ⟨c, t, hdeed, hclaims⟩ := mem_claimed.mp hmem
          have hclaimed := Call.claimedBy hc
          have haccepts := (effect_accepted dep i.env is hclaimed.governs).mp
            ((succeeded_iff dep).mp hok)
          exact hclaimed.not_accepts (Call.claimedBy hclaims) hdeed haccepts
        have hlast : [(i.call, i.env.timestamp)].filterMap (fun x => x.1.claims) = [k] := by
          simp [hc]
        rw [hlast, List.nodup_append_comm, List.singleton_append, List.nodup_cons]
        exact ⟨hfresh, ih⟩
    · rwa [List.append_nil]

end System

/-! ### Repeated at once -/

theorem Governance.Effect.repeats {K Ev : Type} [DecidableEq K] {V : K → Type} {G : Governance V}
    {wrap : UpgradeEvent → Ev} {env : Env} {d d' d'' : Entries V} {u : UpgradeCall} {v v' : Value}
    {events events' : List Ev} (h : G.Effect wrap env d u v d' events)
    (h' : G.Effect wrap env d' u v' d'' events') : d'' = d' := by
  cases u with
  | getContractVersion | isUpgradeAllowed hash => exact h'.2.1
  | approveUpgrade hash n =>
    obtain ⟨_, _, _, _, _, rfl, _⟩ := h
    obtain ⟨_, _, _, _, _, rfl, _⟩ := h'
    exact Slot.put_put _ _ _ _
  | revokeUpgrade hash =>
    obtain ⟨_, _, _, _, rfl, _⟩ := h
    obtain ⟨_, _, _, _, rfl, _⟩ := h'
    exact Slot.put_put _ _ _ _
  | upgradeContract hash =>
    -- The first call consumes the approval.
    obtain ⟨n, _, _, rfl⟩ := Governance.Effect.upgrade_writes h
    obtain ⟨n', hread, _⟩ := Governance.Effect.upgrade_writes h'
    simp [(G.version_allowed hash).symm] at hread

namespace ProtocolConfig
variable {env : Env} {d d' d'' : Entries DataKey.Value} {v v' : Value} {events events' : List Event}

/-- All but a configuration change, which moves the counter. -/
theorem Effect.repeats {c : Call} (hc : c.configures = false) (h : Effect env d c v d' events)
    (h' : Effect env d' c v' d'' events') : d'' = d' := by
  cases c with
  | initializeContract admin =>
    obtain ⟨_, _, _, _, rfl, _⟩ := h
    obtain ⟨hnone, _⟩ := h'
    simp at hnone
  | setAdmin a => cases hc
  | pause | unpause => cases hc
  | approveSchemaVersion n | deprecateSchemaVersion n => cases hc
  | upgrade u => exact Governance.Effect.repeats h h'
  | _ => exact (Effect.query h' rfl).1

end ProtocolConfig

namespace IssuerRegistry
variable {env : Env} {d d' d'' : Entries DataKey.Value} {v v' : Value} {events events' : List Event}

/-- A change made again at the same time. -/
theorem Amends.repeats {id : BytesN 32} {allowed : IssuerRecord → Prop}
    {change : IssuerRecord → IssuerRecord} {event : Event}
    (hchange : ∀ r t, change {change r with updatedAt := t} = {change r with updatedAt := t})
    (h : Amends env d id allowed change event v d' events)
    (h' : Amends env d' id allowed change event v' d'' events') : d'' = d' := by
  obtain ⟨_, r, _, _, _, _, _, rfl, _⟩ := h
  obtain ⟨_, r', _, _, hr', _, _, rfl, _⟩ := h'
  rw [Entries.put_self] at hr'
  cases hr'
  rw [Entries.put_put, hchange]

theorem Effect.repeats {c : Call} (h : Effect env d c v d' events)
    (h' : Effect env d' c v' d'' events') : d'' = d' := by
  cases c with
  | initializeContract admin =>
    obtain ⟨_, _, _, _, rfl, _⟩ := h
    obtain ⟨hnone, _⟩ := h'
    simp at hnone
  | registerIssuer id a m =>
    obtain rfl := Effect.register_writes h
    obtain ⟨_, _, _, _, hnone, _⟩ := h'
    simp at hnone
  | updateIssuer id m => exact Amends.repeats (fun r t => rfl) h h'
  | suspendIssuer id => exact Amends.repeats (fun r t => rfl) h h'
  | reactivateIssuer id => exact Amends.repeats (fun r t => rfl) h h'
  | revokeIssuer id => exact Amends.repeats (fun r t => rfl) h h'
  | rotateIssuerAddress id a =>
    -- The address is the issuer's own by now.
    obtain ⟨r, _, _, rfl⟩ := Effect.rotate_writes h
    have hnone := Effect.rotate_free h'
    simp at hnone
  | upgrade u => exact Governance.Effect.repeats h h'
  | _ => exact (Effect.query h' rfl).1

end IssuerRegistry

namespace ProofRegistry
variable {W : Type} {clients clients' : Clients W} {env : Env} {d d' d'' : Entries DataKey.Value}
  {w w' w'' w''' : W} {v v' : Value} {events events' : List Event}

theorem Revokes.repeats {id : BytesN 32} {byAdmin : Bool} (h : Revokes env d id byAdmin v d' events)
    (h' : Revokes env d' id byAdmin v' d'' events') : d'' = d' := by
  obtain ⟨_, _, _, rfl⟩ := h.writes
  obtain ⟨r, hr, hst, _⟩ := h'.writes
  rw [Entries.put_self] at hr
  cases hr
  exact absurd rfl hst

theorem Effect.repeats {c : Call} (h : Effect clients env d w c v d' events w')
    (h' : Effect clients' env d' w'' c v' d'' events' w''') : d'' = d' := by
  cases c with
  | initializeContract a i p =>
    obtain rfl := Effect.initialize_writes h
    obtain ⟨_, hnone, _⟩ := h'
    simp at hnone
  | registerProof id c a n e =>
    obtain rfl := Effect.register_writes h
    have hnone := Effect.register_new h'
    simp at hnone
  | revokeProof id => exact Revokes.repeats h.2 h'.2
  | adminRevokeProof id => exact Revokes.repeats h.2 h'.2
  | getProof id =>
    obtain ⟨_, _, _, _, rfl, _⟩ := h'
    rfl
  | isValidProof id | isRevoked id =>
    obtain ⟨_, _, rfl, _⟩ := h'
    rfl
  | getAdmin | getIssuerRegistry | getProtocolConfig =>
    obtain ⟨_, _, _, _, rfl, _⟩ := h'
    rfl
  | upgrade u => exact Governance.Effect.repeats h.2 h'.2

end ProofRegistry

namespace System

variable (dep : Deployment)

/-- The calls that can be repeated at once: all but the configuration changes. -/
def Call.repeatable : Call → Bool
  | .config c => !c.configures
  | _ => true

theorem Effect.repeats {dep : Deployment} {env : Env} {x x' x'' : Values} {c : Call} {v v' : Value}
    (hc : c.repeatable = true) (h : Effect dep env x c v x') (h' : Effect dep env x' c v' x'') :
    x'' = x' := by
  cases c with
  | config c =>
    obtain ⟨_, hE, _⟩ := h
    obtain ⟨_, hE', hissuers, hproofs⟩ := h'
    have hconfigures : c.configures = false := by simpa [Call.repeatable] using hc
    exact Values.ext (ProtocolConfig.Effect.repeats hconfigures hE hE') hissuers hproofs
  | issuers c =>
    obtain ⟨_, hE, _⟩ := h
    obtain ⟨_, hE', hconfig, hproofs⟩ := h'
    exact Values.ext hconfig (IssuerRegistry.Effect.repeats hE hE') hproofs
  | proofs c =>
    obtain ⟨_, hE, _⟩ := h
    obtain ⟨_, hE', hconfig, hissuers⟩ := h'
    exact Values.ext hconfig hissuers (ProofRegistry.Effect.repeats hE hE')

/-- After a step its call leaves the values alone. -/
theorem step_repeats {i : Invocation Call} (hi : i.call.repeatable = true) {s t : System}
    (ht : t.values = ((machine dep).next i s).values) : ((machine dep).next i t).values = t.values := by
  rcases step_cases dep i t with ⟨v', _, hE'⟩ | ⟨_, _, hnext, _⟩
  · rcases step_cases dep i s with ⟨v, _, hE⟩ | ⟨_, _, hnext, hno⟩
    · rw [← ht] at hE
      exact hE.repeats hi hE'
    · rw [ht, hnext] at hE'
      exact absurd hE' (hno _ _)
  · rw [hnext]

/-- Each call once, under the tag `true`, and then as many more times as it is delivered. -/
def delivered (is : List (Invocation Call × Nat)) : List (Submission Bool) :=
  is.flatMap fun p => (true, p.1) :: List.replicate p.2 (false, p.1)

theorem delivered_cons (i : Invocation Call) (n : Nat) (is : List (Invocation Call × Nat)) :
    delivered ((i, n) :: is) = (true, i) :: (List.replicate n (false, i) ++ delivered is) := rfl

/-- Deliveries beyond the first change nothing, and nobody answered before sees them. -/
theorem run_repeats {i : Invocation Call} (hi : i.call.repeatable = true) {s t : System}
    (ht : t.values = ((machine dep).next i s).values) (n : Nat) :
    ((served dep Bool).run t (List.replicate n (false, i))).values = t.values ∧
      sessionView dep true t (List.replicate n (false, i)) = [] := by
  induction n generalizing t with
  | zero => exact ⟨rfl, rfl⟩
  | succ n ih =>
    have hstep : ((served dep Bool).next (false, i) t).values = t.values :=
      step_repeats dep hi ht
    obtain ⟨hrun, hview⟩ := ih (hstep.trans ht)
    refine ⟨hrun.trans hstep, ?_⟩
    rw [List.replicate_succ, sessionView, Machine.transcript_cons, List.filter_cons_of_neg (by simp)]
    exact hview

theorem sessionView_append (k : Bool) (s : System) (a b : List (Submission Bool)) :
    sessionView dep k s (a ++ b) =
      sessionView dep k s a ++ sessionView dep k ((served dep Bool).run s a) b := by
  simp only [sessionView, Machine.transcript_append, List.filter_append]

/-- Calls delivered again in the same ledger, with the same signers and before the next
call, any number of times: the values are those of one delivery each, and so are the
replies to the first deliveries. At a later time a repeated amendment would move
`updated_at`. -/
theorem redelivery_harmless {s t : System} (hst : t.values = s.values)
    (is : List (Invocation Call × Nat))
    (h : ∀ p ∈ is, p.2 ≠ 0 → p.1.call.repeatable = true) :
    ((served dep Bool).run t (delivered is)).values =
        ((machine dep).run s (is.map Prod.fst)).values ∧
      (sessionView dep true t (delivered is)).map (fun e => (e.1.2, e.2)) =
        (machine dep).transcript s (is.map Prod.fst) := by
  induction is generalizing s t with
  | nil => exact ⟨hst, rfl⟩
  | cons p is ih =>
    obtain ⟨i, n⟩ := p
    have hsame : SameRequest i i := ⟨rfl, rfl, rfl, rfl⟩
    obtain ⟨hreply, hnext⟩ := hsame.step dep hst
    let u := (machine dep).next i t
    have hrepeats : ((served dep Bool).run u (List.replicate n (false, i))).values = u.values ∧
        sessionView dep true u (List.replicate n (false, i)) = [] := by
      cases n with
      | zero => exact ⟨rfl, rfl⟩
      | succ n =>
        exact run_repeats dep (h _ (List.mem_cons_self ..) (Nat.succ_ne_zero n)) rfl _
    obtain ⟨hrun, hview⟩ := ih (hrepeats.1.trans hnext) fun q hq => h q (List.mem_cons_of_mem _ hq)
    rw [delivered_cons, List.map_cons, Machine.transcript_cons]
    constructor
    · show ((served dep Bool).run u (List.replicate n (false, i) ++ delivered is)).values = _
      rw [Machine.run_append]
      exact hrun
    · have hfirst : sessionView dep true t ((true, i) :: (List.replicate n (false, i) ++ delivered is)) =
          ((true, i), (machine dep).reply i t) ::
            sessionView dep true u (List.replicate n (false, i) ++ delivered is) := by
        rw [sessionView, Machine.transcript_cons, List.filter_cons_of_pos (by simp)]
        rfl
      rw [hfirst, sessionView_append, hrepeats.2, List.nil_append, List.map_cons, hview, hreply]

namespace Example

/-- The setup and the first registration, the registration delivered three times. -/
def redelivered : List (Invocation Call × Nat) :=
  setup.map (fun i => (i, 0)) ++ [(registration, 2)]

end Example

/-- Delivered three times, the registration is there as if delivered once. -/
theorem redelivery_harmless_registration :
    ((served Example.deployment Bool).run empty (delivered Example.redelivered)).values =
        ((machine Example.deployment).run empty (Example.redelivered.map Prod.fst)).values ∧
      (sessionView Example.deployment true empty (delivered Example.redelivered)).map
          (fun e => (e.1.2, e.2)) =
        (machine Example.deployment).transcript empty (Example.redelivered.map Prod.fst) :=
  redelivery_harmless Example.deployment rfl Example.redelivered (by decide +kernel)

end System
end EarnProof

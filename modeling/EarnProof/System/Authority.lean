import EarnProof.IssuerRegistry.Replay
import EarnProof.ProtocolConfig.Replay
import EarnProof.System.Gate
import EarnProof.System.Validity

/-! Who can change what.

Every call that changes a stored value carries the signature of one principal, read off
the state it starts from: an admin, the issuer a proof names, or the admin-to-be of an
initialization. Without an admin's signature only issuers act, and only on the records
of the proof registry. -/
namespace EarnProof
open Soroban

namespace ProtocolConfig

/-- Whose signature a call needs to change something. -/
def principal (d : Entries DataKey.Value) : Call → Option Address
  | .initializeContract admin => some admin
  | c => if c.mutates then d .inst .admin else none

theorem principal_cases {d : Entries DataKey.Value} {c : Call} {p : Address}
    (hp : principal d c = some p) : c = .initializeContract p ∨ d .inst .admin = some p := by
  cases c with
  | initializeContract a =>
    cases hp
    exact .inl rfl
  | upgrade u =>
    have hp' : (if u.mutates = true then d .inst .admin else none) = some p := hp
    split at hp'
    · exact .inr hp'
    · cases hp'
  | _ =>
    right
    by_contra hno
    simp [principal, Call.mutates, hno] at hp

variable {env : Env} {d d' : Entries DataKey.Value} {c : Call} {v : Value} {events : List Event}

theorem Configures.signed {cl : StorageClass} {k : DataKey} {x : k.Value} {event : Event}
    (h : Configures env d cl k x event v d' events) :
    ∃ p, d .inst .admin = some p ∧ env.signed p = true := by
  obtain ⟨admin, _, ha, hs, _⟩ := h
  exact ⟨admin, ha, hs⟩

theorem Effect.signed (h : Effect env d c v d' events) (hne : d' ≠ d) :
    ∃ p, principal d c = some p ∧ env.signed p = true := by
  have hmut : c.mutates = true := by
    cases hc : c.mutates with
    | true => rfl
    | false => exact absurd (h.query hc).1 hne
  cases c with
  | initializeContract admin => exact ⟨admin, rfl, h.2.2.1⟩
  | setAdmin a => exact Configures.signed h.2
  | pause => exact Configures.signed h
  | unpause => exact Configures.signed h
  | approveSchemaVersion n => exact Configures.signed h.2
  | deprecateSchemaVersion n => exact Configures.signed h.2
  | upgrade u =>
    obtain ⟨p, hp, hs⟩ := Governance.Effect.signed h hmut
    exact ⟨p, (if_pos hmut).trans hp, hs⟩
  | _ => cases hmut

/-- Once initialized, only the admin's signature changes anything. -/
theorem Effect.needsAdmin (h : Effect env d c v d' events) {a : Address}
    (ha : d .inst .admin = some a) (hs : env.signed a = false) : d' = d := by
  by_contra hne
  obtain ⟨p, hp, hsigned⟩ := h.signed hne
  rcases principal_cases hp with rfl | hadmin
  · rw [h.1] at ha
    cases ha
  · rw [ha] at hadmin
    cases hadmin
    rw [hs] at hsigned
    cases hsigned

end ProtocolConfig

namespace IssuerRegistry

/-- Whose signature a call needs to change something. -/
def principal (d : Entries DataKey.Value) : Call → Option Address
  | .initializeContract admin => some admin
  | c => if c.mutates then d .inst .admin else none

theorem principal_cases {d : Entries DataKey.Value} {c : Call} {p : Address}
    (hp : principal d c = some p) : c = .initializeContract p ∨ d .inst .admin = some p := by
  cases c with
  | initializeContract a =>
    cases hp
    exact .inl rfl
  | upgrade u =>
    have hp' : (if u.mutates = true then d .inst .admin else none) = some p := hp
    split at hp'
    · exact .inr hp'
    · cases hp'
  | _ =>
    right
    by_contra hno
    simp [principal, Call.mutates, hno] at hp

variable {env : Env} {d d' : Entries DataKey.Value} {c : Call} {v : Value} {events : List Event}

theorem Amends.signed {id : BytesN 32} {allowed : IssuerRecord → Prop}
    {change : IssuerRecord → IssuerRecord} {event : Event}
    (h : Amends env d id allowed change event v d' events) :
    ∃ p, d .inst .admin = some p ∧ env.signed p = true := by
  obtain ⟨admin, _, ha, hs, _⟩ := h
  exact ⟨admin, ha, hs⟩

theorem Effect.signed (h : Effect env d c v d' events) (hne : d' ≠ d) :
    ∃ p, principal d c = some p ∧ env.signed p = true := by
  have hmut : c.mutates = true := by
    cases hc : c.mutates with
    | true => rfl
    | false => exact absurd (h.query hc).1 hne
  cases c with
  | initializeContract admin => exact ⟨admin, rfl, h.2.2.1⟩
  | registerIssuer id a m =>
    obtain ⟨admin, ha, _, hs, _⟩ := h
    exact ⟨admin, ha, hs⟩
  | updateIssuer id m => exact Amends.signed h
  | suspendIssuer id => exact Amends.signed h
  | reactivateIssuer id => exact Amends.signed h
  | revokeIssuer id => exact Amends.signed h
  | rotateIssuerAddress id a =>
    obtain ⟨admin, _, ha, _, hs, _⟩ := h
    exact ⟨admin, ha, hs⟩
  | upgrade u =>
    obtain ⟨p, hp, hs⟩ := Governance.Effect.signed h hmut
    exact ⟨p, (if_pos hmut).trans hp, hs⟩
  | _ => cases hmut

/-- Once initialized, only the admin's signature changes anything. -/
theorem Effect.needsAdmin (h : Effect env d c v d' events) {a : Address}
    (ha : d .inst .admin = some a) (hs : env.signed a = false) : d' = d := by
  by_contra hne
  obtain ⟨p, hp, hsigned⟩ := h.signed hne
  rcases principal_cases hp with rfl | hadmin
  · rw [h.1] at ha
    cases ha
  · rw [ha] at hadmin
    cases hadmin
    rw [hs] at hsigned
    cases hsigned

end IssuerRegistry

namespace ProofRegistry

/-- Whose signature a call needs to change something. -/
def principal (d : Entries DataKey.Value) : Call → Option Address
  | .initializeContract admin _ _ => some admin
  | .registerProof _ _ issuerAddress _ _ => some issuerAddress
  | .revokeProof id => (proofs d id).map (·.issuerAddress)
  | .adminRevokeProof _ => d .inst .admin
  | .upgrade u => if u.mutates then d .inst .admin else none
  | _ => none

variable {W : Type} {clients : Clients W} {env : Env} {d d' : Entries DataKey.Value} {w w' : W}
  {c : Call} {v : Value} {events : List Event}

theorem Effect.signed (h : Effect clients env d w c v d' events w') (hne : d' ≠ d) :
    ∃ p, principal d c = some p ∧ env.signed p = true := by
  cases c with
  | initializeContract a i p => exact ⟨a, rfl, h.initialize_signed⟩
  | registerProof id c a n e => exact ⟨a, rfl, h.register_signed⟩
  | revokeProof id =>
    obtain ⟨_, r, p, hr, hp, hs, _⟩ := h
    cases hp
    have hrec : proofs d id = some r := hr
    exact ⟨r.issuerAddress, by rw [principal, hrec]; rfl, hs⟩
  | adminRevokeProof id =>
    obtain ⟨_, r, p, _, hp, hs, _⟩ := h
    exact ⟨p, hp, hs⟩
  | upgrade u =>
    cases hu : u.mutates with
    | false => exact absurd (Governance.Effect.query h.2 hu).1 hne
    | true =>
      obtain ⟨p, hp, hs⟩ := Governance.Effect.signed h.2 hu
      exact ⟨p, (if_pos hu).trans hp, hs⟩
  | getProof id =>
    obtain ⟨_, _, _, _, hd, _⟩ := h
    exact absurd hd hne
  | isValidProof id =>
    obtain ⟨_, _, hd, _⟩ := h
    exact absurd hd hne
  | isRevoked id =>
    obtain ⟨_, _, hd, _⟩ := h
    exact absurd hd hne
  | getAdmin =>
    obtain ⟨_, _, _, _, hd, _⟩ := h
    exact absurd hd hne
  | getIssuerRegistry =>
    obtain ⟨_, _, _, _, hd, _⟩ := h
    exact absurd hd hne
  | getProtocolConfig =>
    obtain ⟨_, _, _, _, hd, _⟩ := h
    exact absurd hd hne

end ProofRegistry

namespace System
variable {dep : Deployment} {env : Env} {x x' : Values} {c : Call} {v : Value}

/-- Whose signature a call needs to change something, read off the values before it. -/
def requiredPrincipal (x : Values) : Call → Option Address
  | .config c => ProtocolConfig.principal x.config c
  | .issuers c => IssuerRegistry.principal x.issuers c
  | .proofs c => ProofRegistry.principal x.proofs c

theorem Effect.signed (h : Effect dep env x c v x') (hne : x' ≠ x) :
    ∃ p, requiredPrincipal x c = some p ∧ env.signed p = true := by
  cases c with
  | config c =>
    obtain ⟨_, hE, hissuers, hproofs⟩ := h
    exact hE.signed fun hd => hne (Values.ext hd hissuers hproofs)
  | issuers c =>
    obtain ⟨_, hE, hconfig, hproofs⟩ := h
    exact hE.signed fun hd => hne (Values.ext hconfig hd hproofs)
  | proofs c =>
    obtain ⟨_, hE, hconfig, hissuers⟩ := h
    exact hE.signed fun hd => hne (Values.ext hconfig hissuers hd)

/-! ### Runs without an admin -/

/-- All three contracts have an admin. -/
structure Initialized (x : Values) : Prop where
  config : x.config .inst .admin ≠ none
  issuers : x.issuers .inst .admin ≠ none
  proofs : x.proofs .inst .admin ≠ none

/-- `a` is an admin of one of the contracts. -/
def IsAdmin (x : Values) (a : Address) : Prop :=
  x.config .inst .admin = some a ∨ x.issuers .inst .admin = some a ∨ x.proofs .inst .admin = some a

theorem unsigned_of_soleAdmin {admin : Address} (hconfig : x.config .inst .admin = some admin)
    (hissuers : x.issuers .inst .admin = some admin)
    (hproofs : x.proofs .inst .admin = some admin) (hs : env.signed admin = false) (a : Address)
    (ha : IsAdmin x a) : env.signed a = false := by
  rcases ha with ha | ha | ha
  · rw [hconfig] at ha
    cases ha
    exact hs
  · rw [hissuers] at ha
    cases ha
    exact hs
  · rw [hproofs] at ha
    cases ha
    exact hs

/-- What a step without an admin can do to the proof records: an active issuer adds one,
or the issuer a record names revokes it. -/
inductive IssuerActs (env : Env) (x : Values) : Call → Values → Prop where
  | nothing {c : Call} : IssuerActs env x c x
  | adds {id c : BytesN 32} {a : Address} {n : UInt32} {e : UInt64}
      (habsent : x.proofs .persistent (.proof id) = none) (hsigned : env.signed a = true)
      (hactive : ∃ issuer r, x.issuers .persistent (.issuer issuer) = some r ∧
        r.issuerAddress = a ∧ r.status = .active) :
      IssuerActs env x (.proofs (.registerProof id c a n e)) (registered env x id c a n e)
  | revokes {id : BytesN 32} {r : ProofRecord} (hr : x.proofs .persistent (.proof id) = some r)
      (hactive : r.status = .active) (hsigned : env.signed r.issuerAddress = true) :
      IssuerActs env x (.proofs (.revokeProof id))
        { x with
          proofs := x.proofs.put .persistent (.proof id)
            (some {r with status := .revoked, revokedAt := env.timestamp}) }

theorem IssuerActs.same (h : IssuerActs env x c x') :
    x'.config = x.config ∧ x'.issuers = x.issuers ∧
      x'.proofs .inst .admin = x.proofs .inst .admin := by
  cases h with
  | nothing => exact ⟨rfl, rfl, rfl⟩
  | adds => exact ⟨rfl, rfl, by simp [registered]⟩
  | revokes => exact ⟨rfl, rfl, by simp⟩

theorem Effect.issuerActs {D : IssuerRegistry.IssuerDirectory}
    (hD : IssuerRegistry.Keeps x.issuers D) (hwiring : ProofRegistry.Wiring x.proofs)
    (hinit : Initialized x) (hno : ∀ a, IsAdmin x a → env.signed a = false)
    (h : Effect dep env x c v x') : IssuerActs env x c x' := by
  cases c with
  | config c =>
    obtain ⟨_, hE, hissuers, hproofs⟩ := h
    obtain ⟨a, ha⟩ := Option.ne_none_iff_exists'.mp hinit.config
    have hd : x'.config = x.config := hE.needsAdmin ha (hno a (.inl ha))
    rw [Values.ext hd hissuers hproofs]
    exact .nothing
  | issuers c =>
    obtain ⟨_, hE, hconfig, hproofs⟩ := h
    obtain ⟨a, ha⟩ := Option.ne_none_iff_exists'.mp hinit.issuers
    have hd : x'.issuers = x.issuers := hE.needsAdmin ha (hno a (.inr (.inl ha)))
    rw [Values.ext hconfig hd hproofs]
    exact .nothing
  | proofs c =>
    by_cases hd : x'.proofs = x.proofs
    · obtain ⟨_, _, hconfig, hissuers⟩ := h
      rw [Values.ext hconfig hissuers hd]
      exact .nothing
    · obtain ⟨a, ha⟩ := Option.ne_none_iff_exists'.mp hinit.proofs
      have hunsigned : env.signed a = false := hno a (.inr (.inr ha))
      obtain ⟨_, hE, hconfig, hissuers⟩ := id h
      obtain ⟨p, hp, hs⟩ := hE.signed hd
      cases c with
      | initializeContract a i p =>
        obtain ⟨_, hnone, _⟩ := hE
        exact absurd hnone hinit.proofs
      | registerProof id c a n e =>
        obtain ⟨hadmits, rfl⟩ := Effect.admits dep hD hwiring h
        exact .adds hadmits.absent hadmits.signed hadmits.activeIssuer
      | revokeProof id =>
        obtain ⟨_, r, p, hr, hp, hs, hst, _, hd', _⟩ := hE
        cases hp
        have hactive : r.status = .active := by
          cases hstatus : r.status with
          | active => rfl
          | revoked => exact absurd hstatus hst
        have hx' : x' = { x with
            proofs := x.proofs.put .persistent (.proof id)
              (some {r with status := .revoked, revokedAt := env.timestamp}) } :=
          Values.ext hconfig hissuers hd'
        rw [hx']
        exact .revokes hr hactive hs
      | adminRevokeProof id =>
        have hadmin : x.proofs .inst .admin = some p := hp
        rw [ha] at hadmin
        cases hadmin
        exact absurd hs (by simp [hunsigned])
      | upgrade u =>
        have hadmin : (if u.mutates = true then x.proofs .inst .admin else none) = some p := hp
        split at hadmin
        · rw [ha] at hadmin
          cases hadmin
          exact absurd hs (by simp [hunsigned])
        · cases hadmin
      | _ => cases hp

theorem IssuerActs.initialized (h : IssuerActs env x c x') (hinit : Initialized x) :
    Initialized x' := by
  obtain ⟨hconfig, hissuers, hproofs⟩ := h.same
  refine ⟨?_, ?_, ?_⟩
  · rw [hconfig]
    exact hinit.config
  · rw [hissuers]
    exact hinit.issuers
  · rw [hproofs]
    exact hinit.proofs

/-- No step of a list is signed by an address that is an admin at that step. -/
def WithoutAdmin (steps : List SystemStep) : Prop :=
  ∀ t ∈ steps, ∀ a, IsAdmin t.pre.values a → t.input.env.signed a = false

theorem withoutAdmin_single {s : System} {i : Invocation Call}
    (h : ∀ a, IsAdmin s.values a → i.env.signed a = false) :
    WithoutAdmin ((machine dep).history s [i]) := by
  intro t ht
  obtain rfl : t = (machine dep).stepAt i s := List.mem_singleton.mp ht
  exact h

/-- From an initialized state and without an admin, the configuration and the issuers stay
as they are, and every step is an issuer's act. -/
theorem run_issuerActs (dep : Deployment) {is : List (Invocation Call)}
    (hinit : Initialized ((machine dep).run empty is).values) (js : List (Invocation Call))
    (hno : WithoutAdmin ((machine dep).history ((machine dep).run empty is) js)) :
    let start := ((machine dep).run empty is).values
    let final := ((machine dep).run ((machine dep).run empty is) js).values
    Initialized final ∧ final.config = start.config ∧ final.issuers = start.issuers ∧
      ∀ t ∈ (machine dep).history ((machine dep).run empty is) js,
        t.pre.values.config = start.config ∧ t.pre.values.issuers = start.issuers ∧
          IssuerActs t.input.env t.pre.values t.input.call t.post.values := by
  intro start final
  induction js using List.reverseRecOn with
  | nil => exact ⟨hinit, rfl, rfl, by simp [Machine.history]⟩
  | append_singleton js i ih =>
    rw [Machine.history_snoc] at hno
    have hno' : WithoutAdmin ((machine dep).history ((machine dep).run empty is) js) :=
      fun t ht => hno t (List.mem_append_left _ ht)
    obtain ⟨hi, hconfig, hissuers, hsteps⟩ := ih hno'
    have hlast : IssuerActs i.env ((machine dep).run ((machine dep).run empty is) js).values i.call
        ((machine dep).next i ((machine dep).run ((machine dep).run empty is) js)).values := by
      rcases step_cases dep i ((machine dep).run ((machine dep).run empty is) js) with
        ⟨v, _, hE⟩ | ⟨_, _, hs, _⟩
      · obtain ⟨D, hD⟩ := run_keeps dep (is ++ js)
        have hwiring := run_wiring dep (is ++ js)
        rw [Machine.run_append] at hD hwiring
        exact hE.issuerActs hD hwiring hi
          (hno ((machine dep).stepAt i _) (List.mem_append_right _ (List.mem_singleton.mpr rfl)))
      · rw [hs]
        exact .nothing
    obtain ⟨hc, hs, _⟩ := hlast.same
    have hrun : final = ((machine dep).next i
        ((machine dep).run ((machine dep).run empty is) js)).values :=
      congrArg values ((machine dep).run_snoc _ _ _)
    rw [hrun, Machine.history_snoc]
    refine ⟨hlast.initialized hi, hc.trans hconfig, hs.trans hissuers, fun t ht => ?_⟩
    rcases List.mem_append.mp ht with ht | ht
    · exact hsteps t ht
    · rw [List.mem_singleton.mp ht]
      exact ⟨hconfig, hissuers, hlast⟩

/-- A step that changes a stored value carries the signature of its principal; and in a run
from an initialized state whose steps no admin signs, the configuration and the issuers
stay, and the proof registry changes by issuers' acts alone. -/
theorem authorization_frame (dep : Deployment) (is : List (Invocation Call)) :
    let m := machine dep
    let start := m.run empty is
    (∀ i, (m.next i start).values ≠ start.values →
      ∃ p, requiredPrincipal start.values i.call = some p ∧ i.env.signed p = true) ∧
    ∀ js, Initialized start.values → WithoutAdmin (m.history start js) →
      (m.run start js).values.config = start.values.config ∧
      (m.run start js).values.issuers = start.values.issuers ∧
      ∀ t ∈ m.history start js, t.pre.values.config = start.values.config ∧
        t.pre.values.issuers = start.values.issuers ∧
        IssuerActs t.input.env t.pre.values t.input.call t.post.values := by
  intro m start
  refine ⟨fun i hne => ?_, fun js hinit hno => ?_⟩
  · rcases step_cases dep i start with ⟨v, _, hE⟩ | ⟨_, _, hs, _⟩
    · exact hE.signed hne
    · exact absurd (congrArg values hs) hne
  · exact (run_issuerActs dep hinit js hno).2

/-- No admin signs the registration of a proof after the setup. -/
theorem authorization_frame_example :
    let m := machine Example.deployment
    let start := m.run empty Example.setup
    let final := m.run start [Example.registration]
    final.values.config = start.values.config ∧ final.values.issuers = start.values.issuers := by
  intro m start final
  have hconfig : start.values.config .inst .admin = some Example.admin := by decide +kernel
  have hissuers : start.values.issuers .inst .admin = some Example.admin := by decide +kernel
  have hproofs : start.values.proofs .inst .admin = some Example.admin := by decide +kernel
  have hinit : Initialized start.values := ⟨by simp [hconfig], by simp [hissuers], by simp [hproofs]⟩
  have hno : WithoutAdmin (m.history start [Example.registration]) :=
    withoutAdmin_single (unsigned_of_soleAdmin hconfig hissuers hproofs (by decide))
  obtain ⟨hc, hi, _⟩ := (authorization_frame Example.deployment Example.setup).2 _ hinit hno
  exact ⟨hc, hi⟩

end System
end EarnProof

import EarnProof.System.Spec

/-! Concurrent sessions.

The ledger applies one invocation at a time, in an order no caller controls. When the
calls of different sessions stay apart (none writes what another looks at or writes)
that order does not matter: every interleaving of the sessions leaves the same values
and gives every session the same replies. Proofs with different ids are apart, and
protocol-config is apart from the issuer registry. -/
namespace EarnProof.System
open Soroban

/-- Neither call writes what the other looks at, nor what it writes. -/
structure Apart (c c' : Call) : Prop where
  unseen : ∀ cell ∈ c.touched, cell ∉ c'.seen
  unseen' : ∀ cell ∈ c'.touched, cell ∉ c.seen
  untouched : ∀ cell ∈ c.touched, cell ∉ c'.touched

theorem Apart.symm {c c' : Call} (h : Apart c c') : Apart c' c :=
  ⟨h.unseen', h.unseen, fun cell hcell hcell' => h.untouched cell hcell' hcell⟩

/-- Protocol-config and the issuer registry share nothing. -/
theorem apart_config_issuers (c : ProtocolConfig.Call) (c' : IssuerRegistry.Call) :
    Apart (.config c) (.issuers c') := by
  refine ⟨?_, ?_, ?_⟩
  · rintro cell ⟨p, _, rfl⟩ ⟨q, _, hq⟩
    cases hq
  · rintro cell ⟨p, _, rfl⟩ ⟨q, _, hq⟩
    cases hq
  · rintro cell ⟨p, _, rfl⟩ ⟨q, _, hq⟩
    cases hq

theorem asked_not_proofs {c : ProofRegistry.Call} {cl : StorageClass} {k : ProofRegistry.DataKey} :
    Cell.proofs cl k ∉ asked c := by
  intro h
  cases c with
  | registerProof id cm a n e => rcases h with (⟨q, _, hq⟩ | ⟨q, _, hq⟩) | ⟨q, _, hq⟩ <;> cases hq
  | _ => exact h

/-- Neither depends on the proof registry, and only a registration depends on them. -/
theorem apart_config_proofs (c : ProtocolConfig.Call) {c' : ProofRegistry.Call} (h : asked c' = ∅) :
    Apart (.config c) (.proofs c') := by
  refine ⟨?_, ?_, ?_⟩
  · rintro cell ⟨p, _, rfl⟩ (⟨q, _, hq⟩ | hasked)
    · cases hq
    · rw [h] at hasked
      exact hasked
  · rintro cell ⟨p, _, rfl⟩ ⟨q, _, hq⟩
    cases hq
  · rintro cell ⟨p, _, rfl⟩ ⟨q, _, hq⟩
    cases hq

theorem apart_issuers_proofs (c : IssuerRegistry.Call) {c' : ProofRegistry.Call} (h : asked c' = ∅) :
    Apart (.issuers c) (.proofs c') := by
  refine ⟨?_, ?_, ?_⟩
  · rintro cell ⟨p, _, rfl⟩ (⟨q, _, hq⟩ | hasked)
    · cases hq
    · rw [h] at hasked
      exact hasked
  · rintro cell ⟨p, _, rfl⟩ ⟨q, _, hq⟩
    cases hq
  · rintro cell ⟨p, _, rfl⟩ ⟨q, _, hq⟩
    cases hq

/-- What a change to a proof writes is its record. -/
theorem touched_target {c : ProofRegistry.Call} {id : BytesN 32} (h : c.target = some id) :
    c.touched = {(.persistent, .proof id)} := by
  cases c <;> cases h <;> rfl

/-- A change to a proof looks at the record of no other. -/
theorem seen_target {c : ProofRegistry.Call} {id id' : BytesN 32} (h : c.target = some id)
    (hne : id' ≠ id) : (.persistent, .proof id') ∉ c.seen := by
  intro hseen
  cases c with
  | registerProof id cm a n e =>
    cases h
    rcases hseen with hq | hq | hq
    · cases hq
    · cases hq
    · cases hq
      exact hne rfl
  | revokeProof id =>
    cases h
    cases hseen
    exact hne rfl
  | adminRevokeProof id =>
    cases h
    rcases hseen with hq | hq
    · cases hq
    · cases hq
      exact hne rfl
  | _ => cases h

/-- Changes to different proofs are apart. -/
theorem apart_proofs {c c' : ProofRegistry.Call} {id id' : BytesN 32} (h : c.target = some id)
    (h' : c'.target = some id') (hne : id ≠ id') : Apart (.proofs c) (.proofs c') := by
  have hunseen : ∀ {a b : ProofRegistry.Call} {x y : BytesN 32}, a.target = some x →
      b.target = some y → x ≠ y → ∀ cell ∈ (Call.proofs a).touched, cell ∉ (Call.proofs b).seen := by
    rintro a b x y ha hb hxy cell ⟨p, hp, rfl⟩ hseen
    rw [touched_target ha] at hp
    cases hp
    rcases hseen with ⟨⟨cl, k⟩, hq, heq⟩ | hasked
    · cases heq
      exact seen_target hb hxy hq
    · exact asked_not_proofs hasked
  refine ⟨hunseen h h' hne, hunseen h' h hne.symm, ?_⟩
  rintro cell ⟨p, hp, rfl⟩ ⟨q, hq, heq⟩
  rw [touched_target h] at hp
  rw [touched_target h'] at hq
  cases hp
  cases hq
  cases heq
  exact hne rfl

variable (dep : Deployment) {τ : Type} [DecidableEq τ]

/-- A call of a session. -/
abbrev Submission (τ : Type) := τ × Invocation Call

/-- The deployment fed with the calls of several sessions. -/
def served (τ : Type) : Machine (Submission τ) (Receipt Event Value) System :=
  (machine dep).via Prod.snd

/-- What session `k` sees of a run. -/
def sessionView (k : τ) (s : System) (is : List (Submission τ)) :
    List (Submission τ × Receipt Event Value) :=
  ((served dep τ).transcript s is).filter fun e => e.1.1 = k

/-- Two interleavings of the same sessions, whose calls are apart from each other's: the same
values are left, and every session sees the same. -/
theorem sessions_serializable {as bs : List (Submission τ)}
    (hapart : ∀ i ∈ as, ∀ j ∈ as, i.1 ≠ j.1 → Apart i.2.call j.2.call)
    (hsame : ∀ k, as.filter (fun i => i.1 = k) = bs.filter fun i => i.1 = k) (s : System) :
    ((served dep τ).run s as).values = ((served dep τ).run s bs).values ∧
      ∀ k, sessionView dep k s as = sessionView dep k s bs := by
  -- The sessions on the ledger, where calls that are apart commute.
  let ledger := (ideal dep).via (Prod.snd : Submission τ → Invocation Call)
  have hrefines : ∀ is : List (Submission τ), (served dep τ).transcript s is =
        ledger.transcript (look s) is ∧ look ((served dep τ).run s is) = ledger.run (look s) is := by
    intro is
    refine Machine.transcript_eq (fun s y => look s = y) (fun i s y h => ?_) rfl is
    subst h
    exact step_refines dep i.2 s
  have hcommutes : ∀ i ∈ as, ∀ j ∈ as, i.1 ≠ j.1 → ledger.Commutes i j := by
    intro i hi j hj hne
    obtain ⟨hunseen, hunseen', huntouched⟩ := hapart i hi j hj hne
    have hledger : (ideal dep).Commutes i.2 j.2 :=
      (confined dep i.2).commutes (confined dep j.2) hunseen hunseen' huntouched
    exact ⟨hledger.state, hledger.second, hledger.first⟩
  obtain ⟨hrun, hviews⟩ := Machine.sessions_agree (m := ledger) Prod.fst hcommutes hsame (look s)
  constructor
  · rw [← ofCells_look, ← ofCells_look, (hrefines as).2, (hrefines bs).2, hrun]
  · intro k
    unfold sessionView
    rw [(hrefines as).1, (hrefines bs).1]
    exact hviews k

namespace Example

/-- Four desks at work: session zero pauses the protocol and lets it go on, session one
suspends the issuer and reactivates it, sessions two and three each revoke a proof. -/
def alternating : List (Submission Nat) :=
  [(0, ⟨.config .pause, signedBy 2 [admin]⟩),
    (1, ⟨.issuers (.suspendIssuer (.fill 32 21)), signedBy 2 [admin]⟩),
    (2, ⟨.proofs (.adminRevokeProof proof), signedBy 2 [admin]⟩),
    (0, ⟨.config .unpause, signedBy 3 [admin]⟩),
    (3, ⟨.proofs (.revokeProof (.fill 32 42)), signedBy 3 [issuer]⟩),
    (1, ⟨.issuers (.reactivateIssuer (.fill 32 21)), signedBy 3 [admin]⟩)]

/-- The same sessions one after the other. -/
def sequential : List (Submission Nat) :=
  [3, 2, 1, 0].flatMap fun k => alternating.filter fun i => i.1 = k

/-- The call of a session. -/
inductive AtDesk : Nat → Call → Prop where
  | config (c : ProtocolConfig.Call) : AtDesk 0 (.config c)
  | issuers (c : IssuerRegistry.Call) : AtDesk 1 (.issuers c)
  | admin : AtDesk 2 (.proofs (.adminRevokeProof proof))
  | issuer : AtDesk 3 (.proofs (.revokeProof (.fill 32 42)))

theorem AtDesk.apart {k k' : Nat} {c c' : Call} (h : AtDesk k c) (h' : AtDesk k' c') (hlt : k < k') :
    Apart c c' := by
  cases h with
  | config c =>
    cases h' with
    | config c' => exact absurd hlt (by omega)
    | issuers c' => exact apart_config_issuers c c'
    | admin => exact apart_config_proofs c rfl
    | issuer => exact apart_config_proofs c rfl
  | issuers c =>
    cases h' with
    | config c' => exact absurd hlt (by omega)
    | issuers c' => exact absurd hlt (by omega)
    | admin => exact apart_issuers_proofs c rfl
    | issuer => exact apart_issuers_proofs c rfl
  | admin =>
    cases h' with
    | issuer => exact apart_proofs rfl rfl (by decide)
    | _ => exact absurd hlt (by omega)
  | issuer => cases h' <;> exact absurd hlt (by omega)

theorem alternating_atDesk : ∀ i ∈ alternating, AtDesk i.1 i.2.call := by
  intro i hi
  simp only [alternating, List.mem_cons, List.not_mem_nil, or_false] at hi
  rcases hi with rfl | rfl | rfl | rfl | rfl | rfl
  · exact .config _
  · exact .issuers _
  · exact .admin
  · exact .config _
  · exact .issuer
  · exact .issuers _

end Example

theorem sessions_serializable_alternating :
    let s := (machine Example.deployment).run empty Example.setup
    ((served Example.deployment Nat).run s Example.alternating).values =
      ((served Example.deployment Nat).run s Example.sequential).values := by
  intro s
  refine (sessions_serializable Example.deployment (fun i hi j hj hne => ?_) (fun k => ?_) s).1
  · have hi := Example.alternating_atDesk i hi
    have hj := Example.alternating_atDesk j hj
    rcases Nat.lt_or_gt_of_ne hne with hlt | hlt
    · exact hi.apart hj hlt
    · exact (hj.apart hi hlt).symm
  · rcases k with _ | _ | _ | _ | k <;> simp [Example.alternating, Example.sequential]

end EarnProof.System

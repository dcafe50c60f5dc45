import EarnProof.IssuerRegistry.Replay
import EarnProof.Initialization.Contracts
import EarnProof.ProtocolConfig.Replay
import EarnProof.System.Spec

/-! What a run does not depend on.

The ledger sequence and the lifetimes: an entry that was archived and comes back answers
as if it had never been away. The queries made on the way. Upgrade governance, for all
that is not governance. And, for one set of proofs, the calls on every other proof. -/
namespace EarnProof
open Soroban

namespace System
variable (dep : Deployment)

/-! ### Archival -/

/-- The same call, signers, time and deployer; the ledger sequence and the network's minimum
lifetime may differ. -/
structure SameRequest (i j : Invocation Call) : Prop where
  call : j.call = i.call
  timestamp : j.env.timestamp = i.env.timestamp
  signed : j.env.signed = i.env.signed
  installable : j.env.installable = i.env.installable

/-- No decision depends on the ledger sequence. -/
theorem SameRequest.operation {i j : Invocation Call} (h : SameRequest i j) :
    operation dep j = operation dep i := by
  obtain ⟨c, ⟨_, t, _, signed, installable, _⟩⟩ := i
  obtain ⟨c', ⟨_, t', _, signed', installable', _⟩⟩ := j
  obtain ⟨rfl, rfl, rfl, rfl⟩ := h
  funext y
  cases c' with
  | config c =>
    cases c with
    | upgrade u => cases u <;> rfl
    | _ => rfl
  | issuers c =>
    cases c with
    | upgrade u => cases u <;> rfl
    | _ => rfl
  | proofs c =>
    cases c with
    | upgrade u => cases u <;> rfl
    | _ => rfl

theorem SameRequest.step {i j : Invocation Call} (hij : SameRequest i j) {s t : System}
    (h : s.values = t.values) :
    (machine dep).reply i s = (machine dep).reply j t ∧
      ((machine dep).next i s).values = ((machine dep).next j t).values := by
  obtain ⟨hreply, hnext⟩ := step_refines dep i s
  obtain ⟨hreply', hnext'⟩ := step_refines dep j t
  have hlook : look t = look s := by rw [look_eq_cells, look_eq_cells, h]
  have hop := hij.operation dep
  constructor
  · rw [hreply, hreply', hlook, ideal, Updates.machine_reply, Updates.machine_reply, hop]
  · rw [← ofCells_look, ← ofCells_look, hnext, hnext', hlook, ideal, Updates.machine_next,
      Updates.machine_next, hop]

theorem same_values {s t : System} (h : s.values = t.values) {is js : List (Invocation Call)}
    (hsame : List.Forall₂ SameRequest is js) :
    ((machine dep).run s is).values = ((machine dep).run t js).values := by
  induction hsame generalizing s t with
  | nil => exact h
  | cons hij _ ih => exact ih (hij.step dep h).2

theorem same_replies {s t : System} (h : s.values = t.values) {is js : List (Invocation Call)}
    (hsame : List.Forall₂ SameRequest is js) :
    ((machine dep).transcript s is).map Prod.snd = ((machine dep).transcript t js).map Prod.snd := by
  induction hsame generalizing s t with
  | nil => rfl
  | cons hij _ ih =>
    obtain ⟨hreply, hnext⟩ := hij.step dep h
    rw [Machine.transcript_cons, Machine.transcript_cons, List.map_cons, List.map_cons, hreply,
      ih hnext]

/-- Two runs of the same requests from the same values, whatever the ledger sequences, the
minimum lifetimes and the lifetimes at the start: the same replies and the same values. -/
theorem archival_transparent {s t : System} (h : s.values = t.values)
    {is js : List (Invocation Call)} (hsame : List.Forall₂ SameRequest is js) :
    ((machine dep).transcript s is).map Prod.snd = ((machine dep).transcript t js).map Prod.snd ∧
      ((machine dep).run s is).values = ((machine dep).run t js).values :=
  ⟨same_replies dep h hsame, same_values dep h hsame⟩

/-! ### Runs without some of their calls -/

/-- Calls that write outside `F`, and are left out by `keep`, are not missed by calls that
look inside `F`. -/
theorem purges {F : Set Cell} (keep : Invocation Call → Bool) {is : List (Invocation Call)}
    (hkeep : ∀ i ∈ is, keep i = true → i.call.seen ⊆ F)
    (hdrop : ∀ i ∈ is, keep i = false → ∀ cell ∈ i.call.touched, cell ∉ F) (s : System) :
    ((machine dep).transcript s is).filter (fun e => keep e.1) =
        (machine dep).transcript s (is.filter keep) ∧
      ∀ cell ∈ F, look ((machine dep).run s is) cell =
        look ((machine dep).run s (is.filter keep)) cell := by
  rw [transcript_look, transcript_look, run_look, run_look]
  exact Updates.machine_purges (confined dep) hkeep hdrop (look s)

/-- The calls that can change something. -/
def Call.mutates : Call → Bool
  | .config c => c.mutates
  | .issuers c => c.mutates
  | .proofs c => c.mutates

end System

theorem Governance.touched_query {K : Type} {V : K → Type} (G : Governance V) {u : UpgradeCall}
    (h : u.mutates = false) : G.touched u = ∅ := by
  cases u with
  | getContractVersion => rfl
  | isUpgradeAllowed hash => rfl
  | _ => cases h

theorem ProtocolConfig.touched_query {c : ProtocolConfig.Call} (h : c.mutates = false) :
    c.touched = ∅ := by
  cases c with
  | upgrade u => exact governance.touched_query h
  | getAdmin => rfl
  | isPaused => rfl
  | isSchemaVersionApproved n => rfl
  | getConfigVersion => rfl
  | _ => cases h

theorem IssuerRegistry.touched_query {c : IssuerRegistry.Call} (h : c.mutates = false) :
    c.touched = ∅ := by
  cases c with
  | upgrade u => exact governance.touched_query h
  | getAdmin => rfl
  | getIssuer id => rfl
  | isActiveIssuer id => rfl
  | isActiveAddress a => rfl
  | getIssuerByAddress a => rfl
  | _ => cases h

theorem ProofRegistry.touched_query {c : ProofRegistry.Call} (h : c.mutates = false) :
    c.touched = ∅ := by
  cases c with
  | upgrade u => exact governance.touched_query h
  | initializeContract a i p => cases h
  | registerProof id c a n e => cases h
  | revokeProof id => cases h
  | adminRevokeProof id => cases h
  | _ => rfl

namespace System
variable (dep : Deployment)

theorem touched_query {c : Call} (h : c.mutates = false) (cell : Cell) : cell ∉ c.touched := by
  intro hcell
  cases c with
  | config c =>
    obtain ⟨p, hp, _⟩ := hcell
    rw [ProtocolConfig.touched_query h] at hp
    exact hp
  | issuers c =>
    obtain ⟨p, hp, _⟩ := hcell
    rw [IssuerRegistry.touched_query h] at hp
    exact hp
  | proofs c =>
    obtain ⟨p, hp, _⟩ := hcell
    rw [ProofRegistry.touched_query h] at hp
    exact hp

/-- A run without some of its queries: every other call gets the reply it got, and the same
values are left. -/
theorem queries_transparent (keep : Invocation Call → Bool) (s : System)
    (is : List (Invocation Call)) (h : ∀ i ∈ is, keep i = false → i.call.mutates = false) :
    ((machine dep).transcript s is).filter (fun e => keep e.1) =
        (machine dep).transcript s (is.filter keep) ∧
      ((machine dep).run s is).values = ((machine dep).run s (is.filter keep)).values := by
  obtain ⟨htranscript, hcells⟩ := purges dep keep (F := Set.univ) (fun _ _ _ => Set.subset_univ _)
    (fun i hi hkeep cell hcell => absurd hcell (touched_query (h i hi hkeep) cell)) s
  exact ⟨htranscript, values_ext fun cell => hcells cell (Set.mem_univ cell)⟩

/-! ### Governance -/

/-- Upgrade governance and its queries. -/
def Call.governs : Call → Bool
  | .config (.upgrade _) | .issuers (.upgrade _) | .proofs (.upgrade _) => true
  | _ => false

/-- The contract versions and the upgrade allowlists. -/
def Cell.ofGovernance : Cell → Bool
  | .config _ .contractVersion | .config _ (.allowedWasm _)
  | .issuers _ .contractVersion | .issuers _ (.allowedWasm _)
  | .proofs _ .contractVersion | .proofs _ (.allowedWasm _) => true
  | _ => false

theorem governs_touched {c : Call} (h : c.governs = true) {cell : Cell} (hcell : cell ∈ c.touched) :
    cell.ofGovernance = true := by
  have hslot : ∀ {K : Type} {V : K → Type} (G : Governance V) {u : UpgradeCall}
      {p : StorageClass × K}, p ∈ G.touched u →
      p = (.inst, G.contractVersion.key) ∨ ∃ hash, p = (.inst, (G.allowedWasm hash).key) := by
    intro K V G u p hp
    cases u with
    | approveUpgrade hash n => exact .inr ⟨hash, hp⟩
    | revokeUpgrade hash => exact .inr ⟨hash, hp⟩
    | upgradeContract hash =>
      rcases hp with rfl | rfl
      · exact .inr ⟨hash, rfl⟩
      · exact .inl rfl
    | getContractVersion => exact hp.elim
    | isUpgradeAllowed hash => exact hp.elim
  cases c with
  | config c =>
    cases c with
    | upgrade u =>
      obtain ⟨p, hp, rfl⟩ := hcell
      rcases hslot _ hp with rfl | ⟨hash, rfl⟩ <;> rfl
    | _ => cases h
  | issuers c =>
    cases c with
    | upgrade u =>
      obtain ⟨p, hp, rfl⟩ := hcell
      rcases hslot _ hp with rfl | ⟨hash, rfl⟩ <;> rfl
    | _ => cases h
  | proofs c =>
    cases c with
    | upgrade u =>
      obtain ⟨p, hp, rfl⟩ := hcell
      rcases hslot _ hp with rfl | ⟨hash, rfl⟩ <;> rfl
    | _ => cases h

theorem asked_not_governance {c : ProofRegistry.Call} {cell : Cell} (h : cell ∈ asked c) :
    cell.ofGovernance = false := by
  cases c with
  | registerProof id cm a n e =>
    rcases h with (⟨p, rfl, rfl⟩ | ⟨p, rfl, rfl⟩) | ⟨p, rfl | ⟨id, rfl⟩, rfl⟩ <;> rfl
  | _ => exact h.elim

theorem seen_not_governance {c : Call} (h : c.governs = false) {cell : Cell} (hcell : cell ∈ c.seen) :
    cell.ofGovernance = false := by
  cases c with
  | config c =>
    obtain ⟨p, hp, rfl⟩ := hcell
    cases c with
    | upgrade u => cases h
    | initializeContract a => cases hp; rfl
    | getAdmin => cases hp; rfl
    | isPaused => cases hp; rfl
    | isSchemaVersionApproved n => cases hp; rfl
    | getConfigVersion => cases hp; rfl
    | _ => rcases hp with rfl | rfl <;> rfl
  | issuers c =>
    obtain ⟨p, hp, rfl⟩ := hcell
    cases c with
    | upgrade u => cases h
    | initializeContract a => cases hp; rfl
    | getAdmin => cases hp; rfl
    | registerIssuer id a m => rcases hp with rfl | rfl | rfl <;> rfl
    | rotateIssuerAddress id a => rcases hp with rfl | rfl | rfl <;> rfl
    | getIssuer id => cases hp; rfl
    | isActiveIssuer id => cases hp; rfl
    | isActiveAddress a => rcases hp with rfl | ⟨id, rfl⟩ <;> rfl
    | getIssuerByAddress a => rcases hp with rfl | ⟨id, rfl⟩ <;> rfl
    | _ => rcases hp with rfl | rfl <;> rfl
  | proofs c =>
    rcases hcell with ⟨p, hp, rfl⟩ | hasked
    · cases c with
      | upgrade u => cases h
      | registerProof id cm a n e => rcases hp with rfl | rfl | rfl <;> rfl
      | adminRevokeProof id => rcases hp with rfl | rfl <;> rfl
      | _ => cases hp; rfl
    · exact asked_not_governance hasked

/-- A run without its governance calls: every business call gets the reply it got, and all
but the contract versions and the allowlists is as it was. -/
theorem governance_invisible (s : System) (is : List (Invocation Call)) :
    ((machine dep).transcript s is).filter (fun e => !e.1.call.governs) =
        (machine dep).transcript s (is.filter fun i => !i.call.governs) ∧
      ∀ cell : Cell, cell.ofGovernance = false →
        look ((machine dep).run s is) cell =
          look ((machine dep).run s (is.filter fun i => !i.call.governs)) cell := by
  refine purges dep (fun i => !i.call.governs) (F := {cell | cell.ofGovernance = false})
    (fun i _ hkeep cell hcell => ?_)
    (fun i _ hdrop cell hcell hF => ?_) s
  · exact seen_not_governance (by simpa using hkeep) hcell
  · have hgoverns : i.call.governs = true := by simpa using hdrop
    have hcell : cell.ofGovernance = true := governs_touched hgoverns hcell
    have hF : cell.ofGovernance = false := hF
    rw [hcell] at hF
    cases hF

/-! ### One set of proofs -/

/-- The proof a call is about. -/
def Call.subject : Call → Option (BytesN 32)
  | .proofs (.registerProof id _ _ _ _) | .proofs (.revokeProof id) | .proofs (.adminRevokeProof id)
  | .proofs (.getProof id) | .proofs (.isValidProof id) | .proofs (.isRevoked id) => some id
  | _ => none

/-- The cells of the proofs outside `p`. -/
def otherProofs (p : BytesN 32 → Bool) : Set Cell :=
  {cell | ∃ c id, cell = .proofs c (.proof id) ∧ p id = false}

theorem seen_otherProofs {p : BytesN 32 → Bool} {c : Call} (h : c.subject.all p = true) {cell : Cell}
    (hcell : cell ∈ c.seen) : cell ∉ otherProofs p := by
  rintro ⟨cl, id, rfl, hid⟩
  cases c with
  | config c =>
    obtain ⟨q, _, hq⟩ := hcell
    cases hq
  | issuers c =>
    obtain ⟨q, _, hq⟩ := hcell
    cases hq
  | proofs c =>
    rcases hcell with ⟨⟨cl', k⟩, hq, heq⟩ | hasked
    · cases heq
      have hp : ∀ id', (Call.proofs c).subject = some id' → p id' = true := by
        intro id' hs
        rw [hs] at h
        exact h
      cases c with
      | initializeContract a i r => cases hq
      | getAdmin => cases hq
      | getIssuerRegistry => cases hq
      | getProtocolConfig => cases hq
      | registerProof id' cm a n e =>
        rcases hq with hq | hq | hq
        · cases hq
        · cases hq
        · cases hq
          rw [hp id rfl] at hid
          cases hid
      | adminRevokeProof id' =>
        rcases hq with hq | hq
        · cases hq
        · cases hq
          rw [hp id rfl] at hid
          cases hid
      | upgrade u => cases u <;> simp [ProofRegistry.Call.seen, Governance.seen,
          ProofRegistry.governance] at hq
      | _ =>
        cases hq
        rw [hp id rfl] at hid
        cases hid
    · cases c with
      | registerProof id' cm a n e =>
        rcases hasked with (⟨q, _, hq⟩ | ⟨q, _, hq⟩) | ⟨q, _, hq⟩ <;> cases hq
      | _ => exact hasked.elim

theorem touched_otherProofs {p : BytesN 32 → Bool} {c : Call} (h : c.subject.all p = false)
    {cell : Cell} (hcell : cell ∈ c.touched) : cell ∈ otherProofs p := by
  cases c with
  | config c => cases h
  | issuers c => cases h
  | proofs c =>
    obtain ⟨q, hq, rfl⟩ := hcell
    cases c with
    | registerProof id cm a n e =>
      cases hq
      exact ⟨_, id, rfl, h⟩
    | revokeProof id =>
      cases hq
      exact ⟨_, id, rfl, h⟩
    | adminRevokeProof id =>
      cases hq
      exact ⟨_, id, rfl, h⟩
    | getProof id => exact hq.elim
    | isValidProof id => exact hq.elim
    | isRevoked id => exact hq.elim
    | _ => cases h

/-- A run without the calls on the proofs outside `p`: every other call gets the reply it
got, and every other entry is as it was. -/
theorem other_proofs_invisible (p : BytesN 32 → Bool) (s : System) (is : List (Invocation Call)) :
    ((machine dep).transcript s is).filter (fun e => e.1.call.subject.all p) =
        (machine dep).transcript s (is.filter fun i => i.call.subject.all p) ∧
      ∀ cell : Cell, cell ∉ otherProofs p →
        look ((machine dep).run s is) cell =
          look ((machine dep).run s (is.filter fun i => i.call.subject.all p)) cell := by
  refine purges dep (fun i => i.call.subject.all p) (F := {cell | cell ∉ otherProofs p})
    (fun i _ hkeep cell hcell => seen_otherProofs hkeep hcell) (fun i _ hdrop cell hcell hF => ?_) s
  exact hF (touched_otherProofs hdrop hcell)

/-! ### Examples -/

namespace Example

/-- The setup a million ledgers later, with another minimum lifetime. -/
def later (i : Invocation Call) : Invocation Call :=
  ⟨i.call, {i.env with sequence := i.env.sequence + 1000000, minimumTtl := 16}⟩

/-- Whether an issuer or a proof is active, asked between the calls of the setup. -/
def questions : List (Invocation Call) :=
  setup.flatMap fun i => [i, ⟨.issuers (.isActiveAddress issuer), i.env⟩,
    ⟨.proofs (.isValidProof proof), i.env⟩]

end Example

/-- The same setup on later ledgers. -/
theorem archival_transparent_later :
    ((machine Example.deployment).run empty Example.setup).values =
      ((machine Example.deployment).run empty (Example.setup.map Example.later)).values := by
  refine (archival_transparent Example.deployment rfl ?_).2
  exact List.forall₂_map_right_iff.mpr (List.forall₂_same.mpr fun _ _ => ⟨rfl, rfl, rfl, rfl⟩)

/-- The setup with questions in between. -/
theorem queries_transparent_questions :
    ((machine Example.deployment).run empty Example.questions).values =
      ((machine Example.deployment).run empty Example.setup).values := by
  have hsetup : Example.questions.filter (fun i => i.call.mutates) = Example.setup := by rfl
  rw [← hsetup]
  exact (queries_transparent Example.deployment _ empty Example.questions
    fun i _ hi => hi).2

end System
end EarnProof

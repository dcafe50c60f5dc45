import EarnProof.System.Spec

/-! The deployment and its three contracts.

Take from a run the invocations of one contract: that contract alone, at its own
address, replies to them as the deployment did and is left with the same values.
Protocol-config and the issuer registry never notice the rest. The proof registry needs
its dependencies, but nothing of them beyond their answers: alone, it is the registry
whose clients answer from the values the other two hold when they are asked. -/
namespace EarnProof.System
open Soroban

/-- The part of a step that concerns protocol-config. -/
def configShare (t : SystemStep) : Option (Invocation ProtocolConfig.Call) :=
  match t.input.call with
  | .config c => some ⟨c, t.input.env⟩
  | _ => none

def issuersShare (t : SystemStep) : Option (Invocation IssuerRegistry.Call) :=
  match t.input.call with
  | .issuers c => some ⟨c, t.input.env⟩
  | _ => none

/-- With the answers the dependencies give before the step. -/
def proofsShare (dep : Deployment) (t : SystemStep) : Option (Invocation ProofRegistry.Request) :=
  match t.input.call with
  | .proofs c => some ⟨⟨c, answers dep t.pre.values⟩, t.input.env⟩
  | _ => none

/-- The contract `m`, started from `t` and given its share of a run, replies as the run did
and is left with the values `d`. -/
structure Stands {C Ev K : Type} {V : K → Type} (h : List SystemStep)
    (share : SystemStep → Option (Invocation C)) (lift : Ev → Event)
    (m : Machine (Invocation C) (Receipt Ev Value) (Storage V)) (t : Storage V) (d : Entries V) :
    Prop where
  replies : (h.filter fun u => (share u).isSome).map Machine.Step.reply =
    (m.history t (h.filterMap share)).map fun u => u.reply.mapEvents lift
  values : d = (m.run t (h.filterMap share)).entries

/-- A contract stands alone when each of its steps is the deployment's and the other steps
leave its values alone. -/
theorem Stands.of_steps {C Ev K : Type} {V : K → Type} {dep : Deployment}
    {share : SystemStep → Option (Invocation C)} {lift : Ev → Event}
    {m : Machine (Invocation C) (Receipt Ev Value) (Storage V)} {p : System → Storage V}
    (hshown : ∀ i s t k, (p s).entries = t.entries → share ((machine dep).stepAt i s) = some k →
      (machine dep).reply i s = (m.reply k t).mapEvents lift ∧
        (p ((machine dep).next i s)).entries = (m.next k t).entries)
    (hhidden : ∀ i s, share ((machine dep).stepAt i s) = none →
      (p ((machine dep).next i s)).entries = (p s).entries)
    (s : System) (is : List (Invocation Call)) :
    Stands ((machine dep).history s is) share lift m (p s)
      (p ((machine dep).run s is)).entries := by
  obtain ⟨hsteps, hrun⟩ := Machine.projects (m := machine dep) (n := m) (f := share)
    (Q := fun u u' => u.reply = u'.reply.mapEvents lift)
    (fun s t => (p s).entries = t.entries) hshown
    (fun i s t h hnone => (hhidden i s hnone).trans h) (s := s) rfl is
  refine ⟨?_, hrun⟩
  rw [← List.forall₂_eq_eq_eq, List.forall₂_map_left_iff, List.forall₂_map_right_iff]
  exact hsteps

variable (dep : Deployment)

theorem config_stands (s : System) (is : List (Invocation Call)) :
    Stands ((machine dep).history s is) configShare .config
      (ProtocolConfig.machine dep.protocolConfig) s.config ((machine dep).run s is).config.entries := by
  refine Stands.of_steps (p := System.config) (fun i s t k h hk => ?_) (fun i s hnone => ?_) s is
  · obtain ⟨c, env⟩ := i
    cases c with
    | config c =>
      cases hk
      obtain ⟨hreply, hnext⟩ := ProtocolConfig.step_behind dep.protocolConfig ⟨c, env⟩ s.config
      obtain ⟨hreply', hnext'⟩ := ProtocolConfig.step_behind dep.protocolConfig ⟨c, env⟩ t
      rw [← h] at hreply' hnext'
      exact ⟨congrArg (Receipt.mapEvents _) (hreply.trans hreply'.symm), hnext.trans hnext'.symm⟩
    | issuers c => cases hk
    | proofs c => cases hk
  · obtain ⟨c, env⟩ := i
    cases c with
    | config c => cases hnone
    | issuers c => rfl
    | proofs c => exact (proofs_frame dep c s).1

theorem issuers_stands (s : System) (is : List (Invocation Call)) :
    Stands ((machine dep).history s is) issuersShare .issuers
      (IssuerRegistry.machine dep.issuerRegistry) s.issuers
      ((machine dep).run s is).issuers.entries := by
  refine Stands.of_steps (p := System.issuers) (fun i s t k h hk => ?_) (fun i s hnone => ?_) s is
  · obtain ⟨c, env⟩ := i
    cases c with
    | config c => cases hk
    | issuers c =>
      cases hk
      obtain ⟨hreply, hnext⟩ := IssuerRegistry.step_behind dep.issuerRegistry ⟨c, env⟩ s.issuers
      obtain ⟨hreply', hnext'⟩ := IssuerRegistry.step_behind dep.issuerRegistry ⟨c, env⟩ t
      rw [← h] at hreply' hnext'
      exact ⟨congrArg (Receipt.mapEvents _) (hreply.trans hreply'.symm), hnext.trans hnext'.symm⟩
    | proofs c => cases hk
  · obtain ⟨c, env⟩ := i
    cases c with
    | config c => rfl
    | issuers c => cases hnone
    | proofs c => exact (proofs_frame dep c s).2

theorem proofs_stands (s : System) (is : List (Invocation Call)) :
    Stands ((machine dep).history s is) (proofsShare dep) .proofs
      (ProofRegistry.machine dep.proofRegistry) s.proofs ((machine dep).run s is).proofs.entries := by
  refine Stands.of_steps (p := System.proofs) (fun i s t k h hk => ?_) (fun i s hnone => ?_) s is
  · obtain ⟨c, env⟩ := i
    cases c with
    | config c => cases hk
    | issuers c => cases hk
    | proofs c =>
      cases hk
      have hw : (s.config, s.issuers).1.entries = s.values.config := rfl
      obtain ⟨hreply, hnext⟩ := invoke_behind (ProofRegistry.program_realizes (clients dep) c)
        (ProofRegistry.program_refuses (clients dep) c)
        {env with currentContract := dep.proofRegistry} (s := s.proofs)
        (w := (s.config, s.issuers)) fun _ _ _ _ hE => hE.tells
      rw [clients_checks dep hw rfl] at hreply hnext
      obtain ⟨hreply', hnext'⟩ := ProofRegistry.step_behind dep.proofRegistry
        ⟨⟨c, answers dep s.values⟩, env⟩ t
      rw [← h] at hreply' hnext'
      exact ⟨congrArg (Receipt.mapEvents _) (hreply.trans hreply'.symm), hnext.trans hnext'.symm⟩
  · obtain ⟨c, env⟩ := i
    cases c with
    | config c => rfl
    | issuers c => rfl
    | proofs c => cases hnone

/-- Every run of the deployment is a run of each contract alone. -/
theorem contracts_stand_alone (s : System) (is : List (Invocation Call)) :
    let m := machine dep
    let h := m.history s is
    Stands h configShare .config (ProtocolConfig.machine dep.protocolConfig) s.config
        (m.run s is).config.entries ∧
      Stands h issuersShare .issuers (IssuerRegistry.machine dep.issuerRegistry) s.issuers
        (m.run s is).issuers.entries ∧
      Stands h (proofsShare dep) .proofs (ProofRegistry.machine dep.proofRegistry) s.proofs
        (m.run s is).proofs.entries :=
  ⟨config_stands dep s is, issuers_stands dep s is, proofs_stands dep s is⟩

end EarnProof.System

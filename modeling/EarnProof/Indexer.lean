import EarnProof.IssuerRegistry.Replay
import EarnProof.ProtocolConfig.Replay

/-! An off-chain indexer needs nothing but the events.

Every successful change publishes exactly one event, the registry's initialization
excepted, and no other invocation publishes any; folding the log of a run rebuilds
the issuer records, their index, and the protocol configuration. -/
namespace EarnProof
open Soroban

/-- What the steps of a machine publish: `silent` changes publish nothing, every other
successful change one event, and queries and failures nothing. -/
def PublishesOnce {K C Ev ρ : Type} {V : K → Type} (mutates silent : C → Bool)
    (steps : List (Machine.Step (Invocation C) (Receipt Ev ρ) (Storage V))) : Prop :=
  ∀ t ∈ steps,
    (t.post.entries ≠ t.pre.entries → t.reply.Succeeded ∧ mutates t.input.call = true) ∧
    (t.reply.Succeeded → mutates t.input.call = true →
      t.reply.events.length = if silent t.input.call then 0 else 1) ∧
    (¬ t.reply.Succeeded ∨ mutates t.input.call = false → t.reply.events = [])

theorem contractAt_publishesOnce {K C Ev ρ : Type} {V : K → Type}
    {program : C → Program V Ev Unit ErrorCode ρ}
    {Effect : Env → Entries V → C → ρ → Entries V → List Ev → Prop}
    (hprog : ∀ c, Realizes (program c) fun env d w v d' events w' =>
      w' = w ∧ Effect env d c v d' events) {mutates silent : C → Bool}
    (hpub : ∀ {env d c v d' events}, Effect env d c v d' events → mutates c = true →
      events.length = if silent c then 0 else 1)
    (hquery : ∀ {env d c v d' events}, Effect env d c v d' events → mutates c = false →
      d' = d ∧ events = []) (self : Address) (s : Storage V) (is : List (Invocation C)) :
    PublishesOnce mutates silent ((contractAt program self).history s is) := by
  intro t ht
  rcases contractAt_history hprog self ht with ⟨v, hv, hE⟩ | ⟨e, hr, hs⟩
  · have hok : t.reply.Succeeded := ⟨v, hv⟩
    cases hc : mutates t.input.call with
    | true => exact ⟨fun _ => ⟨hok, rfl⟩, fun _ _ => hpub hE hc, by simp [hok]⟩
    | false =>
      obtain ⟨hd, hev⟩ := hquery hE hc
      exact ⟨fun hne => absurd hd hne, by simp, fun _ => hev⟩
  · have hfail : ¬ t.reply.Succeeded := Receipt.not_succeeded (congrArg Receipt.outcome hr)
    refine ⟨fun hne => absurd (by rw [hs]) hne, fun hok => absurd hok hfail, fun _ => ?_⟩
    rw [hr]

/-- The logs determine the issuer records, the index and the protocol configuration at
every point of every run. -/
theorem log_determines_state (self : Address) :
    (∀ is : List (Invocation IssuerRegistry.Call),
      let m := IssuerRegistry.machine self
      let x := (log (m.history Storage.empty is)).foldl IssuerRegistry.View.apply
        IssuerRegistry.View.empty
      PublishesOnce IssuerRegistry.Call.mutates IssuerRegistry.Call.isInitialize
          (m.history Storage.empty is) ∧
        (∀ id, (m.run Storage.empty is).entries .persistent (.issuer id) = x.records id) ∧
        ∀ a, (m.run Storage.empty is).entries .persistent (.addressIssuer a) = x.index a) ∧
    ∀ is : List (Invocation ProtocolConfig.Call),
      let m := ProtocolConfig.machine self
      let events := log (m.history Storage.empty is)
      let x := events.foldl ProtocolConfig.View.apply ProtocolConfig.View.empty
      PublishesOnce ProtocolConfig.Call.mutates (fun _ => false) (m.history Storage.empty is) ∧
        (m.run Storage.empty is).entries .inst .admin = x.admin ∧
        (m.run Storage.empty is).entries .inst .paused = x.paused ∧
        (∀ n, (m.run Storage.empty is).entries .persistent (.schemaVersion n) = x.schema n) ∧
        ∀ env n, (m.reply ⟨.isSchemaVersionApproved n, env⟩ (m.run Storage.empty is)).outcome =
            .ok (.bool true) ↔
          LastWrite.last n (events.filterMap ProtocolConfig.schemaWrite) = some (some true) := by
  constructor
  · intro is m x
    have hview : IssuerRegistry.view (m.run Storage.empty is).entries = x :=
      IssuerRegistry.run_view self is
    rw [← hview]
    exact ⟨contractAt_publishesOnce IssuerRegistry.program_realizes
      IssuerRegistry.Effect.publishes IssuerRegistry.Effect.query self _ is,
      fun _ => rfl, fun _ => rfl⟩
  · intro is m events x
    have hview : ProtocolConfig.view (m.run Storage.empty is).entries = x :=
      ProtocolConfig.run_view self is
    rw [← hview]
    exact ⟨contractAt_publishesOnce ProtocolConfig.program_realizes
      ProtocolConfig.Effect.publishes ProtocolConfig.Effect.query self _ is,
      rfl, rfl, fun _ => rfl, fun env n => ProtocolConfig.approved_iff_last self is env n⟩

end EarnProof

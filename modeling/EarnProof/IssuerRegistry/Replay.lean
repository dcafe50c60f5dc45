import EarnProof.IssuerRegistry.Directory

/-! Rebuilding the issuer registry from its events. -/
namespace EarnProof.IssuerRegistry
open Soroban

/-- What an indexer keeps: the records and the index. -/
structure View where
  records : BytesN 32 → Option IssuerRecord
  index : Address → Option (BytesN 32)

def View.empty : View := ⟨fun _ => none, fun _ => none⟩

/-- Change the record of one issuer. -/
def View.amend (x : View) (id : BytesN 32) (change : IssuerRecord → IssuerRecord) : View :=
  {x with records := Function.update x.records id ((x.records id).map change)}

/-- What an indexer does with an event. -/
def View.apply (x : View) : Event → View
  | .issuerRegistered id a m t =>
    { records := Function.update x.records id (some ⟨id, a, m, .active, t, t⟩)
      index := Function.update x.index a (some id) }
  | .issuerMetadataUpdated id m t =>
    x.amend id fun r => {r with metadataHash := m, updatedAt := t}
  | .issuerSuspended id t => x.amend id fun r => {r with status := .suspended, updatedAt := t}
  | .issuerReactivated id t => x.amend id fun r => {r with status := .active, updatedAt := t}
  | .issuerRevoked id t => x.amend id fun r => {r with status := .revoked, updatedAt := t}
  | .issuerAddressRotated id old new t =>
    { x.amend id fun r => {r with issuerAddress := new, updatedAt := t} with
      index := Function.update (Function.update x.index old none) new (some id) }
  | .upgrade _ => x

/-- The stored part of the view. -/
def view (d : Entries DataKey.Value) : View := ⟨records d, index d⟩

section
variable {env : Env} {d d' : Entries DataKey.Value} {v : Value} {events : List Event}

theorem Amends.view {id : BytesN 32} {allowed : IssuerRecord → Prop}
    {change : IssuerRecord → IssuerRecord} {event : Event}
    (h : Amends env d id allowed change event v d' events)
    (hevent : ∀ x : View, x.apply event =
      x.amend id fun r => {change r with updatedAt := env.timestamp}) :
    view d' = events.foldl View.apply (view d) := by
  obtain ⟨_, r, _, _, hr, _, _, rfl, rfl⟩ := h
  have hrec : records d id = some r := hr
  rw [List.foldl_cons, List.foldl_nil, hevent]
  simp only [IssuerRegistry.view, View.amend, records_put_issuer, index_put_issuer, hrec,
    Option.map_some]

theorem SetsStatus.view {id : BytesN 32} {status : IssuerStatus}
    (h : SetsStatus env d id status v d' events) :
    view d' = events.foldl View.apply (view d) :=
  Amends.view h fun x => by cases status <;> rfl

theorem Effect.view {c : Call} (h : Effect env d c v d' events) :
    view d' = events.foldl View.apply (view d) := by
  cases c with
  | initializeContract admin =>
    obtain ⟨_, _, _, _, rfl, rfl⟩ := h
    simp [IssuerRegistry.view]
  | registerIssuer id a m =>
    obtain ⟨_, _, _, _, _, _, _, rfl, rfl⟩ := h
    simp [IssuerRegistry.view, View.apply]
  | updateIssuer id m => exact Amends.view h fun _ => rfl
  | suspendIssuer id => exact SetsStatus.view h
  | reactivateIssuer id => exact SetsStatus.view h
  | revokeIssuer id => exact SetsStatus.view h
  | rotateIssuerAddress id a =>
    obtain ⟨_, r, _, _, _, hr, _, _, _, _, rfl, rfl⟩ := h
    have hrec : records d id = some r := hr
    simp [IssuerRegistry.view, View.apply, View.amend, hrec]
  | getAdmin =>
    obtain ⟨_, _, _, rfl, rfl⟩ := h
    rfl
  | getIssuer id =>
    obtain ⟨_, _, _, rfl, rfl⟩ := h
    rfl
  | isActiveIssuer id =>
    obtain ⟨_, rfl, rfl⟩ := h
    rfl
  | isActiveAddress a =>
    obtain ⟨_, rfl, rfl⟩ := h
    rfl
  | getIssuerByAddress a =>
    obtain ⟨_, _, _, _, _, rfl, rfl⟩ := h
    rfl
  | upgrade c =>
    have hrec : records d' = records d := funext fun id => Governance.Effect.frame h (by simp)
    have hidx : index d' = index d := funext fun a => Governance.Effect.frame h (by simp)
    rw [Governance.Effect.foldl h fun _ _ => rfl, IssuerRegistry.view, hrec, hidx]
    rfl

end

/-- After every run the indexer's view of the log is the stored one. -/
theorem run_view (self : Address) (is : List (Invocation Call)) :
    view ((machine self).run Storage.empty is).entries =
      (log ((machine self).history Storage.empty is)).foldl View.apply View.empty :=
  contractAt_replay program_realizes view View.apply
    (fun _ _ _ _ _ _ hE => hE.view) self Storage.empty is

/-! ### Which calls publish -/

/-- The calls that change a stored value. -/
def Call.mutates : Call → Bool
  | .initializeContract _ | .registerIssuer _ _ _ | .updateIssuer _ _ | .suspendIssuer _
  | .reactivateIssuer _ | .revokeIssuer _ | .rotateIssuerAddress _ _ => true
  | .getAdmin | .getIssuer _ | .isActiveIssuer _ | .isActiveAddress _ | .getIssuerByAddress _ =>
    false
  | .upgrade c => c.mutates

def Call.isInitialize : Call → Bool
  | .initializeContract _ => true
  | _ => false

section
variable {env : Env} {d d' : Entries DataKey.Value} {v : Value} {events : List Event} {c : Call}

theorem Amends.publishes {id : BytesN 32} {allowed : IssuerRecord → Prop}
    {change : IssuerRecord → IssuerRecord} {event : Event}
    (h : Amends env d id allowed change event v d' events) : events.length = 1 :=
  congrArg List.length h.event_eq

theorem Effect.publishes (h : Effect env d c v d' events) (hc : c.mutates = true) :
    events.length = if c.isInitialize then 0 else 1 := by
  cases c with
  | initializeContract admin =>
    obtain ⟨_, _, _, _, _, rfl⟩ := h
    rfl
  | registerIssuer id a m =>
    obtain ⟨_, _, _, _, _, _, _, _, rfl⟩ := h
    rfl
  | updateIssuer id m => exact Amends.publishes h
  | suspendIssuer id => exact Amends.publishes h
  | reactivateIssuer id => exact Amends.publishes h
  | revokeIssuer id => exact Amends.publishes h
  | rotateIssuerAddress id a =>
    obtain ⟨_, _, _, _, _, _, _, _, _, _, _, rfl⟩ := h
    rfl
  | upgrade c =>
    obtain ⟨e, rfl⟩ := Governance.Effect.publishes h hc
    rfl
  | _ => cases hc

theorem Effect.query (h : Effect env d c v d' events) (hc : c.mutates = false) :
    d' = d ∧ events = [] := by
  cases c with
  | getAdmin =>
    obtain ⟨_, _, _, hd, hev⟩ := h
    exact ⟨hd, hev⟩
  | getIssuer id =>
    obtain ⟨_, _, _, hd, hev⟩ := h
    exact ⟨hd, hev⟩
  | isActiveIssuer id => exact h.2
  | isActiveAddress a => exact h.2
  | getIssuerByAddress a =>
    obtain ⟨_, _, _, _, _, hd, hev⟩ := h
    exact ⟨hd, hev⟩
  | upgrade c => exact Governance.Effect.query h hc
  | _ => cases hc

end
end EarnProof.IssuerRegistry

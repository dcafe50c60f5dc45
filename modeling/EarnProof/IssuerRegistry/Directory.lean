import EarnProof.Abstract.Directory
import EarnProof.IssuerRegistry.Effects

/-! The issuer registry keeps a directory.

The stored records and the stored index are the two maps of a `Directory` in every
state of every run: registering inserts, a change of metadata or status amends, and a
rotation moves. `Change` says once what a call can do to the two maps; whatever is
proved of issuers over runs is proved from it. -/
namespace EarnProof.IssuerRegistry
open Soroban

/-- The stored issuer records. -/
def records (d : Entries DataKey.Value) : BytesN 32 → Option IssuerRecord :=
  fun id => d .persistent (.issuer id)

/-- The stored index from addresses to issuer ids. -/
def index (d : Entries DataKey.Value) : Address → Option (BytesN 32) :=
  fun a => d .persistent (.addressIssuer a)

section Put
variable (d : Entries DataKey.Value)

@[simp] theorem records_empty : records Entries.empty = fun _ => none := rfl

@[simp] theorem index_empty : index Entries.empty = fun _ => none := rfl

@[simp] theorem records_put_inst (k : DataKey) (o : Option k.Value) :
    records (d.put .inst k o) = records d := by
  funext id
  simp [records]

@[simp] theorem index_put_inst (k : DataKey) (o : Option k.Value) :
    index (d.put .inst k o) = index d := by
  funext a
  simp [index]

@[simp] theorem records_put_issuer (id : BytesN 32) (o : Option IssuerRecord) :
    records (d.put .persistent (.issuer id) o) = Function.update (records d) id o := by
  funext id'
  by_cases h : id' = id
  · subst h
    simp [records]
  · rw [Function.update_of_ne h]
    simp [records, h]

@[simp] theorem index_put_issuer (id : BytesN 32) (o : Option IssuerRecord) :
    index (d.put .persistent (.issuer id) o) = index d := by
  funext a
  simp [index]

@[simp] theorem records_put_addressIssuer (a : Address) (o : Option (BytesN 32)) :
    records (d.put .persistent (.addressIssuer a) o) = records d := by
  funext id
  simp [records]

@[simp] theorem index_put_addressIssuer (a : Address) (o : Option (BytesN 32)) :
    index (d.put .persistent (.addressIssuer a) o) = Function.update (index d) a o := by
  funext a'
  by_cases h : a' = a
  · subst h
    simp [index]
  · rw [Function.update_of_ne h]
    simp [index, h]

end Put

/-! ### What a call does to the two maps -/

/-- `Change now d c d'`: what call `c` at time `now` does to the records and the index. -/
inductive Change (now : UInt64) (d : Entries DataKey.Value) :
    Call → Entries DataKey.Value → Prop where
  | keep {c : Call} {d' : Entries DataKey.Value} (hrecords : records d' = records d)
      (hindex : index d' = index d) : Change now d c d'
  | register {id : BytesN 32} {a : Address} {m : BytesN 32} {d' : Entries DataKey.Value}
      (hid : records d id = none) (ha : index d a = none)
      (hrecords : records d' = Function.update (records d) id
        (some ⟨id, a, m, .active, now, now⟩))
      (hindex : index d' = Function.update (index d) a (some id)) :
      Change now d (.registerIssuer id a m) d'
  /-- A new status or new metadata. A revoked record can only be revoked again, which
  moves its time. -/
  | amend {c : Call} {id : BytesN 32} {r r' : IssuerRecord} {d' : Entries DataKey.Value}
      (hr : records d id = some r) (hid : r'.issuerIdHash = r.issuerIdHash)
      (ha : r'.issuerAddress = r.issuerAddress) (hcreated : r'.createdAt = r.createdAt)
      (hrevoked : r.status = .revoked → c = .revokeIssuer id ∧ r' = {r with updatedAt := now})
      (hrecords : records d' = Function.update (records d) id (some r'))
      (hindex : index d' = index d) : Change now d c d'
  | rotate {id : BytesN 32} {a : Address} {r : IssuerRecord} {d' : Entries DataKey.Value}
      (hr : records d id = some r) (hstatus : r.status ≠ .revoked) (hne : a ≠ r.issuerAddress)
      (ha : index d a = none)
      (hrecords : records d' = Function.update (records d) id
        (some {r with issuerAddress := a, updatedAt := now}))
      (hindex : index d' =
        Function.update (Function.update (index d) r.issuerAddress none) a (some id)) :
      Change now d (.rotateIssuerAddress id a) d'

section
variable {env : Env} {d d' : Entries DataKey.Value} {v : Value} {events : List Event}

theorem Amends.change {id : BytesN 32} {allowed : IssuerRecord → Prop}
    {change : IssuerRecord → IssuerRecord} {event : Event} {c : Call}
    (h : Amends env d id allowed change event v d' events)
    (hid : ∀ r, (change r).issuerIdHash = r.issuerIdHash)
    (ha : ∀ r, (change r).issuerAddress = r.issuerAddress)
    (hcreated : ∀ r, (change r).createdAt = r.createdAt)
    (hrevoked : ∀ r, allowed r → r.status = .revoked → c = .revokeIssuer id ∧ change r = r) :
    Change env.timestamp d c d' := by
  obtain ⟨_, r, _, _, hr, hallowed, _, rfl, _⟩ := h
  refine @Change.amend env.timestamp d c id r {change r with updatedAt := env.timestamp} _ hr (hid r) (ha r)
    (hcreated r) (fun hst => ?_) ?_ ?_
  · obtain ⟨hc, hsame⟩ := hrevoked r hallowed hst
    exact ⟨hc, by rw [hsame]⟩
  · simp
  · simp

theorem SetsStatus.change {id : BytesN 32} {status : IssuerStatus} {c : Call}
    (h : SetsStatus env d id status v d' events) (hc : status = .revoked → c = .revokeIssuer id) :
    Change env.timestamp d c d' := by
  refine Amends.change h (fun _ => rfl) (fun _ => rfl) (fun _ => rfl) fun r hallowed hr => ?_
  have hstatus : status = .revoked := hallowed hr
  refine ⟨hc hstatus, ?_⟩
  rw [hstatus, ← hr]

theorem Effect.change {c : Call} (h : Effect env d c v d' events) :
    Change env.timestamp d c d' := by
  cases c with
  | initializeContract admin =>
    obtain ⟨_, _, _, _, rfl, _⟩ := h
    exact .keep (by simp) (by simp)
  | getAdmin =>
    obtain ⟨_, _, _, rfl, _⟩ := h
    exact .keep rfl rfl
  | registerIssuer id a m =>
    obtain ⟨_, _, _, _, hid, ha, _, rfl, _⟩ := h
    exact .register hid ha (by simp) (by simp)
  | updateIssuer id m =>
    exact Amends.change h (fun _ => rfl) (fun _ => rfl) (fun _ => rfl)
      fun _ hallowed hr => absurd hr hallowed
  | suspendIssuer id => exact SetsStatus.change h (by simp)
  | reactivateIssuer id => exact SetsStatus.change h (by simp)
  | revokeIssuer id => exact SetsStatus.change h fun _ => rfl
  | rotateIssuerAddress id a =>
    obtain ⟨_, r, _, _, _, hr, hstatus, hne, ha, _, rfl, _⟩ := h
    exact .rotate hr hstatus hne ha (by simp) (by simp)
  | getIssuer id =>
    obtain ⟨_, _, _, rfl, _⟩ := h
    exact .keep rfl rfl
  | isActiveIssuer id =>
    obtain ⟨_, rfl, _⟩ := h
    exact .keep rfl rfl
  | isActiveAddress a =>
    obtain ⟨_, rfl, _⟩ := h
    exact .keep rfl rfl
  | getIssuerByAddress a =>
    obtain ⟨_, _, _, _, _, rfl, _⟩ := h
    exact .keep rfl rfl
  | upgrade c =>
    exact .keep (funext fun id => Governance.Effect.frame h (by simp))
      (funext fun a => Governance.Effect.frame h (by simp))

end

/-- A record stays, with changes. -/
theorem Change.registered {now : UInt64} {d d' : Entries DataKey.Value} {c : Call}
    (h : Change now d c d') {id : BytesN 32} (hid : records d id ≠ none) : records d' id ≠ none := by
  cases h with
  | keep hrecords _ =>
    rw [hrecords]
    exact hid
  | register _ _ hrecords _ | amend _ _ _ _ _ hrecords _ | rotate _ _ _ _ hrecords _ =>
    rw [hrecords, Function.update_apply]
    split
    · simp
    · exact hid

/-! ### Revoked issuers -/

/-- A revoked record changes in its time only, and only by being revoked again. -/
theorem Change.revoked {now : UInt64} {d d' : Entries DataKey.Value} {c : Call}
    (h : Change now d c d') {id : BytesN 32} {r : IssuerRecord} (hr : records d id = some r)
    (hst : r.status = .revoked) :
    records d' id = some r ∨
      (c = .revokeIssuer id ∧ records d' id = some {r with updatedAt := now}) := by
  cases h with
  | keep hrecords _ =>
    rw [hrecords]
    exact .inl hr
  | @register id' _ _ _ hid _ hrecords _ =>
    have hne : id ≠ id' := by
      rintro rfl
      rw [hr] at hid
      cases hid
    rw [hrecords, Function.update_of_ne hne]
    exact .inl hr
  | @amend _ id' r₀ _ _ hr₀ _ _ _ hrevoked hrecords _ =>
    by_cases hid : id = id'
    · subst hid
      rw [hr] at hr₀
      cases hr₀
      obtain ⟨hc, hr'⟩ := hrevoked hst
      rw [hrecords, Function.update_self, hr']
      exact .inr ⟨hc, rfl⟩
    · rw [hrecords, Function.update_of_ne hid]
      exact .inl hr
  | @rotate id' _ r₀ _ hr₀ hstatus _ _ hrecords _ =>
    have hne : id ≠ id' := by
      rintro rfl
      rw [hr] at hr₀
      cases hr₀
      exact hstatus hst
    rw [hrecords, Function.update_of_ne hne]
    exact .inl hr

/-! ### The directory of a run -/

abbrev IssuerDirectory :=
  Directory (BytesN 32) Address IssuerRecord IssuerRecord.issuerIdHash IssuerRecord.issuerAddress

/-- The stored maps are those of `D`. -/
structure Keeps (d : Entries DataKey.Value) (D : IssuerDirectory) : Prop where
  records : records d = D.records
  index : index d = D.index

theorem Change.keeps {now : UInt64} {d d' : Entries DataKey.Value} {c : Call}
    (h : Change now d c d') {D : IssuerDirectory} (hD : Keeps d D) : ∃ D', Keeps d' D' := by
  cases h with
  | keep hrecords hindex => exact ⟨D, hrecords.trans hD.records, hindex.trans hD.index⟩
  | @register id a m _ hid ha hrecords hindex =>
    rw [hD.records] at hid hrecords
    rw [hD.index] at ha hindex
    exact ⟨D.insert ⟨id, a, m, .active, now, now⟩ hid ha, hrecords, hindex⟩
  | @amend _ id r r' _ hr hid ha _ _ hrecords hindex =>
    rw [hD.records] at hr hrecords
    have hid' : r'.issuerIdHash = id := hid.trans (D.ident_of hr)
    subst hid'
    exact ⟨D.amend r' hr ha, hrecords, hindex.trans hD.index⟩
  | @rotate id a r _ hr _ _ ha hrecords hindex =>
    rw [hD.records] at hr hrecords
    rw [hD.index] at ha hindex
    have hid' : r.issuerIdHash = id := D.ident_of hr
    subst hid'
    exact ⟨D.move {r with issuerAddress := a, updatedAt := now} hr ha, hrecords, hindex⟩

/-! ### Whom an address is bound to -/

/-- The calls that bind the address `a` to the issuer `id`. -/
def Call.Binds (id : BytesN 32) (a : Address) : Call → Prop
  | .registerIssuer issuerIdHash issuerAddress _ => issuerIdHash = id ∧ issuerAddress = a
  | .rotateIssuerAddress issuerIdHash newAddress => issuerIdHash = id ∧ newAddress = a
  | _ => False

/-- An address is bound only while it is free. -/
theorem Effect.binds_free {env : Env} {d d' : Entries DataKey.Value} {c : Call} {v : Value}
    {events : List Event} (h : Effect env d c v d' events) {id : BytesN 32} {a : Address}
    (hc : c.Binds id a) : index d a = none := by
  cases c with
  | registerIssuer =>
    obtain ⟨_, _, _, _, _, hfree, _⟩ := h
    obtain ⟨_, rfl⟩ := hc
    exact hfree
  | rotateIssuerAddress =>
    have hfree := Effect.rotate_free h
    obtain ⟨_, rfl⟩ := hc
    exact hfree
  | _ => exact hc.elim

/-- A call leaves the binding of an address alone, releases it by rotating its issuer to
another address, or binds it while it is free. -/
theorem Change.binding {now : UInt64} {d d' : Entries DataKey.Value} {c : Call}
    (h : Change now d c d') {D : IssuerDirectory} (hD : Keeps d D) (a : Address) :
    index d' a = index d a ∨
    (∃ id b, c = .rotateIssuerAddress id b ∧ b ≠ a ∧ index d a = some id ∧ index d' a = none) ∨
    ∃ id, c.Binds id a ∧ index d a = none ∧ index d' a = some id := by
  cases h with
  | keep _ hindex => exact .inl (congrFun hindex a)
  | @register id b _ _ _ hfree _ hindex =>
    by_cases hab : a = b
    · subst hab
      exact .inr (.inr ⟨id, ⟨rfl, rfl⟩, hfree, by rw [hindex, Function.update_self]⟩)
    · exact .inl (by rw [hindex, Function.update_of_ne hab])
  | amend _ _ _ _ _ _ hindex => exact .inl (congrFun hindex a)
  | @rotate id b r _ hr _ hne hfree _ hindex =>
    by_cases hab : a = b
    · subst hab
      exact .inr (.inr ⟨id, ⟨rfl, rfl⟩, hfree, by rw [hindex, Function.update_self]⟩)
    · by_cases hold : a = r.issuerAddress
      · subst hold
        have hbound : index d r.issuerAddress = some id := by
          rw [hD.records] at hr
          rw [hD.index]
          exact D.indexed hr
        refine .inr (.inl ⟨id, b, rfl, hne, hbound, ?_⟩)
        rw [hindex, Function.update_of_ne hab, Function.update_self]
      · exact .inl (by rw [hindex, Function.update_of_ne hab, Function.update_of_ne hold])

/-- Every state of every run holds a directory. -/
theorem run_keeps (self : Address) (is : List (Invocation Call)) :
    ∃ D, Keeps ((machine self).run Storage.empty is).entries D :=
  contractAt_invariant program_realizes (fun d => ∃ D, Keeps d D)
    (fun _ _ _ _ _ _ hE ⟨_, hD⟩ => hE.change.keeps hD) self ⟨Directory.empty, rfl, rfl⟩ is

/-! ### The two lookup paths -/

section Lookups
variable (self : Address) (env : Env) (s : Storage DataKey.Value)

theorem getIssuer_outcome (id : BytesN 32) :
    ((machine self).reply ⟨.getIssuer id, env⟩ s).outcome =
      (records s.entries id).elim (.error (.error IssuerError.issuerNotFound.code))
        (fun r => .ok (.issuer r)) := by
  show (invoke _ _ s ()).1.outcome = _
  rw [invoke_outcome]
  simp only [Call.program, entry_outcome, getIssuer_run, Storage.entries_load, records]
  cases s.entries .persistent (.issuer id) <;> rfl

theorem getIssuerByAddress_outcome (a : Address) :
    ((machine self).reply ⟨.getIssuerByAddress a, env⟩ s).outcome =
      (index s.entries a).elim (.error (.error IssuerError.issuerAddressNotFound.code)) fun id =>
        (records s.entries id).elim (.error (.error IssuerError.issuerNotFound.code))
          fun r => .ok (.issuer r) := by
  show (invoke _ _ s ()).1.outcome = _
  rw [invoke_outcome]
  simp only [Call.program, entry_outcome, getIssuerByAddress_run, Storage.entries_load, records,
    index]
  cases s.entries .persistent (.addressIssuer a) with
  | none => rfl
  | some id =>
    simp only [Option.elim_some]
    cases s.entries .persistent (.issuer id) <;> rfl

theorem isActiveAddress_outcome (a : Address) :
    ((machine self).reply ⟨.isActiveAddress a, env⟩ s).outcome =
      .ok (.bool (activeAddress s.entries a)) := by
  have hE : Effect {env with currentContract := self} s.entries (.isActiveAddress a)
      (.bool (activeAddress s.entries a)) s.entries [] := ⟨rfl, rfl, rfl⟩
  exact contractAt_outcome program_realizes hE

end Lookups

section Kept
variable {d : Entries DataKey.Value} {D : IssuerDirectory} (h : Keeps d D)
include h

theorem Keeps.activeAddress {a : Address} :
    activeAddress d a = true ↔ ∃ r, D.find a = some r ∧ r.status = .active := by
  have hidx : d .persistent (.addressIssuer a) = D.index a := congrFun h.index a
  rw [IssuerRegistry.activeAddress, hidx, Directory.find]
  cases D.index a with
  | none => simp
  | some id =>
    have hrec : d .persistent (.issuer id) = D.records id := congrFun h.records id
    simp only [Option.any_some, activeIssuer, hrec, Option.bind_some]
    cases D.records id <;> simp

theorem Keeps.getIssuerByAddress (self : Address) (env : Env) (s : Storage DataKey.Value)
    (hs : s.entries = d) (a : Address) :
    ((machine self).reply ⟨.getIssuerByAddress a, env⟩ s).outcome =
      (D.find a).elim (.error (.error IssuerError.issuerAddressNotFound.code))
        fun r => .ok (.issuer r) := by
  rw [getIssuerByAddress_outcome, hs, h.index, h.records, Directory.find]
  cases ha : D.index a with
  | none => rfl
  | some id =>
    obtain ⟨r, hr, _⟩ := D.grounded ha
    simp [hr]

theorem Keeps.getIssuer_ok (self : Address) (env : Env) (s : Storage DataKey.Value)
    (hs : s.entries = d) (id : BytesN 32) (r : IssuerRecord) :
    ((machine self).reply ⟨.getIssuer id, env⟩ s).outcome = .ok (.issuer r) ↔
      D.records id = some r := by
  rw [getIssuer_outcome, hs, h.records]
  cases D.records id <;> simp

end Kept

/-- The stored index and the stored records are inverse to each other after every run, and
`get_issuer`, `get_issuer_by_address` and `is_active_address` agree. -/
theorem index_bijection (self : Address) (is : List (Invocation Call)) :
    let s := (machine self).run Storage.empty is
    (∀ id r, records s.entries id = some r →
      r.issuerIdHash = id ∧ index s.entries r.issuerAddress = some id) ∧
    (∀ a id, index s.entries a = some id →
      ∃ r, records s.entries id = some r ∧ r.issuerAddress = a) ∧
    (∀ id id' r r', records s.entries id = some r → records s.entries id' = some r' →
      r.issuerAddress = r'.issuerAddress → id = id') ∧
    {a | (index s.entries a).isSome}.Finite ∧ {id | (records s.entries id).isSome}.Finite ∧
    {a | (index s.entries a).isSome}.ncard = {id | (records s.entries id).isSome}.ncard ∧
    ∀ env env' a,
      (∀ r, ((machine self).reply ⟨.getIssuerByAddress a, env⟩ s).outcome = .ok (.issuer r) ↔
        ∃ id, ((machine self).reply ⟨.getIssuer id, env'⟩ s).outcome = .ok (.issuer r) ∧
          r.issuerAddress = a) ∧
      ((machine self).reply ⟨.getIssuerByAddress a, env⟩ s).outcome ≠
        .error (.error IssuerError.issuerNotFound.code) ∧
      (((machine self).reply ⟨.isActiveAddress a, env⟩ s).outcome = .ok (.bool true) ↔
        ∃ r, ((machine self).reply ⟨.getIssuerByAddress a, env'⟩ s).outcome = .ok (.issuer r) ∧
          r.status = .active) := by
  intro s
  obtain ⟨D, hD⟩ := run_keeps self is
  have hrec : records s.entries = D.records := hD.records
  have hidx : index s.entries = D.index := hD.index
  simp only [hrec, hidx]
  refine ⟨fun id r hr => ⟨D.ident_of hr, D.indexed hr⟩, fun a id h => D.grounded h,
    fun id id' r r' hr hr' h => D.place_injective hr hr' h, D.finite_index, D.finite,
    D.ncard_index, fun env env' a => ⟨fun r => ?_, ?_, ?_⟩⟩
  · simp only [hD.getIssuer_ok self env' s rfl, hD.getIssuerByAddress self env s rfl]
    rw [← D.find_eq_some]
    cases D.find a <;> simp
  · rw [hD.getIssuerByAddress self env s rfl]
    cases D.find a <;> simp [IssuerError.code]
  · rw [isActiveAddress_outcome]
    simp only [hD.getIssuerByAddress self env' s rfl, Except.ok.injEq, Value.bool.injEq]
    rw [hD.activeAddress]
    cases D.find a <;> simp

end EarnProof.IssuerRegistry

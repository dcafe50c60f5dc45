import EarnProof.ProofRegistry.Lifecycle

/-! Every stored proof record and the run that produced it, for dependencies that
answer in any way. -/
namespace EarnProof.ProofRegistry
open Soroban

abbrev RegistryStep := Machine.Step (Invocation Request) (Receipt Event Value)
  (Storage DataKey.Value)

namespace RegistryStep

def act (t : RegistryStep) : Act := (t.input.call.call, t.input.env.timestamp)

/-- The successful calls of a run. -/
def acts (steps : List RegistryStep) : List Act :=
  (steps.filter fun t => t.reply.Succeeded).map act

/-- The successful steps that concern `id`. -/
def writers (id : BytesN 32) (steps : List RegistryStep) : List RegistryStep :=
  steps.filter fun t => t.reply.Succeeded ∧ t.input.call.call.writes id = true

theorem story_acts (id : BytesN 32) (steps : List RegistryStep) :
    story id (acts steps) = (writers id steps).map act := by
  simp only [story, acts, writers, List.filter_map, List.filter_filter]
  congr 2
  funext t
  simp [act, Bool.and_comm]

theorem acts_snoc_succeeded {steps : List RegistryStep} {t : RegistryStep} (h : t.reply.Succeeded) :
    acts (steps ++ [t]) = acts steps ++ [t.act] := by
  simp [acts, h]

theorem acts_snoc_failed {steps : List RegistryStep} {t : RegistryStep}
    (h : ¬ t.reply.Succeeded) : acts (steps ++ [t]) = acts steps := by
  simp [acts, h]

end RegistryStep
open RegistryStep

variable (registry : Address)

/-- After every run each record is the one its story tells. -/
theorem run_life (is : List (Invocation Request)) (id : BytesN 32) :
    Life id (story id (acts ((machine registry).history Storage.empty is)))
      (proofs ((machine registry).run Storage.empty is).entries id) := by
  refine (machine registry).history_induction
    (fun _ steps s => Life id (story id (acts steps)) (proofs s.entries id)) .absent
    (fun js i ih => ?_) is
  rcases step_cases registry i ((machine registry).run Storage.empty js) with
    ⟨v, hv, hE⟩ | ⟨e, hr, hnext, _⟩
  · rw [acts_snoc_succeeded ⟨v, hv⟩]
    exact (Effect.change hE).life ih
  · have hfail : ¬ ((machine registry).stepAt i
        ((machine registry).run Storage.empty js)).reply.Succeeded :=
      Receipt.not_succeeded (congrArg Receipt.outcome hr)
    rw [acts_snoc_failed hfail, hnext]
    exact ih

/-- The successful steps on the id of a stored record: its registration, and its
revocation when it is revoked. -/
theorem run_writers {is : List (Invocation Request)} {id : BytesN 32} {r : ProofRecord}
    (hr : proofs ((machine registry).run Storage.empty is).entries id = some r) :
    r.proofIdHash = id ∧ ∃ t, t.act = (.registerProof id r.commitmentHash r.issuerAddress
        r.schemaVersion r.expiresAt, r.createdAt) ∧
      ((r.status = .active ∧ r.revokedAt = 0 ∧
        writers id ((machine registry).history Storage.empty is) = [t]) ∨
      (r.status = .revoked ∧ ∃ t',
        writers id ((machine registry).history Storage.empty is) = [t, t'] ∧
        t'.input.call.call.Revokes id ∧ t'.input.env.timestamp = r.revokedAt)) := by
  have hlife := run_life registry is id
  rw [hr, story_acts] at hlife
  generalize hw : writers id ((machine registry).history Storage.empty is) = ts at hlife ⊢
  generalize hmap : ts.map act = told at hlife
  cases hlife with
  | registered c a n e t₀ =>
    obtain ⟨t, rest, rfl, ht, hrest⟩ := List.map_eq_cons_iff.mp hmap
    rw [List.map_eq_nil_iff.mp hrest]
    exact ⟨rfl, t, ht, .inl ⟨rfl, rfl, rfl⟩⟩
  | revoked c a n e t₀ rc t₁ hrc =>
    obtain ⟨t, rest, rfl, ht, hrest⟩ := List.map_eq_cons_iff.mp hmap
    obtain ⟨t', rest', rfl, ht', hrest'⟩ := List.map_eq_cons_iff.mp hrest
    rw [List.map_eq_nil_iff.mp hrest']
    have hcall : t'.input.call.call = rc := congrArg Prod.fst ht'
    have htime : t'.input.env.timestamp = t₁ := congrArg Prod.snd ht'
    exact ⟨rfl, t, ht, .inr ⟨rfl, t', rfl, hcall ▸ hrc, htime⟩⟩

/-- The step that stored a record, under answers that let it. -/
structure Registers (t : RegistryStep) (r : ProofRecord) : Prop where
  succeeded : t.reply.Succeeded
  call : t.input.call.call = .registerProof r.proofIdHash r.commitmentHash r.issuerAddress
    r.schemaVersion r.expiresAt
  time : t.input.env.timestamp = r.createdAt
  answers : ∃ cfg reg, t.pre.entries .inst .protocolConfig = some cfg ∧
    t.pre.entries .inst .issuerRegistry = some reg ∧
    t.input.call.clients.isPaused cfg {t.input.env with currentContract := registry} () =
      (.ok false, ()) ∧
    t.input.call.clients.isSchemaVersionApproved cfg r.schemaVersion
      {t.input.env with currentContract := registry} () = (.ok true, ()) ∧
    t.input.call.clients.isActiveAddress reg r.issuerAddress
      {t.input.env with currentContract := registry} () = (.ok true, ())

/-- What is known of a record stored after the steps `steps`. -/
structure Recorded (d : Entries DataKey.Value) (steps : List RegistryStep) (id : BytesN 32)
    (r : ProofRecord) : Prop where
  ident : r.proofIdHash = id
  schemaVersion : 1 ≤ r.schemaVersion
  expiresAt : r.createdAt < r.expiresAt
  validAddress : isValidPrincipalAddress r.issuerAddress = true
  ne_self : r.issuerAddress ≠ registry
  ne_dependencies : ∃ cfg reg, d .inst .protocolConfig = some cfg ∧
    d .inst .issuerRegistry = some reg ∧ r.issuerAddress ≠ cfg ∧ r.issuerAddress ≠ reg
  story : ∃ t, Registers registry t r ∧
    ((r.status = .active ∧ r.revokedAt = 0 ∧ writers id steps = [t]) ∨
    (r.status = .revoked ∧ ∃ t', writers id steps = [t, t'] ∧ t'.input.call.call.Revokes id ∧
      t'.input.env.timestamp = r.revokedAt ∧ r.createdAt ≤ r.revokedAt ∧
      ∀ now, (∀ t ∈ steps, t.input.env.timestamp ≤ now) → r.revokedAt ≤ now))

theorem run_wiring (is : List (Invocation Request)) :
    Wiring ((machine registry).run Storage.empty is).entries :=
  contractAt_invariant request_realizes Wiring (fun _ _ _ _ _ _ hE hd => Effect.keepsWiring hE hd)
    registry Wiring.empty is

/-- An initialized registry keeps its admin and its dependencies. -/
theorem run_sameWiring {s : Storage DataKey.Value} (hs : s.entries .inst .admin ≠ none)
    (is : List (Invocation Request)) :
    SameWiring s.entries ((machine registry).run s is).entries := by
  refine contractAt_invariant request_realizes (SameWiring s.entries)
    (fun env d r v d' events hE hd => ?_) registry (.refl _) is
  have hadmin : d .inst .admin ≠ none := by
    rw [hd.admin]
    exact hs
  have hstep := Effect.sameWiring hE hadmin
  exact ⟨hstep.admin.trans hd.admin, hstep.issuerRegistry.trans hd.issuerRegistry,
    hstep.protocolConfig.trans hd.protocolConfig⟩

/-- A successful registration in a run: its answers, and the checks it passed against
the dependencies the registry still has. -/
theorem run_registers {is : List (Invocation Request)} {t : RegistryStep}
    (ht : t ∈ (machine registry).history Storage.empty is) (hok : t.reply.Succeeded) {r : ProofRecord}
    (hact : t.act = (.registerProof r.proofIdHash r.commitmentHash r.issuerAddress r.schemaVersion
      r.expiresAt, r.createdAt)) :
    Registers registry t r ∧ 1 ≤ r.schemaVersion ∧ r.createdAt < r.expiresAt ∧
      isValidPrincipalAddress r.issuerAddress = true ∧ r.issuerAddress ≠ registry ∧
      ∃ cfg reg, ((machine registry).run Storage.empty is).entries .inst .protocolConfig = some cfg ∧
        ((machine registry).run Storage.empty is).entries .inst .issuerRegistry = some reg ∧
        r.issuerAddress ≠ cfg ∧ r.issuerAddress ≠ reg := by
  have hcall : t.input.call.call = .registerProof r.proofIdHash r.commitmentHash r.issuerAddress
      r.schemaVersion r.expiresAt := congrArg Prod.fst hact
  have htime : t.input.env.timestamp = r.createdAt := congrArg Prod.snd hact
  obtain ⟨a, b, his, heq⟩ := (machine registry).mem_history ht
  rcases contractAt_history request_realizes registry ht with ⟨v, _, hE⟩ | ⟨e, hr, _⟩
  · have hpre : t.pre = (machine registry).run Storage.empty a := by rw [heq]; rfl
    have hE' : Effect t.input.call.clients {t.input.env with currentContract := registry} t.pre.entries
        () (.registerProof r.proofIdHash r.commitmentHash r.issuerAddress r.schemaVersion
          r.expiresAt) v t.post.entries t.reply.events () := by
      rw [← hcall]
      exact hE
    obtain ⟨cfg, reg, _, _, hvalid, hcfg, hreg, hself, hacfg, hareg, _, hn, he, hpaused, hschema,
      hactive, _⟩ := hE'
    have hadmin : t.pre.entries .inst .admin ≠ none := by
      intro hnone
      have hw := run_wiring registry a
      rw [← hpre] at hw
      rw [hw.protocolConfig.mpr hnone] at hcfg
      cases hcfg
    have hsame : SameWiring t.pre.entries ((machine registry).run Storage.empty is).entries := by
      rw [his, Machine.run_append, ← hpre]
      exact run_sameWiring registry hadmin (t.input :: b)
    have hpos : 1 ≤ r.schemaVersion := by
      rw [UInt32.le_iff_toNat_le]
      exact Nat.one_le_iff_ne_zero.mpr fun h0 => hn (UInt32.toNat_inj.mp h0)
    have hlt : r.createdAt < r.expiresAt := by
      rw [← htime]
      exact he
    exact ⟨⟨hok, hcall, htime, cfg, reg, hcfg, hreg, hpaused, hschema, hactive⟩, hpos, hlt,
      hvalid, hself, cfg, reg, hsame.protocolConfig.trans hcfg, hsame.issuerRegistry.trans hreg,
      hacfg, hareg⟩
  · exact absurd hok (Receipt.not_succeeded (congrArg Receipt.outcome hr))

/-- Every record stored after a chronological run. -/
theorem run_recorded {is : List (Invocation Request)}
    (htime : Machine.Chronological Invocation.time is) {id : BytesN 32} {r : ProofRecord}
    (hr : proofs ((machine registry).run Storage.empty is).entries id = some r) :
    Recorded registry ((machine registry).run Storage.empty is).entries
      ((machine registry).history Storage.empty is) id r := by
  obtain ⟨hid, t, hact, hstory⟩ := run_writers registry hr
  have hwriter : t ∈ writers id ((machine registry).history Storage.empty is) := by
    rcases hstory with ⟨_, _, hw⟩ | ⟨_, t', hw, _⟩ <;> simp [hw]
  obtain ⟨ht, hsel⟩ := List.mem_filter.mp hwriter
  have hok : t.reply.Succeeded := (of_decide_eq_true hsel).1
  rw [← hid] at hact
  obtain ⟨hreg, hn, he, hvalid, hself, hdeps⟩ := run_registers registry ht hok hact
  refine ⟨hid, hn, he, hvalid, hself, hdeps, t, hreg, ?_⟩
  rcases hstory with h | ⟨hst, t', hw, hrev, hat⟩
  · exact .inl h
  · have hpair : (writers id ((machine registry).history Storage.empty is)).Pairwise
        fun t t' => t.input.time ≤ t'.input.time :=
      (htime.history (machine registry) Storage.empty).filter _
    have hmem : t' ∈ writers id ((machine registry).history Storage.empty is) := by simp [hw]
    rw [hw] at hpair
    have hle : t.input.time ≤ t'.input.time := by simpa using hpair
    refine .inr ⟨hst, t', hw, hrev, hat, ?_, fun now hnow => ?_⟩
    · rw [← hreg.time, ← hat]
      exact hle
    · rw [← hat]
      exact hnow t' (List.mem_filter.mp hmem).1

/-- A later state still holds the record, unchanged or revoked since. -/
theorem run_keeps_record {is : List (Invocation Request)} {id : BytesN 32} {r : ProofRecord}
    (hr : proofs ((machine registry).run Storage.empty is).entries id = some r)
    (js : List (Invocation Request)) :
    proofs ((machine registry).run Storage.empty (is ++ js)).entries id = some r ∨
      (r.status = .active ∧ ∃ t,
        proofs ((machine registry).run Storage.empty (is ++ js)).entries id =
          some {r with status := .revoked, revokedAt := t}) := by
  have hbefore := run_life registry is id
  have hafter := run_life registry (is ++ js) id
  rw [Machine.history_append, acts, List.filter_append, List.map_append, story,
    List.filter_append] at hafter
  rw [hr] at hbefore
  rcases hbefore.extend hafter with hsame | ⟨hactive, _, t, _, _, hrev⟩
  · exact .inl hsame
  · exact .inr ⟨hactive, t, hrev⟩

/-- Once stored, a proof record stays: everything but its status is fixed, its status goes
from active to revoked at most once, and what it says is what the run did. -/
theorem record_lifecycle (is js : List (Invocation Request))
    (htime : Machine.Chronological Invocation.time (is ++ js)) (id : BytesN 32) (r : ProofRecord)
    (hr : proofs ((machine registry).run Storage.empty is).entries id = some r) :
    Recorded registry ((machine registry).run Storage.empty is).entries
        ((machine registry).history Storage.empty is) id r ∧
      ∃ r', proofs ((machine registry).run Storage.empty (is ++ js)).entries id = some r' ∧
        Recorded registry ((machine registry).run Storage.empty (is ++ js)).entries
          ((machine registry).history Storage.empty (is ++ js)) id r' ∧
        r'.proofIdHash = r.proofIdHash ∧ r'.commitmentHash = r.commitmentHash ∧
        r'.issuerAddress = r.issuerAddress ∧ r'.schemaVersion = r.schemaVersion ∧
        r'.expiresAt = r.expiresAt ∧ r'.createdAt = r.createdAt ∧
        (r' = r ∨ (r.status = .active ∧ r'.status = .revoked)) := by
  have htime' : Machine.Chronological Invocation.time is :=
    (List.pairwise_append.mp htime).1
  refine ⟨run_recorded registry htime' hr, ?_⟩
  rcases run_keeps_record registry hr js with hsame | ⟨hactive, t, hrev⟩
  · exact ⟨r, hsame, run_recorded registry htime hsame, rfl, rfl, rfl, rfl, rfl, rfl, .inl rfl⟩
  · exact ⟨_, hrev, run_recorded registry htime hrev, rfl, rfl, rfl, rfl, rfl, rfl,
      .inr ⟨hactive, rfl⟩⟩

namespace Example

def account (b : UInt8) : Address := ⟨.account, .fill 32 b⟩

/-- Everybody signs, at time `t`. -/
def env (t : UInt64) : Env where
  currentContract := account 9
  timestamp := t
  sequence := 1
  signed := fun _ => true
  installable := fun _ => true
  minimumTtl := 4096

/-- Dependencies that let every registration through. -/
def clients : Clients Unit where
  isPaused := fun _ _ w => (.ok false, w)
  isSchemaVersionApproved := fun _ _ _ w => (.ok true, w)
  isActiveAddress := fun _ _ _ w => (.ok true, w)

def registered : List (Invocation Request) :=
  [⟨⟨.initializeContract (account 1) (account 2) (account 3), clients⟩, env 1⟩,
    ⟨⟨.registerProof (.fill 32 7) (.fill 32 8) (account 4) 1 10, clients⟩, env 2⟩]

def revoked : List (Invocation Request) := [⟨⟨.revokeProof (.fill 32 7), clients⟩, env 3⟩]

def record : ProofRecord := ⟨.fill 32 7, .fill 32 8, account 4, .active, 1, 10, 2, 0⟩

end Example

/-- A registration at time two and its revocation at time three. -/
theorem record_lifecycle_example :
    ∃ r', proofs ((machine (Example.account 9)).run Storage.empty
        (Example.registered ++ Example.revoked)).entries (.fill 32 7) = some r' ∧
      r'.createdAt = 2 ∧ (r' = Example.record ∨ r'.status = .revoked) := by
  obtain ⟨_, r', hr', _, _, _, _, _, _, hcreated, hstatus⟩ :=
    record_lifecycle (Example.account 9) Example.registered Example.revoked (by decide)
      (.fill 32 7) Example.record (by decide +kernel)
  exact ⟨r', hr', hcreated, hstatus.imp_right And.right⟩

end EarnProof.ProofRegistry

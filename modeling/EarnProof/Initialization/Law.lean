import EarnProof.Soroban.Contract
import EarnProof.Upgrade.Governance

/-! One-shot initialization.

A contract that takes an admin once, and whose other calls change nothing before that,
obeys one law in every run: `initialize` goes through at most once, until then the
storage is empty and every call that could change it fails, and from then on there is an
admin with a valid address. -/
namespace EarnProof
open Soroban

section
variable {K C Ev : Type} {V : K → Type}

/-- A table of effects in which `initializes` marks the call that installs the admin and
`mutates` the calls that can change something. -/
structure OneShot (G : Governance V) (initializes mutates : C → Bool)
    (Effect : Env → Entries V → C → Value → Entries V → List Ev → Prop) : Prop where
  init : ∀ {env d c v d' events}, initializes c = true → Effect env d c v d' events →
    G.admin.read d = none ∧ ∃ a, isValidPrincipalAddress a = true ∧ G.admin.read d' = some a
  guarded : ∀ {env d c v d' events}, initializes c = false → mutates c = true →
    Effect env d c v d' events → d ≠ Entries.empty
  query : ∀ {env d c v d' events}, mutates c = false → Effect env d c v d' events → d' = d
  admin : ∀ {env d c v d' events}, initializes c = false → Effect env d c v d' events →
    G.admin.read d' = G.admin.read d ∨
      ∃ a b, G.admin.read d = some a ∧ G.admin.read d' = some b ∧ isValidPrincipalAddress b = true

/-- No call takes the admin away. -/
theorem OneShot.admin_stays {G : Governance V} {initializes mutates : C → Bool}
    {Effect : Env → Entries V → C → Value → Entries V → List Ev → Prop}
    (hone : OneShot G initializes mutates Effect) {env : Env} {d d' : Entries V} {c : C} {v : Value}
    {events : List Ev} (h : Effect env d c v d' events) (hd : G.admin.read d ≠ none) :
    G.admin.read d' ≠ none := by
  cases hc : initializes c with
  | true => exact absurd (hone.init hc h).1 hd
  | false =>
    rcases hone.admin hc h with hsame | ⟨_, b, _, hb, _⟩
    · rw [hsame]
      exact hd
    · simp [hb]

/-- A contract without an admin has no values. -/
theorem OneShot.untouched {G : Governance V} {initializes mutates : C → Bool}
    {Effect : Env → Entries V → C → Value → Entries V → List Ev → Prop}
    (hone : OneShot G initializes mutates Effect) {env : Env} {d d' : Entries V} {c : C} {v : Value}
    {events : List Ev} (h : Effect env d c v d' events)
    (hd : G.admin.read d = none → d = Entries.empty) (hnone : G.admin.read d' = none) :
    d' = Entries.empty := by
  have hempty : d = Entries.empty := by
    by_contra hne
    exact hone.admin_stays h (fun hnone => hne (hd hnone)) hnone
  cases hc : initializes c with
  | true =>
    obtain ⟨_, a, _, ha⟩ := hone.init hc h
    rw [ha] at hnone
    cases hnone
  | false =>
    cases hm : mutates c with
    | true => exact absurd hempty (hone.guarded hc hm h)
    | false => rw [hone.query hm h, hempty]

/-- A step at which the contract is initialized. -/
def Initialization (initializes : C → Bool)
    (t : Machine.Step (Invocation C) (Receipt Ev Value) (Storage V)) : Prop :=
  initializes t.input.call = true ∧ t.reply.Succeeded

instance (initializes : C → Bool)
    (t : Machine.Step (Invocation C) (Receipt Ev Value) (Storage V)) :
    Decidable (Initialization initializes t) :=
  inferInstanceAs (Decidable (_ ∧ _))

/-- What every run of a contract from empty storage obeys. -/
structure InitializationLaw (G : Governance V) (initializes mutates : C → Bool)
    (m : Machine (Invocation C) (Receipt Ev Value) (Storage V)) : Prop where
  once : ∀ is, (m.history Storage.empty is).countP (fun t => decide (Initialization initializes t)) ≤ 1
  before : ∀ is, (∀ t ∈ m.history Storage.empty is, ¬ Initialization initializes t) →
    (m.run Storage.empty is).entries = Entries.empty ∧
      ∀ i, mutates i.call = true → initializes i.call = false →
        ¬ (m.reply i (m.run Storage.empty is)).Succeeded
  after : ∀ is, (∃ t ∈ m.history Storage.empty is, Initialization initializes t) →
    G.admin.read (m.run Storage.empty is).entries ≠ none
  valid : ∀ is a, G.admin.read (m.run Storage.empty is).entries = some a →
    isValidPrincipalAddress a = true
  query : ∀ i s, mutates i.call = false → (m.next i s).entries = s.entries

variable {program : C → Program V Ev Unit ErrorCode Value}
  {Effect : Env → Entries V → C → Value → Entries V → List Ev → Prop}
  {G : Governance V} {initializes mutates : C → Bool}
  (hprog : ∀ c, Realizes (program c) fun env d w v d' events w' =>
    w' = w ∧ Effect env d c v d' events)
  (hone : OneShot G initializes mutates Effect) (self : Address)
include hprog hone

theorem oneShot_query (i : Invocation C) (s : Storage V) (hc : mutates i.call = false) :
    ((contractAt program self).next i s).entries = s.entries := by
  rcases contractAt_cases hprog self i s with ⟨v, _, hE⟩ | ⟨e, _, hs, _⟩
  · exact hone.query hc hE
  · rw [hs]

/-- One step: an initialization finds no admin and leaves one, and every other step keeps
an admin where there is one and empty storage where there is nothing. -/
theorem oneShot_step (i : Invocation C) (s : Storage V) :
    (Initialization initializes ((contractAt program self).stepAt i s) ∧
      G.admin.read s.entries = none ∧
      G.admin.read ((contractAt program self).next i s).entries ≠ none) ∨
    (¬ Initialization initializes ((contractAt program self).stepAt i s) ∧
      (G.admin.read s.entries ≠ none →
        G.admin.read ((contractAt program self).next i s).entries ≠ none) ∧
      (s.entries = Entries.empty →
        ((contractAt program self).next i s).entries = Entries.empty)) := by
  rcases contractAt_cases hprog self i s with ⟨v, hv, hE⟩ | ⟨e, hr, hs, _⟩
  · cases hc : initializes i.call with
    | true =>
      obtain ⟨hnone, a, _, ha⟩ := hone.init hc hE
      exact .inl ⟨⟨hc, v, hv⟩, hnone, by simp [ha]⟩
    | false =>
      refine .inr ⟨fun hinit => ?_, fun hsome => ?_, fun hempty => ?_⟩
      · have htrue : initializes i.call = true := hinit.1
        rw [hc] at htrue
        cases htrue
      · exact hone.admin_stays hE hsome
      · cases hm : mutates i.call with
        | true => exact absurd hempty (hone.guarded hc hm hE)
        | false => rw [hone.query hm hE, hempty]
  · refine .inr ⟨fun hinit => Receipt.not_succeeded (congrArg Receipt.outcome hr) hinit.2, ?_, ?_⟩
    · rw [hs]
      exact id
    · rw [hs]
      exact id

/-- Either the contract has not been initialized and has no values, or it has been once and
has an admin. -/
theorem oneShot_run (is : List (Invocation C)) :
    let steps := (contractAt program self).history Storage.empty is
    let s := (contractAt program self).run Storage.empty is
    (steps.countP (fun t => decide (Initialization initializes t)) = 0 ∧
      s.entries = Entries.empty) ∨
    (steps.countP (fun t => decide (Initialization initializes t)) = 1 ∧
      G.admin.read s.entries ≠ none) := by
  refine (contractAt program self).history_induction
    (fun _ steps s => (steps.countP (fun t => decide (Initialization initializes t)) = 0 ∧
      s.entries = Entries.empty) ∨
      (steps.countP (fun t => decide (Initialization initializes t)) = 1 ∧
        G.admin.read s.entries ≠ none)) (.inl ⟨rfl, rfl⟩) (fun is i ih => ?_) is
  have hstep := oneShot_step hprog hone self i ((contractAt program self).run Storage.empty is)
  rw [List.countP_append]
  rcases hstep with ⟨hinit, hnone, hsome⟩ | ⟨hinit, hkeep, hempty⟩
  · rcases ih with ⟨hzero, _⟩ | ⟨_, hadmin⟩
    · exact .inr ⟨by simp [hzero, hinit], hsome⟩
    · exact absurd hnone hadmin
  · rcases ih with ⟨hzero, he⟩ | ⟨hcount, hadmin⟩
    · exact .inl ⟨by simp [hzero, hinit], hempty he⟩
    · exact .inr ⟨by simp [hcount, hinit], hkeep hadmin⟩

theorem oneShot_valid (is : List (Invocation C)) {a : Address}
    (ha : G.admin.read ((contractAt program self).run Storage.empty is).entries = some a) :
    isValidPrincipalAddress a = true := by
  refine contractAt_invariant hprog
    (fun d => ∀ a, G.admin.read d = some a → isValidPrincipalAddress a = true)
    (fun env d c v d' events hE hd a ha => ?_) self (by simp) is a ha
  cases hc : initializes c with
  | true =>
    obtain ⟨_, b, hvalid, hb⟩ := hone.init hc hE
    rw [hb] at ha
    cases ha
    exact hvalid
  | false =>
    rcases hone.admin hc hE with hsame | ⟨_, b, _, hb, hvalid⟩
    · rw [hsame] at ha
      exact hd a ha
    · rw [hb] at ha
      cases ha
      exact hvalid

omit hprog hone in
theorem OneShot.law (hone : OneShot G initializes mutates Effect)
    (hprog : ∀ c, Realizes (program c) fun env d w v d' events w' =>
      w' = w ∧ Effect env d c v d' events) (self : Address) :
    InitializationLaw G initializes mutates (contractAt program self) where
  once := by
    intro is
    rcases oneShot_run hprog hone self is with ⟨hcount, _⟩ | ⟨hcount, _⟩ <;> omega
  before := by
    intro is hno
    rcases oneShot_run hprog hone self is with ⟨_, hempty⟩ | ⟨hcount, _⟩
    · refine ⟨hempty, fun i hm hc hok => ?_⟩
      obtain ⟨v, d', events, hE⟩ := (contractAt_succeeded hprog).mp hok
      exact hone.guarded hc hm hE hempty
    · have hzero : ((contractAt program self).history Storage.empty is).countP
          (fun t => decide (Initialization initializes t)) = 0 :=
        List.countP_eq_zero.mpr fun t ht => by simpa using hno t ht
      rw [hcount] at hzero
      cases hzero
  after := by
    intro is hsome
    obtain ⟨t, ht, hinit⟩ := hsome
    rcases oneShot_run hprog hone self is with ⟨hcount, _⟩ | ⟨_, hadmin⟩
    · exact absurd hinit (by simpa using List.countP_eq_zero.mp hcount t ht)
    · exact hadmin
  valid := fun is _ ha => oneShot_valid hprog hone self is ha
  query := oneShot_query hprog hone self

end
end EarnProof

import EarnProof.Soroban.Machine
import EarnProof.Soroban.Program

/-! A deployed contract as a step machine.

The contract at an address takes one invocation at a time. When its programs realize
a table of effects, each step has the effect of its call or fails and changes
nothing, and what every effect of the table preserves holds after every run. -/
namespace Soroban

/-- The contract at address `self` whose calls run `program`. -/
def contractAt {K C Ev ρ : Type} {V : K → Type} (program : C → Program V Ev Unit ErrorCode ρ)
    (self : Address) : Machine (Invocation C) (Receipt Ev ρ) (Storage V) where
  step := fun i s =>
    let r := invoke (program i.call) {i.env with currentContract := self} s ()
    (r.1, r.2.1)

/-- The events of the steps taken, in order. -/
def log {ι Ev ρ σ : Type} (steps : List (Machine.Step ι (Receipt Ev ρ) σ)) : List Ev :=
  steps.flatMap fun t => t.reply.events

section
variable {K C Ev ρ : Type} {V : K → Type} {program : C → Program V Ev Unit ErrorCode ρ}
  {Effect : Env → Entries V → C → ρ → Entries V → List Ev → Prop}
  (hprog : ∀ c, Realizes (program c) fun env d w v d' events w' =>
    w' = w ∧ Effect env d c v d' events)
include hprog

/-- An invocation has the effect of its call, or fails because the call has none here,
and then changes nothing. -/
theorem contractAt_cases (self : Address) (i : Invocation C) (s : Storage V) :
    (∃ v, ((contractAt program self).reply i s).outcome = .ok v ∧
      Effect {i.env with currentContract := self} s.entries i.call v
        ((contractAt program self).next i s).entries
        ((contractAt program self).reply i s).events) ∨
    (∃ e, (contractAt program self).reply i s = ⟨.error e, []⟩ ∧
      (contractAt program self).next i s = s ∧
      ∀ v d' events,
        ¬ Effect {i.env with currentContract := self} s.entries i.call v d' events) := by
  rcases invoke_cases (hprog i.call) {i.env with currentContract := self} s () with
    ⟨v, ho, _, hE⟩ | ⟨e, hrun, hE⟩
  · exact .inl ⟨v, ho, hE⟩
  · refine .inr ⟨e, ?_, ?_, fun v d' events h => hE v d' events () ⟨rfl, h⟩⟩
    · simp only [Machine.reply, contractAt, hrun]
    · simp only [Machine.next, contractAt, hrun]

/-- An invocation whose effect is possible has it. -/
theorem contractAt_ok {self : Address} {i : Invocation C} {s : Storage V} {v : ρ} {d' : Entries V}
    {events : List Ev}
    (hE : Effect {i.env with currentContract := self} s.entries i.call v d' events) :
    (contractAt program self).reply i s = ⟨.ok v, events⟩ ∧
      ((contractAt program self).next i s).entries = d' := by
  have hworld : () = () ∧ Effect {i.env with currentContract := self} s.entries i.call v d' events :=
    ⟨rfl, hE⟩
  obtain ⟨hr, hd, -⟩ := invoke_ok (hprog i.call) hworld
  exact ⟨hr, hd⟩

theorem contractAt_outcome {self : Address} {i : Invocation C} {s : Storage V} {v : ρ}
    {d' : Entries V} {events : List Ev}
    (hE : Effect {i.env with currentContract := self} s.entries i.call v d' events) :
    ((contractAt program self).reply i s).outcome = .ok v :=
  congrArg Receipt.outcome (contractAt_ok hprog hE).1

theorem contractAt_succeeded {self : Address} {i : Invocation C} {s : Storage V} :
    ((contractAt program self).reply i s).Succeeded ↔
      ∃ v d' events, Effect {i.env with currentContract := self} s.entries i.call v d' events := by
  constructor
  · intro hok
    rcases contractAt_cases hprog self i s with ⟨v, _, hE⟩ | ⟨e, hr, _⟩
    · exact ⟨_, _, _, hE⟩
    · exact absurd hok (Receipt.not_succeeded (congrArg Receipt.outcome hr))
  · rintro ⟨v, d', events, hE⟩
    rw [(contractAt_ok hprog hE).1]
    exact ⟨v, rfl⟩

/-- What every effect preserves holds after every run. -/
theorem contractAt_invariant (I : Entries V → Prop)
    (hI : ∀ env d c v d' events, Effect env d c v d' events → I d → I d') (self : Address)
    {s : Storage V} (h : I s.entries) (is : List (Invocation C)) :
    I ((contractAt program self).run s is).entries := by
  refine (contractAt program self).invariant_run (fun s => I s.entries) (fun i s hs => ?_) h is
  rcases contractAt_cases hprog self i s with ⟨v, -, hE⟩ | ⟨e, -, hs', -⟩
  · exact hI _ _ _ _ _ _ hE hs
  · rw [hs']
    exact hs

/-- Every step of a run has the effect of its call, or failed and changed nothing. -/
theorem contractAt_history (self : Address) {s : Storage V} {is : List (Invocation C)}
    {t : Machine.Step (Invocation C) (Receipt Ev ρ) (Storage V)}
    (ht : t ∈ (contractAt program self).history s is) :
    (∃ v, t.reply.outcome = .ok v ∧
      Effect {t.input.env with currentContract := self} t.pre.entries t.input.call v t.post.entries
        t.reply.events) ∨
    (∃ e, t.reply = ⟨.error e, []⟩ ∧ t.post = t.pre) := by
  obtain ⟨a, _, _, heq⟩ := (contractAt program self).mem_history ht
  rw [heq]
  rcases contractAt_cases hprog self t.input ((contractAt program self).run s a) with
    h | ⟨e, hr, hs, _⟩
  · exact .inl h
  · exact .inr ⟨e, hr, hs⟩

/-- A view of the values that every effect moves as its events say is, after every
run, what the log of the run makes of the view at the start. -/
theorem contractAt_replay {X : Type} (view : Entries V → X) (apply : X → Ev → X)
    (happly : ∀ env d c v d' events, Effect env d c v d' events →
      view d' = events.foldl apply (view d)) (self : Address) (s : Storage V)
    (is : List (Invocation C)) :
    view ((contractAt program self).run s is).entries =
      (log ((contractAt program self).history s is)).foldl apply (view s.entries) := by
  induction is generalizing s with
  | nil => rfl
  | cons i rest ih =>
    have hstep : view ((contractAt program self).next i s).entries =
        ((contractAt program self).reply i s).events.foldl apply (view s.entries) := by
      rcases contractAt_cases hprog self i s with ⟨v, _, hE⟩ | ⟨e, hr, hs, _⟩
      · exact happly _ _ _ _ _ _ hE
      · rw [hr, hs]
        rfl
    show view ((contractAt program self).run ((contractAt program self).next i s) rest).entries = _
    rw [ih, hstep, ← List.foldl_append]
    rfl

end
end Soroban

import EarnProof.Soroban.Contract

/-! Why a call is refused.

Each operation has a second rule, `x env f = (.error e, f') ↔ …`: when it fails, with
what, and the frame it leaves, which still holds everything written before. The checks
of a call are listed in the order the code makes them, and `refusal` is the failure of
the first that does not pass. -/
namespace Soroban

/-! ### When an operation fails -/

def Failure.map {ε ε' : Type} (h : ε → ε') : Failure ε → Failure ε'
  | .error e => .error (h e)
  | .abort a => .abort a

section Rules
variable {K : Type} {V : K → Type} {Ev W ε ε' α β : Type} {env : Env} {f f' : Frame V Ev W}
  {y : Failure ε}

@[simp, grind =] theorem Failure.map_error (h : ε → ε') (e : ε) :
    (Failure.error e).map h = .error (h e) := rfl

@[simp, grind =] theorem Failure.map_abort (h : ε → ε') (a : Abort) :
    (Failure.abort a : Failure ε).map h = .abort a := rfl

@[simp] theorem pure_error {a : α} :
    (pure a : Program V Ev W ε α) env f ≠ (.error y, f') := by
  simp [pure]

@[simp] theorem bind_error {x : Program V Ev W ε α} {g : α → Program V Ev W ε β} :
    (x >>= g) env f = (.error y, f') ↔
      x env f = (.error y, f') ∨ ∃ a f₁, x env f = (.ok a, f₁) ∧ g a env f₁ = (.error y, f') := by
  simp only [bind]
  rcases x env f with ⟨_ | a, f₁⟩ <;> simp [and_assoc]

@[simp] theorem rejectIf_error {p : Bool} {e : ε} :
    (rejectIf p e : Program V Ev W ε Unit) env f = (.error y, f') ↔
      p = true ∧ y = .error e ∧ f' = f := by
  cases p <;> simp [rejectIf, eq_comm]

@[simp] theorem panicIf_error {p : Bool} {message : String} :
    (panicIf p message : Program V Ev W ε Unit) env f = (.error y, f') ↔
      p = true ∧ y = .abort (.panic message) ∧ f' = f := by
  cases p <;> simp [panicIf, eq_comm]

@[simp] theorem okOr_error {o : Option α} {e : ε} :
    (okOr o e : Program V Ev W ε α) env f = (.error y, f') ↔
      o = none ∧ y = .error e ∧ f' = f := by
  cases o <;> simp [okOr, eq_comm]

@[simp] theorem mapErr_error {x : Program V Ev W ε' α} {h : ε' → ε} :
    mapErr x h env f = (.error y, f') ↔ ∃ z, x env f = (.error z, f') ∧ y = z.map h := by
  unfold mapErr
  rcases x env f with ⟨(e | c) | b, f₁⟩ <;> simp [Failure.map, eq_comm, and_comm]

@[simp] theorem attempt_error {x : Program V Ev W ε' α} :
    (attempt x : Program V Ev W ε (Except ε' α)) env f = (.error y, f') ↔
      ∃ a, x env f = (.error (.abort a), f') ∧ y = .abort a := by
  unfold attempt
  rcases x env f with ⟨(e | c) | b, f₁⟩ <;> simp [eq_comm, and_comm]

@[simp] theorem timestamp_error :
    (timestamp : Program V Ev W ε UInt64) env f ≠ (.error y, f') := by
  simp [timestamp]

@[simp] theorem requireAuth_error {a : Address} :
    (requireAuth a : Program V Ev W ε Unit) env f = (.error y, f') ↔
      env.signed a = false ∧ y = .abort .auth ∧ f' = f := by
  unfold requireAuth
  cases env.signed a <;> simp [eq_comm]

@[simp] theorem updateCurrentContractWasm_error {hash : BytesN 32} :
    (updateCurrentContractWasm hash : Program V Ev W ε Unit) env f = (.error y, f') ↔
      env.installable hash = false ∧ y = .abort .host ∧ f' = f := by
  unfold updateCurrentContractWasm
  cases env.installable hash <;> simp [eq_comm]

@[simp] theorem callContract_error {call : Env → W → Except Abort α × W} :
    (callContract call : Program V Ev W ε α) env f = (.error y, f') ↔
      ∃ a w, call env f.world = (.error a, w) ∧ y = .abort a ∧ f' = {f with world := w} := by
  unfold callContract
  rcases call env f.world with ⟨e | b, w⟩
  · simp [and_assoc, eq_comm]
  · simp

section Entries
variable [DecidableEq K] {c : StorageClass} {k : K}

@[simp] theorem has_error : (has c k : Program V Ev W ε Bool) env f ≠ (.error y, f') := by
  simp [has]

@[simp] theorem get_error :
    (get c k : Program V Ev W ε (Option (V k))) env f ≠ (.error y, f') := by
  simp [get]

@[simp] theorem extendTtl_error {threshold extendTo : Nat} :
    (extendTtl k threshold extendTo : Program V Ev W ε Unit) env f = (.error y, f') ↔
      f.entries .persistent k = none ∧ y = .abort .host ∧ f' = f := by
  unfold extendTtl
  cases f.entries .persistent k <;> simp [eq_comm]

@[simp] theorem Slot.get_error {s : Slot V α} :
    (s.get : Program V Ev W ε (Option α)) env f ≠ (.error y, f') := by
  obtain ⟨k, rfl⟩ := s
  simp [Slot.get]

end Entries
end Rules

/-! ### Checks -/

/-- One check of a call: whether it fails here, and the failure then. -/
structure Check where
  fails : Bool
  failure : Failure ErrorCode
  deriving DecidableEq

/-- The failure of the first check that does not pass. -/
def refusal : List Check → Option (Failure ErrorCode)
  | [] => none
  | c :: rest => if c.fails then some c.failure else refusal rest

@[simp] theorem refusal_nil : refusal [] = none := rfl

@[simp] theorem refusal_cons (p : Bool) (e : Failure ErrorCode) (rest : List Check) :
    refusal (⟨p, e⟩ :: rest) = if p then some e else refusal rest := rfl

theorem refusal_mem {l : List Check} {e : Failure ErrorCode} (h : refusal l = some e) :
    ∃ c ∈ l, c.fails = true ∧ c.failure = e := by
  induction l with
  | nil => cases h
  | cons c rest ih =>
    obtain ⟨p, e'⟩ := c
    rw [refusal_cons] at h
    split at h
    · next hp =>
      cases h
      exact ⟨_, List.mem_cons_self .., hp, rfl⟩
    · obtain ⟨c, hc, hfails⟩ := ih h
      exact ⟨c, List.mem_cons_of_mem _ hc, hfails⟩

theorem refusal_eq_none {l : List Check} : refusal l = none ↔ ∀ c ∈ l, c.fails = false := by
  induction l with
  | nil => simp
  | cons c rest ih =>
    obtain ⟨p, e⟩ := c
    cases p <;> simp [ih]

theorem refusal_append (l l' : List Check) : refusal (l ++ l') = (refusal l).or (refusal l') := by
  induction l with
  | nil => rfl
  | cons c rest ih =>
    obtain ⟨p, e⟩ := c
    cases p with
    | true => rfl
    | false => exact ih

/-- What the last check alone refuses with has passed every check before it. -/
theorem refusal_last {l : List Check} {p : Bool} {e : Failure ErrorCode}
    (h : refusal (l ++ [⟨p, e⟩]) = some e) (hl : ∀ c ∈ l, c.failure ≠ e) : refusal l = none := by
  cases hrefused : refusal l with
  | none => rfl
  | some e' =>
    rw [refusal_append, hrefused] at h
    cases h
    obtain ⟨c, hc, _, he⟩ := refusal_mem hrefused
    exact absurd he (hl c hc)

/-- Later checks that fail otherwise do not matter for a failure. -/
theorem refusal_append_eq {l l' : List Check} {e : Failure ErrorCode}
    (h : ∀ c ∈ l', c.failure ≠ e) : refusal (l ++ l') = some e ↔ refusal l = some e := by
  rw [refusal_append]
  cases hl : refusal l with
  | some e' => rfl
  | none =>
    simp only [Option.none_or, reduceCtorEq, iff_false]
    intro hl'
    obtain ⟨c, hc, -, hfailure⟩ := refusal_mem hl'
    exact h c hc hfailure

/-- The check of a `require_auth` whose address is read from storage. -/
def Check.requireAuth (env : Env) (o : Option Address) : Check := ⟨!o.any env.signed, .abort .auth⟩

/-! ### Calls and their checks -/

section Calls
variable {K : Type} {V : K → Type} {Ev W ρ : Type}

/-- `x` returns when all its checks pass, and otherwise fails with the first that does
not; `leftover d e` is then what it has made of the values `d`. -/
structure Refuses (x : Program V Ev W ErrorCode ρ) (checks : Env → Entries V → W → List Check)
    (leftover : Entries V → Failure ErrorCode → Entries V) : Prop where
  error : ∀ {env f e f'}, x env f = (.error e, f') →
    refusal (checks env f.entries f.world) = some e ∧ f'.entries = leftover f.entries e
  ok : ∀ {env f v f'}, f.events = [] → x env f = (.ok v, f') →
    refusal (checks env f.entries f.world) = none

variable {x : Program V Ev W ErrorCode ρ} {checks : Env → Entries V → W → List Check}
  {leftover : Entries V → Failure ErrorCode → Entries V}

/-- An effect that requires the checks to pass makes the code that realizes it pass them. -/
theorem Realizes.passes {E : Env → Entries V → W → ρ → Entries V → List Ev → W → Prop}
    (hx : Realizes x E)
    (hE : ∀ {env d w v d' events w'}, E env d w v d' events w' → refusal (checks env d w) = none)
    {env : Env} {f f' : Frame V Ev W} {v : ρ} (hevents : f.events = [])
    (h : x env f = (.ok v, f')) : refusal (checks env f.entries f.world) = none := by
  have hstart : f.events ++ f'.events = f'.events := by
    rw [hevents]
    rfl
  exact hE ((hx env f v f'.entries f'.events f'.world).mp ⟨f', rfl, h, rfl, hstart⟩)

theorem invoke_error_iff (h : Refuses x checks leftover) {env : Env} {s : Storage V} {w : W}
    {e : Failure ErrorCode} :
    (invoke x env s w).1.outcome = .error e ↔ refusal (checks env s.entries w) = some e := by
  rw [invoke_outcome]
  rcases hx : x env ⟨s.load env.minimumTtl env.sequence, [], w⟩ with ⟨e' | v, f'⟩
  · have hrefused : refusal (checks env s.entries w) = some e' := (h.error hx).1
    rw [hrefused]
    simp
  · have hpassed : refusal (checks env s.entries w) = none := h.ok rfl hx
    rw [hpassed]
    simp

/-- Two invocations whose checks agree and whose effects correspond: they reply alike, and
leave corresponding values or both change nothing. -/
theorem invoke_transfer {E : Env → Entries V → W → ρ → Entries V → List Ev → W → Prop}
    (hx : Realizes x E) (hrefuses : Refuses x checks leftover) {env : Env} {s s' : Storage V}
    {w w' : W} {R : Entries V → W → Entries V → W → Prop}
    (hchecks : checks env s'.entries w' = checks env s.entries w)
    (hE : ∀ v d₁ events w₁, E env s.entries w v d₁ events w₁ →
      ∃ d₁' w₁', E env s'.entries w' v d₁' events w₁' ∧ R d₁ w₁ d₁' w₁') :
    (∃ v events, (invoke x env s w).1 = ⟨.ok v, events⟩ ∧ (invoke x env s' w').1 = ⟨.ok v, events⟩ ∧
      R (invoke x env s w).2.1.entries (invoke x env s w).2.2
        (invoke x env s' w').2.1.entries (invoke x env s' w').2.2) ∨
    ∃ e, invoke x env s w = (⟨.error e, []⟩, s, w) ∧ invoke x env s' w' = (⟨.error e, []⟩, s', w') := by
  rcases invoke_cases hx env s w with ⟨v, hv, h⟩ | ⟨e, hrun, -⟩
  · obtain ⟨d₁', w₁', h', hR⟩ := hE _ _ _ _ h
    obtain ⟨hr, hd, hw⟩ := invoke_ok hx h'
    refine .inl ⟨v, _, ?_, hr, ?_⟩
    · rw [← hv]
    · rw [hd, hw]
      exact hR
  · have herror : (invoke x env s w).1.outcome = .error e := by rw [hrun]
    rw [invoke_error_iff hrefuses, ← hchecks, ← invoke_error_iff hrefuses] at herror
    rcases invoke_cases hx env s' w' with ⟨v, hv, -⟩ | ⟨e', hrun', -⟩
    · rw [hv] at herror
      cases herror
    · rw [hrun'] at herror
      cases herror
      exact .inr ⟨e, hrun, hrun'⟩

end Calls

/-- A deployed contract refuses a call with the first of its checks that fails. -/
theorem contractAt_error_iff {K C Ev ρ : Type} {V : K → Type}
    {program : C → Program V Ev Unit ErrorCode ρ} {checks : C → Env → Entries V → Unit → List Check}
    {leftover : C → Entries V → Failure ErrorCode → Entries V}
    (h : ∀ c, Refuses (program c) (checks c) (leftover c)) {self : Address} {i : Invocation C}
    {s : Storage V} {e : Failure ErrorCode} :
    ((contractAt program self).reply i s).outcome = .error e ↔
      refusal (checks i.call {i.env with currentContract := self} s.entries ()) = some e :=
  invoke_error_iff (h i.call)

/-- One call to two states of a contract on which its checks agree and its effects
correspond: the replies are the same, and the states correspond or stay. -/
theorem contractAt_transfer {K C Ev ρ : Type} {V : K → Type}
    {program : C → Program V Ev Unit ErrorCode ρ}
    {Effect : Env → Entries V → C → ρ → Entries V → List Ev → Prop}
    {checks : Env → Entries V → C → List Check} {leftover : C → Entries V → Failure ErrorCode → Entries V}
    (hprog : ∀ c, Realizes (program c) fun env d w v d' events w' =>
      w' = w ∧ Effect env d c v d' events)
    (hrefuses : ∀ c, Refuses (program c) (fun env d _ => checks env d c) (leftover c))
    (self : Address) (c : C) (env : Env) (s s' : Storage V) {R : Entries V → Entries V → Prop}
    (hchecks : checks {env with currentContract := self} s'.entries c =
      checks {env with currentContract := self} s.entries c)
    (hE : ∀ v d₁ events, Effect {env with currentContract := self} s.entries c v d₁ events →
      ∃ d₁', Effect {env with currentContract := self} s'.entries c v d₁' events ∧ R d₁ d₁') :
    let m := contractAt program self
    let i : Invocation C := ⟨c, env⟩
    (∃ v events, m.reply i s = ⟨.ok v, events⟩ ∧ m.reply i s' = ⟨.ok v, events⟩ ∧
      R (m.next i s).entries (m.next i s').entries) ∨
    ∃ e, m.reply i s = ⟨.error e, []⟩ ∧ m.reply i s' = ⟨.error e, []⟩ ∧ m.next i s = s ∧
      m.next i s' = s' := by
  intro m i
  have heffects : ∀ v d₁ events w₁,
      (w₁ = () ∧ Effect {env with currentContract := self} s.entries c v d₁ events) →
      ∃ d₁' w₁', (w₁' = () ∧
        Effect {env with currentContract := self} s'.entries c v d₁' events) ∧ R d₁ d₁' := by
    intro v d₁ events w₁ h
    obtain ⟨d₁', h', hR⟩ := hE v d₁ events h.2
    exact ⟨d₁', (), ⟨rfl, h'⟩, hR⟩
  rcases invoke_transfer (hprog c) (hrefuses c) hchecks heffects with
    ⟨v, events, hr, hr', hR⟩ | ⟨e, hrun, hrun'⟩
  · exact .inl ⟨v, events, hr, hr', hR⟩
  · refine .inr ⟨e, congrArg Prod.fst hrun, congrArg Prod.fst hrun', ?_, ?_⟩
    · exact congrArg (fun r => r.2.1) hrun
    · exact congrArg (fun r => r.2.1) hrun'

end Soroban

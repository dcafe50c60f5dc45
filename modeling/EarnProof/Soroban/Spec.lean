import EarnProof.Soroban.Footprint
import EarnProof.Soroban.Refusal

/-! A call as a decision on the values.

What a call that passes its checks returns, writes and publishes is a function of the
values (`Outcome`); behind the checks it is the whole call. The code decides so on every
storage, whatever the lifetimes and the entries it wrote on its way to a failure
(`invoke_behind`, `contractAt_behind`). -/
namespace Soroban

section
variable {K : Type} {V : K → Type}

/-- One entry written: a value, or its removal. -/
structure Write (V : K → Type) where
  storage : StorageClass
  key : K
  value : Option (V key)

def Write.place (w : Write V) : StorageClass × K := (w.storage, w.key)

/-- What a call returns, writes and publishes. -/
structure Outcome (V : K → Type) (Ev ρ : Type) where
  value : ρ
  writes : List (Write V)
  events : List Ev

variable {Ev ρ W : Type}

/-- A call behind its checks: the failure of the first that does not pass, or the outcome. -/
def Outcome.behind (checks : List Check) (o : Outcome V Ev ρ) : Receipt Ev ρ × List (Write V) :=
  match refusal checks with
  | some e => (⟨.error e, []⟩, [])
  | none => (⟨.ok o.value, o.events⟩, o.writes)

/-- The outcome of a call that writes nothing. -/
def Outcome.query (value : ρ) : Outcome V Ev ρ := ⟨value, [], []⟩

theorem Outcome.behind_writes {checks : List Check} {o : Outcome V Ev ρ} {w : Write V}
    (h : w ∈ (o.behind checks).2) : w ∈ o.writes := by
  unfold Outcome.behind at h
  split at h
  · cases h
  · exact h

/-- A call whose checks and outcome look at `F` only, and whose writes are in `W`. -/
structure Bounded (guard : Entries V → List Check) (act : Entries V → Outcome V Ev ρ)
    (F W : Set (StorageClass × K)) : Prop where
  checks : ∀ d t, AgreeOn F d t → guard t = guard d
  outcome : ∀ d t, AgreeOn F d t → act t = act d
  writes : ∀ d, ∀ w ∈ (act d).writes, w.place ∈ W

/-- A query whose checks and answer are read off one entry. -/
theorem Bounded.lookup {guard : Entries V → List Check} {act : Entries V → Outcome V Ev ρ}
    {c : StorageClass} {k : K} (hguard : ∀ d t : Entries V, t c k = d c k → guard t = guard d)
    (hact : ∀ d t : Entries V, t c k = d c k → act t = act d) (hquery : ∀ d, (act d).writes = []) :
    Bounded guard act {(c, k)} ∅ := by
  refine ⟨fun d t h => hguard d t (h c k rfl), fun d t h => hact d t (h c k rfl), fun d w hw => ?_⟩
  rw [hquery] at hw
  cases hw

theorem Slot.read_agree {α : Type} (s : Slot V α) {d t : Entries V}
    (h : t .inst s.key = d .inst s.key) : s.read t = s.read d := by
  unfold Slot.read
  rw [h]

variable [DecidableEq K]

/-- The writes of a list, in order. -/
def Entries.putAll (d : Entries V) : List (Write V) → Entries V
  | [] => d
  | w :: rest => Entries.putAll (d.put w.storage w.key w.value) rest

theorem Entries.put_of_ne (d : Entries V) {c c' : StorageClass} {k k' : K} (o : Option (V k))
    (h : (c', k') ≠ (c, k)) : d.put c k o c' k' = d c' k' := by
  by_cases hk : k' = k
  · refine Entries.put_class d k k' o fun hc => h ?_
    rw [hk, hc]
  · exact Entries.put_key d c c' o hk

/-- The outcome is what happened: `v` returned, `d'` left and `events` published from `d`. -/
structure Outcome.Tells (o : Outcome V Ev ρ) (d : Entries V) (v : ρ) (d' : Entries V)
    (events : List Ev) : Prop where
  value : v = o.value
  entries : d' = d.putAll o.writes
  events : events = o.events

def Slot.write : {α : Type} → Slot V α → Option α → Write V
  | _, ⟨k, rfl⟩, o => ⟨.inst, k, o⟩

omit [DecidableEq K] in
@[simp] theorem Slot.write_place {α : Type} (s : Slot V α) (o : Option α) :
    (s.write o).place = (.inst, s.key) := by
  obtain ⟨k, rfl⟩ := s
  rfl

@[simp] theorem Slot.putAll_write {α : Type} (s : Slot V α) (d : Entries V) (o : Option α)
    (rest : List (Write V)) : d.putAll (s.write o :: rest) = Entries.putAll (s.put d o) rest := by
  obtain ⟨k, rfl⟩ := s
  rfl

section Invoke
variable {x : Program V Ev W ErrorCode ρ}
  {E : Env → Entries V → W → ρ → Entries V → List Ev → W → Prop}
  {checks : Env → Entries V → W → List Check} {leftover : Entries V → Failure ErrorCode → Entries V}

/-- An invocation replies and writes as its outcome behind its checks. -/
theorem invoke_behind (hx : Realizes x E) (hrefuses : Refuses x checks leftover) (env : Env)
    {s : Storage V} {w : W} {o : Outcome V Ev ρ}
    (ho : ∀ v d' events w', E env s.entries w v d' events w' → o.Tells s.entries v d' events) :
    (invoke x env s w).1 = (o.behind (checks env s.entries w)).1 ∧
      (invoke x env s w).2.1.entries = s.entries.putAll (o.behind (checks env s.entries w)).2 := by
  unfold Outcome.behind
  cases hr : refusal (checks env s.entries w) with
  | some e =>
    have herror : (invoke x env s w).1.outcome = .error e := (invoke_error_iff hrefuses).mpr hr
    rcases invoke_cases hx env s w with ⟨v, hv, _⟩ | ⟨e', hrun, _⟩
    · rw [hv] at herror
      cases herror
    · rw [hrun] at herror
      cases herror
      rw [hrun]
      exact ⟨rfl, rfl⟩
  | none =>
    rcases invoke_cases hx env s w with ⟨v, hv, hE⟩ | ⟨e, hrun, _⟩
    · obtain ⟨hvalue, hentries, hevents⟩ := ho _ _ _ _ hE
      refine ⟨?_, hentries⟩
      show _ = (⟨.ok o.value, o.events⟩ : Receipt Ev ρ)
      rw [← hvalue, ← hevents, ← hv]
    · have herror : (invoke x env s w).1.outcome = .error e := by rw [hrun]
      rw [invoke_error_iff hrefuses, hr] at herror
      cases herror

end Invoke
end

/-- An invocation of a deployed contract replies and writes as its outcome behind its
checks. -/
theorem contractAt_behind {K C Ev ρ : Type} [DecidableEq K] {V : K → Type}
    {program : C → Program V Ev Unit ErrorCode ρ}
    {Effect : Env → Entries V → C → ρ → Entries V → List Ev → Prop}
    {checks : Env → Entries V → C → List Check} {leftover : C → Entries V → Failure ErrorCode → Entries V}
    {o : Env → Entries V → C → Outcome V Ev ρ}
    (hprog : ∀ c, Realizes (program c) fun env d w v d' events w' =>
      w' = w ∧ Effect env d c v d' events)
    (hrefuses : ∀ c, Refuses (program c) (fun env d _ => checks env d c) (leftover c))
    (ho : ∀ env d c v d' events, Effect env d c v d' events → (o env d c).Tells d v d' events)
    (self : Address) (i : Invocation C) (s : Storage V) :
    let env : Env := {i.env with currentContract := self}
    let r := (o env s.entries i.call).behind (checks env s.entries i.call)
    (contractAt program self).reply i s = r.1 ∧
      ((contractAt program self).next i s).entries = s.entries.putAll r.2 :=
  invoke_behind (hprog i.call) (hrefuses i.call) _ fun _ _ _ _ hE => ho _ _ _ _ _ _ hE.2

end Soroban

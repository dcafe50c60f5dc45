import EarnProof.ProofRegistry.Effects

/-! The life of a proof record.

`Change` says once what a call can do to the stored records. Under one id a run is one
of three stories: nothing happened, a registration happened, or a registration and
then one revocation (`Life`); the stored record is the one the story tells. Whatever
is proved of a proof over runs is read off its story. -/
namespace EarnProof.ProofRegistry
open Soroban

/-- The stored proof records. -/
def proofs (d : Entries DataKey.Value) : BytesN 32 → Option ProofRecord :=
  fun id => d .persistent (.proof id)

section Put
variable (d : Entries DataKey.Value)

@[simp] theorem proofs_put_inst (k : DataKey) (o : Option k.Value) :
    proofs (d.put .inst k o) = proofs d := by
  funext id
  simp [proofs]

@[simp] theorem proofs_put_proof (id : BytesN 32) (o : Option ProofRecord) :
    proofs (d.put .persistent (.proof id) o) = Function.update (proofs d) id o := by
  funext id'
  by_cases h : id' = id
  · subst h
    simp [proofs]
  · rw [Function.update_of_ne h]
    simp [proofs, h]

end Put

/-! ### What a call does to the records -/

/-- The calls that can write the record of `id`. -/
def Call.writes (id : BytesN 32) : Call → Bool
  | .registerProof id' _ _ _ _ | .revokeProof id' | .adminRevokeProof id' => id' == id
  | _ => false

/-- `revoke_proof` or `admin_revoke_proof`. -/
def Call.Revokes (id : BytesN 32) (c : Call) : Prop := c = .revokeProof id ∨ c = .adminRevokeProof id

theorem Call.Revokes.writes {id : BytesN 32} {c : Call} (h : c.Revokes id) (id' : BytesN 32) :
    c.writes id' = (id == id') := by
  rcases h with rfl | rfl <;> rfl

/-- `Change now d c d'`: what call `c` at time `now` does to the records. -/
inductive Change (now : UInt64) (d : Entries DataKey.Value) : Call → Entries DataKey.Value → Prop where
  | keep {c : Call} {d' : Entries DataKey.Value} (hc : ∀ id, c.writes id = false)
      (h : proofs d' = proofs d) : Change now d c d'
  | register {id c : BytesN 32} {a : Address} {n : UInt32} {e : UInt64}
      {d' : Entries DataKey.Value} (hnone : proofs d id = none)
      (h : proofs d' = Function.update (proofs d) id
        (some ⟨id, c, a, .active, n, e, now, 0⟩)) :
      Change now d (.registerProof id c a n e) d'
  | revoke {c : Call} {id : BytesN 32} {r : ProofRecord} {d' : Entries DataKey.Value}
      (hc : c.Revokes id) (hr : proofs d id = some r) (hactive : r.status = .active)
      (h : proofs d' = Function.update (proofs d) id
        (some {r with status := .revoked, revokedAt := now})) :
      Change now d c d'

section
variable {W : Type} {clients : Clients W} {env : Env} {d d' : Entries DataKey.Value} {w w' : W}
  {v : Value} {events : List Event}

theorem Revokes.change {id : BytesN 32} {byAdmin : Bool} {c : Call} (hc : c.Revokes id)
    (h : Revokes env d id byAdmin v d' events) : Change env.timestamp d c d' := by
  obtain ⟨r, _, hr, _, _, hstatus, _, rfl, _⟩ := h
  have hactive : r.status = .active := by
    cases hst : r.status with
    | active => rfl
    | revoked => exact absurd hst hstatus
  exact .revoke hc hr hactive (by simp)

theorem Effect.change {c : Call} (h : Effect clients env d w c v d' events w') :
    Change env.timestamp d c d' := by
  cases c with
  | initializeContract a i p =>
    obtain rfl := Effect.initialize_writes h
    exact .keep (fun _ => rfl) (by simp)
  | registerProof id c a n e =>
    obtain rfl := Effect.register_writes h
    exact .register h.register_new (by simp)
  | revokeProof id => exact Revokes.change (.inl rfl) h.2
  | adminRevokeProof id => exact Revokes.change (.inr rfl) h.2
  | getProof id =>
    obtain ⟨_, _, _, _, rfl, _⟩ := h
    exact .keep (fun _ => rfl) rfl
  | isValidProof id =>
    obtain ⟨_, _, rfl, _⟩ := h
    exact .keep (fun _ => rfl) rfl
  | isRevoked id =>
    obtain ⟨_, _, rfl, _⟩ := h
    exact .keep (fun _ => rfl) rfl
  | getAdmin =>
    obtain ⟨_, _, _, _, rfl, _⟩ := h
    exact .keep (fun _ => rfl) rfl
  | getIssuerRegistry =>
    obtain ⟨_, _, _, _, rfl, _⟩ := h
    exact .keep (fun _ => rfl) rfl
  | getProtocolConfig =>
    obtain ⟨_, _, _, _, rfl, _⟩ := h
    exact .keep (fun _ => rfl) rfl
  | upgrade c =>
    exact .keep (fun _ => rfl) (funext fun id => Governance.Effect.frame h.2 (by simp))

end

/-- A record stays, and a revoked one stays revoked. -/
theorem Change.recorded {now : UInt64} {d d' : Entries DataKey.Value} {c : Call}
    (h : Change now d c d') {id : BytesN 32} {r : ProofRecord} (hr : proofs d id = some r) :
    ∃ r', proofs d' id = some r' ∧ (r.status = .revoked → r'.status = .revoked) := by
  cases h with
  | keep _ h => exact ⟨r, by rw [h, hr], fun hst => hst⟩
  | @register id' _ _ _ _ _ hnone h =>
    have hne : id ≠ id' := fun heq => by
      rw [heq, hnone] at hr
      cases hr
    exact ⟨r, by rw [h, Function.update_of_ne hne, hr], fun hst => hst⟩
  | @revoke _ id' r₀ _ _ _ _ h =>
    by_cases hid : id = id'
    · subst hid
      exact ⟨_, by rw [h, Function.update_self], fun _ => rfl⟩
    · exact ⟨r, by rw [h, Function.update_of_ne hid, hr], fun hst => hst⟩

/-! ### The story of one id -/

/-- A call that succeeded, with its timestamp. -/
abbrev Act := Call × UInt64

/-- The three stories of `id`, each with the record it leaves. -/
inductive Life (id : BytesN 32) : List Act → Option ProofRecord → Prop where
  | absent : Life id [] none
  | registered (c : BytesN 32) (a : Address) (n : UInt32) (e t : UInt64) :
      Life id [(.registerProof id c a n e, t)] (some ⟨id, c, a, .active, n, e, t, 0⟩)
  | revoked (c : BytesN 32) (a : Address) (n : UInt32) (e t : UInt64) (rc : Call) (t' : UInt64)
      (hrc : rc.Revokes id) :
      Life id [(.registerProof id c a n e, t), (rc, t')]
        (some ⟨id, c, a, .revoked, n, e, t, t'⟩)

/-- The acts of a list that concern `id`. -/
def story (id : BytesN 32) (acts : List Act) : List Act := acts.filter fun a => a.1.writes id

theorem story_snoc_of_writes {id : BytesN 32} {acts : List Act} {a : Act} (h : a.1.writes id = true) :
    story id (acts ++ [a]) = story id acts ++ [a] := by
  simp [story, h]

theorem story_snoc_of_not {id : BytesN 32} {acts : List Act} {a : Act} (h : a.1.writes id = false) :
    story id (acts ++ [a]) = story id acts := by
  simp [story, h]

/-- A successful call continues the story. -/
theorem Change.life {now : UInt64} {d d' : Entries DataKey.Value} {c : Call} (h : Change now d c d')
    {id : BytesN 32} {acts : List Act} (hlife : Life id (story id acts) (proofs d id)) :
    Life id (story id (acts ++ [(c, now)])) (proofs d' id) := by
  cases h with
  | keep hc h =>
    rw [h, story_snoc_of_not (hc id)]
    exact hlife
  | @register id' cm a n e _ hnone h =>
    by_cases hid : id' = id
    · subst hid
      rw [h, Function.update_self, story_snoc_of_writes (by simp [Call.writes])]
      rw [hnone] at hlife
      generalize story id' acts = told at hlife ⊢
      cases hlife
      exact .registered cm a n e now
    · rw [h, Function.update_of_ne (Ne.symm hid), story_snoc_of_not (by simp [Call.writes, hid])]
      exact hlife
  | @revoke _ id' r _ hc hr hactive h =>
    by_cases hid : id' = id
    · subst hid
      rw [h, Function.update_self, story_snoc_of_writes (by simp [hc.writes])]
      rw [hr] at hlife
      generalize story id' acts = told at hlife ⊢
      cases hlife with
      | registered cm a n e t => exact .revoked cm a n e t c now hc
      | revoked => cases hactive
    · rw [h, Function.update_of_ne (Ne.symm hid), story_snoc_of_not (by simp [hc.writes, hid])]
      exact hlife

/-- A story that goes on keeps its record, up to one revocation told in the new part. -/
theorem Life.extend {id : BytesN 32} {told more : List Act} {o : Option ProofRecord}
    {r : ProofRecord} (h : Life id told (some r)) (h' : Life id (told ++ more) o) :
    o = some r ∨ (r.status = .active ∧
      ∃ c t, c.Revokes id ∧ (c, t) ∈ more ∧ o = some {r with status := .revoked, revokedAt := t}) := by
  cases h with
  | registered c a n e t =>
    cases h' with
    | registered => exact .inl rfl
    | revoked _ _ _ _ _ rc t' hrc => exact .inr ⟨rfl, rc, t', hrc, by simp, rfl⟩
  | revoked =>
    cases h' with
    | revoked => exact .inl rfl

/-! The three queries, read off the story. -/

section Answers
variable {id : BytesN 32} {told : List Act} {o : Option ProofRecord}

theorem registerProof_not_revokes {id id' c : BytesN 32} {a : Address} {n : UInt32} {e : UInt64} :
    ¬ (Call.registerProof id' c a n e).Revokes id := by
  rintro (h | h) <;> cases h

theorem Life.valid_iff (h : Life id told o) (now : UInt64) :
    (o.any fun r => r.status == .active && decide (now ≤ r.expiresAt)) = true ↔
      (∃ e, (∃ c a n t, (.registerProof id c a n e, t) ∈ told) ∧ now ≤ e) ∧
        ¬ ∃ c t, Call.Revokes id c ∧ (c, t) ∈ told := by
  cases h with
  | absent => simp
  | registered c a n e t =>
    constructor
    · intro hv
      refine ⟨⟨e, ⟨c, a, n, t, List.mem_singleton.mpr rfl⟩, by simpa using hv⟩, ?_⟩
      rintro ⟨rc, t', hrc, hmem⟩
      cases List.mem_singleton.mp hmem
      exact registerProof_not_revokes hrc
    · rintro ⟨⟨e', ⟨c', a', n', t', hmem⟩, hle⟩, _⟩
      cases List.mem_singleton.mp hmem
      simpa using hle
  | revoked c a n e t rc t' hrc =>
    constructor
    · intro hv
      simp at hv
    · rintro ⟨_, hno⟩
      exact absurd ⟨rc, t', hrc, by simp⟩ hno

theorem Life.revoked_iff (h : Life id told o) :
    (o.any fun r => r.status == .revoked) = true ↔ ∃ c t, Call.Revokes id c ∧ (c, t) ∈ told := by
  cases h with
  | absent => simp
  | registered c a n e t =>
    constructor
    · intro hv
      simp at hv
    · rintro ⟨rc, t', hrc, hmem⟩
      cases List.mem_singleton.mp hmem
      exact absurd hrc registerProof_not_revokes
  | revoked c a n e t rc t' hrc => exact ⟨fun _ => ⟨rc, t', hrc, by simp⟩, fun _ => by simp⟩

theorem Life.isSome_iff (h : Life id told o) :
    o.isSome = true ↔ ∃ e, ∃ c a n t, (.registerProof id c a n e, t) ∈ told := by
  cases h with
  | absent => simp
  | registered c a n e t => exact ⟨fun _ => ⟨e, c, a, n, t, by simp⟩, fun _ => rfl⟩
  | revoked c a n e t rc t' hrc => exact ⟨fun _ => ⟨e, c, a, n, t, by simp⟩, fun _ => rfl⟩

/-- A stored record was registered, at the address it names. -/
theorem Life.registration {r : ProofRecord} (h : Life id told (some r)) :
    ∃ c n e t, (.registerProof id c r.issuerAddress n e, t) ∈ told := by
  cases h with
  | registered c a n e t => exact ⟨c, n, e, t, by simp⟩
  | revoked c a n e t rc t' hrc => exact ⟨c, n, e, t, by simp⟩

/-- A story tells one record. -/
theorem Life.unique {o' : Option ProofRecord} (h : Life id told o) (h' : Life id told o') :
    o = o' := by
  cases h <;> cases h' <;> rfl

end Answers

/-! ### The admin and the dependencies -/

/-- `d'` has the admin and the dependencies of `d`. -/
structure SameWiring (d d' : Entries DataKey.Value) : Prop where
  admin : d' .inst .admin = d .inst .admin
  issuerRegistry : d' .inst .issuerRegistry = d .inst .issuerRegistry
  protocolConfig : d' .inst .protocolConfig = d .inst .protocolConfig

theorem SameWiring.refl (d : Entries DataKey.Value) : SameWiring d d := ⟨rfl, rfl, rfl⟩

theorem SameWiring.trans {d d' d'' : Entries DataKey.Value} (h : SameWiring d d')
    (h' : SameWiring d' d'') : SameWiring d d'' :=
  ⟨h'.admin.trans h.admin, h'.issuerRegistry.trans h.issuerRegistry,
    h'.protocolConfig.trans h.protocolConfig⟩

section
variable {W : Type} {clients : Clients W} {env : Env} {d d' : Entries DataKey.Value} {w w' : W}
  {v : Value} {events : List Event}

/-- Only initialization sets the admin and the dependencies, and only once. -/
theorem Effect.wiring {c : Call} (h : Effect clients env d w c v d' events w') :
    SameWiring d d' ∨ (d .inst .admin = none ∧ ∃ a i p, c = .initializeContract a i p ∧
      d' .inst .admin = some a ∧ d' .inst .issuerRegistry = some i ∧
      d' .inst .protocolConfig = some p) := by
  have hrevokes : ∀ {id byAdmin}, Revokes env d id byAdmin v d' events → SameWiring d d' := by
    intro id byAdmin h
    obtain ⟨r, _, _, rfl⟩ := h.writes
    exact ⟨by simp, by simp, by simp⟩
  cases c with
  | initializeContract a i p =>
    obtain rfl := Effect.initialize_writes h
    obtain ⟨_, hnone, _⟩ := h
    exact .inr ⟨hnone, a, i, p, rfl, by simp, by simp, by simp⟩
  | registerProof id c a n e =>
    obtain rfl := Effect.register_writes h
    exact .inl ⟨by simp, by simp, by simp⟩
  | revokeProof id => exact .inl (hrevokes h.2)
  | adminRevokeProof id => exact .inl (hrevokes h.2)
  | getProof id =>
    obtain ⟨_, _, _, _, rfl, _⟩ := h
    exact .inl (.refl _)
  | isValidProof id =>
    obtain ⟨_, _, rfl, _⟩ := h
    exact .inl (.refl _)
  | isRevoked id =>
    obtain ⟨_, _, rfl, _⟩ := h
    exact .inl (.refl _)
  | getAdmin =>
    obtain ⟨_, _, _, _, rfl, _⟩ := h
    exact .inl (.refl _)
  | getIssuerRegistry =>
    obtain ⟨_, _, _, _, rfl, _⟩ := h
    exact .inl (.refl _)
  | getProtocolConfig =>
    obtain ⟨_, _, _, _, rfl, _⟩ := h
    exact .inl (.refl _)
  | upgrade c =>
    exact .inl ⟨Governance.Effect.frame h.2 (by simp [governance]),
      Governance.Effect.frame h.2 (by simp [governance]),
      Governance.Effect.frame h.2 (by simp [governance])⟩

/-- The dependencies are stored with the admin or not at all. -/
structure Wiring (d : Entries DataKey.Value) : Prop where
  issuerRegistry : d .inst .issuerRegistry = none ↔ d .inst .admin = none
  protocolConfig : d .inst .protocolConfig = none ↔ d .inst .admin = none

theorem Wiring.empty : Wiring Entries.empty := ⟨by simp, by simp⟩

theorem Effect.keepsWiring {c : Call} (h : Effect clients env d w c v d' events w')
    (hd : Wiring d) : Wiring d' := by
  rcases h.wiring with hsame | ⟨_, a, i, p, _, ha, hi, hp⟩
  · refine ⟨?_, ?_⟩
    · rw [hsame.issuerRegistry, hsame.admin]
      exact hd.issuerRegistry
    · rw [hsame.protocolConfig, hsame.admin]
      exact hd.protocolConfig
  · exact ⟨by simp [ha, hi], by simp [ha, hp]⟩

/-- Once initialized, the wiring stays. -/
theorem Effect.sameWiring {c : Call} (h : Effect clients env d w c v d' events w')
    (hd : d .inst .admin ≠ none) : SameWiring d d' := by
  rcases h.wiring with hsame | ⟨hnone, _⟩
  · exact hsame
  · exact absurd hnone hd

end
end EarnProof.ProofRegistry

import EarnProof.Soroban.Refusal

/-! A host without rollback.

`rawInvoke` keeps what a failing invocation has written; it tells what a failure leaves to
the host to undo. `Steady` is about the outer world: whatever a program ends in, it leaves
there what every call it makes leaves. -/
namespace Soroban

section
variable {K : Type} {V : K → Type} {Ev W ε ε' α β ρ : Type}

/-- An invocation whose writes stay when it fails. -/
def rawInvoke (x : Program V Ev W ErrorCode ρ) (env : Env) (s : Storage V) (w : W) :
    Except (Failure ErrorCode) ρ × Storage V × W :=
  let r := x env ⟨s.load env.minimumTtl env.sequence, [], w⟩
  (r.1, r.2.toStorage, r.2.world)

/-- Rollback does not change what the caller is told. -/
theorem rawInvoke_outcome (x : Program V Ev W ErrorCode ρ) (env : Env) (s : Storage V) (w : W) :
    (rawInvoke x env s w).1 = (invoke x env s w).1.outcome :=
  (invoke_outcome x env s w).symm

/-- The host differs in what it does with a failure: it goes back to the start. -/
theorem invoke_eq_rollback (x : Program V Ev W ErrorCode ρ) (env : Env) (s : Storage V) (w : W) :
    (invoke x env s w).2 = match (rawInvoke x env s w).1 with
      | .ok _ => (rawInvoke x env s w).2
      | .error _ => (s, w) := by
  unfold invoke rawInvoke
  rcases x env ⟨s.load env.minimumTtl env.sequence, [], w⟩ with ⟨e | v, f⟩ <;> rfl

/-- What a failing invocation has written, for a program with a list of checks. -/
theorem rawInvoke_error {x : Program V Ev W ErrorCode ρ} {checks : Env → Entries V → W → List Check}
    {leftover : Entries V → Failure ErrorCode → Entries V} (h : Refuses x checks leftover)
    {env : Env} {s : Storage V} {w : W} {e : Failure ErrorCode}
    (he : (rawInvoke x env s w).1 = .error e) :
    refusal (checks env s.entries w) = some e ∧
      (rawInvoke x env s w).2.1.entries = leftover s.entries e :=
  h.error (Prod.ext he rfl)

/-- It fails exactly when a check does, and with the failure of that check. -/
theorem rawInvoke_error_iff {x : Program V Ev W ErrorCode ρ}
    {checks : Env → Entries V → W → List Check}
    {leftover : Entries V → Failure ErrorCode → Entries V} (h : Refuses x checks leftover)
    {env : Env} {s : Storage V} {w : W} {e : Failure ErrorCode} :
    (rawInvoke x env s w).1 = .error e ↔ refusal (checks env s.entries w) = some e := by
  rw [rawInvoke_outcome]
  exact invoke_error_iff h

/-! ### The outer world -/

/-- Whatever `x` ends in, the world keeps `I`. -/
def Steady (I : W → Prop) (x : Program V Ev W ε α) : Prop :=
  ∀ env f, I f.world → I (x env f).2.world

namespace Steady
variable {I : W → Prop}

@[simp] theorem pure (a : α) : Steady I (Pure.pure a : Program V Ev W ε α) := fun _ _ h => h

/-- One after the other: the second starts where the first has left the world. -/
theorem bind {x : Program V Ev W ε α} {g : α → Program V Ev W ε β} (hx : Steady I x)
    (hg : ∀ a, Steady I (g a)) : Steady I (x >>= g) := by
  intro env f h
  have h₁ := hx env f h
  simp only [Bind.bind]
  rcases hrun : x env f with ⟨e | a, f₁⟩
  · rw [hrun] at h₁
    exact h₁
  · rw [hrun] at h₁
    exact hg a env f₁ h₁

/-- An operation that answers from the frame and does not touch the world. -/
theorem of_world {x : Program V Ev W ε α} (h : ∀ env f, (x env f).2.world = f.world) :
    Steady I x := by
  intro env f hf
  rw [h]
  exact hf

/-- A check touches nothing, whatever comes of it. -/
@[simp] theorem rejectIf (p : Bool) (e : ε) :
    Steady I (Soroban.rejectIf p e : Program V Ev W ε Unit) :=
  of_world fun _ _ => by cases p <;> rfl

@[simp] theorem panicIf (p : Bool) (m : String) :
    Steady I (Soroban.panicIf p m : Program V Ev W ε Unit) :=
  of_world fun _ _ => by cases p <;> rfl

@[simp] theorem okOr (o : Option α) (e : ε) : Steady I (Soroban.okOr o e : Program V Ev W ε α) :=
  of_world fun _ _ => by cases o <;> rfl

@[simp] theorem expect (o : Option α) (m : String) :
    Steady I (Soroban.expect o m : Program V Ev W ε α) :=
  of_world fun _ _ => by cases o <;> rfl

/-- An error under another name is the error of the same run; so it is as a value or a
panic. -/
theorem mapErr {x : Program V Ev W ε α} (hx : Steady I x) (h : ε → ε') :
    Steady I (Soroban.mapErr x h) := by
  intro env f hf
  have h₁ := hx env f hf
  unfold Soroban.mapErr
  rcases hrun : x env f with ⟨(e | a) | a, f₁⟩ <;> rw [hrun] at h₁ <;> exact h₁

theorem attempt {x : Program V Ev W ε α} (hx : Steady I x) :
    Steady I (Soroban.attempt x : Program V Ev W ε' (Except ε α)) := by
  intro env f hf
  have h₁ := hx env f hf
  unfold Soroban.attempt
  rcases hrun : x env f with ⟨(e | a) | a, f₁⟩ <;> rw [hrun] at h₁ <;> exact h₁

theorem expectOk {debug : ε → String} {x : Program V Ev W ε α} (hx : Steady I x) (m : String) :
    Steady I (Soroban.expectOk debug x m : Program V Ev W ε' α) := by
  intro env f hf
  have h₁ := hx env f hf
  unfold Soroban.expectOk
  rcases hrun : x env f with ⟨(e | a) | a, f₁⟩ <;> rw [hrun] at h₁ <;> exact h₁

@[simp] theorem timestamp : Steady I (Soroban.timestamp : Program V Ev W ε UInt64) :=
  of_world fun _ _ => rfl

@[simp] theorem currentContractAddress :
    Steady I (Soroban.currentContractAddress : Program V Ev W ε Address) :=
  of_world fun _ _ => rfl

@[simp] theorem requireAuth (a : Address) :
    Steady I (Soroban.requireAuth a : Program V Ev W ε Unit) :=
  of_world fun env _ => by
    unfold Soroban.requireAuth
    cases env.signed a <;> rfl

@[simp] theorem publish (event : Ev) : Steady I (Soroban.publish event : Program V Ev W ε Unit) :=
  of_world fun _ _ => rfl

@[simp] theorem updateCurrentContractWasm (h : BytesN 32) :
    Steady I (Soroban.updateCurrentContractWasm h : Program V Ev W ε Unit) :=
  of_world fun env _ => by
    unfold Soroban.updateCurrentContractWasm
    cases env.installable h <;> rfl

/-- A call keeps what its callee keeps. -/
theorem callContract {call : Env → W → Except Abort α × W} (hcall : ∀ env w, I w → I (call env w).2) :
    Steady I (Soroban.callContract call : Program V Ev W ε α) := by
  intro env f hf
  have h₁ := hcall env f.world hf
  unfold Soroban.callContract
  rcases hrun : call env f.world with ⟨e | a, w⟩ <;> rw [hrun] at h₁ <;> exact h₁

section Entries
variable [DecidableEq K] (c : StorageClass) (k : K)

/-- A contract's own storage is not the outer world: reading and writing it keeps anything.
-/
@[simp] theorem has : Steady I (Soroban.has c k : Program V Ev W ε Bool) := of_world fun _ _ => rfl

@[simp] theorem get : Steady I (Soroban.get c k : Program V Ev W ε (Option (V k))) :=
  of_world fun _ _ => rfl

@[simp] theorem set (v : V k) : Steady I (Soroban.set c k v : Program V Ev W ε Unit) :=
  of_world fun _ _ => rfl

@[simp] theorem remove : Steady I (Soroban.remove c k : Program V Ev W ε Unit) :=
  of_world fun _ _ => rfl

@[simp] theorem extendTtl (threshold extendTo : Nat) :
    Steady I (Soroban.extendTtl k threshold extendTo : Program V Ev W ε Unit) :=
  of_world fun _ f => by
    unfold Soroban.extendTtl
    cases (f.entries .persistent k).isSome <;> rfl

omit [DecidableEq K] in
@[simp] theorem extendInstanceTtl (threshold extendTo : Nat) :
    Steady I (Soroban.extendInstanceTtl threshold extendTo : Program V Ev W ε Unit) :=
  of_world fun _ _ => rfl

/-- The same through a slot. -/
@[simp] theorem slot_get (s : Slot V α) : Steady I (s.get : Program V Ev W ε (Option α)) := by
  obtain ⟨k, rfl⟩ := s
  exact get .inst k

@[simp] theorem slot_set (s : Slot V α) (a : α) : Steady I (s.set a : Program V Ev W ε Unit) := by
  obtain ⟨k, rfl⟩ := s
  exact set .inst k a

@[simp] theorem slot_remove (s : Slot V α) : Steady I (s.remove : Program V Ev W ε Unit) :=
  remove .inst s.key

end Entries

/-- An entry point is its body, with codes for errors. -/
theorem entry {x : Program V Ev W ε α} (hx : Steady I x) (code : ε → ErrorCode) (ret : α → ρ) :
    Steady I (Soroban.entry code ret x) :=
  bind (mapErr hx code) fun a => pure (ret a)

/-- A whole invocation, failed or not. -/
theorem rawInvoke {x : Program V Ev W ErrorCode ρ} (hx : Steady I x) (env : Env) (s : Storage V)
    {w : W} (hw : I w) : I (Soroban.rawInvoke x env s w).2.2 :=
  hx env ⟨s.load env.minimumTtl env.sequence, [], w⟩ hw

end Steady
end
end Soroban

import EarnProof.Soroban.Refusal

/-! Walking through a program.

`Ends` is about a program at one frame and has both of its ends: a failure is that of the
first check of a list that does not pass, and a return meets a postcondition. Each
operation has a rule that takes it off the front of a program, and its check off the front
of the list. So the code of an entry point is walked through once, and what is said of its
refusals and of the storage it leaves follows from its `Ends`. -/
namespace Soroban

section
variable {K : Type} {V : K → Type} {Ev W ε ε' α β : Type}

/-- From `f`, `x` fails with the first failing check of `l` and has then made `left` of the
values, or it returns with `Q`. The checks name errors by their codes. -/
structure Ends (code : ε → ErrorCode) (x : Program V Ev W ε α) (env : Env) (f : Frame V Ev W)
    (l : List Check) (left : Failure ErrorCode → Entries V) (Q : α → Frame V Ev W → Prop) :
    Prop where
  refused : ∀ {y f'}, x env f = (.error y, f') →
    refusal l = some (y.map code) ∧ f'.entries = left (y.map code)
  returned : ∀ {a f'}, x env f = (.ok a, f') → Q a f'

variable {code : ε → ErrorCode} {x : Program V Ev W ε α} {g : α → Program V Ev W ε β} {env : Env}
  {f f₁ : Frame V Ev W} {l : List Check} {left : Failure ErrorCode → Entries V}
  {P : α → Frame V Ev W → Prop} {Q : β → Frame V Ev W → Prop} {a : α} {y : Failure ε}

/-! ### The last operation -/

theorem Ends.ret (hx : x env f = (.ok a, f₁)) (hP : P a f₁) : Ends code x env f l left P where
  refused := by
    intro y f' h
    rw [hx] at h
    cases h
  returned := by
    intro a' f' h
    rw [hx] at h
    cases h
    exact hP

theorem Ends.fail (hx : x env f = (.error y, f₁)) (hl : refusal l = some (y.map code))
    (hleft : f₁.entries = left (y.map code)) : Ends code x env f l left P where
  refused := by
    intro y' f' h
    rw [hx] at h
    cases h
    exact ⟨hl, hleft⟩
  returned := by
    intro a f' h
    rw [hx] at h
    cases h

/-! ### One operation after the other -/

/-- An operation that returns is passed. -/
theorem Ends.next (hx : x env f = (.ok a, f₁)) (hg : Ends code (g a) env f₁ l left Q) :
    Ends code (x >>= g) env f l left Q where
  refused := by
    intro y f' h
    rw [bind_error, hx] at h
    rcases h with h | ⟨a', f₂, h, hrest⟩
    · cases h
    · cases h
      exact hg.refused hrest
  returned := by
    intro b f' h
    obtain ⟨a', f₂, h, hrest⟩ := bind_ok.mp h
    rw [hx] at h
    cases h
    exact hg.returned hrest

/-- So is one that returns nothing. -/
theorem Ends.act {x : Program V Ev W ε Unit} {g : Unit → Program V Ev W ε β}
    (hx : x env f = (.ok (), f₁)) (hg : Ends code (g ()) env f₁ l left Q) :
    Ends code (x >>= g) env f l left Q :=
  .next hx hg

/-- A block of operations is walked through like the rest. -/
theorem Ends.block {γ : Type} {h : β → Program V Ev W ε γ} {R : γ → Frame V Ev W → Prop}
    (hx : Ends code (x >>= fun a => g a >>= h) env f l left R) :
    Ends code ((x >>= g) >>= h) env f l left R := by
  have hassoc : (x >>= g) >>= h = x >>= fun a => g a >>= h := by
    funext env f
    simp only [bind]
    rcases x env f with ⟨e | a, f₁⟩ <;> rfl
  rw [hassoc]
  exact hx

/-- An operation that fails is the end. -/
theorem Ends.stop (hx : x env f = (.error y, f₁)) (hl : refusal l = some (y.map code))
    (hleft : f₁.entries = left (y.map code)) : Ends code (x >>= g) env f l left Q :=
  .fail (bind_error.mpr (.inl hx)) hl hleft

/-- A check that does not pass is the end; one that passes is taken off the list. -/
theorem Ends.check {p q : Bool} {y : Failure ε} (hstop : p = true → x env f = (.error y, f))
    (hnext : p = false → Ends code (x >>= g) env f l left Q) (hq : q = p)
    (hleft : f.entries = left (y.map code)) :
    Ends code (x >>= g) env f (⟨q, y.map code⟩ :: l) left Q := by
  subst hq
  cases q with
  | true => exact .stop (hstop rfl) rfl hleft
  | false =>
    have hrest := hnext rfl
    exact ⟨fun h => hrest.refused h, fun h => hrest.returned h⟩

/-- A check that no operation makes here. -/
theorem Ends.skip {q : Bool} {e : Failure ErrorCode} (h : Ends code x env f l left P)
    (hq : q = false := by rfl) : Ends code x env f (⟨q, e⟩ :: l) left P := by
  subst hq
  exact ⟨fun hrun => h.refused hrun, fun hrun => h.returned hrun⟩

theorem Ends.rejectIf {g : Unit → Program V Ev W ε β} {p q : Bool} {e : ε}
    (hg : p = false → Ends code (g ()) env f l left Q) (hq : q = p := by rfl)
    (hleft : f.entries = left (.error (code e)) := by first | rfl | simp) :
    Ends code (rejectIf p e >>= g) env f (⟨q, .error (code e)⟩ :: l) left Q :=
  .check (fun hp => rejectIf_error.mpr ⟨hp, rfl, rfl⟩)
    (fun hp => .next (rejectIf_ok.mpr ⟨hp, rfl⟩) (hg hp)) hq hleft

theorem Ends.panicIf {g : Unit → Program V Ev W ε β} {p q : Bool} {message : String}
    (hg : p = false → Ends code (g ()) env f l left Q) (hq : q = p := by rfl)
    (hleft : f.entries = left (.abort (.panic message)) := by first | rfl | simp) :
    Ends code (panicIf p message >>= g) env f (⟨q, .abort (.panic message)⟩ :: l) left Q :=
  .check (fun hp => panicIf_error.mpr ⟨hp, rfl, rfl⟩)
    (fun hp => .next (panicIf_ok.mpr ⟨hp, rfl⟩) (hg hp)) hq hleft

/-- The signature that is asked for is that of the address in `o`. -/
theorem Ends.requireAuth {g : Unit → Program V Ev W ε β} {o : Option Address} {p : Address}
    (hg : env.signed p = true → Ends code (g ()) env f l left Q) (ho : o = some p := by rfl)
    (hleft : f.entries = left (.abort .auth) := by first | rfl | simp) :
    Ends code (requireAuth p >>= g) env f (.requireAuth env o :: l) left Q := by
  subst ho
  exact .check (p := !env.signed p) (fun hp => requireAuth_error.mpr ⟨by simpa using hp, rfl, rfl⟩)
    (fun hp => .next (requireAuth_ok.mpr ⟨by simpa using hp, rfl⟩) (hg (by simpa using hp))) rfl hleft

/-- A lookup fails exactly when nothing is there. -/
theorem Ends.lookup {o : Option α} {q : Bool} (y : Failure ε)
    (hx : x env f = (o.elim (.error y) .ok, f))
    (hg : ∀ a, o = some a → Ends code (g a) env f l left Q) (hq : q = o.isNone)
    (hleft : f.entries = left (y.map code)) :
    Ends code (x >>= g) env f (⟨q, y.map code⟩ :: l) left Q := by
  cases o with
  | none => exact .check (p := true) (fun _ => hx) (fun hp => by cases hp) hq hleft
  | some a => exact .check (p := false) (fun hp => by cases hp) (fun _ => .next hx (hg a rfl)) hq hleft

theorem Ends.okOr {o : Option α} {q : Bool} {e : ε}
    (hg : ∀ a, o = some a → Ends code (g a) env f l left Q) (hq : q = o.isNone := by rfl)
    (hleft : f.entries = left (.error (code e)) := by first | rfl | simp) :
    Ends code (okOr o e >>= g) env f (⟨q, .error (code e)⟩ :: l) left Q := by
  have hx : (Soroban.okOr o e : Program V Ev W ε α) env f =
      (o.elim (.error (.error e)) .ok, f) := by
    cases o <;> rfl
  exact .lookup (.error e) hx hg hq hleft

theorem Ends.expect {o : Option α} {q : Bool} {message : String}
    (hg : ∀ a, o = some a → Ends code (g a) env f l left Q) (hq : q = o.isNone := by rfl)
    (hleft : f.entries = left (.abort (.panic message)) := by first | rfl | simp) :
    Ends code (expect o message >>= g) env f (⟨q, .abort (.panic message)⟩ :: l) left Q := by
  have hx : (Soroban.expect o message : Program V Ev W ε α) env f =
      (o.elim (.error (.abort (.panic message))) .ok, f) := by
    cases o <;> rfl
  exact .lookup (.abort (.panic message)) hx hg hq hleft

/-! ### Entry points -/

/-- An entry point refuses what its body refuses. -/
theorem Ends.entry_refused {ρ : Type} {ret : α → ρ} (h : Ends code x env f l left P)
    {e : Failure ErrorCode} {f' : Frame V Ev W} (hrun : entry code ret x env f = (.error e, f')) :
    refusal l = some e ∧ f'.entries = left e := by
  rw [entry, bind_error, mapErr_error] at hrun
  rcases hrun with ⟨z, hz, rfl⟩ | ⟨_, _, _, hpure⟩
  · exact h.refused hz
  · exact absurd hpure pure_error

theorem Ends.entry_returned {ρ : Type} {ret : α → ρ} (h : Ends code x env f l left P) {v : ρ}
    {f' : Frame V Ev W} (hrun : entry code ret x env f = (.ok v, f')) : ∃ a, P a f' := by
  obtain ⟨a, ha⟩ := entry_run hrun
  exact ⟨a, h.returned ha⟩

end
end Soroban

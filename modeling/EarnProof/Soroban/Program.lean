import EarnProof.Soroban.Storage

/-! Contract code as it runs on the host.

A `Program` reads the environment and threads a frame: the contract's storage,
the events published so far, and the rest of the world it can call into. It
returns a value, a typed error or an abort, *and the frame as it stands then*:
writes made before a failure are still there. Undoing them is the host's doing
(`invoke`), so what a failing function has already written can be asked about.

Each operation has one rule, `x env f = (.ok a, f') ↔ …`: when it returns, what,
and the frame it leaves. With `bind_ok` they turn a whole function into its guards
and its effect by `simp`. -/
namespace Soroban

/-- A failure no caller can handle. A failed `require_auth` does not name the address. -/
inductive Abort where
  | auth
  | panic (message : String)
  /-- A host function or a called contract failed. -/
  | host
  deriving DecidableEq

inductive Failure (ε : Type) where
  | error (e : ε)
  | abort (a : Abort)
  deriving DecidableEq

/-- What one invocation sees of the ledger and of its transaction. -/
structure Env where
  currentContract : Address
  timestamp : UInt64
  sequence : Nat
  /-- The addresses that authorized the invocation. -/
  signed : Address → Bool
  /-- The WASM hashes the deployer accepts. -/
  installable : BytesN 32 → Bool
  /-- The network's minimum lifetime of a persistent entry. -/
  minimumTtl : Nat

structure Frame {K : Type} (V : K → Type) (Ev W : Type) extends Storage V where
  events : List Ev
  world : W

/-- Contract code over keys with values `V`, events `Ev`, the outer world `W` and
typed errors `ε`. -/
def Program {K : Type} (V : K → Type) (Ev W ε α : Type) :=
  Env → Frame V Ev W → Except (Failure ε) α × Frame V Ev W

section Rules
variable {K : Type} {V : K → Type} {Ev W ε ε' α β : Type} {env : Env} {f f' : Frame V Ev W}

instance : Monad (Program V Ev W ε) where
  pure a := fun _ f => (.ok a, f)
  bind x g := fun env f =>
    match x env f with
    | (.ok a, f') => g a env f'
    | (.error e, f') => (.error e, f')

@[simp] theorem pure_ok {a b : α} :
    (pure a : Program V Ev W ε α) env f = (.ok b, f') ↔ b = a ∧ f' = f := by
  simp [pure, eq_comm]

@[simp] theorem bind_ok {x : Program V Ev W ε α} {g : α → Program V Ev W ε β} {b : β} :
    (x >>= g) env f = (.ok b, f') ↔
      ∃ a f₁, x env f = (.ok a, f₁) ∧ g a env f₁ = (.ok b, f') := by
  simp only [bind]
  rcases x env f with ⟨_ | a, f₁⟩ <;> simp [and_assoc]

/-! ### Failures -/

/-- `return Err(e)` when `p`. -/
def rejectIf (p : Bool) (e : ε) : Program V Ev W ε Unit := fun _ f =>
  if p then (.error (.error e), f) else (.ok (), f)

/-- `panic!` when `p`. -/
def panicIf (p : Bool) (message : String) : Program V Ev W ε Unit := fun _ f =>
  if p then (.error (.abort (.panic message)), f) else (.ok (), f)

/-- `ok_or(e)?` -/
def okOr (o : Option α) (e : ε) : Program V Ev W ε α := fun _ f =>
  match o with
  | some a => (.ok a, f)
  | none => (.error (.error e), f)

/-- `expect(message)` on an option. -/
def expect (o : Option α) (message : String) : Program V Ev W ε α := fun _ f =>
  match o with
  | some a => (.ok a, f)
  | none => (.error (.abort (.panic message)), f)

/-- `map_err(h)?` -/
def mapErr (x : Program V Ev W ε α) (h : ε → ε') : Program V Ev W ε' α := fun env f =>
  match x env f with
  | (.ok a, f') => (.ok a, f')
  | (.error (.error e), f') => (.error (.error (h e)), f')
  | (.error (.abort a), f') => (.error (.abort a), f')

/-- A call whose `Result` the caller inspects: typed errors become values, and what
the callee wrote stays. -/
def attempt (x : Program V Ev W ε α) : Program V Ev W ε' (Except ε α) := fun env f =>
  match x env f with
  | (.ok a, f') => (.ok (.ok a), f')
  | (.error (.error e), f') => (.ok (.error e), f')
  | (.error (.abort a), f') => (.error (.abort a), f')

/-- `expect(message)` on a result: the panic says the message and the error, as `debug`
shows it. -/
def expectOk (debug : ε → String) (x : Program V Ev W ε α) (message : String) :
    Program V Ev W ε' α := fun env f =>
  match x env f with
  | (.ok a, f') => (.ok a, f')
  | (.error (.error e), f') => (.error (.abort (.panic (message ++ ": " ++ debug e))), f')
  | (.error (.abort a), f') => (.error (.abort a), f')

@[simp] theorem rejectIf_ok {p : Bool} {e : ε} {u : Unit} :
    (rejectIf p e : Program V Ev W ε Unit) env f = (.ok u, f') ↔ p = false ∧ f' = f := by
  cases p <;> simp [rejectIf, eq_comm]

@[simp] theorem panicIf_ok {p : Bool} {message : String} {u : Unit} :
    (panicIf p message : Program V Ev W ε Unit) env f = (.ok u, f') ↔ p = false ∧ f' = f := by
  cases p <;> simp [panicIf, eq_comm]

@[simp] theorem okOr_ok {o : Option α} {e : ε} {a : α} :
    (okOr o e : Program V Ev W ε α) env f = (.ok a, f') ↔ o = some a ∧ f' = f := by
  cases o <;> simp [okOr, eq_comm]

@[simp] theorem expect_ok {o : Option α} {message : String} {a : α} :
    (expect o message : Program V Ev W ε α) env f = (.ok a, f') ↔ o = some a ∧ f' = f := by
  cases o <;> simp [expect, eq_comm]

@[simp] theorem mapErr_ok {x : Program V Ev W ε α} {h : ε → ε'} {a : α} :
    mapErr x h env f = (.ok a, f') ↔ x env f = (.ok a, f') := by
  unfold mapErr
  rcases x env f with ⟨(e | c) | b, f₁⟩ <;> simp

@[simp] theorem mapError_ok {e : Type} (g : e → ε) (a : α) :
    (Except.ok a : Except e α).mapError g = .ok a := rfl

@[simp] theorem mapError_error {e : Type} (g : e → ε) (x : e) :
    (Except.error x : Except e α).mapError g = .error (g x) := rfl

@[simp] theorem attempt_ok {x : Program V Ev W ε α} {r : Except ε α} :
    (attempt x : Program V Ev W ε' (Except ε α)) env f = (.ok r, f') ↔
      x env f = (r.mapError Failure.error, f') := by
  unfold attempt
  rcases x env f with ⟨(e | c) | b, f₁⟩ <;> cases r <;> simp

/-- A query that asks for a record and answers `false` without one. -/
theorem attempt_answer_ok {x : Program V Ev W ε α} {o : Option α} {e : ε} {g : Frame V Ev W}
    (hx : x env f = (o.elim (.error (.error e)) .ok, g))
    {k : Except ε α → Program V Ev W ε' Bool} {value : α → Bool}
    (hok : ∀ a h, k (.ok a) env h = (.ok (value a), h))
    (herror : ∀ e h, k (.error e) env h = (.ok false, h)) {b : Bool} :
    (attempt x >>= k) env f = (.ok b, f') ↔ b = o.any value ∧ f' = g := by
  simp only [bind_ok, attempt_ok, hx]
  cases o with
  | none =>
    constructor
    · rintro ⟨_ | a, f₁, hget, hb⟩
      · obtain ⟨-, rfl⟩ := Prod.mk.inj hget
        simpa [herror, eq_comm] using hb
      · cases (Prod.mk.inj hget).1
    · rintro ⟨rfl, rfl⟩
      exact ⟨.error e, _, rfl, by simp [herror]⟩
  | some a =>
    constructor
    · rintro ⟨_ | a', f₁, hget, hb⟩
      · cases (Prod.mk.inj hget).1
      · obtain ⟨ha, rfl⟩ := Prod.mk.inj hget
        cases ha
        simpa [hok, eq_comm] using hb
    · rintro ⟨rfl, rfl⟩
      exact ⟨.ok a, _, rfl, by simp [hok]⟩

@[simp] theorem expectOk_ok {debug : ε → String} {x : Program V Ev W ε α} {message : String} {a : α} :
    (expectOk debug x message : Program V Ev W ε' α) env f = (.ok a, f') ↔
      x env f = (.ok a, f') := by
  unfold expectOk
  rcases x env f with ⟨(e | c) | b, f₁⟩ <;> simp

/-! ### The environment -/

/-- `env.ledger().timestamp()` -/
def timestamp : Program V Ev W ε UInt64 := fun env f => (.ok env.timestamp, f)

/-- `env.current_contract_address()` -/
def currentContractAddress : Program V Ev W ε Address := fun env f => (.ok env.currentContract, f)

/-- `address.require_auth()` -/
def requireAuth (a : Address) : Program V Ev W ε Unit := fun env f =>
  if env.signed a then (.ok (), f) else (.error (.abort .auth), f)

def publish (event : Ev) : Program V Ev W ε Unit := fun _ f =>
  (.ok (), {f with events := f.events ++ [event]})

/-- `env.deployer().update_current_contract_wasm(hash)`: the host installs the code or
fails; no entry changes. -/
def updateCurrentContractWasm (hash : BytesN 32) : Program V Ev W ε Unit := fun env f =>
  if env.installable hash then (.ok (), f) else (.error (.abort .host), f)

/-- A call to another contract. A callee's failure fails the caller. -/
def callContract (call : Env → W → Except Abort α × W) : Program V Ev W ε α := fun env f =>
  match call env f.world with
  | (.ok a, w) => (.ok a, {f with world := w})
  | (.error e, w) => (.error (.abort e), {f with world := w})

@[simp] theorem timestamp_ok {n : UInt64} :
    (timestamp : Program V Ev W ε UInt64) env f = (.ok n, f') ↔ n = env.timestamp ∧ f' = f := by
  simp [timestamp, eq_comm]

@[simp] theorem currentContractAddress_ok {a : Address} :
    (currentContractAddress : Program V Ev W ε Address) env f = (.ok a, f') ↔
      a = env.currentContract ∧ f' = f := by
  simp [currentContractAddress, eq_comm]

@[simp] theorem requireAuth_ok {a : Address} {u : Unit} :
    (requireAuth a : Program V Ev W ε Unit) env f = (.ok u, f') ↔
      env.signed a = true ∧ f' = f := by
  unfold requireAuth
  cases env.signed a <;> simp [eq_comm]

@[simp] theorem publish_ok {event : Ev} {u : Unit} :
    (publish event : Program V Ev W ε Unit) env f = (.ok u, f') ↔
      f' = {f with events := f.events ++ [event]} := by
  simp [publish, eq_comm]

@[simp] theorem updateCurrentContractWasm_ok {hash : BytesN 32} {u : Unit} :
    (updateCurrentContractWasm hash : Program V Ev W ε Unit) env f = (.ok u, f') ↔
      env.installable hash = true ∧ f' = f := by
  unfold updateCurrentContractWasm
  cases env.installable hash <;> simp [eq_comm]

@[simp] theorem callContract_ok {call : Env → W → Except Abort α × W} {a : α} :
    (callContract call : Program V Ev W ε α) env f = (.ok a, f') ↔
      ∃ w, call env f.world = (.ok a, w) ∧ f' = {f with world := w} := by
  unfold callContract
  rcases call env f.world with ⟨e | b, w⟩
  · simp
  · simp [and_assoc, eq_comm]

/-! ### Storage -/

section Entries
variable [DecidableEq K]

def has (c : StorageClass) (k : K) : Program V Ev W ε Bool := fun env f =>
  (.ok (f.entries c k).isSome, {f with toStorage := f.access env.minimumTtl env.sequence c k})

def get (c : StorageClass) (k : K) : Program V Ev W ε (Option (V k)) := fun env f =>
  (.ok (f.entries c k), {f with toStorage := f.access env.minimumTtl env.sequence c k})

def set (c : StorageClass) (k : K) (v : V k) : Program V Ev W ε Unit := fun env f =>
  (.ok (), {f with toStorage := f.write env.minimumTtl env.sequence c k v})

def remove (c : StorageClass) (k : K) : Program V Ev W ε Unit := fun _ f =>
  (.ok (), {f with toStorage := f.delete c k})

/-- `storage().persistent().extend_ttl(..)`; the host fails on a missing entry. -/
def extendTtl (k : K) (threshold extendTo : Nat) : Program V Ev W ε Unit := fun env f =>
  if (f.entries .persistent k).isSome then
    (.ok (), {f with toStorage := f.extend threshold extendTo env.sequence k})
  else (.error (.abort .host), f)

/-- `storage().instance().extend_ttl(..)` -/
def extendInstanceTtl (threshold extendTo : Nat) : Program V Ev W ε Unit := fun env f =>
  (.ok (), {f with toStorage := f.extendInstance threshold extendTo env.sequence})

@[simp] theorem has_ok {c : StorageClass} {k : K} {b : Bool} :
    (has c k : Program V Ev W ε Bool) env f = (.ok b, f') ↔
      b = (f.entries c k).isSome ∧
        f' = {f with toStorage := f.access env.minimumTtl env.sequence c k} := by
  simp [has, eq_comm]

@[simp] theorem get_ok {c : StorageClass} {k : K} {o : Option (V k)} :
    (get c k : Program V Ev W ε (Option (V k))) env f = (.ok o, f') ↔
      o = f.entries c k ∧ f' = {f with toStorage := f.access env.minimumTtl env.sequence c k} := by
  simp [get, eq_comm]

@[simp] theorem set_ok {c : StorageClass} {k : K} {v : V k} {u : Unit} :
    (set c k v : Program V Ev W ε Unit) env f = (.ok u, f') ↔
      f' = {f with toStorage := f.write env.minimumTtl env.sequence c k v} := by
  simp [set, eq_comm]

@[simp] theorem remove_ok {c : StorageClass} {k : K} {u : Unit} :
    (remove c k : Program V Ev W ε Unit) env f = (.ok u, f') ↔
      f' = {f with toStorage := f.delete c k} := by
  simp [remove, eq_comm]

@[simp] theorem extendTtl_ok {k : K} {threshold extendTo : Nat} {u : Unit} :
    (extendTtl k threshold extendTo : Program V Ev W ε Unit) env f = (.ok u, f') ↔
      (f.entries .persistent k).isSome = true ∧
        f' = {f with toStorage := f.extend threshold extendTo env.sequence k} := by
  unfold extendTtl
  cases (f.entries .persistent k).isSome <;> simp [eq_comm]

omit [DecidableEq K] in
@[simp] theorem extendInstanceTtl_ok {threshold extendTo : Nat} {u : Unit} :
    (extendInstanceTtl threshold extendTo : Program V Ev W ε Unit) env f = (.ok u, f') ↔
      f' = {f with toStorage := f.extendInstance threshold extendTo env.sequence} := by
  simp [extendInstanceTtl, eq_comm]

end Entries
end Rules

/-! ### Slots -/

/-- A key whose entry holds an `α`, for code that is the same in contracts with
different keys. -/
structure Slot {K : Type} (V : K → Type) (α : Type) where
  key : K
  type_eq : V key = α

namespace Slot
variable {K : Type} {V : K → Type} {Ev W ε α β : Type}

/-- The instance entry of a slot. -/
def read (s : Slot V α) (d : Entries V) : Option α := s.type_eq ▸ d .inst s.key

variable [DecidableEq K]

def put (s : Slot V α) (d : Entries V) (o : Option α) : Entries V :=
  Entries.put d .inst s.key (s.type_eq.symm ▸ o)

def get (s : Slot V α) : Program V Ev W ε (Option α) := s.type_eq ▸ Soroban.get .inst s.key

def set (s : Slot V α) (a : α) : Program V Ev W ε Unit :=
  Soroban.set .inst s.key (s.type_eq.symm ▸ a)

def remove (s : Slot V α) : Program V Ev W ε Unit := Soroban.remove .inst s.key

@[simp] theorem read_put_self (s : Slot V α) (d : Entries V) (o : Option α) :
    s.read (s.put d o) = o := by
  obtain ⟨k, rfl⟩ := s
  simp [read, put]

theorem put_put (s : Slot V α) (d : Entries V) (o o' : Option α) :
    s.put (s.put d o) o' = s.put d o' :=
  Entries.put_put d .inst s.key _ _

@[simp] theorem read_put_of_ne {s : Slot V α} {t : Slot V β} (h : s.key ≠ t.key) (d : Entries V)
    (o : Option β) : s.read (t.put d o) = s.read d := by
  obtain ⟨k, rfl⟩ := s
  obtain ⟨k', rfl⟩ := t
  simp [read, put, h]

omit [DecidableEq K] in
@[simp] theorem read_empty (s : Slot V α) : s.read Entries.empty = none := by
  obtain ⟨k, rfl⟩ := s
  rfl

theorem put_frame (s : Slot V α) (d : Entries V) (o : Option α) {c : StorageClass} {k : K}
    (h : c = .inst → k ≠ s.key) : s.put d o c k = d c k := by
  by_cases hc : c = .inst
  · exact Entries.put_key _ _ _ _ (h hc)
  · exact Entries.put_class _ _ _ _ hc

@[simp] theorem put_persistent (s : Slot V α) (d : Entries V) (o : Option α) (k : K) :
    s.put d o .persistent k = d .persistent k :=
  s.put_frame d o (by simp)

variable {env : Env} {f f' : Frame V Ev W}

@[simp] theorem get_ok {s : Slot V α} {o : Option α} :
    (s.get : Program V Ev W ε (Option α)) env f = (.ok o, f') ↔
      o = s.read f.entries ∧ f' = f := by
  obtain ⟨k, rfl⟩ := s
  simp [get, read]

@[simp] theorem set_ok {s : Slot V α} {a : α} {u : Unit} :
    (s.set a : Program V Ev W ε Unit) env f = (.ok u, f') ↔
      f' = {f with entries := s.put f.entries (some a)} := by
  obtain ⟨k, rfl⟩ := s
  simp [set, put]

@[simp] theorem remove_ok {s : Slot V α} {u : Unit} :
    (s.remove : Program V Ev W ε Unit) env f = (.ok u, f') ↔
      f' = {f with entries := s.put f.entries none} := by
  obtain ⟨k, rfl⟩ := s
  simp [remove, put, Storage.delete]

end Slot

/-! ### Entry points -/

abbrev ErrorCode := UInt32

section Entry
variable {K : Type} {V : K → Type} {Ev W ε α ρ : Type} {env : Env} {f f' : Frame V Ev W}

/-- A function as it is exported: its errors by their codes, its result as a host value. -/
def entry (code : ε → ErrorCode) (ret : α → ρ) (x : Program V Ev W ε α) :
    Program V Ev W ErrorCode ρ := do
  let a ← mapErr x code
  return ret a

@[simp] theorem entry_ok {code : ε → ErrorCode} {ret : α → ρ} {x : Program V Ev W ε α} {r : ρ} :
    entry code ret x env f = (.ok r, f') ↔ ∃ a, x env f = (.ok a, f') ∧ r = ret a := by
  simp only [entry, bind_ok, mapErr_ok, pure_ok]
  constructor
  · rintro ⟨a, f₁, hx, hr, rfl⟩
    exact ⟨a, hx, hr⟩
  · rintro ⟨a, hx, hr⟩
    exact ⟨a, f', hx, hr, rfl⟩

theorem entry_run {code : ε → ErrorCode} {ret : α → ρ} {x : Program V Ev W ε α} {r : ρ}
    (h : entry code ret x env f = (.ok r, f')) : ∃ a, x env f = (.ok a, f') := by
  obtain ⟨a, hx, _⟩ := entry_ok.mp h
  exact ⟨a, hx⟩

/-- A failure as the caller of an entry point sees it. -/
def Failure.mapCode (code : ε → ErrorCode) : Failure ε → Failure ErrorCode
  | .error e => .error (code e)
  | .abort a => .abort a

theorem entry_outcome (code : ε → ErrorCode) (ret : α → ρ) (x : Program V Ev W ε α) :
    (entry code ret x env f).1 = ((x env f).1.mapError (Failure.mapCode code)).map ret := by
  simp only [entry, bind, mapErr]
  rcases x env f with ⟨(e | a) | a, f₁⟩ <;> rfl

/-! ### Effects on the values

An effect says what a function that returns has returned, stored and published, in
terms of the values alone. A program realizes it when it does exactly that, whatever
the lifetimes: the programs are related to their effects once, and everything about
values is then proved of the effects. -/

/-- `E d w a d' events w'`: from the values `d` and the world `w`, the result `a`, the
values `d'`, the published `events` and the world `w'`. -/
def Realizes (x : Program V Ev W ε α)
    (E : Env → Entries V → W → α → Entries V → List Ev → W → Prop) : Prop :=
  ∀ (env : Env) (f : Frame V Ev W) (a : α) (d' : Entries V) (events : List Ev) (w' : W),
    (∃ f', w' = f'.world ∧ x env f = (.ok a, f') ∧ d' = f'.entries ∧
      f.events ++ events = f'.events) ↔ E env f.entries f.world a d' events w'

/-- What a caller learns of an invocation. -/
structure Receipt (Ev ρ : Type) where
  outcome : Except (Failure ErrorCode) ρ
  events : List Ev

def Receipt.Succeeded (r : Receipt Ev ρ) : Prop := ∃ v, r.outcome = .ok v

theorem Receipt.not_succeeded {r : Receipt Ev ρ} {e : Failure ErrorCode}
    (h : r.outcome = .error e) : ¬ r.Succeeded := by
  rintro ⟨v, hv⟩
  rw [h] at hv
  cases hv

instance (r : Receipt Ev ρ) : Decidable r.Succeeded :=
  match h : r.outcome with
  | .ok v => .isTrue ⟨v, h⟩
  | .error _ => .isFalse (Receipt.not_succeeded h)

def Receipt.mapEvents {Ev' : Type} (g : Ev → Ev') (r : Receipt Ev ρ) : Receipt Ev' ρ :=
  ⟨r.outcome, r.events.map g⟩

/-- The host runs an entry point to its end, or leaves everything as it was: a failed
invocation writes nothing, extends nothing and publishes nothing. -/
def invoke (x : Program V Ev W ErrorCode ρ) (env : Env) (s : Storage V) (w : W) :
    Receipt Ev ρ × Storage V × W :=
  match x env ⟨s.load env.minimumTtl env.sequence, [], w⟩ with
  | (.ok v, f) => (⟨.ok v, f.events⟩, f.toStorage, f.world)
  | (.error e, _) => (⟨.error e, []⟩, s, w)

theorem invoke_outcome (x : Program V Ev W ErrorCode ρ) (env : Env) (s : Storage V) (w : W) :
    (invoke x env s w).1.outcome = (x env ⟨s.load env.minimumTtl env.sequence, [], w⟩).1 := by
  unfold invoke
  rcases x env ⟨s.load env.minimumTtl env.sequence, [], w⟩ with ⟨e | v, f⟩ <;> rfl

variable {x : Program V Ev W ErrorCode ρ}
  {E : Env → Entries V → W → ρ → Entries V → List Ev → W → Prop}

/-- An invocation has the effect its program realizes, or fails because no effect is
possible, and then changes nothing. -/
theorem invoke_cases (hx : Realizes x E) (env : Env) (s : Storage V) (w : W) :
    (∃ v, (invoke x env s w).1.outcome = .ok v ∧
      E env s.entries w v (invoke x env s w).2.1.entries (invoke x env s w).1.events
        (invoke x env s w).2.2) ∨
    (∃ e, invoke x env s w = (⟨.error e, []⟩, s, w) ∧
      ∀ v d' events w', ¬ E env s.entries w v d' events w') := by
  have h := hx env ⟨s.load env.minimumTtl env.sequence, [], w⟩
  unfold invoke
  rcases hrun : x env ⟨s.load env.minimumTtl env.sequence, [], w⟩ with ⟨e | v, f⟩
  · refine .inr ⟨e, rfl, fun v d' events w' hE => ?_⟩
    obtain ⟨f', _, hf', _⟩ := (h v d' events w').mpr hE
    rw [hrun] at hf'
    cases hf'
  · exact .inl ⟨v, rfl, (h v f.entries f.events f.world).mp ⟨f, rfl, hrun, rfl, rfl⟩⟩

/-- An invocation whose effect is possible has it. -/
theorem invoke_ok (hx : Realizes x E) {env : Env} {s : Storage V} {w w' : W} {v : ρ}
    {d' : Entries V} {events : List Ev} (hE : E env s.entries w v d' events w') :
    (invoke x env s w).1 = ⟨.ok v, events⟩ ∧ (invoke x env s w).2.1.entries = d' ∧
      (invoke x env s w).2.2 = w' := by
  obtain ⟨f', hw, hrun, hd, hev⟩ :=
    (hx env ⟨s.load env.minimumTtl env.sequence, [], w⟩ v d' events w').mpr hE
  simp only [List.nil_append] at hev
  unfold invoke
  rw [hrun]
  exact ⟨by rw [hev], hd.symm, hw.symm⟩

end Entry

/-- A call of type `C` and the context it is made in. -/
structure Invocation (C : Type) where
  call : C
  env : Env

def Invocation.time {C : Type} (i : Invocation C) : UInt64 := i.env.timestamp

end Soroban

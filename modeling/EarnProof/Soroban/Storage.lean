import EarnProof.Soroban.Address
import Mathlib.Logic.Function.Basic

/-! What one contract keeps on the ledger.

`K` is a contract's key type and `V k` the type stored under `k`, so an entry
holds a value of its own type by construction. The values (`Entries`) are kept
apart from the live-until ledgers: reading an archived entry restores it, so no
value ever depends on a lifetime, and the value results read `entries` alone. -/
namespace Soroban

inductive StorageClass where
  | inst
  | persistent
  | temporary
  deriving DecidableEq

variable {K : Type} [DecidableEq K] {V : K → Type}

/-- The stored values, by storage class and key. -/
abbrev Entries (V : K → Type) := StorageClass → (k : K) → Option (V k)

namespace Entries

def empty : Entries V := fun _ _ => none

/-- Write `o` under `k`: a value, or nothing. -/
def put (d : Entries V) (c : StorageClass) (k : K) (o : Option (V k)) : Entries V :=
  Function.update d c (Function.update (d c) k o)

omit [DecidableEq K] in
@[simp] theorem empty_apply (c : StorageClass) (k : K) : (empty : Entries V) c k = none := rfl

@[simp] theorem put_self (d : Entries V) (c : StorageClass) (k : K) (o : Option (V k)) :
    d.put c k o c k = o := by
  simp [put]

@[simp] theorem put_key (d : Entries V) (c c' : StorageClass) {k k' : K} (o : Option (V k))
    (h : k' ≠ k) : d.put c k o c' k' = d c' k' := by
  by_cases hc : c' = c
  · subst hc
    simp [put, h]
  · simp [put, hc]

@[simp] theorem put_class (d : Entries V) {c c' : StorageClass} (k k' : K) (o : Option (V k))
    (h : c' ≠ c) : d.put c k o c' k' = d c' k' := by
  simp [put, h]

theorem put_put (d : Entries V) (c : StorageClass) (k : K) (o o' : Option (V k)) :
    (d.put c k o).put c k o' = d.put c k o' := by
  simp [put]

end Entries

/-! ### Lifetimes -/

/-- `extend_ttl` at ledger `now` on an entry that lives until ledger `live`. -/
def extendUntil (threshold extendTo now live : Nat) : Nat :=
  if live - now ≤ threshold ∧ live < now + extendTo then now + extendTo else live

/-- An access to an archived entry gives it the network's minimum lifetime. -/
def restoreUntil (minimum now live : Nat) : Nat :=
  if live < now then now + minimum - 1 else live

/-- One contract's entries, the last ledger of its instance entry and the last
ledger of each persistent entry. -/
structure Storage (V : K → Type) where
  entries : Entries V
  instanceUntil : Nat
  liveUntil : K → Nat

namespace Storage

/-- A contract that was never called. -/
def empty : Storage V := ⟨Entries.empty, 0, fun _ => 0⟩

/-- Loading a contract restores its archived instance entry. -/
def load (minimum now : Nat) (s : Storage V) : Storage V :=
  {s with instanceUntil := restoreUntil minimum now s.instanceUntil}

/-- Reading a persistent entry restores it when it was archived. -/
def access (minimum now : Nat) (c : StorageClass) (k : K) (s : Storage V) : Storage V :=
  if c = .persistent ∧ (s.entries c k).isSome then
    {s with liveUntil := Function.update s.liveUntil k (restoreUntil minimum now (s.liveUntil k))}
  else s

/-- A new persistent entry gets the minimum lifetime; one that exists keeps its own. -/
def write (minimum now : Nat) (c : StorageClass) (k : K) (v : V k) (s : Storage V) : Storage V :=
  { access minimum now c k s with
    entries := s.entries.put c k (some v)
    liveUntil := if c = .persistent ∧ s.entries c k = none
      then Function.update s.liveUntil k (now + minimum - 1)
      else (access minimum now c k s).liveUntil }

def delete (c : StorageClass) (k : K) (s : Storage V) : Storage V :=
  {s with entries := s.entries.put c k none}

/-- The lifetime is set to `extendTo` ledgers when no more than `threshold` are left. -/
def extend (threshold extendTo now : Nat) (k : K) (s : Storage V) : Storage V :=
  {s with liveUntil :=
    Function.update s.liveUntil k (extendUntil threshold extendTo now (s.liveUntil k))}

/-- A persistent entry is looked up, written and extended. -/
def renew (threshold extendTo minimum now : Nat) (k : K) (v : V k) (s : Storage V) : Storage V :=
  ((s.access minimum now .persistent k).write minimum now .persistent k v).extend threshold extendTo
    now k

/-- The same for the instance entry. -/
def extendInstance (threshold extendTo now : Nat) (s : Storage V) : Storage V :=
  {s with instanceUntil := extendUntil threshold extendTo now s.instanceUntil}

omit [DecidableEq K] in
@[simp] theorem entries_empty : (empty : Storage V).entries = Entries.empty := rfl

omit [DecidableEq K] in
@[simp] theorem entries_load (minimum now : Nat) (s : Storage V) :
    (s.load minimum now).entries = s.entries := rfl

@[simp] theorem entries_access (minimum now : Nat) (c : StorageClass) (k : K) (s : Storage V) :
    (s.access minimum now c k).entries = s.entries := by
  unfold access
  split <;> rfl

@[simp] theorem entries_write (minimum now : Nat) (c : StorageClass) (k : K) (v : V k)
    (s : Storage V) : (s.write minimum now c k v).entries = s.entries.put c k (some v) := rfl

@[simp] theorem entries_delete (c : StorageClass) (k : K) (s : Storage V) :
    (s.delete c k).entries = s.entries.put c k none := rfl

@[simp] theorem entries_extend (threshold extendTo now : Nat) (k : K) (s : Storage V) :
    (s.extend threshold extendTo now k).entries = s.entries := rfl

omit [DecidableEq K] in
@[simp] theorem entries_extendInstance (threshold extendTo now : Nat) (s : Storage V) :
    (s.extendInstance threshold extendTo now).entries = s.entries := rfl

/-! Instance entries have no lifetime of their own. -/

@[simp] theorem access_inst (minimum now : Nat) (k : K) (s : Storage V) :
    s.access minimum now .inst k = s := by
  simp [access]

@[simp] theorem write_inst (minimum now : Nat) (k : K) (v : V k) (s : Storage V) :
    s.write minimum now .inst k v = {s with entries := s.entries.put .inst k (some v)} := by
  simp [write]

/-! Only `load` and `extendInstance` change the lifetime of the instance entry. -/

@[simp] theorem instanceUntil_access (minimum now : Nat) (c : StorageClass) (k : K) (s : Storage V) :
    (s.access minimum now c k).instanceUntil = s.instanceUntil := by
  unfold access
  split <;> rfl

@[simp] theorem instanceUntil_write (minimum now : Nat) (c : StorageClass) (k : K) (v : V k)
    (s : Storage V) : (s.write minimum now c k v).instanceUntil = s.instanceUntil :=
  instanceUntil_access minimum now c k s

@[simp] theorem instanceUntil_delete (c : StorageClass) (k : K) (s : Storage V) :
    (s.delete c k).instanceUntil = s.instanceUntil := rfl

@[simp] theorem instanceUntil_extend (threshold extendTo now : Nat) (k : K) (s : Storage V) :
    (s.extend threshold extendTo now k).instanceUntil = s.instanceUntil := rfl

@[simp] theorem instanceUntil_renew (threshold extendTo minimum now : Nat) (k : K) (v : V k)
    (s : Storage V) :
    (s.renew threshold extendTo minimum now k v).instanceUntil = s.instanceUntil := by
  simp [renew]

omit [DecidableEq K] in
@[simp] theorem instanceUntil_extendInstance (threshold extendTo now : Nat) (s : Storage V) :
    (s.extendInstance threshold extendTo now).instanceUntil =
      extendUntil threshold extendTo now s.instanceUntil := rfl

omit [DecidableEq K] in
@[simp] theorem liveUntil_extendInstance (threshold extendTo now : Nat) (s : Storage V) :
    (s.extendInstance threshold extendTo now).liveUntil = s.liveUntil := rfl

/-- The instance entry is written and extended, and nothing else has changed. -/
structure InstanceExtended (threshold extendTo now : Nat) (s s' : Storage V) : Prop where
  entries : ∀ k, s'.entries .persistent k = s.entries .persistent k
  liveUntil : s'.liveUntil = s.liveUntil
  instanceUntil : s'.instanceUntil = extendUntil threshold extendTo now s.instanceUntil

/-- An instance value that was written before makes no difference. -/
theorem InstanceExtended.of_write {s s' : Storage V} {threshold extendTo minimum now : Nat} {k : K}
    {v : V k} (h : (s.write minimum now .inst k v).InstanceExtended threshold extendTo now s') :
    s.InstanceExtended threshold extendTo now s' where
  entries := fun k' => by simpa using h.entries k'
  liveUntil := by simpa using h.liveUntil
  instanceUntil := by simpa using h.instanceUntil

end Storage
end Soroban

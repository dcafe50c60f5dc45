import EarnProof.Soroban.Storage
import Mathlib.Data.Set.Card

/-! The inventory of storage namespaces, and what it promises of a contract's storage.

A `DataKey` is encoded as a list: the name of its variant, then its payload. The
inventory has a row for each variant, with the contract that owns it, the number of
its payload fields and the class it is kept in. `Inventoried` is the promise: what is
stored is in the inventory, and the instance entry has at most one key for each row. -/
namespace EarnProof
open Soroban

/-- The host values a storage key is made of. -/
inductive ScVal where
  | symbol (name : String)
  | u32 (n : UInt32)
  | bytes (b : List UInt8)
  | address (a : Address)
  deriving DecidableEq

/-- One `DataKey` variant; `variantName` is the discriminant symbol. -/
structure StorageNamespace where
  contract : String
  variantName : String
  arity : Nat
  storageClass : StorageClass
  deriving DecidableEq

def STORAGE_NAMESPACES : List StorageNamespace :=
  [⟨"issuer-registry", "AddressIssuer", 1, .persistent⟩,
    ⟨"issuer-registry", "Admin", 0, .inst⟩,
    ⟨"issuer-registry", "ContractVersion", 0, .inst⟩,
    ⟨"issuer-registry", "Issuer", 1, .persistent⟩,
    ⟨"proof-registry", "Admin", 0, .inst⟩,
    ⟨"proof-registry", "ContractVersion", 0, .inst⟩,
    ⟨"proof-registry", "IssuerRegistry", 0, .inst⟩,
    ⟨"proof-registry", "Proof", 1, .persistent⟩,
    ⟨"proof-registry", "ProtocolConfig", 0, .inst⟩,
    ⟨"protocol-config", "Admin", 0, .inst⟩,
    ⟨"protocol-config", "ConfigVersion", 0, .inst⟩,
    ⟨"protocol-config", "ContractVersion", 0, .inst⟩,
    ⟨"protocol-config", "Paused", 0, .inst⟩,
    ⟨"protocol-config", "SchemaVersion", 1, .persistent⟩]

/-- The variants `contract` keeps in a class. -/
def namespacesFor (contract : String) (c : StorageClass) : List String :=
  (STORAGE_NAMESPACES.filter fun row => row.contract == contract && row.storageClass == c).map
    StorageNamespace.variantName

/-- Instance rows are singletons, persistent rows are for records, and nothing is temporary. -/
theorem class_rules : ∀ row ∈ STORAGE_NAMESPACES,
    (row.storageClass = .inst → row.arity = 0) ∧ (row.storageClass = .persistent → 0 < row.arity) ∧
      row.storageClass ≠ .temporary := by
  decide

/-- Outside the instance a variant's name tells whose it is. -/
theorem variants_apart : ∀ row ∈ STORAGE_NAMESPACES, ∀ row' ∈ STORAGE_NAMESPACES,
    row.storageClass ≠ .inst → row'.storageClass ≠ .inst → row.variantName = row'.variantName →
      row.contract = row'.contract := by
  decide

/-! ### Keys -/

/-- How a contract's keys are encoded. -/
structure KeyCodec (K : Type) where
  contract : String
  variantName : K → String
  payload : K → List ScVal
  injective : ∀ k k', variantName k = variantName k' → payload k = payload k' → k = k'

section
variable {K : Type} {V : K → Type} (codec : KeyCodec K)

/-- The encoded key: the variant's name, then the payload fields. -/
def KeyCodec.encode (k : K) : List ScVal := .symbol (codec.variantName k) :: codec.payload k

/-- Different keys never collide. -/
theorem KeyCodec.encode_injective : Function.Injective codec.encode := by
  intro k k' h
  obtain ⟨hname, hpayload⟩ := List.cons.inj h
  exact codec.injective k k' (ScVal.symbol.inj hname) hpayload

/-- The inventory has a row for the key in this class. -/
def Listed (c : StorageClass) (k : K) : Prop :=
  ∃ row ∈ STORAGE_NAMESPACES, row.contract = codec.contract ∧
    row.variantName = codec.variantName k ∧ row.arity = (codec.payload k).length ∧
    row.storageClass = c

/-- What the inventory promises of a contract's storage. -/
structure Inventoried (d : Entries V) : Prop where
  listed : ∀ c k, (d c k).isSome → Listed codec c k
  inst_payload : ∀ k, (d .inst k).isSome → codec.payload k = []
  persistent_payload : ∀ k, (d .persistent k).isSome → codec.payload k ≠ []
  temporary : ∀ k, d .temporary k = none
  inst_bounded :
    {k | (d .inst k).isSome}.encard ≤ (namespacesFor codec.contract .inst).length

variable {codec} {d : Entries V}

theorem Listed.rules {c : StorageClass} {k : K} (h : Listed codec c k) :
    (c = .inst → codec.payload k = []) ∧ (c = .persistent → codec.payload k ≠ []) ∧
      c ≠ .temporary := by
  obtain ⟨row, hrow, _, _, harity, rfl⟩ := h
  obtain ⟨hinst, hpersistent, htemporary⟩ := class_rules row hrow
  refine ⟨fun hc => ?_, fun hc => ?_, htemporary⟩
  · rw [← List.length_eq_zero_iff, ← harity]
    exact hinst hc
  · rw [← List.length_pos_iff, ← harity]
    exact hpersistent hc

/-- Outside the instance, listed keys with one name are of one contract. -/
theorem Listed.contract_eq {K' : Type} {codec' : KeyCodec K'} {c : StorageClass} {k : K} {k' : K'}
    (h : Listed codec c k) (h' : Listed codec' c k') (hc : c ≠ .inst)
    (hname : codec.variantName k = codec'.variantName k') : codec.contract = codec'.contract := by
  obtain ⟨row, hrow, hcontract, hvariant, _, rfl⟩ := h
  obtain ⟨row', hrow', hcontract', hvariant', _, hclass⟩ := h'
  rw [← hcontract, ← hcontract']
  refine variants_apart row hrow row' hrow' hc (hclass ▸ hc) ?_
  rw [hvariant, hvariant', hname]

/-- A listed instance key is the name of one of the contract's instance rows. -/
theorem Listed.encode_mem {k : K} (h : Listed codec .inst k) :
    codec.encode k ∈ (namespacesFor codec.contract .inst).map fun name => [ScVal.symbol name] := by
  have hpayload := h.rules.1 rfl
  obtain ⟨row, hrow, hcontract, hname, _, hclass⟩ := h
  refine List.mem_map.mpr ⟨row.variantName, List.mem_map.mpr ⟨row, ?_, rfl⟩, ?_⟩
  · exact List.mem_filter.mpr ⟨hrow, by simp [hcontract, hclass]⟩
  · rw [KeyCodec.encode, hpayload, hname]

/-- The whole promise follows from the rows: the keys of the instance entry are told apart
by their names, so there are no more of them than rows. -/
theorem Inventoried.of_listed (h : ∀ c k, (d c k).isSome → Listed codec c k) :
    Inventoried codec d where
  listed := h
  inst_payload := fun k hk => (h .inst k hk).rules.1 rfl
  persistent_payload := fun k hk => (h .persistent k hk).rules.2.1 rfl
  temporary := fun k => Option.not_isSome_iff_eq_none.mp fun hk =>
    (h .temporary k hk).rules.2.2 rfl
  inst_bounded := by
    let keys := (namespacesFor codec.contract .inst).map fun name => [ScVal.symbol name]
    have hsub : codec.encode '' {k | (d .inst k).isSome} ⊆ ↑keys.toFinset := by
      intro key hkey
      obtain ⟨k, hk, rfl⟩ := hkey
      exact List.mem_toFinset.mpr (h .inst k hk).encode_mem
    calc {k | (d .inst k).isSome}.encard
        = (codec.encode '' {k | (d .inst k).isSome}).encard :=
          (codec.encode_injective.encard_image _).symm
      _ ≤ (↑keys.toFinset : Set (List ScVal)).encard := Set.encard_le_encard hsub
      _ = (keys.toFinset.card : ℕ∞) := Set.encard_coe_eq_coe_finsetCard _
      _ ≤ ((namespacesFor codec.contract .inst).length : ℕ∞) := by
          have hcard : keys.toFinset.card ≤ keys.length := List.toFinset_card_le _
          rw [List.length_map] at hcard
          exact Nat.cast_le.mpr hcard

end
end EarnProof

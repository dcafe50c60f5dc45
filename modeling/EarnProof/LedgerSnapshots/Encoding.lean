import EarnProof.Inventory.Contracts
import EarnProof.LedgerSnapshots.Snapshot
import EarnProof.System.Machine

/-! What the contracts store and publish, in serialized form.

A variant is a list that starts with its name, a struct is the map of its fields in the
order of their names, and an event has its name for a topic and its struct for data. Each
contract's keys and values are told apart (`Layout`), and so are the events of a
deployment (`publish_injective`). -/
namespace EarnProof.LedgerSnapshots
open Soroban

/-- A name in the code. -/
def sym (name : String) : ScVal :=
  if h : name.toList.all symbolChar = true then .symbol (.ofName name h) else .other name

theorem sym_cases (name : String) : (∃ s, sym name = .symbol s) ∨ sym name = .other name := by
  unfold sym
  split
  · exact .inl ⟨_, rfl⟩
  · exact .inr rfl

/-- A name is read back from its serialization. -/
theorem sym_inj {a b : String} : sym a = sym b ↔ a = b := by
  constructor
  · intro h
    unfold sym at h
    split at h <;> split at h
    · exact congrArg Symbol.name (ScVal.symbol.inj h)
    · cases h
    · cases h
    · exact ScVal.other.inj h
  · exact congrArg sym

/-- A struct, as the map from its field names. -/
def struct (fields : List (String × ScVal)) : ScVal := .map (fields.map fun f => (sym f.1, f.2))

/-- A variant without a payload. -/
def unitVariant (name : String) : ScVal := .vec [sym name]

/-- A struct is read back from its map. -/
theorem struct_inj {fs gs : List (String × ScVal)} : struct fs = struct gs ↔ fs = gs := by
  constructor
  · intro h
    refine List.map_injective_iff.mpr (fun f g hfg => ?_) (ScVal.map.inj h)
    obtain ⟨hname, hval⟩ := Prod.mk.inj hfg
    exact Prod.ext (sym_inj.mp hname) hval
  · exact congrArg struct

theorem unitVariant_inj {a b : String} : unitVariant a = unitVariant b ↔ a = b := by
  simp only [unitVariant, ScVal.vec.injEq, List.cons.injEq, and_true, sym_inj]

theorem bytesN_inj {n : Nat} {a b : BytesN n} : a.bytes = b.bytes ↔ a = b :=
  ⟨BytesN.bytes_inj, congrArg BytesN.bytes⟩

/-! ### Keys and values -/

/-- The name and the arguments of a key. -/
def keyField : EarnProof.ScVal → ScVal
  | .symbol name => sym name
  | .u32 n => .u32 n
  | .bytes b => .bytes b
  | .address a => .address a

theorem keyField_injective : Function.Injective keyField := by
  have hname : ∀ {name : String} {x : EarnProof.ScVal}, sym name = keyField x → x = .symbol name := by
    intro name x h
    cases x with
    | symbol name' => rw [sym_inj.mp h]
    | _ => rcases sym_cases name with ⟨s, hs⟩ | hs <;> rw [hs] at h <;> cases h
  intro x y h
  cases x with
  | symbol name => exact (hname h).symm
  | _ =>
    cases y with
    | symbol name => exact hname h.symm
    | _ => cases h <;> rfl

/-- How a contract's keys and values are serialized. -/
structure Layout {K : Type} (V : K → Type) where
  key : KeyCodec K
  val : (k : K) → V k → ScVal
  val_injective : ∀ k, Function.Injective (val k)

namespace Layout
variable {K : Type} {V : K → Type} (L : Layout V)

/-- A key is the vector of its name and its arguments. -/
def keyVal (k : K) : ScVal := .vec ((L.key.encode k).map keyField)

/-- What the host lists for a key and its value. -/
def entry (k : K) (v : V k) : ScVal × ScVal := (L.keyVal k, L.val k v)

theorem keyVal_injective : Function.Injective L.keyVal := by
  intro k k' h
  have hfields := ScVal.vec.inj h
  exact L.key.encode_injective (List.map_injective_iff.mpr keyField_injective hfields)

/-- Keys of two contracts with one serialization have one name. -/
theorem variantName_eq {K' : Type} {V' : K' → Type} {L : Layout V} {L' : Layout V'} {k : K} {k' : K'}
    (h : L.keyVal k = L'.keyVal k') : L.key.variantName k = L'.key.variantName k' := by
  have hfields := List.map_injective_iff.mpr keyField_injective (ScVal.vec.inj h)
  exact EarnProof.ScVal.symbol.inj (List.cons.inj hfields).1

/-- The serialized entries of a class of the stored values. -/
def Holds (d : Entries V) (c : StorageClass) (e : ScVal × ScVal) : Prop :=
  ∃ k v, d c k = some v ∧ L.entry k v = e

/-- `l` lists a class of the stored values: each entry once. -/
structure Lists (d : Entries V) (c : StorageClass) (l : List (ScVal × ScVal)) : Prop where
  nodup : l.Nodup
  mem_iff : ∀ e, e ∈ l ↔ L.Holds d c e

variable {L} {d d' : Entries V} {c : StorageClass} {l l' : List (ScVal × ScVal)}

/-- A key is stored with one value. -/
theorem Holds.unique {e e' : ScVal × ScVal} (h : L.Holds d c e) (h' : L.Holds d c e')
    (hkey : e.1 = e'.1) : e = e' := by
  obtain ⟨k, v, hv, rfl⟩ := h
  obtain ⟨k', v', hv', rfl⟩ := h'
  obtain rfl := L.keyVal_injective hkey
  obtain rfl := Option.some.inj (hv.symm.trans hv')
  rfl

theorem not_holds_empty (e : ScVal × ScVal) : ¬ L.Holds Entries.empty c e := by
  rintro ⟨k, v, hv, _⟩
  cases hv

/-- Outside the instance, inventoried keys of two contracts are never the same. -/
theorem Holds.apart {K' : Type} {V' : K' → Type} {L' : Layout V'} {d' : Entries V'} (hc : c ≠ .inst)
    (hlisted : ∀ k, d c k ≠ none → Listed L.key c k)
    (hlisted' : ∀ k, d' c k ≠ none → Listed L'.key c k) (hne : L.key.contract ≠ L'.key.contract)
    {e e' : ScVal × ScVal} (h : L.Holds d c e) (h' : L'.Holds d' c e') : e.1 ≠ e'.1 := by
  obtain ⟨k, v, hv, rfl⟩ := h
  obtain ⟨k', v', hv', rfl⟩ := h'
  intro hkey
  have hk : Listed L.key c k := hlisted k (by simp [hv])
  have hk' : Listed L'.key c k' := hlisted' k' (by simp [hv'])
  exact hne (hk.contract_eq hk' hc (variantName_eq hkey))

/-- No key is listed twice. -/
theorem Lists.keys_nodup (h : L.Lists d c l) : (l.map Prod.fst).Nodup := by
  refine h.nodup.map_on fun e he e' he' hkey => ?_
  exact ((h.mem_iff e).mp he).unique ((h.mem_iff e').mp he') hkey

/-- A value is read off its list. -/
theorem Lists.value_mem (h : L.Lists d c l) {k : K} {v : V k} : L.entry k v ∈ l ↔ d c k = some v := by
  rw [h.mem_iff]
  constructor
  · rintro ⟨k', v', hv', he⟩
    obtain ⟨hkey, hval⟩ := Prod.mk.inj he
    obtain rfl := L.keyVal_injective hkey
    rw [← L.val_injective _ hval]
    exact hv'
  · exact fun hv => ⟨k, v, hv, rfl⟩

/-- Lists of the same entries, in any order, are of the same values. -/
theorem Lists.perm_iff (h : L.Lists d c l) (h' : L.Lists d' c l') : l.Perm l' ↔ d c = d' c := by
  constructor
  · intro hperm
    funext k
    refine Option.ext fun v => ?_
    rw [← h.value_mem, ← h'.value_mem, hperm.mem_iff]
  · intro hd
    refine (List.perm_ext_iff_of_nodup h.nodup h'.nodup).mpr fun e => ?_
    rw [h.mem_iff, h'.mem_iff, Holds, Holds, hd]

/-- Nothing is stored before the first call. -/
theorem Lists.empty : L.Lists Entries.empty c [] where
  nodup := .nil
  mem_iff := by simp [not_holds_empty]

section
variable [DecidableEq K] {k : K}

/-- A new entry is one more. -/
theorem Lists.put (h : L.Lists d c l) (v : V k) (hnew : d c k = none) :
    L.Lists (d.put c k (some v)) c (L.entry k v :: l) where
  nodup := by
    refine List.nodup_cons.mpr ⟨fun hmem => ?_, h.nodup⟩
    rw [h.value_mem, hnew] at hmem
    cases hmem
  mem_iff := by
    intro e
    rw [List.mem_cons, h.mem_iff]
    constructor
    · rintro (rfl | ⟨k', v', hv', rfl⟩)
      · exact ⟨k, v, by rw [Entries.put_self], rfl⟩
      · have hne : k' ≠ k := by
          rintro rfl
          rw [hnew] at hv'
          cases hv'
        exact ⟨k', v', by rw [Entries.put_key _ _ _ _ hne, hv'], rfl⟩
    · rintro ⟨k', v', hv', rfl⟩
      by_cases hk : k' = k
      · subst hk
        rw [Entries.put_self] at hv'
        cases hv'
        exact .inl rfl
      · rw [Entries.put_key _ _ _ _ hk] at hv'
        exact .inr ⟨k', v', hv', rfl⟩

/-- Another class keeps its list. -/
theorem Lists.put_class (h : L.Lists d c l) {c' : StorageClass} (o : Option (V k)) (hc : c ≠ c') :
    L.Lists (d.put c' k o) c l where
  nodup := h.nodup
  mem_iff := by
    intro e
    simp only [h.mem_iff, Holds, Entries.put_class _ _ _ _ hc]

end

end Layout

/-- `IssuerStatus`, a unit variant. -/
def issuerStatusVal : IssuerStatus → ScVal
  | .active => unitVariant "Active"
  | .suspended => unitVariant "Suspended"
  | .revoked => unitVariant "Revoked"

/-- `ProofStatus`, a unit variant. -/
def proofStatusVal : ProofStatus → ScVal
  | .active => unitVariant "Active"
  | .revoked => unitVariant "Revoked"

/-- `IssuerRecord`, the fields in the order of their names. -/
def issuerRecordVal (r : IssuerRecord) : ScVal :=
  struct [("created_at", .u64 r.createdAt), ("issuer_address", .address r.issuerAddress),
    ("issuer_id_hash", .bytes r.issuerIdHash.bytes), ("metadata_hash", .bytes r.metadataHash.bytes),
    ("status", issuerStatusVal r.status), ("updated_at", .u64 r.updatedAt)]

/-- `ProofRecord`, the fields in the order of their names. -/
def proofRecordVal (r : ProofRecord) : ScVal :=
  struct [("commitment_hash", .bytes r.commitmentHash.bytes), ("created_at", .u64 r.createdAt),
    ("expires_at", .u64 r.expiresAt), ("issuer_address", .address r.issuerAddress),
    ("proof_id_hash", .bytes r.proofIdHash.bytes), ("revoked_at", .u64 r.revokedAt),
    ("schema_version", .u32 r.schemaVersion), ("status", proofStatusVal r.status)]

theorem issuerStatusVal_inj {a b : IssuerStatus} : issuerStatusVal a = issuerStatusVal b ↔ a = b := by
  cases a <;> cases b <;> simp [issuerStatusVal, unitVariant_inj]

theorem proofStatusVal_inj {a b : ProofStatus} : proofStatusVal a = proofStatusVal b ↔ a = b := by
  cases a <;> cases b <;> simp [proofStatusVal, unitVariant_inj]

/-- A record is read back from its fields. -/
theorem issuerRecordVal_injective : Function.Injective issuerRecordVal := by
  rintro ⟨⟩ ⟨⟩ h
  simp only [issuerRecordVal, struct_inj, List.cons.injEq, Prod.mk.injEq, true_and, and_true,
    ScVal.u64.injEq, ScVal.address.injEq, ScVal.bytes.injEq, bytesN_inj, issuerStatusVal_inj] at h
  obtain ⟨rfl, rfl, rfl, rfl, rfl, rfl⟩ := h
  rfl

theorem proofRecordVal_injective : Function.Injective proofRecordVal := by
  rintro ⟨⟩ ⟨⟩ h
  simp only [proofRecordVal, struct_inj, List.cons.injEq, Prod.mk.injEq, true_and, and_true,
    ScVal.u64.injEq, ScVal.u32.injEq, ScVal.address.injEq, ScVal.bytes.injEq, bytesN_inj,
    proofStatusVal_inj] at h
  obtain ⟨rfl, rfl, rfl, rfl, rfl, rfl, rfl, rfl⟩ := h
  rfl

/-- What the protocol configuration stores. -/
def configLayout : Layout ProtocolConfig.DataKey.Value where
  key := ProtocolConfig.codec
  val := fun k v => match k, v with
    | .admin, a => .address a
    | .paused, b => .bool b
    | .configVersion, n => .u32 n
    | .schemaVersion _, b => .bool b
    | .allowedWasm _, n => .u32 n
    | .contractVersion, n => .u32 n
  val_injective := by
    intro k v w h
    cases k <;> injection h

/-- What the issuer registry stores. -/
def issuersLayout : Layout IssuerRegistry.DataKey.Value where
  key := IssuerRegistry.codec
  val := fun k v => match k, v with
    | .admin, a => .address a
    | .issuer _, r => issuerRecordVal r
    | .addressIssuer _, id => .bytes id.bytes
    | .allowedWasm _, n => .u32 n
    | .contractVersion, n => .u32 n
  val_injective := by
    intro k v w h
    cases k with
    | issuer id => exact issuerRecordVal_injective h
    | addressIssuer a => exact BytesN.bytes_inj (ScVal.bytes.inj h)
    | _ => injection h

/-- What the proof registry stores. -/
def proofsLayout : Layout ProofRegistry.DataKey.Value where
  key := ProofRegistry.codec
  val := fun k v => match k, v with
    | .admin, a => .address a
    | .issuerRegistry, a => .address a
    | .protocolConfig, a => .address a
    | .proof _, r => proofRecordVal r
    | .allowedWasm _, n => .u32 n
    | .contractVersion, n => .u32 n
  val_injective := by
    intro k v w h
    cases k with
    | proof id => exact proofRecordVal_injective h
    | _ => injection h

/-! ### Events -/

/-- An event's name and fields. -/
abbrev EventForm := String × List (String × ScVal)

/-- The three events of upgrade governance, of any contract. -/
def upgradeEventForm : UpgradeEvent → EventForm
  | .upgradeAllowlisted wasmHash newContractVersion approvedBy =>
    ("upgrade_allowlisted", [("approved_by", .address approvedBy),
      ("new_contract_version", .u32 newContractVersion), ("wasm_hash", .bytes wasmHash.bytes)])
  | .upgradeRevoked wasmHash revokedBy =>
    ("upgrade_revoked", [("revoked_by", .address revokedBy), ("wasm_hash", .bytes wasmHash.bytes)])
  | .contractUpgraded newWasmHash oldContractVersion newContractVersion upgradedBy =>
    ("contract_upgraded", [("new_contract_version", .u32 newContractVersion),
      ("new_wasm_hash", .bytes newWasmHash.bytes), ("old_contract_version", .u32 oldContractVersion),
      ("upgraded_by", .address upgradedBy)])

/-- The events of the protocol configuration. -/
def configEventForm : ProtocolConfig.Event → EventForm
  | .initialized admin => ("initialized", [("admin", .address admin)])
  | .adminChanged newAdmin => ("admin_changed", [("new_admin", .address newAdmin)])
  | .paused paused => ("paused", [("paused", .bool paused)])
  | .unpaused paused => ("unpaused", [("paused", .bool paused)])
  | .schemaApproved version => ("schema_approved", [("version", .u32 version)])
  | .schemaDeprecated version => ("schema_deprecated", [("version", .u32 version)])
  | .upgrade e => upgradeEventForm e

/-- The events of the issuer registry. The proof registry has those of upgrades only. -/
def issuersEventForm : IssuerRegistry.Event → EventForm
  | .issuerRegistered issuerIdHash issuerAddress metadataHash createdAt =>
    ("issuer_registered", [("created_at", .u64 createdAt), ("issuer_address", .address issuerAddress),
      ("issuer_id_hash", .bytes issuerIdHash.bytes), ("metadata_hash", .bytes metadataHash.bytes)])
  | .issuerMetadataUpdated issuerIdHash metadataHash updatedAt =>
    ("issuer_metadata_updated", [("issuer_id_hash", .bytes issuerIdHash.bytes),
      ("metadata_hash", .bytes metadataHash.bytes), ("updated_at", .u64 updatedAt)])
  | .issuerSuspended issuerIdHash updatedAt =>
    ("issuer_suspended", [("issuer_id_hash", .bytes issuerIdHash.bytes),
      ("updated_at", .u64 updatedAt)])
  | .issuerReactivated issuerIdHash updatedAt =>
    ("issuer_reactivated", [("issuer_id_hash", .bytes issuerIdHash.bytes),
      ("updated_at", .u64 updatedAt)])
  | .issuerRevoked issuerIdHash updatedAt =>
    ("issuer_revoked", [("issuer_id_hash", .bytes issuerIdHash.bytes), ("updated_at", .u64 updatedAt)])
  | .issuerAddressRotated issuerIdHash oldAddress newAddress updatedAt =>
    ("issuer_address_rotated", [("issuer_id_hash", .bytes issuerIdHash.bytes),
      ("new_address", .address newAddress), ("old_address", .address oldAddress),
      ("updated_at", .u64 updatedAt)])
  | .upgrade e => upgradeEventForm e

/-- The name tells the event, and the fields its payload. -/
theorem upgradeEventForm_injective : Function.Injective upgradeEventForm := by
  intro e e' h
  cases e <;> cases e' <;> simp [upgradeEventForm, bytesN_inj] at h ⊢ <;> grind

theorem configEventForm_injective : Function.Injective configEventForm := by
  have hupgrade : ∀ {e : ProtocolConfig.Event} {u : UpgradeEvent},
      configEventForm e = upgradeEventForm u → e = .upgrade u := by
    intro e u h
    cases e with
    | upgrade e => rw [upgradeEventForm_injective h]
    | _ => cases u <;> simp [configEventForm, upgradeEventForm] at h
  intro e e' h
  cases e with
  | upgrade u => exact (hupgrade h.symm).symm
  | _ =>
    cases e' with
    | upgrade u => exact hupgrade h
    | _ => simp [configEventForm] at h ⊢ <;> exact h

theorem issuersEventForm_injective : Function.Injective issuersEventForm := by
  have hupgrade : ∀ {e : IssuerRegistry.Event} {u : UpgradeEvent},
      issuersEventForm e = upgradeEventForm u → e = .upgrade u := by
    intro e u h
    cases e with
    | upgrade e => rw [upgradeEventForm_injective h]
    | _ => cases u <;> simp [issuersEventForm, upgradeEventForm] at h
  intro e e' h
  cases e with
  | upgrade u => exact (hupgrade h.symm).symm
  | _ =>
    cases e' with
    | upgrade u => exact hupgrade h
    | _ => simp [issuersEventForm, bytesN_inj] at h ⊢ <;> grind

/-- The event as the contract at `self` publishes it. -/
def published (self : Address) (e : EventForm) : ContractEvent :=
  ⟨some self.payload, [sym e.1], struct e.2⟩

/-- An event is read back up to the address of its contract. -/
theorem published_inj {a b : Address} {e f : EventForm} :
    published a e = published b f ↔ a.payload = b.payload ∧ e = f := by
  obtain ⟨name, fields⟩ := e
  obtain ⟨name', fields'⟩ := f
  simp [published, sym_inj, struct_inj]

/-- The contracts of a deployment are at the addresses of contracts. -/
structure OfContracts (dep : Deployment) : Prop where
  config : dep.protocolConfig.kind = .contract
  issuers : dep.issuerRegistry.kind = .contract
  proofs : dep.proofRegistry.kind = .contract

/-- The event as an observer of the deployment gets it. -/
def publish (dep : Deployment) : System.Event → ContractEvent
  | .config e => published dep.protocolConfig (configEventForm e)
  | .issuers e => published dep.issuerRegistry (issuersEventForm e)
  | .proofs e => published dep.proofRegistry (upgradeEventForm e)

/-- An event of a deployment is told from every other. -/
theorem publish_injective {dep : Deployment} (hdep : OfContracts dep) :
    Function.Injective (publish dep) := by
  have haddress : ∀ {a b : Address}, a.kind = .contract → b.kind = .contract → a ≠ b →
      a.payload ≠ b.payload := by
    rintro ⟨kind, payload⟩ ⟨kind', payload'⟩ hk hk' hne hp
    refine hne ?_
    cases hk
    cases hk'
    cases hp
    rfl
  have hci := haddress hdep.config hdep.issuers dep.config_ne_issuers
  have hcp := haddress hdep.config hdep.proofs dep.config_ne_proofs
  have hip := haddress hdep.issuers hdep.proofs dep.issuers_ne_proofs
  intro e e' h
  cases e <;> cases e' <;> obtain ⟨hself, hform⟩ := published_inj.mp h
  · rw [configEventForm_injective hform]
  · exact absurd hself hci
  · exact absurd hself hcp
  · exact absurd hself.symm hci
  · rw [issuersEventForm_injective hform]
  · exact absurd hself hip
  · exact absurd hself.symm hcp
  · exact absurd hself.symm hip
  · rw [upgradeEventForm_injective hform]

end EarnProof.LedgerSnapshots

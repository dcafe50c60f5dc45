import EarnProof.LedgerSnapshots.Encoding
import EarnProof.System.Accounting
import EarnProof.System.Transparency

/-! What the snapshot of a deployment tells.

Outside the instance the host lists the entries of all contracts together, and the
snapshot keeps those whose key the contract has. No key is of two contracts, so what it
keeps is what the contract stores (`Hosts.mem_entries`).

A scenario is taken of a deployment when its host has what the three contracts store and
its events are those they published (`Taken`). Then the text tells all that a later call
can depend on: two deployments with the same text have the same values and the same log,
and answer every further call alike. -/
namespace EarnProof.LedgerSnapshots
open Soroban Text

/-- The aliases of a scenario. -/
def aliasesFor (admin issuer : Address) (dep : Deployment) : Aliases :=
  ((((Aliases.new.insert admin "admin").insert issuer "issuer").insert
    dep.protocolConfig "protocol-config").insert dep.issuerRegistry "issuer-registry").insert
    dep.proofRegistry "proof-registry"

/-- No alias is given twice. -/
theorem aliasesFor_faithful (admin issuer : Address) (dep : Deployment) :
    (aliasesFor admin issuer dep).Faithful := by
  constructor
  · simp [aliasesFor, Aliases.insert, Aliases.new]
  · intro e he
    have hname : e.2 ∈ ["admin", "issuer", "protocol-config", "issuer-registry", "proof-registry"] :=
      List.mem_map_of_mem (f := Prod.snd) he
    have hwords : ∀ name ∈ ["admin", "issuer", "protocol-config", "issuer-registry", "proof-registry"],
        name.toList.all legible = true := by decide
    exact .of_all (hwords _ hname)

/-- The contracts of a scenario. -/
def contractsOf (dep : Deployment) : List (String × Address) :=
  [("protocol-config", dep.protocolConfig), ("issuer-registry", dep.issuerRegistry),
    ("proof-registry", dep.proofRegistry)]

/-! ### What the host lists -/

/-- The contract at `a` stores the entry `e` in the class `c`. -/
def Holds (dep : Deployment) (x : System.Values) (c : StorageClass) (a : Address)
    (e : ScVal × ScVal) : Prop :=
  (a = dep.protocolConfig ∧ configLayout.Holds x.config c e) ∨
    (a = dep.issuerRegistry ∧ issuersLayout.Holds x.issuers c e) ∨
    (a = dep.proofRegistry ∧ proofsLayout.Holds x.proofs c e)

/-- The host of a deployment, asked as the contract at `a`. A listing is a map and has a
key once. It has the instance of the contract; in the other classes it has the keys of all
contracts, next to entries that are no contract's, and a key that a contract stores comes
with what some contract stores there. -/
structure Hosts (dep : Deployment) (x : System.Values) (env : Host) (a : Address) : Prop where
  keys : ∀ c, ((env.all a c).map Prod.fst).Nodup
  inst : ∀ e, e ∈ env.all a .inst ↔ Holds dep x .inst a e
  listed : ∀ c, c ≠ .inst → ∀ b e, Holds dep x c b e → e.1 ∈ (env.all a c).map Prod.fst
  held : ∀ c, c ≠ .inst → ∀ e ∈ env.all a c, ∀ b v, Holds dep x c b (e.1, v) →
    ∃ b', Holds dep x c b' e
  has_iff : ∀ c, c ≠ .inst → ∀ e ∈ env.all a c,
    (env.has a c e.1 = true ↔ ∃ v, Holds dep x c a (e.1, v))

section
variable {dep : Deployment} {x : System.Values} {c : StorageClass} {a b : Address}
  {e e' : ScVal × ScVal} {env : Host}

theorem holds_config : Holds dep x c dep.protocolConfig e ↔ configLayout.Holds x.config c e := by
  simp [Holds, dep.config_ne_issuers, dep.config_ne_proofs]

theorem holds_issuers : Holds dep x c dep.issuerRegistry e ↔ issuersLayout.Holds x.issuers c e := by
  simp [Holds, dep.config_ne_issuers.symm, dep.issuers_ne_proofs]

theorem holds_proofs : Holds dep x c dep.proofRegistry e ↔ proofsLayout.Holds x.proofs c e := by
  simp [Holds, dep.config_ne_proofs.symm, dep.issuers_ne_proofs.symm]

/-- Outside the instance a key has one owner, and one value. -/
theorem Holds.owner (hx : System.Housed x) (hc : c ≠ .inst) (h : Holds dep x c a e)
    (h' : Holds dep x c b e') (hkey : e.1 = e'.1) : a = b ∧ e = e' := by
  have hconfig : ∀ k, x.config c k ≠ none → Listed configLayout.key c k := fun _ hk =>
    ProtocolConfig.inventories.listed_of_stored hx.config hc hk
  have hissuers : ∀ k, x.issuers c k ≠ none → Listed issuersLayout.key c k := fun _ hk =>
    IssuerRegistry.inventories.listed_of_stored hx.issuers hc hk
  have hproofs : ∀ k, x.proofs c k ≠ none → Listed proofsLayout.key c k := fun _ hk =>
    ProofRegistry.inventories.listed_of_stored hx.proofs hc hk
  have hci : configLayout.key.contract ≠ issuersLayout.key.contract := by decide
  have hcp : configLayout.key.contract ≠ proofsLayout.key.contract := by decide
  have hip : issuersLayout.key.contract ≠ proofsLayout.key.contract := by decide
  rcases h with ⟨rfl, h⟩ | ⟨rfl, h⟩ | ⟨rfl, h⟩ <;> rcases h' with ⟨rfl, h'⟩ | ⟨rfl, h'⟩ | ⟨rfl, h'⟩
  · exact ⟨rfl, h.unique h' hkey⟩
  · exact absurd hkey (h.apart hc hconfig hissuers hci h')
  · exact absurd hkey (h.apart hc hconfig hproofs hcp h')
  · exact absurd hkey.symm (h'.apart hc hconfig hissuers hci h)
  · exact ⟨rfl, h.unique h' hkey⟩
  · exact absurd hkey (h.apart hc hissuers hproofs hip h')
  · exact absurd hkey.symm (h'.apart hc hconfig hproofs hcp h)
  · exact absurd hkey.symm (h'.apart hc hissuers hproofs hip h)
  · exact ⟨rfl, h.unique h' hkey⟩

theorem entries_eq_filter (hc : c ≠ .inst) :
    entries env a c = (env.all a c).filter fun entry => env.has a c entry.1 := by
  cases c with
  | inst => exact absurd rfl hc
  | persistent => rfl
  | temporary => rfl

/-- The partition of the listing gives each contract what it stores. -/
theorem Hosts.mem_entries (h : Hosts dep x env a) (hx : System.Housed x) :
    e ∈ entries env a c ↔ Holds dep x c a e := by
  by_cases hc : c = .inst
  · subst hc
    simp only [entries, List.filter_true, h.inst]
  · rw [entries_eq_filter hc, List.mem_filter]
    constructor
    · rintro ⟨he, hhas⟩
      obtain ⟨v, hv⟩ := (h.has_iff c hc e he).mp hhas
      obtain ⟨b, hb⟩ := h.held c hc e he a v hv
      rw [(hv.owner hx hc hb rfl).1]
      exact hb
    · intro he
      obtain ⟨e', he', hkey⟩ := List.mem_map.mp (h.listed c hc a e he)
      have hvalue : Holds dep x c a (e'.1, e.2) := by
        rw [hkey]
        exact he
      obtain ⟨b, hb⟩ := h.held c hc e' he' a e.2 hvalue
      obtain ⟨-, rfl⟩ := he.owner hx hc hb hkey.symm
      exact ⟨he', (h.has_iff c hc e he').mpr ⟨e.2, he⟩⟩

/-- What a snapshot shows of a contract lists its values. -/
theorem Hosts.lists {K : Type} {V : K → Type} {L : Layout V} {d : Entries V}
    (h : Hosts dep x env a) (hx : System.Housed x)
    (hown : ∀ e, Holds dep x c a e ↔ L.Holds d c e) : L.Lists d c (entries env a c) where
  nodup := (List.Nodup.of_map _ (h.keys c)).filter _
  mem_iff := fun e => (h.mem_entries hx).trans (hown e)

end

/-- `s` shows the values `x` of a deployment that has published `log`. -/
structure Taken (dep : Deployment) (x : System.Values) (log : List System.Event) (s : Scenario) :
    Prop where
  contracts : s.contracts = contractsOf dep
  housed : System.Housed x
  host : ∀ contract ∈ contractsOf dep, Hosts dep x s.env contract.2
  events : s.events = log.map (publish dep)

/-- After a run the contracts keep their entries at home, so it takes a host of theirs and
their events. -/
theorem Taken.of_run {dep : Deployment} {is : List (Invocation System.Call)}
    {log : List System.Event} {s : Scenario} (hcontracts : s.contracts = contractsOf dep)
    (hhost : ∀ contract ∈ contractsOf dep,
      Hosts dep ((System.machine dep).run System.empty is).values s.env contract.2)
    (hevents : s.events = log.map (publish dep)) :
    Taken dep ((System.machine dep).run System.empty is).values log s :=
  ⟨hcontracts, System.run_housed dep is, hhost, hevents⟩

section
variable {dep : Deployment} {x y : System.Values} {log log' : List System.Event} {s t : Scenario}

theorem Taken.config (hs : Taken dep x log s) (c : StorageClass) :
    configLayout.Lists x.config c (entries s.env dep.protocolConfig c) :=
  (hs.host _ (.head _)).lists hs.housed fun _ => holds_config

theorem Taken.issuers (hs : Taken dep x log s) (c : StorageClass) :
    issuersLayout.Lists x.issuers c (entries s.env dep.issuerRegistry c) :=
  (hs.host _ (.tail _ (.head _))).lists hs.housed fun _ => holds_issuers

theorem Taken.proofs (hs : Taken dep x log s) (c : StorageClass) :
    proofsLayout.Lists x.proofs c (entries s.env dep.proofRegistry c) :=
  (hs.host _ (.tail _ (.tail _ (.head _)))).lists hs.housed fun _ => holds_proofs

theorem mem_stored {e : StoredEntry} : e ∈ s.stored ↔
    ∃ a, (e.contract, a) ∈ s.contracts ∧ (e.key, e.val) ∈ entries s.env a e.storage := by
  unfold Scenario.stored
  constructor
  · intro he
    obtain ⟨contract, hcontract, he⟩ := List.mem_flatMap.mp he
    obtain ⟨c, _, he⟩ := List.mem_flatMap.mp he
    obtain ⟨entry, hentry, rfl⟩ := List.mem_map.mp he
    exact ⟨contract.2, hcontract, hentry⟩
  · rintro ⟨a, hcontract, hentry⟩
    have hclass : e.storage ∈ [StorageClass.inst, .persistent, .temporary] := by
      cases e.storage <;> simp
    exact List.mem_flatMap.mpr ⟨_, hcontract,
      List.mem_flatMap.mpr ⟨_, hclass, List.mem_map.mpr ⟨_, hentry, rfl⟩⟩⟩

theorem contractsOf_unique {name : String} {a b : Address} (ha : (name, a) ∈ contractsOf dep)
    (hb : (name, b) ∈ contractsOf dep) : a = b := by
  simp only [contractsOf, List.mem_cons, Prod.mk.injEq, List.not_mem_nil, or_false] at ha hb
  rcases ha with ⟨rfl, rfl⟩ | ⟨rfl, rfl⟩ | ⟨rfl, rfl⟩ <;> simp at hb <;> exact hb.symm

/-- The entries of each contract are among the stored ones, under its name. -/
theorem entries_mem (hs : s.contracts = contractsOf dep) {name : String} {a : Address}
    (ha : (name, a) ∈ contractsOf dep) {c : StorageClass} {e : ScVal × ScVal} :
    e ∈ entries s.env a c ↔ ⟨name, c, e.1, e.2⟩ ∈ s.stored := by
  rw [mem_stored]
  constructor
  · intro he
    exact ⟨a, by rw [hs]; exact ha, he⟩
  · rintro ⟨b, hb, he⟩
    rw [hs] at hb
    rw [contractsOf_unique ha hb]
    exact he

theorem lists_perm {K : Type} {V : K → Type} {L : Layout V} {d d' : Entries V} {c : StorageClass}
    {name : String} {a : Address} (hs : s.contracts = contractsOf dep)
    (ht : t.contracts = contractsOf dep) (ha : (name, a) ∈ contractsOf dep)
    (hd : L.Lists d c (entries s.env a c)) (hd' : L.Lists d' c (entries t.env a c))
    (h : s.stored.Perm t.stored) : (entries s.env a c).Perm (entries t.env a c) := by
  refine (List.perm_ext_iff_of_nodup hd.nodup hd'.nodup).mpr fun e => ?_
  rw [entries_mem hs ha, entries_mem ht ha, h.mem_iff]

/-- The stored entries tell the values. -/
theorem stored_iff (hs : Taken dep x log s) (ht : Taken dep y log' t) :
    s.stored.Perm t.stored ↔ x = y := by
  have hconfig : ("protocol-config", dep.protocolConfig) ∈ contractsOf dep := .head _
  have hissuers : ("issuer-registry", dep.issuerRegistry) ∈ contractsOf dep := .tail _ (.head _)
  have hproofs : ("proof-registry", dep.proofRegistry) ∈ contractsOf dep :=
    .tail _ (.tail _ (.head _))
  constructor
  · intro h
    have hcontracts := hs.contracts
    have hcontracts' := ht.contracts
    refine System.Values.ext (funext fun c => ?_) (funext fun c => ?_) (funext fun c => ?_)
    · exact ((hs.config c).perm_iff (ht.config c)).mp
        (lists_perm hcontracts hcontracts' hconfig (hs.config c) (ht.config c) h)
    · exact ((hs.issuers c).perm_iff (ht.issuers c)).mp
        (lists_perm hcontracts hcontracts' hissuers (hs.issuers c) (ht.issuers c) h)
    · exact ((hs.proofs c).perm_iff (ht.proofs c)).mp
        (lists_perm hcontracts hcontracts' hproofs (hs.proofs c) (ht.proofs c) h)
  · rintro rfl
    have hlisted : ∀ contract ∈ contractsOf dep, ∀ c,
        (entries s.env contract.2 c).Perm (entries t.env contract.2 c) := by
      intro contract hcontract c
      simp only [contractsOf, List.mem_cons, List.not_mem_nil, or_false] at hcontract
      rcases hcontract with rfl | rfl | rfl
      · exact ((hs.config c).perm_iff (ht.config c)).mpr rfl
      · exact ((hs.issuers c).perm_iff (ht.issuers c)).mpr rfl
      · exact ((hs.proofs c).perm_iff (ht.proofs c)).mpr rfl
    unfold Scenario.stored
    rw [hs.contracts, ht.contracts]
    refine .flatMap_left _ fun contract hcontract => .flatMap_left _ fun c _ => ?_
    exact (hlisted contract hcontract c).map _

theorem legible_of_taken (hs : Taken dep x log s) (haliases : s.aliases.Faithful)
    (hverdicts : ∀ verdict ∈ s.verdicts, Word inLine verdict.1.toList) : s.Legible where
  aliases := haliases
  contracts := by
    rw [hs.contracts]
    have hwords : ∀ name ∈ ["protocol-config", "issuer-registry", "proof-registry"],
        name.toList.all legible = true := by decide
    exact fun contract hcontract =>
      .of_all (hwords contract.1 (List.mem_map_of_mem (f := Prod.fst) hcontract))
  verdicts := hverdicts

theorem events_iff (hdep : OfContracts dep) (hs : Taken dep x log s) (ht : Taken dep y log' t) :
    s.events = t.events ↔ log = log' := by
  rw [hs.events, ht.events]
  exact (publish_injective hdep).list_map.eq_iff

/-- Two snapshots are the same text exactly when the ledger position, the stored values,
the published events and the verdicts are the same. -/
theorem same_snapshot_iff (hdep : OfContracts dep) (hs : Taken dep x log s) (ht : Taken dep y log' t)
    (haliases : s.aliases.Faithful) (hsame : t.aliases = s.aliases)
    (hverdicts : ∀ verdict ∈ s.verdicts, Word inLine verdict.1.toList)
    (hverdicts' : ∀ verdict ∈ t.verdicts, Word inLine verdict.1.toList)
    (hmark : Unmarked (render s)) : render s = render t ↔
      s.ledger = t.ledger ∧ x = y ∧ log = log' ∧ s.verdicts = t.verdicts := by
  have haliases' : t.aliases.Faithful := by rwa [hsame]
  rw [← stored_iff hs ht, ← events_iff hdep hs ht]
  constructor
  · exact text_determines (legible_of_taken hs haliases hverdicts)
      (legible_of_taken ht haliases' hverdicts') hsame hmark
  · rintro ⟨hledger, hstored, hevents, hjudged⟩
    exact text_determined hsame hledger hstored hevents hjudged

/-- Deployments that leave the same snapshot have published the same events, and reply to
every further run of the same requests alike and leave the same values, whatever the
lifetimes of their entries. -/
theorem same_snapshot_same_future {σ τ : System} (hdep : OfContracts dep)
    (hs : Taken dep σ.values log s) (ht : Taken dep τ.values log' t) (haliases : s.aliases.Faithful)
    (hsame : t.aliases = s.aliases) (hverdicts : ∀ verdict ∈ s.verdicts, Word inLine verdict.1.toList)
    (hverdicts' : ∀ verdict ∈ t.verdicts, Word inLine verdict.1.toList)
    (hmark : Unmarked (render s)) (h : render s = render t) {is js : List (Invocation System.Call)}
    (hcalls : List.Forall₂ System.SameRequest is js) :
    log = log' ∧
      ((System.machine dep).transcript σ is).map Prod.snd =
        ((System.machine dep).transcript τ js).map Prod.snd ∧
      ((System.machine dep).run σ is).values = ((System.machine dep).run τ js).values := by
  have haliases' : t.aliases.Faithful := by rwa [hsame]
  obtain ⟨_, hstored, hevents, _⟩ := text_determines (legible_of_taken hs haliases hverdicts)
    (legible_of_taken ht haliases' hverdicts') hsame hmark h
  have hvalues : σ.values = τ.values := (stored_iff hs ht).mp hstored
  exact ⟨(events_iff hdep hs ht).mp hevents, System.same_replies dep hvalues hcalls,
    System.same_values dep hvalues hcalls⟩

end
namespace Example
open System.Example (admin deployment)

/-- protocol-config initialized and schema version 1 approved, the other contracts empty. -/
def configured : System.Values :=
  ⟨((((Entries.empty.put .inst .admin (some admin)).put .inst .paused (some false)).put
    .inst .configVersion (some 2)).put .inst .contractVersion (some 1)).put
    .persistent (.schemaVersion 1) (some true), .empty, .empty⟩

def instanceEntries : List (ScVal × ScVal) :=
  [configLayout.entry .contractVersion 1, configLayout.entry .configVersion 2,
    configLayout.entry .paused false, configLayout.entry .admin admin]

def configuredEntries : StorageClass → List (ScVal × ScVal)
  | .inst => instanceEntries
  | .persistent => [configLayout.entry (.schemaVersion 1) true]
  | .temporary => []

/-- The scenario, with the entries of the instance in the order in which the host has them.
As every contract the host lists the flag, and protocol-config alone has it. -/
def configuredScenario (entries : List (ScVal × ScVal)) : Scenario where
  env :=
    { all := fun a c => match c with
        | .inst => if a = deployment.protocolConfig then entries else []
        | c => configuredEntries c
      has := fun a _ _ => a == deployment.protocolConfig }
  aliases := aliasesFor admin System.Example.issuer deployment
  contracts := contractsOf deployment
  ledger := (1000, 1000)
  verdicts := [("protocol-config.is_paused", false)]
  events := [publish deployment (.config (.initialized admin)),
    publish deployment (.config (.schemaApproved 1))]

theorem configured_lists (c : StorageClass) :
    configLayout.Lists configured.config c (configuredEntries c) := by
  have hother : ∀ c ≠ StorageClass.inst, configLayout.Lists (((((Entries.empty.put .inst .admin
      (some admin)).put .inst .paused (some false)).put .inst .configVersion (some 2)).put .inst
      .contractVersion (some 1))) c [] := fun c hc =>
    (((Layout.Lists.empty.put_class _ hc).put_class _ hc).put_class _ hc).put_class _ hc
  cases c with
  | inst =>
    have hflag : StorageClass.inst ≠ .persistent := by decide
    exact ((((Layout.Lists.empty.put _ rfl).put _ rfl).put _ rfl).put _ rfl).put_class _ hflag
  | persistent => exact (hother .persistent (by decide)).put _ rfl
  | temporary => exact (hother .temporary (by decide)).put_class _ (by decide)

theorem configured_holds {c : StorageClass} {a : Address} {e : ScVal × ScVal} :
    Holds deployment configured c a e ↔ a = deployment.protocolConfig ∧ e ∈ configuredEntries c := by
  rw [(configured_lists c).mem_iff]
  simp [Holds, configured, Layout.not_holds_empty]

theorem configured_hosts {entries : List (ScVal × ScVal)} (h : entries.Perm instanceEntries)
    (a : Address) : Hosts deployment configured (configuredScenario entries).env a where
  keys := by
    intro c
    have hkeys := (configured_lists c).keys_nodup
    cases c with
    | inst =>
      show ((if a = deployment.protocolConfig then entries else []).map Prod.fst).Nodup
      split
      · exact (h.map Prod.fst).nodup_iff.mpr hkeys
      · exact .nil
    | persistent => exact hkeys
    | temporary => exact hkeys
  inst := by
    intro e
    rw [configured_holds]
    show e ∈ (if a = deployment.protocolConfig then entries else []) ↔ _ ∧ e ∈ instanceEntries
    split <;> simp_all [h.mem_iff]
  listed := by
    intro c hc b e he
    have hmem := (configured_holds.mp he).2
    cases c with
    | inst => exact absurd rfl hc
    | persistent => exact List.mem_map_of_mem hmem
    | temporary => cases hmem
  held := by
    intro c hc e he b v _
    cases c with
    | inst => exact absurd rfl hc
    | persistent => exact ⟨_, configured_holds.mpr ⟨rfl, he⟩⟩
    | temporary => cases he
  has_iff := by
    intro c hc e he
    have hmem : e ∈ configuredEntries c := by
      cases c with
      | inst => exact absurd rfl hc
      | persistent => exact he
      | temporary => exact he
    show (a == deployment.protocolConfig) = true ↔ _
    rw [beq_iff_eq]
    constructor
    · exact fun ha => ⟨e.2, configured_holds.mpr ⟨ha, hmem⟩⟩
    · rintro ⟨v, hv⟩
      exact (configured_holds.mp hv).1

theorem configured_housed : System.Housed configured where
  config := ((((AtHome.empty.put _).put _).put _).put _).put _
  issuers := .empty
  proofs := .empty

theorem configured_taken {entries : List (ScVal × ScVal)} (h : entries.Perm instanceEntries) :
    Taken deployment configured [.config (.initialized admin), .config (.schemaApproved 1)]
      (configuredScenario entries) where
  contracts := rfl
  housed := configured_housed
  host := fun contract _ => configured_hosts h contract.2
  events := rfl

theorem deployed : OfContracts deployment := ⟨rfl, rfl, rfl⟩

theorem configured_unmarked : Unmarked (render (configuredScenario instanceEntries)) :=
  unmarked_of_lines (by decide +kernel) (by decide +kernel) (by decide +kernel)

theorem configured_calls : ∀ verdict ∈ (configuredScenario []).verdicts,
    Word inLine verdict.1.toList := by
  have hcalls : ∀ verdict ∈ (configuredScenario []).verdicts,
      verdict.1.toList.all inLine = true := by decide
  exact fun verdict h => .of_all (hcalls verdict h)

/-- The configured system, where protocol-config lives until ledger `n`. -/
def configuredUntil (n : Nat) : System := ⟨⟨configured.config, n, fun _ => n⟩, .empty, .empty⟩

def pause : Invocation System.Call := ⟨.config .pause, System.Example.signedBy 2 [admin]⟩

end Example

/-- The host's order does not matter. -/
theorem same_snapshot_iff_reordered : render (Example.configuredScenario Example.instanceEntries) =
    render (Example.configuredScenario Example.instanceEntries.reverse) := by
  have hs := Example.configured_taken (.refl _)
  have ht := Example.configured_taken (List.reverse_perm Example.instanceEntries)
  generalize Example.instanceEntries.reverse = entries at ht ⊢
  exact (same_snapshot_iff Example.deployed hs ht (aliasesFor_faithful _ _ _) rfl
    Example.configured_calls Example.configured_calls Example.configured_unmarked).mpr
    ⟨rfl, rfl, rfl, rfl⟩

/-- A pause after two snapshots, of systems that differ in their lifetimes. -/
theorem same_snapshot_same_future_paused :
    ((System.machine System.Example.deployment).run (Example.configuredUntil 5)
        [Example.pause]).values =
      ((System.machine System.Example.deployment).run (Example.configuredUntil 900)
        [Example.pause]).values := by
  have hs := Example.configured_taken (.refl _)
  have hsame : List.Forall₂ System.SameRequest [Example.pause] [Example.pause] :=
    .cons ⟨rfl, rfl, rfl, rfl⟩ .nil
  exact (same_snapshot_same_future (σ := Example.configuredUntil 5) (τ := Example.configuredUntil 900)
    Example.deployed hs hs (aliasesFor_faithful _ _ _) rfl Example.configured_calls
    Example.configured_calls Example.configured_unmarked rfl hsame).2.2

end EarnProof.LedgerSnapshots

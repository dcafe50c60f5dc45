import EarnProof.IssuerRegistry.Spec
import EarnProof.ProofRegistry.Spec
import EarnProof.ProtocolConfig.Spec
import EarnProof.Soroban.Updates
import EarnProof.System.Commutation

/-! The deployment as a store of cells.

An ideal ledger keeps the values of the three contracts and nothing else: no lifetimes,
no archived entries, no calls between contracts, no half-made writes. A call on it is a
decision: the first check that fails, or an outcome. `run_refines` says the deployed
contracts are this ledger as far as anybody sees: in every run they give the replies it
gives and leave the values it leaves. `confined` bounds what a call looks at and
writes, so what is shown of such stores holds of the deployment. -/
namespace EarnProof.System
open Soroban

deriving instance DecidableEq for Cell

/-- The content of every cell. -/
abbrev Ledger := Updates.Store Cell.Content

/-- The values a ledger holds, contract by contract. -/
def ofCells (y : Ledger) : Values where
  config := fun c k => y (.config c k)
  issuers := fun c k => y (.issuers c k)
  proofs := fun c k => y (.proofs c k)

theorem ofCells_look (s : System) : ofCells (look s) = s.values := rfl

/-- The ledger that holds some values. -/
def cells (x : Values) : Ledger
  | .config c k => x.config c k
  | .issuers c k => x.issuers c k
  | .proofs c k => x.proofs c k

theorem look_eq_cells (s : System) : look s = cells s.values := by
  funext i
  cases i <;> rfl

def configWrite (w : Write ProtocolConfig.DataKey.Value) : Sigma Cell.Content :=
  ⟨.config w.storage w.key, w.value⟩

def issuersWrite (w : Write IssuerRegistry.DataKey.Value) : Sigma Cell.Content :=
  ⟨.issuers w.storage w.key, w.value⟩

def proofsWrite (w : Write ProofRegistry.DataKey.Value) : Sigma Cell.Content :=
  ⟨.proofs w.storage w.key, w.value⟩

/-- What an invocation does on the ledger. -/
def operation (dep : Deployment) (i : Invocation Call) :
    Updates.Operation Cell.Content (Receipt Event Value) := fun y =>
  let x := ofCells y
  match i.call with
  | .config c =>
    let env : Env := {i.env with currentContract := dep.protocolConfig}
    let r := (ProtocolConfig.outcome x.config c).behind (ProtocolConfig.checks env x.config c)
    (r.1.mapEvents .config, r.2.map configWrite)
  | .issuers c =>
    let env : Env := {i.env with currentContract := dep.issuerRegistry}
    let r := (IssuerRegistry.outcome env x.issuers c).behind (IssuerRegistry.checks env x.issuers c)
    (r.1.mapEvents .issuers, r.2.map issuersWrite)
  | .proofs c =>
    let env : Env := {i.env with currentContract := dep.proofRegistry}
    let r := (ProofRegistry.outcome env x.proofs c).behind
      (ProofRegistry.checks (answers dep x) env x.proofs () c)
    (r.1.mapEvents .proofs, r.2.map proofsWrite)

/-- The ideal ledger. -/
def ideal (dep : Deployment) : Machine (Invocation Call) (Receipt Event Value) Ledger :=
  Updates.machine (operation dep)

/-! ### The deployment refines the ledger -/

section Refines
variable (dep : Deployment)

/-- A ledger that holds the entries of a contract takes its writes one by one. -/
theorem apply_writes {K : Type} [DecidableEq K] {V : K → Type} {f : Entries V → Ledger}
    {write : Write V → Sigma Cell.Content}
    (h : ∀ d w, f (d.put w.storage w.key w.value) =
      Function.update (f d) (write w).1 (write w).2) (d : Entries V) (ws : List (Write V)) :
    f (d.putAll ws) = Updates.apply (f d) (ws.map write) := by
  induction ws generalizing d with
  | nil => rfl
  | cons w rest ih =>
    show f ((d.put w.storage w.key w.value).putAll rest) =
      Updates.apply (Function.update (f d) (write w).1 (write w).2) (rest.map write)
    rw [← h]
    exact ih _

variable (x : Values)

theorem cells_config (d : Entries ProtocolConfig.DataKey.Value)
    (ws : List (Write ProtocolConfig.DataKey.Value)) :
    cells {x with config := d.putAll ws} =
      Updates.apply (cells {x with config := d}) (ws.map configWrite) := by
  refine apply_writes (f := fun d => cells {x with config := d}) (fun d w => ?_) d ws
  refine Function.eq_update_iff.mpr ⟨Entries.put_self _ _ _ _, fun i hi => ?_⟩
  cases i with
  | config c k => exact Entries.put_of_ne _ _ fun heq => hi (by cases heq; rfl)
  | issuers c k => rfl
  | proofs c k => rfl

theorem cells_issuers (d : Entries IssuerRegistry.DataKey.Value)
    (ws : List (Write IssuerRegistry.DataKey.Value)) :
    cells {x with issuers := d.putAll ws} =
      Updates.apply (cells {x with issuers := d}) (ws.map issuersWrite) := by
  refine apply_writes (f := fun d => cells {x with issuers := d}) (fun d w => ?_) d ws
  refine Function.eq_update_iff.mpr ⟨Entries.put_self _ _ _ _, fun i hi => ?_⟩
  cases i with
  | config c k => rfl
  | issuers c k => exact Entries.put_of_ne _ _ fun heq => hi (by cases heq; rfl)
  | proofs c k => rfl

theorem cells_proofs (d : Entries ProofRegistry.DataKey.Value)
    (ws : List (Write ProofRegistry.DataKey.Value)) :
    cells {x with proofs := d.putAll ws} =
      Updates.apply (cells {x with proofs := d}) (ws.map proofsWrite) := by
  refine apply_writes (f := fun d => cells {x with proofs := d}) (fun d w => ?_) d ws
  refine Function.eq_update_iff.mpr ⟨Entries.put_self _ _ _ _, fun i hi => ?_⟩
  cases i with
  | config c k => rfl
  | issuers c k => rfl
  | proofs c k => exact Entries.put_of_ne _ _ fun heq => hi (by cases heq; rfl)

/-- A step of the deployment is the step of the ledger. -/
theorem step_refines (i : Invocation Call) (s : System) :
    (machine dep).reply i s = (ideal dep).reply i (look s) ∧
      look ((machine dep).next i s) = (ideal dep).next i (look s) := by
  obtain ⟨c, env⟩ := i
  cases c with
  | config c =>
    obtain ⟨hreply, hnext⟩ := ProtocolConfig.step_behind dep.protocolConfig ⟨c, env⟩ s.config
    refine ⟨congrArg (Receipt.mapEvents Event.config) hreply, ?_⟩
    have hvalues : ((machine dep).next ⟨.config c, env⟩ s).values =
        ⟨s.config.entries.putAll _, s.issuers.entries, s.proofs.entries⟩ := Values.ext hnext rfl rfl
    rw [look_eq_cells, look_eq_cells, hvalues]
    exact cells_config s.values s.config.entries _
  | issuers c =>
    obtain ⟨hreply, hnext⟩ := IssuerRegistry.step_behind dep.issuerRegistry ⟨c, env⟩ s.issuers
    refine ⟨congrArg (Receipt.mapEvents Event.issuers) hreply, ?_⟩
    have hvalues : ((machine dep).next ⟨.issuers c, env⟩ s).values =
        ⟨s.config.entries, s.issuers.entries.putAll _, s.proofs.entries⟩ := Values.ext rfl hnext rfl
    rw [look_eq_cells, look_eq_cells, hvalues]
    exact cells_issuers s.values s.issuers.entries _
  | proofs c =>
    have hw : (s.config, s.issuers).1.entries = s.values.config := rfl
    obtain ⟨hreply, hnext⟩ := invoke_behind (ProofRegistry.program_realizes (clients dep) c)
      (ProofRegistry.program_refuses (clients dep) c) {env with currentContract := dep.proofRegistry}
      (s := s.proofs) (w := (s.config, s.issuers)) fun _ _ _ _ hE => hE.tells
    rw [clients_checks dep hw rfl] at hreply hnext
    obtain ⟨hconfig, hissuers⟩ := @proofs_frame dep env c s
    refine ⟨congrArg (Receipt.mapEvents Event.proofs) hreply, ?_⟩
    have hvalues : ((machine dep).next ⟨.proofs c, env⟩ s).values =
        ⟨s.config.entries, s.issuers.entries, s.proofs.entries.putAll _⟩ :=
      Values.ext hconfig hissuers hnext
    rw [look_eq_cells, look_eq_cells, hvalues]
    exact cells_proofs s.values s.proofs.entries _

theorem lockstep (i : Invocation Call) (s : System) (y : Ledger) (h : look s = y) :
    (machine dep).reply i s = (ideal dep).reply i y ∧
      look ((machine dep).next i s) = (ideal dep).next i y := by
  subst h
  exact step_refines dep i s

theorem transcript_look (s : System) (is : List (Invocation Call)) :
    (machine dep).transcript s is = (ideal dep).transcript (look s) is :=
  (Machine.transcript_eq (fun s y => look s = y) (lockstep dep) rfl is).1

theorem run_look (s : System) (is : List (Invocation Call)) :
    look ((machine dep).run s is) = (ideal dep).run (look s) is :=
  (Machine.transcript_eq (fun s y => look s = y) (lockstep dep) rfl is).2

/-- In every run the deployed contracts reply as the ideal ledger and leave the values it
leaves. -/
theorem run_refines (s : System) (is : List (Invocation Call)) :
    (machine dep).transcript s is = (ideal dep).transcript (look s) is ∧
      look ((machine dep).run s is) = (ideal dep).run (look s) is :=
  ⟨transcript_look dep s is, run_look dep s is⟩

end Refines

/-! ### What a call looks at and writes -/

def configCells (F : Set (StorageClass × ProtocolConfig.DataKey)) : Set Cell :=
  {i | ∃ p ∈ F, i = .config p.1 p.2}

/-- What the three questions of a registration look at. -/
def asked : ProofRegistry.Call → Set Cell
  | .registerProof _ _ a n _ =>
    configCells ProtocolConfig.Call.isPaused.seen ∪
      configCells (ProtocolConfig.Call.isSchemaVersionApproved n).seen ∪
      issuerCells (IssuerRegistry.Call.isActiveAddress a).seen
  | _ => ∅

def Call.seen : Call → Set Cell
  | .config c => configCells c.seen
  | .issuers c => issuerCells c.seen
  | .proofs c => proofCells c.seen ∪ asked c

def Call.touched : Call → Set Cell
  | .config c => configCells c.touched
  | .issuers c => issuerCells c.touched
  | .proofs c => proofCells c.touched

section Confined
variable (dep : Deployment) {y z : Ledger}

theorem agreeOn_config {F : Set (StorageClass × ProtocolConfig.DataKey)}
    (h : Updates.Agree (configCells F) y z) : AgreeOn F (ofCells z).config (ofCells y).config :=
  fun _ _ hk => h _ ⟨_, hk, rfl⟩

theorem agreeOn_issuers {F : Set (StorageClass × IssuerRegistry.DataKey)}
    (h : Updates.Agree (issuerCells F) y z) : AgreeOn F (ofCells z).issuers (ofCells y).issuers :=
  fun _ _ hk => h _ ⟨_, hk, rfl⟩

theorem agreeOn_proofs {F : Set (StorageClass × ProofRegistry.DataKey)}
    (h : Updates.Agree (proofCells F) y z) : AgreeOn F (ofCells z).proofs (ofCells y).proofs :=
  fun _ _ hk => h _ ⟨_, hk, rfl⟩

/-- The dependencies bear on a call through what it asks them. -/
theorem answers_agree {c : ProofRegistry.Call} (h : Updates.Agree (asked c) y z) (env : Env)
    (d : Entries ProofRegistry.DataKey.Value) :
    ProofRegistry.checks (answers dep (ofCells y)) env d () c =
      ProofRegistry.checks (answers dep (ofCells z)) env d () c := by
  cases c with
  | registerProof id cm a n e =>
    have hpaused : (ofCells y).config .inst .paused = (ofCells z).config .inst .paused :=
      agreeOn_config (h.mono fun _ hi => .inl (.inl hi)) _ _ rfl
    have happroved : (ofCells y).config .persistent (.schemaVersion n) =
        (ofCells z).config .persistent (.schemaVersion n) :=
      agreeOn_config (h.mono fun _ hi => .inl (.inr hi)) _ _ rfl
    have hissuers := agreeOn_issuers (h.mono fun _ hi => .inr hi)
    have hindex : (ofCells y).issuers .persistent (.addressIssuer a) =
        (ofCells z).issuers .persistent (.addressIssuer a) := hissuers _ _ (.inl rfl)
    have hactive : IssuerRegistry.activeIssuer (ofCells y).issuers =
        IssuerRegistry.activeIssuer (ofCells z).issuers :=
      funext fun id => IssuerRegistry.activeIssuer_agree (hissuers _ _ (.inr ⟨id, rfl⟩))
    simp only [ProofRegistry.checks, ProofRegistry.registerChecks, answers, hpaused, happroved,
      IssuerRegistry.activeAddress, hindex, hactive]
  | _ => rfl

/-- A call decides from what it sees, and writes no more than it may. -/
theorem confined (i : Invocation Call) :
    Updates.Confined (operation dep i) i.call.seen i.call.touched := by
  obtain ⟨c, env⟩ := i
  cases c with
  | config c =>
    have hbound := ProtocolConfig.bounded {env with currentContract := dep.protocolConfig} c
    refine ⟨fun y z h => ?_, fun y w hw => ?_⟩
    · have hagree := agreeOn_config h
      simp only [operation, hbound.checks _ _ hagree, hbound.outcome _ _ hagree]
    · obtain ⟨u, hu, rfl⟩ := List.mem_map.mp hw
      exact ⟨_, hbound.writes _ u (Outcome.behind_writes hu), rfl⟩
  | issuers c =>
    have hbound := IssuerRegistry.bounded {env with currentContract := dep.issuerRegistry} c
    refine ⟨fun y z h => ?_, fun y w hw => ?_⟩
    · have hagree := agreeOn_issuers h
      simp only [operation, hbound.checks _ _ hagree, hbound.outcome _ _ hagree]
    · obtain ⟨u, hu, rfl⟩ := List.mem_map.mp hw
      exact ⟨_, hbound.writes _ u (Outcome.behind_writes hu), rfl⟩
  | proofs c =>
    have hbound := fun x => ProofRegistry.bounded (answers dep x)
      {env with currentContract := dep.proofRegistry} () c
    refine ⟨fun y z h => ?_, fun y w hw => ?_⟩
    · have hagree := agreeOn_proofs (h.mono fun _ hi => .inl hi)
      simp only [operation, (hbound _).checks _ _ hagree,
        (hbound (ofCells y)).outcome _ _ hagree, answers_agree dep (h.mono fun _ hi => .inr hi)]
    · obtain ⟨u, hu, rfl⟩ := List.mem_map.mp hw
      exact ⟨_, (hbound (ofCells y)).writes _ u (Outcome.behind_writes hu), rfl⟩

end Confined
end EarnProof.System

import EarnProof.ProtocolConfig.Contract
import EarnProof.IssuerRegistry.Contract
import EarnProof.ProtocolConfig.Effects
import EarnProof.IssuerRegistry.Effects
import EarnProof.ProofRegistry.Contract
import EarnProof.Abstract.Directory
import EarnProof.IssuerRegistry.Directory
import EarnProof.ProofRegistry.Effects
import EarnProof.Abstract.LastWrite
import EarnProof.ProtocolConfig.Replay
import EarnProof.Indexer
import EarnProof.Upgrade.Law
import EarnProof.Upgrade.Contracts
import EarnProof.ProofRegistry.Lifecycle
import EarnProof.ProofRegistry.History
import EarnProof.System.Machine
import EarnProof.System.Gate
import EarnProof.System.Validity
import EarnProof.System.Authority
import EarnProof.System.Attribution
import EarnProof.System.Revocation
import EarnProof.Soroban.Lifetime
import EarnProof.Renewal.Extensions
import EarnProof.Renewal.Cadence
import EarnProof.Soroban.Refusal
import EarnProof.Upgrade.Refusals
import EarnProof.ProtocolConfig.Refusals
import EarnProof.IssuerRegistry.Refusals
import EarnProof.ProofRegistry.Refusals
import EarnProof.System.Refusals
import EarnProof.Upgrade.ForwardFix
import EarnProof.ProtocolConfig.Audit
import EarnProof.Initialization.Contracts
import EarnProof.Disclosure
import EarnProof.Soroban.RawRun
import EarnProof.System.RawWrites
import EarnProof.System.Pause
import EarnProof.Errors.Catalog
import EarnProof.Errors.Exactness
import EarnProof.Errors.Permanence
import EarnProof.Errors.Recovery
import EarnProof.Emergency.Model
import EarnProof.Emergency.Simulation
import EarnProof.Shared.Principal
import EarnProof.Inventory.Law
import EarnProof.Inventory.Contracts
import EarnProof.Renewal.Triggers
import EarnProof.Abstract.Footprint
import EarnProof.IssuerRegistry.Footprint
import EarnProof.ProofRegistry.Footprint
import EarnProof.System.Commutation
import EarnProof.Soroban.Transcript
import EarnProof.Soroban.Updates
import EarnProof.Soroban.Spec
import EarnProof.Upgrade.Spec
import EarnProof.ProtocolConfig.Spec
import EarnProof.IssuerRegistry.Spec
import EarnProof.ProofRegistry.Spec
import EarnProof.System.Spec
import EarnProof.System.Transparency
import EarnProof.System.Sessions
import EarnProof.System.Composition
import EarnProof.IssuerRegistry.Career
import EarnProof.System.History
import EarnProof.System.Past
import EarnProof.Renewal.Instance
import EarnProof.System.Acceptance
import EarnProof.System.Redelivery
import EarnProof.System.Accounting
import EarnProof.Text.Readable
import EarnProof.Text.Lines
import EarnProof.LedgerSnapshots.Render
import EarnProof.LedgerSnapshots.Snapshot
import EarnProof.LedgerSnapshots.Fixture
import EarnProof.LedgerSnapshots.Encoding
import EarnProof.LedgerSnapshots.Deployment

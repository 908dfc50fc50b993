import BlockLedger.Chain.Rebuild
import BlockLedger.Comparison
import BlockLedger.Log.Basic
import BlockLedger.Pool.Update
import BlockLedger.Wire.RoundTrip
import BlockLedger.Proofs.Items
import BlockLedger.Proofs.Overlay
import BlockLedger.Proofs.Steps
import BlockLedger.Proofs.Growth
import BlockLedger.Proofs.Register
import BlockLedger.Proofs.History
import BlockLedger.Proofs.Accounts
import BlockLedger.Proofs.Movements
import BlockLedger.Proofs.Supply
import BlockLedger.Proofs.Council
import BlockLedger.Proofs.Refusals
import BlockLedger.Proofs.Acceptance
import BlockLedger.Proofs.CallFailures
import BlockLedger.Proofs.Fidelity
import BlockLedger.Proofs.Codecs
import BlockLedger.Proofs.Conflicts
import BlockLedger.Proofs.Books
import BlockLedger.Proofs.PoolBooks
import BlockLedger.Proofs.Durability
import BlockLedger.Proofs.Limits
import BlockLedger.Proofs.Readings
import BlockLedger.Proofs.Solvency
import BlockLedger.Proofs.Overcommitment
import BlockLedger.Proofs.Proposals
import BlockLedger.Proofs.TornFiles
import BlockLedger.Proofs.Rebuild
import BlockLedger.Proofs.Authority
import BlockLedger.Proofs.Reconciliation
import BlockLedger.Proofs.Repetition
import BlockLedger.Proofs.Answers
import BlockLedger.Proofs.Compatibility
import BlockLedger.Proofs.Evictions
import BlockLedger.Proofs.Readmission
import BlockLedger.Proofs.Founding
import BlockLedger.Proofs.Replacement
import BlockLedger.Proofs.Interruption
import BlockLedger.Proofs.Stability
import BlockLedger.Proofs.Sweeping
import BlockLedger.Proofs.Cosigners
import BlockLedger.Proofs.Succession
import BlockLedger.Proofs.Binding
import BlockLedger.Proofs.Rollback
import BlockLedger.Proofs.Overlong
import BlockLedger.Proofs.Addresses
import BlockLedger.Proofs.Fingerprints
import BlockLedger.Proofs.Differences
import BlockLedger.Proofs.Indices
import BlockLedger.Proofs.Window

import WorkLedger.Main
import WorkLedger.Proofs.Block.Commitment
import WorkLedger.Proofs.Chain.Adoption
import WorkLedger.Proofs.Chain.Supply
import WorkLedger.Proofs.Chain.Inclusion
import WorkLedger.Proofs.State.Reached
import WorkLedger.Proofs.Transaction.Debit
import WorkLedger.Proofs.Block.Authorization
import WorkLedger.Proofs.Node.Sifting
import WorkLedger.Proofs.Node.Calls
import WorkLedger.Proofs.Node.Mining
import WorkLedger.Proofs.Node.Snapshot
import WorkLedger.Proofs.State.Commitment
import WorkLedger.Proofs.Chain.History
import WorkLedger.Proofs.Chain.Atomicity
import WorkLedger.Proofs.Gossip.Lossless
import WorkLedger.Proofs.Digest.Texts
import WorkLedger.Proofs.Transaction.Affordable
import WorkLedger.Proofs.Transaction.Agreement
import WorkLedger.Proofs.Transaction.Settlement
import WorkLedger.Proofs.Transaction.Independence
import WorkLedger.Proofs.Block.Series
import WorkLedger.Proofs.Node.Selection
import WorkLedger.Proofs.Transaction.Description
import WorkLedger.Proofs.Digest.Division
import WorkLedger.Proofs.Machine.Execution
import WorkLedger.Proofs.Machine.Boundaries
import WorkLedger.Proofs.Machine.Slots
import WorkLedger.Proofs.Machine.Exact
import WorkLedger.Proofs.Machine.Wide
import WorkLedger.Proofs.Machine.Encoding
import WorkLedger.Proofs.Gossip.Delivery
import WorkLedger.Proofs.Options.Refusal

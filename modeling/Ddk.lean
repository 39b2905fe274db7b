import Ddk.Foundation.Outcome
import Ddk.Foundation.Database
import Ddk.Foundation.Packages
import Ddk.Foundation.Chains
import Ddk.Construction.Bitcoin
import Ddk.Construction.Types
import Ddk.Construction.Authorization
import Ddk.Construction.State
import Ddk.Foundation.Sorting
import Ddk.Construction.Withdrawals
import Ddk.Construction.Drivechain
import Ddk.Construction.Archive
import Ddk.Construction.MemPool
import Ddk.Construction.Net
import Ddk.Construction.Node
import Ddk.Construction.Peers
import Ddk.Construction.Miner
import Ddk.Construction.Reference
import Ddk.Proof.State.Validation
import Ddk.Proof.State.ValueChecks
import Ddk.Foundation.Lists
import Ddk.Proof.Authorization.Verification
import Ddk.Proof.Authorization.Alignment
import Ddk.Proof.Node.Authorization
import Ddk.Foundation.Accounts
import Ddk.Construction.History
import Ddk.Proof.State.Blocks
import Ddk.Proof.Withdrawals.Aggregation
import Ddk.Proof.Withdrawals.Collection
import Ddk.Proof.Withdrawals.Contents
import Ddk.Proof.Run.Origins
import Ddk.Proof.Run.Phases
import Ddk.Proof.Run.Flow
import Ddk.Proof.Run.Accounting
import Ddk.Proof.Run.Supply
import Ddk.Proof.Run.Places
import Ddk.Proof.Drivechain.Deposits
import Ddk.Proof.Node.Runs
import Ddk.Proof.Node.Places
import Ddk.Proof.Node.Templates
import Ddk.Proof.Withdrawals.Coverage
import Ddk.Proof.Node.Coverage
import Ddk.Proof.Withdrawals.Weight
import Ddk.Proof.Node.Heights
import Ddk.Proof.Node.Capacity
import Ddk.Proof.Withdrawals.Reproduction
import Ddk.Proof.MemPool.Marks
import Ddk.Proof.Node.Outputs
import Ddk.Proof.Archive.Chain
import Ddk.Proof.Withdrawals.Statuses
import Ddk.Proof.Net.Download
import Ddk.Proof.Net.Messages
import Ddk.Construction.Mining
import Ddk.Proof.Net.Mining
import Ddk.Foundation.Scans
import Ddk.Construction.Treasury
import Ddk.Proof.Drivechain.Scanning
import Ddk.Foundation.Snapshots
import Ddk.Foundation.Replays
import Ddk.Construction.Concurrency
import Ddk.Construction.Replay
import Ddk.Proof.Drivechain.Batches
import Ddk.Proof.Node.Concurrency
import Ddk.Proof.Node.Replay
import Ddk.Construction.Wallet
import Ddk.Proof.Wallet.Addresses
import Ddk.Proof.Wallet.Coins
import Ddk.Proof.Wallet.Payments
import Ddk.Proof.MemPool.Conflicts
import Ddk.Proof.Authorization.Packaging
import Ddk.Proof.Withdrawals.Exactness
import Ddk.Proof.Withdrawals.Ordering
import Ddk.Proof.Wallet.Selection
import Ddk.Proof.Node.Picks
import Ddk.Proof.Net.Pushing
import Ddk.Proof.Wallet.Indexes
import Ddk.Construction.Pacing
import Ddk.Proof.Node.Pacing
import Ddk.Foundation.CallWork
import Ddk.Construction.Gossip
import Ddk.Proof.Net.Gossip
import Ddk.Foundation.Codecs
import Ddk.Construction.Formats
import Ddk.Proof.Net.Formats
import Ddk.Construction.ReferenceFormats
import Ddk.Foundation.Replicas
import Ddk.Construction.Download
import Ddk.Proof.Archive.Blocks
import Ddk.Proof.Net.Sync
import Ddk.Proof.Net.Forks
import Ddk.Proof.Net.Commitments
import Ddk.Construction.Client
import Ddk.Proof.Wallet.Sessions
import Ddk.Construction.Ledger
import Ddk.Proof.Net.Ledger
import Ddk.Proof.Net.Delivery
import Ddk.Proof.Run.Solvency
import Ddk.Proof.Node.Draining
import Ddk.Proof.Node.Waiting

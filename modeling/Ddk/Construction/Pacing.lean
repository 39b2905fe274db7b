/-
This file gives the runs of one node that log what each block does with the pending bundle.
-/

import Ddk.Construction.Node

namespace Ddk

open Foundation

/-- An entry keeps the height of a block, the bundle around the collection and the statuses. -/
structure PacingEntry [Bitcoin] (C : Type) where
  blockHeight : UInt32
  before : Option (WithdrawalBundle C)
  collected : Option (WithdrawalBundle C)
  bundleStatuses : HashMap Bitcoin.Txid WithdrawalBundleStatus

namespace PacingEntry

variable [Bitcoin] {C : Type} (entry : PacingEntry C)

/-- The block stands one above the height that it read. -/
def height : ℕ := entry.blockHeight.toNat + 1

/-- The statuses of the block may name a bundle. -/
def status (bundle : WithdrawalBundle C) : Option WithdrawalBundleStatus :=
  entry.bundleStatuses[Bitcoin.txid bundle.transaction]?

/-- The statuses of the block fail the bundle that is pending after the collection. -/
def fails : Bool :=
  match entry.collected with
  | some bundle => entry.status bundle = some .failed
  | none => false

/-- The last failure of a log is at height zero when there is none. -/
def lastFailure : List (PacingEntry C) → ℕ
  | [] => 0
  | entry :: log => if entry.fails then entry.height else lastFailure log

end PacingEntry

variable [Bitcoin] {A C S : Type} [CustomState S A C]
variable [GetValue C] [GetAddress A] [Verify A C] [Blake3] [Bincode C] [DecidableEq C]

/-- A pacing run lists its entries, the last one first. Peg data and mempool are arbitrary. -/
inductive Node.PacingRun (mode : Overflow) : List (PacingEntry C) → Node A C S → Prop where
  | new (customState : S) : PacingRun mode [] (Node.new customState)
  | mempool {log : List (PacingEntry C)} {node : Node A C S} (mempool : MemPool A C)
      (before : PacingRun mode log node) : PacingRun mode log { node with mempool }
  | submitBlock {log : List (PacingEntry C)} {node next : Node A C S} {orders : Orders C}
      {header : Header} {body : Body A C} {twoWayPegData : TwoWayPegData C} {collected : State C}
      (before : PacingRun mode log node)
      (collects : ((node.state.connectBody body).connectDeposits orders
        twoWayPegData).connectWithdrawals
        orders mode node.archive.getHeight = .ok collected)
      (committed : node.commitBlock orders mode header body twoWayPegData = .ok next) :
      PacingRun mode ({
        blockHeight := node.archive.getHeight
        before := node.state.pendingWithdrawalBundle
        collected := collected.pendingWithdrawalBundle
        bundleStatuses := twoWayPegData.bundleStatuses } :: log) next

end Ddk

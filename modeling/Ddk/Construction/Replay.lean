/-
This file gives the blocks of one chain with the mainchain's answers at their
arrival and at a later replay.
-/

import Ddk.Construction.Node
import Ddk.Foundation.Replays

namespace Ddk

open Foundation

/-- The mainchain keeps the deposits up to the block, and its lists of withdrawals may grow. -/
structure Arrival [Bitcoin] (A C : Type) [DecidableEq C] (sidechainNumber : UInt8) where
  orders : Orders C
  header : Header
  body : Body A C
  mempool : MemPool A C
  first : Drivechain.MainClient
  second : Drivechain.MainClient
  deposits : ∀ start, second.listSidechainDepositsByBlock sidechainNumber
    (some header.prevMainHash) start =
    first.listSidechainDepositsByBlock sidechainNumber (some header.prevMainHash) start
  spent : ∀ spent, first.listSpentWithdrawals = some spent →
    ∃ grown, second.listSpentWithdrawals = some grown ∧ spent ⊆ grown
  failed : ∀ failed, first.listFailedWithdrawals = some failed →
    ∃ grown, second.listFailedWithdrawals = some grown ∧ failed ⊆ grown

/-- The two states show the same outputs, pending bundle and failure height. -/
structure State.SameOutcome [Bitcoin] {C : Type} (first second : State C) : Prop where
  utxos : first.utxos = second.utxos
  pending : first.pendingWithdrawalBundle = second.pendingWithdrawalBundle
  failure : first.lastWithdrawalBundleFailureHeight = second.lastWithdrawalBundleFailureHeight

namespace Node

variable [Bitcoin] [Blake3] [Bs58] {A C S : Type} [DecidableEq C] [Bincode C] [GetValue C]
variable [GetAddress A] [Verify A C]
variable [CustomState S A C]

/-- The first node has some mempool at an arrival, and the second node only submits the blocks. -/
def replay (mode : Overflow) :
    Replay (Node A C S) (Arrival A C (CustomState.thisSidechain S A C))
      (Error (CustomState.Error S A C)) where
  accept node arrival :=
      { node with mempool := arrival.mempool }.submitBlock arrival.orders mode arrival.first
    arrival.header arrival.body
  replay node arrival :=
    node.submitBlock arrival.orders mode arrival.second arrival.header arrival.body
  observe first second := first.state.SameOutcome second.state

end Node

end Ddk

/-
This file records the blocks of a run and gives the runs of the shared databases and of one node.
-/

import Ddk.Construction.Node
import Ddk.Foundation.Accounts

namespace Ddk

open Foundation

/-- A receipt keeps what one block spent, created, earned and paid out. -/
structure Receipt [Bitcoin] (A C : Type) where
  body : Body A C
  filledTransactions : List (FilledTransaction C)
  fees : UInt64
  deposits : HashMap OutPoint (Output C)
  confirmed : Option (WithdrawalBundle C)

section

variable [Bitcoin] {A C : Type}

/-- Each input of a filled transaction stands beside its output. -/
def FilledTransaction.spentEntries (filled : FilledTransaction C) : List (OutPoint × Output C) :=
  filled.transaction.inputs.zip filled.spentUtxos

/-- An absent bundle has no entries. -/
def bundleEntries (bundle : Option (WithdrawalBundle C)) : List (OutPoint × Output C) :=
  bundle.elim [] (·.spentUtxos.toList)

namespace Receipt

variable (receipt : Receipt A C)

def spentEntries : List (OutPoint × Output C) :=
  receipt.filledTransactions.flatMap FilledTransaction.spentEntries

def createdEntries [Blake3] [Bincode C] : List (OutPoint × Output C) :=
  receipt.body.createdOutputs ++ receipt.deposits.toList

def paidEntries : List (OutPoint × Output C) := bundleEntries receipt.confirmed

end Receipt

namespace History

variable (history : List (Receipt A C))

def transactions : List (Transaction C) := history.flatMap (·.body.transactions)

/-- Each included transaction consumes its inputs. -/
def spentEntries : List (OutPoint × Output C) := history.flatMap (·.spentEntries)

def depositEntries : List (OutPoint × Output C) := history.flatMap (·.deposits.toList)

def createdEntries [Blake3] [Bincode C] : List (OutPoint × Output C) :=
  history.flatMap (·.createdEntries)

/-- Each confirmed bundle pays its outputs out. -/
def paidEntries : List (OutPoint × Output C) := history.flatMap (·.paidEntries)

/-- An output is in the database, in the pending bundle, consumed or paid out. -/
def heldEntries (state : State C) : List (OutPoint × Output C) :=
  state.utxos.toList ++ bundleEntries state.pendingWithdrawalBundle ++
    (spentEntries history ++ paidEntries history)

end History

namespace State

variable [GetValue C] [GetAddress A] [Verify A C]

/-- A bundle is confirmed when it is pending and its name has that status. -/
def confirmedBundle (state : State C)
    (bundleStatuses : HashMap Bitcoin.Txid WithdrawalBundleStatus) :
    Option (WithdrawalBundle C) :=
  match state.pendingWithdrawalBundle with
  | some bundle => if bundleStatuses[Bitcoin.txid bundle.transaction]? = some .confirmed then
    some bundle else none
  | none => none

/-- The receipt repeats the steps of one block up to the handling of the statuses. -/
def blockReceipt [DecidableEq C] [Blake3] [Bincode C] (orders : Orders C) (mode : Overflow)
    (state : State C) (body : Body A C) (twoWayPegData : TwoWayPegData C) (blockHeight : UInt32) :
    Outcome Error (Receipt A C) := do
  let fees ← state.validateBody mode body
  let filledTransactions ← body.transactions.mapM state.fillTransaction
  let connected := (state.connectBody body).connectDeposits orders twoWayPegData
  let collected ← connected.connectWithdrawals orders mode blockHeight
  return {
    body, filledTransactions, fees
    deposits := twoWayPegData.deposits
    confirmed := collected.confirmedBundle twoWayPegData.bundleStatuses }

/-- One block validates its body, connects it and then connects its peg data. -/
structure Connects [DecidableEq C] [Blake3] [Bincode C] (orders : Orders C) (mode : Overflow)
    (state : State C) (body : Body A C) (twoWayPegData : TwoWayPegData C) (blockHeight : UInt32)
    (receipt : Receipt A C) (next : State C) : Prop where
  accepted : state.validateBody mode body = .ok receipt.fees
  recorded : state.blockReceipt orders mode body twoWayPegData blockHeight = .ok receipt
  connected : (state.connectBody body).connectTwoWayPegData orders mode twoWayPegData blockHeight =
    .ok next

/-- A run starts from the empty databases. Its history starts with the last block. -/
inductive Run [DecidableEq C] [Blake3] [Bincode C] (mode : Overflow) : List (Receipt A C) →
    State C → Prop where
  | empty : Run mode [] State.empty
  | block {history : List (Receipt A C)} {orders : Orders C} {state next : State C}
      {body : Body A C} {twoWayPegData : TwoWayPegData C} {blockHeight : UInt32}
      {receipt : Receipt A C} (before : Run mode history state)
      (connects : Connects orders mode state body twoWayPegData blockHeight receipt next) :
      Run mode (receipt :: history) next

end State

namespace Node

variable [DecidableEq C] [Blake3] [Bincode C] [GetValue C] [GetAddress A] [Verify A C] [Bs58]
variable {S : Type} [CustomState S A C]

/-- A node run also pools and deletes transactions. Peg data may come from any earlier start. -/
inductive Run (mode : Overflow) : List (Receipt A C) → Node A C S → Prop where
  | new (customState : S) : Run mode [] (Node.new customState)
  | submitTransaction {history : List (Receipt A C)} {node next : Node A C S}
      {transaction : AuthorizedTransaction A C} (before : Run mode history node)
      (submitted : node.submitTransaction mode transaction = .ok next) : Run mode history next
  | poolTransaction {history : List (Receipt A C)} {node next : Node A C S}
      {transaction : AuthorizedTransaction A C} (before : Run mode history node)
      (pooled : node.poolTransaction transaction = .ok next) : Run mode history next
  | deleteTransaction {history : List (Receipt A C)} {node : Node A C S} (txid : Txid)
      (before : Run mode history node) :
      Run mode history { node with mempool := node.mempool.delete txid }
  | getTransactions {history : List (Receipt A C)} {node next : Node A C S} {number : ℕ}
      {returned : List (AuthorizedTransaction A C)} {fee : UInt64} (before : Run mode history node)
      (picked : node.getTransactions mode number = .ok (returned, fee, next)) :
      Run mode history next
  | submitBlock {history : List (Receipt A C)} {node next : Node A C S} {orders : Orders C}
      {client : Drivechain.MainClient} {start : Option Bitcoin.BlockHash} {header : Header}
      {body : Body A C} {twoWayPegData : TwoWayPegData C} {receipt : Receipt A C}
      (before : Run mode history node)
      (fetched : getTwoWayPegData (S := S) (A := A) client header start = .ok twoWayPegData)
      (recorded : node.state.blockReceipt orders mode body twoWayPegData node.archive.getHeight =
        .ok receipt)
      (committed : node.commitBlock orders mode header body twoWayPegData = .ok next) :
      Run mode (receipt :: history) next

end Node

/-- A mempool run lists the stored transactions, the last one first. Any databases may be read. -/
inductive MemPool.Run [DecidableEq C] [Blake3] [Bincode C] [GetValue C] [GetAddress A] [Verify A C]
    (S : Type) [CustomState S A C] (mode : Overflow) :
    List (AuthorizedTransaction A C) → MemPool A C → Prop where
  | empty : Run S mode [] MemPool.empty
  | put {puts : List (AuthorizedTransaction A C)} {mempool next : MemPool A C}
      {transaction : AuthorizedTransaction A C} (before : Run S mode puts mempool)
      (stored : mempool.put transaction = .ok next) : Run S mode (transaction :: puts) next
  | delete {puts : List (AuthorizedTransaction A C)} {mempool : MemPool A C} (txid : Txid)
      (before : Run S mode puts mempool) : Run S mode puts (mempool.delete txid)
  | getTransactions {puts : List (AuthorizedTransaction A C)} {node next : Node A C S} {number : ℕ}
      {returned : List (AuthorizedTransaction A C)} {fee : UInt64}
      (before : Run S mode puts node.mempool)
      (picked : node.getTransactions mode number = .ok (returned, fee, next)) :
      Run S mode puts next.mempool
  | submitBlock {puts : List (AuthorizedTransaction A C)} {node next : Node A C S}
      {orders : Orders C} {header : Header} {body : Body A C} {twoWayPegData : TwoWayPegData C}
      (before : Run S mode puts node.mempool)
      (committed : node.commitBlock orders mode header body twoWayPegData = .ok next) :
      Run S mode puts next.mempool

end

end Ddk

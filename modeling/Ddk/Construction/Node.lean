/-
This file composes the databases of one node and its write transactions.
-/

import Ddk.Construction.Archive
import Ddk.Construction.Drivechain
import Ddk.Construction.MemPool
import Ddk.Construction.Net
import Ddk.Construction.Withdrawals

namespace Ddk

open Foundation

/-- A sidechain adds rules and databases. It reads the shared outputs and writes only its own. -/
class CustomState [Bitcoin] (S A C : Type) where
  Error : Type
  thisSidechain : UInt8
  validateFilledTransaction : S → UInt32 → State C → FilledTransaction C → Outcome Error Unit
  validateBody : S → UInt32 → State C → Body A C → Outcome Error Unit
  connectBody : S → UInt32 → State C → Body A C → Outcome Error S

structure Node [Bitcoin] (A C S : Type) where
  state : State C
  customState : S
  archive : Archive A C
  mempool : MemPool A C

namespace Node

inductive Error (E : Type) where
  | net (error : Net.Error)
  | archive (error : Archive.Error)
  | drivechain (error : Drivechain.Error)
  | memPool (error : MemPool.Error)
  | state (error : State.Error)
  | bincode
  | custom (error : E)
  deriving DecidableEq

variable [Bitcoin] {A C S : Type}

/-- A new node has empty databases. -/
def new (customState : S) : Node A C S := ⟨State.empty, customState, Archive.empty, MemPool.empty⟩

/-- The environment maps ten mebibytes, and the database refuses a write that does not fit. -/
def mapSize : ℕ := 10 * 1024 * 1024

/-- The stored headers fit the map of the environment. Each of them takes at least one byte. -/
def Mapped (node : Node A C S) : Prop := node.archive.headers.size ≤ mapSize

variable [CustomState S A C]

/-- This is the result type of the node's calls. -/
abbrev Result (S A C : Type) [CustomState S A C] (α : Type) : Type :=
  Outcome (Error (CustomState.Error S A C)) α

section

variable [GetValue C] [GetAddress A] [Verify A C] [Blake3] [Bincode C]

def validateTransaction (mode : Overflow) (node : Node A C S)
    (transaction : AuthorizedTransaction A C) :
    Result S A C UInt64 := do
  let filledTransaction ← (node.state.fillTransaction transaction.transaction).convert .state
  (State.checkAddresses transaction.authorizations filledTransaction.spentUtxos).convert .state
  (State.authorized (Verify.verifyTransaction transaction)).convert .state
  let height := node.archive.getHeight
  (CustomState.validateFilledTransaction (A := A) node.customState height node.state
    filledTransaction).convert .custom
  (State.validateFilledTransaction mode filledTransaction).convert .state

/-- The write transaction of a submitted transaction validates and stores it. -/
def submitTransaction (mode : Overflow) (node : Node A C S)
    (transaction : AuthorizedTransaction A C) :
    Result S A C (Node A C S) := do
  let _ ← node.validateTransaction mode transaction
  let mempool ← (node.mempool.put transaction).convert .memPool
  return { node with mempool }

/-- The write transaction of a push only stores. Its validation read an earlier node. -/
def poolTransaction (node : Node A C S) (transaction : AuthorizedTransaction A C) :
    Result S A C (Node A C S) := do
  let mempool ← (node.mempool.put transaction).convert .memPool
  return { node with mempool }

/-- The template loop keeps the fee, the kept transactions, the spent inputs and the mempool. -/
structure Template (A C : Type) where
  fee : UInt64
  returnedTransactions : List (AuthorizedTransaction A C)
  spentUtxos : Finset OutPoint
  mempool : MemPool A C

/-- A validation error evicts the transaction, and a panic ends the call. -/
def isErr {ε α : Type} (call : Outcome ε α) : Outcome ε Bool :=
  match call with
  | .ok _ => .ok false
  | .error (.error _) => .ok true
  | .error .panic => Outcome.panicked

def pickTransaction (mode : Overflow) (node : Node A C S) (template : Template A C)
    (transaction : AuthorizedTransaction A C) : Result S A C (Template A C) := do
  let inputs := transaction.transaction.inputs.toFinset
  let evicted := { template with mempool := template.mempool.delete transaction.transaction.txid }
  if ¬ Disjoint template.spentUtxos inputs then return evicted
  else
    if ← isErr (node.validateTransaction mode transaction) then return evicted
    else
      let filledTransaction ← (node.state.fillTransaction transaction.transaction).convert .state
      let valueIn ← mode.sum (filledTransaction.spentUtxos.map getValue)
      let valueOut ← mode.sum (filledTransaction.transaction.outputs.map getValue)
      let difference ← mode.sub valueIn valueOut
      let fee ← mode.add template.fee difference
      return {
        fee
        returnedTransactions := template.returnedTransactions ++ [transaction]
        spentUtxos := template.spentUtxos ∪ inputs
        mempool := template.mempool }

def getTransactions (mode : Overflow) (node : Node A C S) (number : ℕ) :
    Result S A C (List (AuthorizedTransaction A C) × UInt64 × Node A C S) := do
  let template ← (node.mempool.take number).foldlM (pickTransaction mode node)
    ⟨0, [], ∅, node.mempool⟩
  return (template.returnedTransactions, template.fee, { node with mempool := template.mempool })

/-- The write transaction of a submitted block commits every database or none. -/
def commitBlock [DecidableEq C] (orders : Orders C) (mode : Overflow) (node : Node A C S)
    (header : Header) (body : Body A C) (twoWayPegData : TwoWayPegData C) :
    Result S A C (Node A C S) := do
  let _ ← (node.state.validateBody mode body).convert .state
  let height := node.archive.getHeight
  (CustomState.validateBody node.customState height node.state body).convert .custom
  let state := node.state.connectBody body
  let customState ← (CustomState.connectBody node.customState height state body).convert .custom
  let state ← (state.connectTwoWayPegData orders mode twoWayPegData height).convert .state
  let archive ← (node.archive.appendHeader mode header).convert .archive
  let archive ← (archive.putBody header body).convert .archive
  let mempool :=
    body.transactions.foldl (fun mempool transaction => mempool.delete transaction.txid)
    node.mempool
  return { state, customState, archive, mempool }

/-- The mainchain answers come from calls between a first read and the write transaction. -/
def getTwoWayPegData [Bs58] (client : Drivechain.MainClient) (header : Header)
    (lastDepositBlockHash : Option Bitcoin.BlockHash) : Result S A C (TwoWayPegData C) :=
  (Drivechain.getTwoWayPegData client (CustomState.thisSidechain S A C) header.prevMainHash
    lastDepositBlockHash).convert .drivechain

/-- A call without interference reads, asks the mainchain, commits and broadcasts the bundle. -/
def submitBlock [DecidableEq C] [Bs58] (orders : Orders C) (mode : Overflow)
    (client : Drivechain.MainClient) (node : Node A C S) (header : Header) (body : Body A C) :
    Result S A C (Node A C S) := do
  let twoWayPegData ← getTwoWayPegData client header node.state.lastDepositBlock
  node.commitBlock orders mode header body twoWayPegData

end

end Node

end Ddk

/-
This file gives the reading calls of a node and of a wallet and the runs of
a wallet that follows a node.
-/

import Ddk.Construction.History
import Ddk.Construction.Wallet

namespace Ddk

open Foundation

section

variable [Bitcoin] {A C S : Type}

/-- The call copies the database into a hash map. -/
def State.getUtxos (state : State C) : HashMap OutPoint (Output C) :=
  Database.putAll ∅ state.utxos.toList

def State.getUtxosByAddresses (state : State C) (addresses : Finset Address) :
    HashMap OutPoint (Output C) :=
  Database.putAll ∅ (state.utxos.toList.filter fun entry => entry.2.address ∈ addresses)

def MemPool.takeAll (mempool : MemPool A C) : List (AuthorizedTransaction A C) :=
  mempool.transactions.toList.map Prod.snd

namespace Node

/-- An outpoint that the node does not have is reported as spent. -/
def getSpentUtxos (node : Node A C S) (outpoints : List OutPoint) : List OutPoint :=
  outpoints.filter fun outpoint => (node.state.utxos[outpoint]?).isNone

def getUtxosByAddresses (node : Node A C S) (addresses : Finset Address) :
    HashMap OutPoint (Output C) :=
  node.state.getUtxosByAddresses addresses

def getAllTransactions (node : Node A C S) : List (AuthorizedTransaction A C) :=
  node.mempool.takeAll

end Node

namespace Wallet

def getBalance [GetValue C] (mode : Overflow) (wallet : Wallet C) : Outcome Error UInt64 :=
  mode.sum (wallet.utxos.toList.map fun entry => getValue entry.2)

def getUtxos (wallet : Wallet C) : HashMap OutPoint (Output C) :=
  Database.putAll ∅ wallet.utxos.toList

def getAddresses (wallet : Wallet C) : Finset Address :=
  (wallet.indexToAddress.toList.map Prod.snd).toFinset

/-- The wallet puts the outputs that the node has at its addresses. -/
def refresh (order : HashOrder OutPoint (Output C)) (node : Node A C S)
    (wallet : Wallet C) : Wallet C :=
  wallet.putUtxos order (node.getUtxosByAddresses wallet.getAddresses)

/-- The wallet deletes the outputs that the node does not have. -/
def prune (order : HashOrder OutPoint (Output C)) (node : Node A C S)
    (wallet : Wallet C) : Wallet C :=
  wallet.deleteUtxos (node.getSpentUtxos ((order.iter wallet.getUtxos).map Prod.fst))

end Wallet

end

section

variable [Bitcoin] [Ed25519] [Bip32] {A C S : Type} [CustomState S A C]
variable [DecidableEq C] [Blake3] [Bincode C] [GetValue C] [GetAddress A] [Verify A C] [Bs58]

/-- A session interleaves the blocks of a node, changes of its mempool and the calls of a wallet. -/
inductive Session (mode : Overflow) : List (Receipt A C) → Node A C S → Wallet C → Prop where
  | new (customState : S) : Session mode [] (Node.new customState) Wallet.empty
  | pool {history : List (Receipt A C)} {node : Node A C S} {wallet : Wallet C}
      (mempool : MemPool A C) (before : Session mode history node wallet) :
      Session mode history { node with mempool } wallet
  | submitBlock {history : List (Receipt A C)} {node next : Node A C S} {wallet : Wallet C}
      {orders : Orders C} {client : Drivechain.MainClient} {start : Option Bitcoin.BlockHash}
      {header : Header} {body : Body A C} {twoWayPegData : TwoWayPegData C} {receipt : Receipt A C}
      (before : Session mode history node wallet)
      (fetched : Node.getTwoWayPegData (S := S) (A := A) client header start = .ok twoWayPegData)
      (recorded : node.state.blockReceipt orders mode body twoWayPegData node.archive.getHeight =
        .ok receipt)
      (committed : node.commitBlock orders mode header body twoWayPegData = .ok next) :
      Session mode (receipt :: history) next wallet
  | setSeed {history : List (Receipt A C)} {node : Node A C S} {wallet : Wallet C} (seed : Seed)
      (before : Session mode history node wallet) : Session mode history node (wallet.setSeed seed)
  | getNewAddress {history : List (Receipt A C)} {node : Node A C S} {wallet next : Wallet C}
      {address : Address} (before : Session mode history node wallet)
      (made : wallet.getNewAddress mode = .ok (address, next)) :
      Session mode history node next
  | refresh {history : List (Receipt A C)} {node : Node A C S} {wallet : Wallet C}
      (order : HashOrder OutPoint (Output C)) (before : Session mode history node wallet) :
      Session mode history node (wallet.refresh order node)
  | deleteUtxos {history : List (Receipt A C)} {node : Node A C S} {wallet : Wallet C}
      (outpoints : List OutPoint) (before : Session mode history node wallet) :
      Session mode history node (wallet.deleteUtxos outpoints)

end

end Ddk

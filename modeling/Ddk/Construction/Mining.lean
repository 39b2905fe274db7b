/-
This file gives the runs of one node that mines blocks and downloads blocks from its peers.
-/

import Ddk.Construction.Miner
import Ddk.Construction.Peers

namespace Ddk

open Foundation

/-- An event records a verified commitment or the way by which a header entered the archive. -/
inductive ChainEvent where
  | verified (client : Drivechain.BmmClient) (sidechainNumber : UInt8) (header : Header)
  | confirmed (header : Header)
  | downloaded (header : Header)

variable [Bitcoin] {A C S : Type} [CustomState S A C]
variable [GetValue C] [GetAddress A] [Verify A C] [Blake3] [Bincode C] [DecidableEq C] [Bs58]
variable [Wire A C]

/-- A mining run lists its events, the last one first, and the blocks that the miner handed over. -/
inductive Node.MiningRun (mode : Overflow) :
    List ChainEvent → Miner A C → List (Header × Body A C) → Node A C S → Prop where
  | new (customState : S) (sidechainNumber : UInt8) :
      MiningRun mode [] (Miner.new sidechainNumber) [] (Node.new customState)
  | attemptBmm {events : List ChainEvent} {miner next : Miner A C}
      {handed : List (Header × Body A C)} {node : Node A C S} {client : Drivechain.BmmClient}
      {amount : UInt64} {height : UInt32} {header : Header} {body : Body A C}
      (before : MiningRun mode events miner handed node)
      (attempted : miner.attemptBmm client amount height header body = .ok next) :
      MiningRun mode events next handed node
  | confirmBmm {events : List ChainEvent} {miner next : Miner A C}
      {handed : List (Header × Body A C)} {node : Node A C S} {client : Drivechain.BmmClient}
      {header : Header} {body : Body A C} (before : MiningRun mode events miner handed node)
      (confirmed : miner.confirmBmm client = .ok (some (header, body), next)) :
      MiningRun mode (.verified client miner.sidechainNumber header :: events) next
        ((header, body) :: handed) node
  | submitConfirmed {events : List ChainEvent} {miner : Miner A C}
      {handed : List (Header × Body A C)} {node next : Node A C S} {orders : Orders C}
      {client : Drivechain.MainClient} {start : Option Bitcoin.BlockHash} {header : Header}
      {body : Body A C} {twoWayPegData : TwoWayPegData C}
      (before : MiningRun mode events miner handed node) (member : (header, body) ∈ handed)
      (fetched : Node.getTwoWayPegData (S := S) (A := A) client header start = .ok twoWayPegData)
      (committed : node.commitBlock orders mode header body twoWayPegData = .ok next) :
      MiningRun mode (.confirmed header :: events) miner handed next
  | download {events : List ChainEvent} {miner : Miner A C} {handed : List (Header × Body A C)}
      {node next : Node A C S} {orders : Orders C} {client : Drivechain.MainClient}
      {start : Option Bitcoin.BlockHash} {stream : Stream} {height : UInt32} {header : Header}
      {body : Body A C} {twoWayPegData : TwoWayPegData C}
      (before : MiningRun mode events miner handed node)
      (replied : Peer.request stream (Request.getBlock (A := A) (C := C) height) =
        .ok (.block header body))
      (fetched : Node.getTwoWayPegData (S := S) (A := A) client header start = .ok twoWayPegData)
      (committed : node.commitBlock orders mode header body twoWayPegData = .ok next) :
      MiningRun mode (.downloaded header :: events) miner handed next
  | mempool {events : List ChainEvent} {miner : Miner A C} {handed : List (Header × Body A C)}
      {node : Node A C S} (mempool : MemPool A C)
      (before : MiningRun mode events miner handed node) :
      MiningRun mode events miner handed { node with mempool }

end Ddk

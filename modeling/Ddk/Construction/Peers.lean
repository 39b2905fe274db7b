/-
This file gives the node's side of the messages: the answers to its
peers and the download of blocks.
-/

import Ddk.Construction.Node

namespace Ddk.Node

open Foundation

variable [Bitcoin] {A C S : Type} [CustomState S A C]

/-- A listening peer reads one request from the bytes of a stream. -/
def readRequest [Wire A C] (data : List UInt8) : Result S A C (Request A C) := do
  let data ← (Net.readToEnd Net.readLimit data).convert .net
  match Wire.decodeRequest data with
  | some message => return message
  | none => Outcome.fail .bincode

omit [CustomState S A C] in
/-- The answer to `GetBlock` needs both the header and the body. -/
def answerGetBlock (node : Node A C S) (height : UInt32) : Response A C :=
  match node.archive.getHeader height, node.archive.getBody height with
  | some header, some body => .block header body
  | _, _ => .noBlock

/-- The push loop asks each peer in turn, stops at an error and lists the peers that answered. -/
def pushTransaction [Wire A C] (transaction : AuthorizedTransaction A C) :
    List (ℕ × Stream) → List ℕ × Result S A C Unit
  | [] => ([], .ok ())
  | peer :: peers =>
      match (Peer.request peer.2 (.pushTransaction transaction)).convert .net with
      | .error fault => ([], .error fault)
      | .ok _ =>
          let (pushed, result) := pushTransaction transaction peers
          (peer.1 :: pushed, result)

/-- A submission ends with its node, the peers that answered its pushes and its result. -/
structure Submitted [Bitcoin] (S A C : Type) [CustomState S A C] where
  node : Node A C S
  pushed : List ℕ
  result : Result S A C Unit

/-- The call commits its write transaction first and pushes the transaction afterwards. -/
def submitTransactionToPeers [GetValue C] [GetAddress A] [Verify A C] [Blake3]
    [Bincode C] [Wire A C] (order : HashOrder ℕ Stream) (mode : Overflow) (peers : HashMap ℕ Stream)
    (node : Node A C S)
    (transaction : AuthorizedTransaction A C) : Submitted S A C :=
  match node.submitTransaction mode transaction with
  | .error fault => ⟨node, [], .error fault⟩
  | .ok next =>
      let (pushed, result) := pushTransaction (S := S) transaction (order.iter peers)
      ⟨next, pushed, result⟩

/-- A loop validates and stores a pushed transaction, or it writes the rejection of it. -/
def receiveTransaction [GetValue C] [GetAddress A] [Verify A C] [Blake3] [Bincode C]
    (mode : Overflow) (node : Node A C S) (transaction : AuthorizedTransaction A C) :
    Option (Response A C) × Result S A C (Node A C S) :=
  match node.validateTransaction mode transaction with
  | .error (.error error) => (some .transactionRejected, Outcome.fail error)
  | .error .panic => (none, Outcome.panicked)
  | .ok _ => (none, node.poolTransaction transaction)

variable [GetValue C] [GetAddress A] [Verify A C] [Blake3] [Bincode C] [DecidableEq C] [Bs58]
variable [Wire A C]

/-- The download loop asks a higher peer for the next block. Each of its errors is unwrapped. -/
def requestMissingHeader (orders : Orders C) (mode : Overflow) (client : Drivechain.MainClient)
    (node : Node A C S) (state : Option PeerState) (stream : Stream) : Outcome Empty (Node A C S) :=
  match state with
  | none => return node
  | some state =>
      let height := node.archive.getHeight
      if state.blockHeight > height then do
        let nextHeight ← mode.add32 height 1
        let response ← Outcome.unwrap (Peer.request (A := A) (C := C) stream (.getBlock nextHeight))
        match response with
        | .block header body => Outcome.unwrap (node.submitBlock orders mode client header body)
        | .noBlock => return node
        | .transactionAccepted => return node
        | .transactionRejected => return node
      else return node

end Ddk.Node

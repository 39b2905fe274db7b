/-
This file gives the network of nodes that announce their heights and
download blocks from each other.
-/

import Ddk.Construction.Peers
import Ddk.Foundation.Replicas

namespace Ddk

open Foundation

/-- The task for missing headers waits for one peer at a time. An unwrapped error stops it. -/
inductive DownloadTask [Bitcoin] (N A C : Type) where
  | idle
  | asked (peer : N) (height : UInt32)
  | answered (peer : N) (height : UInt32) (response : Response A C)
  | stopped
  deriving DecidableEq

/-- A datagram carries the state of its sender to its receiver. -/
structure HeartBeat (N : Type) where
  sender : N
  receiver : N
  state : PeerState

/-- Each node keeps the last state of each peer. The heart beats are in flight. -/
structure ChainNetwork [Bitcoin] (N A C S : Type) where
  nodes : N → Node A C S
  heartBeats : List (HeartBeat N)
  states : N → N → Option PeerState
  tasks : N → DownloadTask N A C

namespace ChainNetwork

/-- The mainchain answers and the orders of a write transaction are part of its action. -/
inductive Action [Bitcoin] (N A C : Type) [DecidableEq C] where
  | submit (node : N) (orders : Orders C) (header : Header) (body : Body A C)
      (twoWayPegData : TwoWayPegData C)
  | pool (node : N) (mempool : MemPool A C)
  | connect (node peer : N)
  | heartBeat (sender receiver : N)
  | heartBeatListen (position : ℕ)
  | lose (position : ℕ)
  | request (node peer : N)
  | answer (node : N)
  | receive (node : N) (orders : Orders C) (twoWayPegData : TwoWayPegData C)
  | fail (node : N)

section

variable [Bitcoin] {N A C S : Type}

/-- New nodes have not heard from each other. -/
def new (customStates : N → S) : ChainNetwork N A C S :=
  ⟨fun node => Node.new (customStates node), [], fun _ _ => none, fun _ => .idle⟩

variable [DecidableEq N] [DecidableEq C] [CustomState S A C] [GetValue C] [GetAddress A]
variable [Verify A C] [Blake3] [Bincode C]

/-- A rejected block of the own miner changes nothing. -/
def submit (mode : Overflow) (network : ChainNetwork N A C S) (node : N) (orders : Orders C)
    (header : Header)
    (body : Body A C) (twoWayPegData : TwoWayPegData C) : ChainNetwork N A C S :=
  match (network.nodes node).commitBlock orders mode header body twoWayPegData with
  | .ok next => { network with nodes := Function.update network.nodes node next }
  | .error _ => network

omit [DecidableEq C] [CustomState S A C] [GetValue C] [GetAddress A] [Verify A C] [Blake3]
  [Bincode C] in
/-- An idle task asks a peer that claims more blocks for the next one. -/
def request (mode : Overflow) (network : ChainNetwork N A C S)
    (node peer : N) : Option (ChainNetwork N A C S) :=
  match network.tasks node, network.states node peer with
  | .idle, some state =>
      let height := (network.nodes node).archive.getHeight
      if state.blockHeight > height then
        match (mode.add32 height 1 : Outcome Empty UInt32) with
        | .ok nextHeight =>
            some {
              network with
              tasks := Function.update network.tasks node (.asked peer nextHeight) }
        | .error _ => some { network with tasks := Function.update network.tasks node .stopped }
      else none
  | _, _ => none

omit [DecidableEq C] [CustomState S A C] [GetValue C] [GetAddress A] [Verify A C] [Blake3]
  [Bincode C] in
/-- The asked peer answers from its archive. -/
def answer (network : ChainNetwork N A C S) (node : N) : Option (ChainNetwork N A C S) :=
  match network.tasks node with
  | .asked peer height =>
      some { network with
        tasks := Function.update network.tasks node
          (.answered peer height ((network.nodes peer).answerGetBlock height)) }
  | _ => none

/-- A received block is submitted, and each error of the submission stops the task. -/
def receive (mode : Overflow) (network : ChainNetwork N A C S) (node : N) (orders : Orders C)
    (twoWayPegData : TwoWayPegData C) : Option (ChainNetwork N A C S) :=
  match network.tasks node with
  | .answered _ _ (.block header body) =>
      match (network.nodes node).commitBlock orders mode header body twoWayPegData with
      | .ok next =>
          some { network with
            nodes := Function.update network.nodes node next
            tasks := Function.update network.tasks node .idle }
      | .error _ => some { network with tasks := Function.update network.tasks node .stopped }
  | .answered _ _ _ => some { network with tasks := Function.update network.tasks node .idle }
  | _ => none

def step (mode : Overflow) (network : ChainNetwork N A C S) : Action N A C →
    Option (ChainNetwork N A C S)
  | .submit node orders header body twoWayPegData =>
    some (network.submit mode node orders header body twoWayPegData)
  | .pool node mempool =>
      some {
        network with
        nodes := Function.update network.nodes node { network.nodes node with mempool } }
  | .connect node peer =>
      some { network with
        states := Function.update network.states node
          (Function.update (network.states node) peer none) }
  | .heartBeat sender receiver =>
      some { network with
        heartBeats :=
          network.heartBeats ++ [⟨sender, receiver, ⟨(network.nodes sender).archive.getHeight⟩⟩] }
  | .heartBeatListen position =>
      (network.heartBeats[position]?).map fun heartBeat =>
        { network with
          heartBeats := network.heartBeats.eraseIdx position
          states := Function.update network.states heartBeat.receiver
            (Function.update (network.states heartBeat.receiver) heartBeat.sender
              (some heartBeat.state)) }
  | .lose position => some { network with heartBeats := network.heartBeats.eraseIdx position }
  | .request node peer => network.request mode node peer
  | .answer node => network.answer node
  | .receive node orders twoWayPegData => network.receive mode node orders twoWayPegData
  | .fail node => some { network with tasks := Function.update network.tasks node .stopped }

/-- A block enters an archive by a submission of the own miner or by a download. -/
def event (mode : Overflow) (network : ChainNetwork N A C S) : Action N A C →
    Option (LogEvent N (Header × Body A C))
  | .submit node orders header body twoWayPegData =>
      match (network.nodes node).commitBlock orders mode header body twoWayPegData with
      | .ok _ => some (.produced node (header, body))
      | .error _ => none
  | .receive node orders twoWayPegData =>
      match network.tasks node with
      | .answered _ _ (.block header body) =>
          match (network.nodes node).commitBlock orders mode header body twoWayPegData with
          | .ok _ => some (.received node)
          | .error _ => none
      | _ => none
  | _ => none

/-- A run lists the blocks that entered the archives, the last one first. -/
inductive Run (mode : Overflow) (first : ChainNetwork N A C S) :
    List (LogEvent N (Header × Body A C)) → ChainNetwork N A C S → Prop where
  | start : Run mode first [] first
  | step {events : List (LogEvent N (Header × Body A C))} {network next : ChainNetwork N A C S}
      {action : Action N A C} (before : Run mode first events network)
      (taken : network.step mode action = some next) :
      Run mode first ((network.event mode action).toList ++ events) next

end

end ChainNetwork

end Ddk

/-
This file gives the network of nodes that push their transactions to each other.
-/

import Ddk.Construction.Peers
import Ddk.Foundation.RemoteCalls

namespace Ddk

open Foundation Relation

/-- A connection has a port at each end. A port hears the requests of the remote port. -/
structure Topology (N P : Type) where
  owner : P → N
  remote : P → P
  paired : ∀ port, remote (remote port) = port

/-- An iteration over the peers of a node visits each of its ports once. -/
def Topology.Lists {N P : Type} (topology : Topology N P) (node : N) (order : List P) : Prop :=
  order.Nodup ∧ ∀ port, port ∈ order ↔ topology.owner port = node

instance {N P : Type} [DecidableEq N] [DecidableEq P] [Fintype P]
    (topology : Topology N P) (node : N)
    (order : List P) : Decidable (topology.Lists node order) :=
  inferInstanceAs (Decidable (_ ∧ _))

/-- A call of `submit_transaction` or `peer_listen` keeps the response to its last request. -/
structure PushCall [Bitcoin] (I P A C : Type) where
  transaction : AuthorizedTransaction A C
  frame : Frame I P
  response : Option (Response A C)

/-- The tasks submit transactions. Each port has one loop and queues the requests to it. -/
structure Network [Bitcoin] (I N P A C S : Type) where
  nodes : N → Node A C S
  calls : Caller I P → Option (PushCall I P A C)
  queues : P → List (Caller I P)
  stopped : Finset P

namespace Network

inductive Action [Bitcoin] (I N P A C : Type) where
  | submit (task : I) (node : N) (transaction : AuthorizedTransaction A C) (order : List P)
  | push (caller : Caller I P)
  | accept (port : P) (position : ℕ) (order : List P)
  | resume (caller : Caller I P)
  | finish (caller : Caller I P)

section

variable [Bitcoin] {I N P A C S : Type}

/-- These are the nested calls without their transactions. -/
def skeleton (network : Network I N P A C S) : Calls I P :=
  ⟨fun caller => (network.calls caller).map (·.frame), network.queues⟩

/-- This is the call behind a queued request. -/
def request (network : Network I N P A C S) (port : P) (position : ℕ) : Option (PushCall I P A C) :=
  (network.queues port)[position]?.bind network.calls

/-- No call is in progress. -/
structure Quiet (network : Network I N P A C S) : Prop where
  calls : ∀ caller, network.calls caller = none
  queues : ∀ port, network.queues port = []
  stopped : network.stopped = ∅

/-- No accepted transaction has a marked input, and no loop pushes to a loop that waits for it. -/
def Meets (topology : Topology N P) (network : Network I N P A C S) : Action I N P A C → Prop
  | .submit _ _ _ _ => True
  | .push caller =>
      ∀ port, caller = .inr port → ∀ call, network.calls caller = some call →
        ∀ server, call.frame.pending.head? = some server →
          ¬ ReflTransGen network.skeleton.Waits server port
  | .accept port position _ =>
      ∀ call, network.request port position = some call →
        ∀ input ∈ call.transaction.transaction.inputs,
        (network.nodes (topology.owner port)).mempool.spentUtxos[input]? = none
  | .resume _ => True
  | .finish _ => True

/-- The parties handle the requests and replies of the calls in progress. -/
def Action.Handles : Action I N P A C → Prop
  | .submit _ _ _ _ => False
  | .push _ => True
  | .accept _ _ _ => True
  | .resume _ => True
  | .finish _ => True

end

variable [Bitcoin] {I N P A C S : Type} [DecidableEq I] [DecidableEq N] [DecidableEq P]

/-- The server of a request writes a response, or it drops the stream. -/
def respond (calls : Caller I P → Option (PushCall I P A C)) (client : Option (Caller I P))
    (response : Option (Response A C)) : Caller I P → Option (PushCall I P A C) :=
  match client with
  | none => calls
  | some client =>
      Function.update calls client
        ((calls client).map fun call =>
            { call with frame := { call.frame with phase := .answered }, response })

/-- The next peer receives the request and queues it. -/
def push (network : Network I N P A C S) (caller : Caller I P) : Option (Network I N P A C S) :=
  match network.calls caller with
  | some ⟨transaction, ⟨server :: pending, .ready, client⟩, response⟩ =>
      some { network with
        calls := Function.update network.calls caller
          (some ⟨transaction, ⟨pending, .waiting server, client⟩, response⟩)
        queues := Function.update network.queues server (network.queues server ++ [caller]) }
  | _ => none

/-- The push loop ignores which response it reads, but it ends with an error when it reads none. -/
def resume (network : Network I N P A C S) (caller : Caller I P) : Option (Network I N P A C S) :=
  match network.calls caller with
  | some ⟨transaction, ⟨pending, .answered, client⟩, some response⟩ =>
      some { network with
        calls := Function.update network.calls caller
          (some ⟨transaction, ⟨pending, .ready, client⟩, some response⟩) }
  | some ⟨_, ⟨_, .answered, client⟩, none⟩ =>
      some { network with
        calls := respond (Function.update network.calls caller none) client none
        stopped := network.stopped ∪ caller.getRight?.toFinset }
  | _ => none

/-- A call ends when all its peers have answered. A loop accepts the transaction then. -/
def finish (network : Network I N P A C S) (caller : Caller I P) : Option (Network I N P A C S) :=
  match network.calls caller with
  | some ⟨_, ⟨[], .ready, client⟩, _⟩ =>
      some { network with
        calls := respond (Function.update network.calls caller none) client
          (some .transactionAccepted) }
  | _ => none

variable [Fintype P] [CustomState S A C] [GetValue C] [GetAddress A] [Verify A C] [Blake3]
variable [Bincode C]

/-- A new call of `submit_transaction` stores its transaction and pushes it to all peers. -/
def submit (mode : Overflow) (topology : Topology N P) (network : Network I N P A C S)
    (task : I) (node : N)
    (transaction : AuthorizedTransaction A C) (order : List P) : Option (Network I N P A C S) :=
  if (network.calls (.inl task)).isNone ∧ topology.Lists node order then
    match (network.nodes node).submitTransaction mode transaction with
    | .ok next =>
        some { network with
          nodes := Function.update network.nodes node next
          calls := Function.update network.calls (.inl task)
            (some ⟨transaction, ⟨order.map topology.remote, .ready, none⟩, none⟩) }
    | .error _ => some network
  else none

/-- An idle loop accepts a request and pushes its transaction to the other peers, or it stops. -/
def accept (mode : Overflow) (topology : Topology N P) (network : Network I N P A C S) (port : P)
    (position : ℕ)
    (order : List P) : Option (Network I N P A C S) :=
  if (network.calls (.inr port)).isNone ∧ port ∉ network.stopped ∧
    topology.Lists (topology.owner port) order then
    match network.request port position with
    | some call =>
        let client := (network.queues port)[position]?
        let queues := Function.update network.queues port ((network.queues port).eraseIdx position)
        match (network.nodes (topology.owner port)).receiveTransaction mode call.transaction with
        | (_, .ok next) =>
            let others := order.filter (· ≠ port)
            some { network with
              nodes := Function.update network.nodes (topology.owner port) next
              calls := Function.update network.calls (.inr port)
                (some ⟨call.transaction, ⟨others.map topology.remote, .ready, client⟩, none⟩)
              queues }
        | (response, .error _) =>
            some { network with
              calls := respond network.calls client response
              queues
              stopped := insert port network.stopped }
    | none => none
  else none

def step (mode : Overflow) (topology : Topology N P) (network : Network I N P A C S) :
    Action I N P A C → Option (Network I N P A C S)
  | .submit task node transaction order => network.submit mode topology task node transaction order
  | .push caller => network.push caller
  | .accept port position order => network.accept mode topology port position order
  | .resume caller => network.resume caller
  | .finish caller => network.finish caller

/-- A run takes steps that are all allowed. -/
inductive Run (mode : Overflow) (topology : Topology N P)
    (allowed : Network I N P A C S → Action I N P A C → Prop) (start : Network I N P A C S) :
    Network I N P A C S → Prop where
  | start : Run mode topology allowed start start
  | step {network next : Network I N P A C S} {action : Action I N P A C}
      (before : Run mode topology allowed start network) (permitted : allowed network action)
      (taken : network.step mode topology action = some next) : Run mode topology allowed start next

/-- All nodes find the same transactions valid. -/
def Alike (mode : Overflow) (network : Network I N P A C S) : Prop :=
  ∀ first second transaction,
    (∃ fee, (network.nodes first).validateTransaction mode transaction = .ok fee) →
    ∃ fee, (network.nodes second).validateTransaction mode transaction = .ok fee

/-- These runs count their steps and begin no call. -/
inductive Handling (mode : Overflow) (topology : Topology N P) (start : Network I N P A C S) :
    ℕ → Network I N P A C S → Prop where
  | start : Handling mode topology start 0 start
  | step {length : ℕ} {network next : Network I N P A C S} {action : Action I N P A C}
      (before : Handling mode topology start length network) (handles : action.Handles)
      (meets : network.Meets topology action) (taken : network.step mode topology action =
        some next) :
      Handling mode topology start (length + 1) next

/-- No request or reply is left to handle. -/
def Resting (mode : Overflow) (topology : Topology N P) (network : Network I N P A C S) : Prop :=
  ∀ action : Action I N P A C, action.Handles → network.step mode topology action = none

/-- No loop has stopped, each answered request has its response, and all calls come to an end. -/
structure Served (mode : Overflow) (topology : Topology N P)
    (network : Network I N P A C S) : Prop where
  listening : network.stopped = ∅
  answered : ∀ caller call, network.calls caller = some call → call.frame.phase = .answered →
    call.response = some .transactionAccepted
  ended : network.Resting mode topology → ∀ caller, network.calls caller = none
  bounded : ∃ bound, ∀ length later, Handling mode topology network length later → length ≤ bound

end Network

end Ddk

/-
This file gives the state that a chain of blocks determines and the network runs with
one mainchain for all nodes.
-/

import Ddk.Construction.Download

namespace Ddk

open Foundation

section

variable [Bitcoin] [Blake3] [Bs58] {A C S : Type} [DecidableEq C] [Bincode C] [CustomState S A C]

namespace Node

/-- A block changes the state at the height of the blocks before it. -/
def replayBlock (orders : Orders C) (mode : Overflow) (client : Drivechain.MainClient)
    (chain : State C × UInt32)
    (block : Header × Body A C) : Result S A C (State C × UInt32) := do
  let twoWayPegData ← getTwoWayPegData client block.1 chain.1.lastDepositBlock
  let state ←
    ((chain.1.connectBody block.2).connectTwoWayPegData orders mode twoWayPegData chain.2).convert
      .state
  return (state, chain.2 + 1)

/-- The blocks of a chain give the state and its height. -/
def replayBlocks (orders : Orders C) (mode : Overflow) (client : Drivechain.MainClient)
    (blocks : List (Header × Body A C)) : Result S A C (State C × UInt32) :=
  blocks.foldlM (replayBlock orders mode client) (State.empty, 0)

end Node

namespace ChainNetwork

variable {N : Type} [DecidableEq N] [GetValue C] [GetAddress A] [Verify A C]

omit [Blake3] [DecidableEq N] [Bincode C] [GetValue C] [GetAddress A] [Verify A C] in
/-- A submission without interference asks the shared mainchain and has the shared orders. -/
def Steady (orders : Orders C) (client : Drivechain.MainClient) (network : ChainNetwork N A C S) :
    Action N A C → Prop
  | .submit node used header _ twoWayPegData => used = orders ∧
      Node.getTwoWayPegData (S := S) (A := A) client header
        (network.nodes node).state.lastDepositBlock =
        .ok twoWayPegData
  | .receive node used twoWayPegData => ∀ peer height header body,
      network.tasks node = .answered peer height (.block header body) → used = orders ∧
        Node.getTwoWayPegData (S := S) (A := A) client header
          (network.nodes node).state.lastDepositBlock =
          .ok twoWayPegData
  | _ => True

/-- These runs have steady submissions only. One client answers all of them, so the answers of the
mainchain do not change during the run. -/
inductive SteadyRun (mode : Overflow) (orders : Orders C) (client : Drivechain.MainClient)
    (first : ChainNetwork N A C S) : List (LogEvent N (Header × Body A C)) →
      ChainNetwork N A C S → Prop where
  | start : SteadyRun mode orders client first [] first
  | step {events : List (LogEvent N (Header × Body A C))} {network next : ChainNetwork N A C S}
      {action : Action N A C} (before : SteadyRun mode orders client first events network)
      (steady : network.Steady orders client action)
      (taken : network.step mode action = some next) :
      SteadyRun mode orders client first ((network.event mode action).toList ++ events) next

end ChainNetwork

end

end Ddk

/-
This file collects withdrawal bundles and connects the two-way peg data.
-/

import Ddk.Construction.State
import Ddk.Foundation.Sorting

namespace Ddk

open Foundation Bitcoin

/-- The standard library leaves these orders open. They may differ between two nodes. -/
structure Orders [Bitcoin] (C : Type) [DecidableEq C] where
  groups : HashOrder Bitcoin.Address (AggregatedWithdrawal C)
  outputs : HashOrder OutPoint (Output C)
  statuses : HashOrder Bitcoin.Txid WithdrawalBundleStatus
  /-- The sort key is reversed, so the greatest withdrawal comes first. -/
  sort : LibrarySort fun first second : AggregatedWithdrawal C => second.cmp first

namespace State

variable [Bitcoin] {A C : Type}

def bundle0Weight : ℕ := 504

def outputWeight : ℕ := 128

def maxBundleOutputs : ℕ := (maxStandardTxWeight - bundle0Weight) / outputWeight

/-- The comment in the source names the same limit. -/
example : maxBundleOutputs = 3121 := rfl

def withdrawalBundleFailureGap : UInt32 := 4

/-- A destination starts without outputs. -/
def emptyAggregate (mainAddress : Bitcoin.Address) : AggregatedWithdrawal C :=
  { spentUtxos := ∅, mainAddress, value := 0, mainFee := 0 }

/-- The aggregation adds values and keeps the greatest fee. -/
def aggregateUtxo (mode : Overflow) (groups : HashMap Bitcoin.Address (AggregatedWithdrawal C))
    (entry : OutPoint × Output C) :
    Outcome Error (HashMap Bitcoin.Address (AggregatedWithdrawal C)) :=
  match entry.2.content with
  | .withdrawal value mainFee mainAddress => do
      let aggregated := (groups[mainAddress]?).getD (emptyAggregate mainAddress)
      let total ← mode.add aggregated.value value
      return groups.insert mainAddress {
        aggregated with
        value := total
        mainFee := if mainFee > aggregated.mainFee then mainFee else aggregated.mainFee
        spentUtxos := aggregated.spentUtxos.insert entry.1 entry.2 }
  | _ => return groups

/-- The selection loop accumulates the fee, the spent outputs and the bundle outputs. -/
structure Selection (C : Type) where
  fee : UInt64
  spentUtxos : HashMap OutPoint (Output C)
  bundleOutputs : List TxOut

def bundleOutput (aggregated : AggregatedWithdrawal C) : TxOut :=
  ⟨aggregated.value, Bitcoin.scriptPubkey aggregated.mainAddress⟩

/-- The loop stops once more outputs than the limit are present. -/
def selectOutputs [DecidableEq C] (orders : Orders C) (mode : Overflow) (selection : Selection C) :
    List (AggregatedWithdrawal C) → Outcome Error (Selection C)
  | [] => return selection
  | aggregated :: rest =>
      if selection.bundleOutputs.length > maxBundleOutputs then return selection
      else do
        let fee ← mode.add selection.fee aggregated.mainFee
        selectOutputs orders mode {
          fee
          spentUtxos := selection.spentUtxos.putAll (orders.outputs.iter aggregated.spentUtxos)
          bundleOutputs := selection.bundleOutputs ++ [bundleOutput aggregated] } rest

/-- A data output pushes its bytes after `OP_RETURN`. -/
def dataOutput (bytes : List UInt8) : TxOut := ⟨0, opReturn :: pushSlice bytes⟩

/-- The commitment hashes the input names and the block height. -/
def inputsCommitment [Blake3] [Bincode C] (inputs : List OutPoint) (blockHeight : UInt32) : Hash :=
  Blake3.hash (Bincode.outPoints C (inputs ++ [.regular ⟨0⟩ blockHeight]))

def bundleTransaction [Blake3] [Bincode C] (inputs : List OutPoint) (blockHeight : UInt32)
    (fee : UInt64) (bundleOutputs : List TxOut) : Bitcoin.Transaction where
  version := 2
  lockTime := 0
  input := [{ TxIn.default with scriptSig := [opFalse] }]
  output := [
    dataOutput [68],
    dataOutput (leBytes 8 fee.toNat),
    dataOutput (hashBytes (inputsCommitment (C := C) inputs blockHeight))] ++ bundleOutputs

def collectWithdrawalBundle [DecidableEq C] [Blake3] [Bincode C] (orders : Orders C)
    (mode : Overflow) (utxos : Database OutPoint (Output C)) (blockHeight : UInt32) :
    Outcome Error (Option (WithdrawalBundle C)) := do
  let groups ← utxos.toList.foldlM (aggregateUtxo mode) ∅
  if groups.isEmpty then return none
  else
    let aggregatedWithdrawals := orders.sort.sort ((orders.groups.iter groups).map (·.2))
    let selection ← selectOutputs orders mode ⟨0, ∅, []⟩ aggregatedWithdrawals
    let inputs := (orders.outputs.iter selection.spentUtxos).map (·.1)
    let transaction :=
        bundleTransaction (C := C) inputs blockHeight selection.fee selection.bundleOutputs
    Outcome.ensure (transaction.weight ≤ maxStandardTxWeight)
      (.bundleTooHeavy transaction.weight maxStandardTxWeight)
    return some { spentUtxos := selection.spentUtxos, transaction }

/-- The deposits enter the outputs before any withdrawal is handled. -/
def connectDeposits [DecidableEq C] (orders : Orders C) (state : State C)
    (twoWayPegData : TwoWayPegData C) : State C :=
  { state with
    utxos := state.utxos.putAll (orders.outputs.iter twoWayPegData.deposits)
    lastDepositBlock := twoWayPegData.depositBlockHash <|> state.lastDepositBlock }

/-- A new bundle moves its outputs out of the database. -/
def storeBundle [DecidableEq C] (orders : Orders C) (state : State C)
    (bundle : WithdrawalBundle C) :
    State C :=
  { state with
    utxos := state.utxos.deleteAll ((orders.outputs.iter bundle.spentUtxos).map (·.1))
    pendingWithdrawalBundle := some bundle }

/-- A bundle is due after the failure gap when none is pending. -/
def bundleDue (mode : Overflow) (state : State C) (blockHeight : UInt32) : Outcome Error Bool := do
  let nextHeight ← mode.add32 blockHeight 1
  let elapsed ← mode.sub32 nextHeight (state.lastWithdrawalBundleFailureHeight.getD 0)
  return decide (elapsed > withdrawalBundleFailureGap) && state.pendingWithdrawalBundle.isNone

def connectWithdrawals [DecidableEq C] [Blake3] [Bincode C] (orders : Orders C) (mode : Overflow)
    (state : State C) (blockHeight : UInt32) : Outcome Error (State C) := do
  let due ← bundleDue mode state blockHeight
  if due then
    match ← collectWithdrawalBundle orders mode state.utxos (blockHeight + 1) with
    | some bundle => return state.storeBundle orders bundle
    | none => return state
  else return state

/-- A failed bundle returns its outputs, and a confirmed bundle keeps them out. -/
def settleBundle [DecidableEq C] (orders : Orders C) (blockHeight : UInt32) (state : State C)
    (bundle : WithdrawalBundle C) : WithdrawalBundleStatus → State C
  | .failed =>
      { state with
        utxos := state.utxos.putAll (orders.outputs.iter bundle.spentUtxos)
        pendingWithdrawalBundle := none
        lastWithdrawalBundleFailureHeight := some (blockHeight + 1) }
  | .confirmed => { state with pendingWithdrawalBundle := none }

/-- A status changes the state only when it names the pending bundle. -/
def connectStatus [DecidableEq C] (orders : Orders C) (blockHeight : UInt32) (state : State C)
    (entry : Bitcoin.Txid × WithdrawalBundleStatus) : State C :=
  match state.pendingWithdrawalBundle with
  | none => state
  | some bundle =>
      if Bitcoin.txid bundle.transaction ≠ entry.1 then state
      else state.settleBundle orders blockHeight bundle entry.2

def connectStatuses [DecidableEq C] (orders : Orders C) (state : State C)
    (bundleStatuses : HashMap Bitcoin.Txid WithdrawalBundleStatus)
    (blockHeight : UInt32) : State C :=
  (orders.statuses.iter bundleStatuses).foldl (connectStatus orders blockHeight) state

def connectTwoWayPegData [DecidableEq C] [Blake3] [Bincode C] (orders : Orders C) (mode : Overflow)
    (state : State C) (twoWayPegData : TwoWayPegData C) (blockHeight : UInt32) :
    Outcome Error (State C) := do
  let state ← (state.connectDeposits orders twoWayPegData).connectWithdrawals orders
    mode blockHeight
  return state.connectStatuses orders twoWayPegData.bundleStatuses blockHeight

end State

end Ddk

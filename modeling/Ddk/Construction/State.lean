/-
This file validates transactions and bodies against the outputs and connects bodies.
-/

import Ddk.Construction.Types
import Ddk.Construction.Authorization

namespace Ddk

open Foundation

/-- A database with the single key zero is an optional value. -/
structure State [Bitcoin] (C : Type) where
  utxos : Database OutPoint (Output C)
  pendingWithdrawalBundle : Option (WithdrawalBundle C)
  lastWithdrawalBundleFailureHeight : Option UInt32
  lastDepositBlock : Option Bitcoin.BlockHash

namespace State

inductive Error where
  | authorizationError
  | noUtxo (outpoint : OutPoint)
  | notEnoughValueIn
  | notEnoughFees
  | utxoDoubleSpent
  | wrongPubKeyForAddress
  | bundleTooHeavy (weight maxWeight : ℕ)
  deriving DecidableEq

variable [Bitcoin] {A C : Type}

/-- A new environment has empty databases. -/
def empty : State C := ⟨∅, none, none, none⟩

/-- A missing output is an error that names the input. -/
def getUtxo (state : State C) (input : OutPoint) : Outcome Error (Output C) :=
  match state.utxos[input]? with
  | some utxo => .ok utxo
  | none => Outcome.fail (.noUtxo input)

/-- Each input finds its output in the database. -/
def fillTransaction (state : State C) (transaction : Transaction C) :
    Outcome Error (FilledTransaction C) := do
  let spentUtxos ← transaction.inputs.mapM state.getUtxo
  return { transaction, spentUtxos }

def validateFilledTransaction [GetValue C] (mode : Overflow) (transaction : FilledTransaction C) :
    Outcome Error UInt64 := do
  let valueIn ← mode.sum (transaction.spentUtxos.map getValue)
  let valueOut ← mode.sum (transaction.transaction.outputs.map getValue)
  Outcome.ensure (valueOut ≤ valueIn) .notEnoughValueIn
  return valueIn - valueOut

/-- The inner loop of the body check remembers each spent input. -/
def spendInputs (spentUtxos : Finset OutPoint) : List OutPoint → Outcome Error (Finset OutPoint)
  | [] => return spentUtxos
  | input :: inputs =>
      if input ∈ spentUtxos then Outcome.fail .utxoDoubleSpent
      else spendInputs (insert input spentUtxos) inputs

/-- The outer loop of the body check adds one fee for each transaction. -/
def sumFees [GetValue C] (mode : Overflow) (spentUtxos : Finset OutPoint) (totalFees : UInt64) :
    List (FilledTransaction C) → Outcome Error UInt64
  | [] => return totalFees
  | filledTransaction :: filledTransactions => do
      let spentUtxos ← spendInputs spentUtxos filledTransaction.transaction.inputs
      let fee ← validateFilledTransaction mode filledTransaction
      let totalFees ← mode.add totalFees fee
      sumFees mode spentUtxos totalFees filledTransactions

/-- The address check stops at the end of the shorter list. -/
def checkAddresses [GetAddress A] (authorizations : List A) (spentUtxos : List (Output C)) :
    Outcome Error Unit :=
  Outcome.ensure (∀ pair ∈ authorizations.zip spentUtxos, getAddress pair.1 = pair.2.address)
    .wrongPubKeyForAddress

/-- A failed verification becomes one error, and a panic stays a panic. -/
def authorized {ε : Type} (verification : Outcome ε Unit) : Outcome Error Unit :=
  verification.convert fun _ => .authorizationError

def validateBody [GetValue C] [GetAddress A] [Verify A C] (mode : Overflow) (state : State C)
    (body : Body A C) : Outcome Error UInt64 := do
  let coinbaseValue ← mode.sum (body.coinbase.map getValue)
  let filledTransactions ← body.transactions.mapM state.fillTransaction
  let totalFees ← sumFees mode ∅ 0 filledTransactions
  Outcome.ensure (coinbaseValue ≤ totalFees) .notEnoughFees
  checkAddresses body.authorizations (filledTransactions.flatMap (·.spentUtxos))
  authorized (Verify.verifyBody body)
  return totalFees

/-- One transaction deletes its inputs and puts its outputs. -/
def connectTransaction [Blake3] [Bincode C] (utxos : Database OutPoint (Output C))
    (transaction : Transaction C) : Database OutPoint (Output C) :=
  Database.putAll (utxos.deleteAll transaction.inputs) transaction.createdOutputs

def connectBody [Blake3] [Bincode C] (state : State C) (body : Body A C) : State C :=
  { state with
    utxos := body.transactions.foldl connectTransaction (state.utxos.putAll body.coinbaseOutputs) }

end State

end Ddk

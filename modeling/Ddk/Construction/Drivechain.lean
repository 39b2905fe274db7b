/-
This file reads deposits and bundle statuses from the mainchain.
-/

import Ddk.Construction.Types
import Ddk.Foundation.Outcome

namespace Ddk

open Foundation

/-- The `bs58` crate decodes a text and removes its checksum. -/
class Bs58 where
  decodeCheck : String → Option (List UInt8)

/-- An address text decodes to exactly 20 bytes. -/
def Address.fromStr [Bs58] (text : String) : Option Address := do
  let address ← Bs58.decodeCheck text
  if address.length = 20 then
    return ⟨Fin.ofNat _ (address.foldl (fun number byte => number * 2 ^ 8 + byte.toNat) 0)⟩
  else none

namespace Drivechain

/-- The node reads these fields of one treasury entry. -/
structure Deposit where
  hashblock : Bitcoin.BlockHash
  nburnindex : ℕ
  strdest : String
  txhex : String

structure SpentWithdrawal where
  nsidechain : UInt8
  hash : Bitcoin.Txid
  hashblock : Bitcoin.BlockHash

structure FailedWithdrawal where
  nsidechain : UInt8
  hash : Bitcoin.Txid

inductive Error where
  | jsonrpsee
  | hex
  | bitcoinConsensusEncode
  | bitcoinHex
  | noNextBlock (prevMainHash : Bitcoin.BlockHash)
  deriving DecidableEq

/-- The mainchain client answers at one time. A missing answer is a call error. -/
structure MainClient where
  listSidechainDepositsByBlock :
    UInt8 → Option Bitcoin.BlockHash → Option Bitcoin.BlockHash → Option (List Deposit)
  listSpentWithdrawals : Option (List SpentWithdrawal)
  listFailedWithdrawals : Option (List FailedWithdrawal)

/-- A missing value becomes the given error. -/
def require {α : Type} (value : Option α) (error : Error) : Outcome Error α :=
  match value with
  | some value => .ok value
  | none => Outcome.fail error

variable [Bitcoin] {C : Type}

/-- The scan remembers the last rising block, the last total and the outputs found so far. -/
structure Scan (C : Type) where
  lastBlockHash : Option Bitcoin.BlockHash
  lastTotal : UInt64
  outputs : HashMap OutPoint (Output C)

/-- A destination that is no address receives no output. -/
def creditDeposit [Bs58] (outputs : HashMap OutPoint (Output C)) (outpoint : OutPoint)
    (value : UInt64)
    (strdest : String) : HashMap OutPoint (Output C) :=
  match Address.fromStr strdest with
  | some address => outputs.insert outpoint { address, content := .value value }
  | none => outputs

/-- The entries of the start block only set the total. A falling total is no deposit. -/
def scanDeposit [Bs58] (start : Option Bitcoin.BlockHash) (scan : Scan C) (deposit : Deposit) :
    Outcome Error (Scan C) := do
  let bytes ← require (Bitcoin.hexDecode deposit.txhex) .hex
  let transaction ← require (Bitcoin.consensusDecode bytes) .bitcoinConsensusEncode
  match transaction.output[deposit.nburnindex]? with
  | none => Outcome.panicked
  | some treasury =>
      let total := treasury.value
      if start = some deposit.hashblock then return { scan with lastTotal := total }
      else if total < scan.lastTotal then return { scan with lastTotal := total }
      else
        let value := total - scan.lastTotal
        let outpoint := .deposit ⟨Bitcoin.txid transaction, UInt32.ofNat deposit.nburnindex⟩
        return {
          lastBlockHash := some deposit.hashblock
          lastTotal := total
          outputs := creditDeposit scan.outputs outpoint value deposit.strdest }

def getDepositOutputs [Bs58] (client : MainClient) (sidechainNumber : UInt8)
    (stop : Bitcoin.BlockHash) (start : Option Bitcoin.BlockHash) : Outcome Error (Scan C) := do
  let deposits ← require
    (client.listSidechainDepositsByBlock sidechainNumber (some stop) start) .jsonrpsee
  deposits.foldlM (scanDeposit start) ⟨none, 0, ∅⟩

/-- A failed withdrawal replaces an earlier status, and its sidechain number is not read. -/
def getWithdrawalBundleStatuses (client : MainClient) (sidechainNumber : UInt8) :
    Outcome Error (HashMap Bitcoin.Txid WithdrawalBundleStatus) := do
  let spentWithdrawals ← require client.listSpentWithdrawals .jsonrpsee
  let statuses := Database.putAll ∅ ((spentWithdrawals.filter (·.nsidechain = sidechainNumber)).map
    fun spent => (spent.hash, .confirmed))
  let failedWithdrawals ← require client.listFailedWithdrawals .jsonrpsee
  return Database.putAll statuses (failedWithdrawals.map fun failed => (failed.hash, .failed))

def getTwoWayPegData [Bs58] (client : MainClient) (sidechainNumber : UInt8)
    (stop : Bitcoin.BlockHash) (start : Option Bitcoin.BlockHash) :
    Outcome Error (TwoWayPegData C) := do
  let scan ← getDepositOutputs client sidechainNumber stop start
  let bundleStatuses ← getWithdrawalBundleStatuses client sidechainNumber
  return { deposits := scan.outputs, depositBlockHash := scan.lastBlockHash, bundleStatuses }

end Drivechain

end Ddk

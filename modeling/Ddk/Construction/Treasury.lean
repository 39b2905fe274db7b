/-
This file gives the treasury history of the mainchain and the batches in which a node scans it.
-/

import Ddk.Construction.Drivechain
import Ddk.Construction.Withdrawals
import Ddk.Foundation.Scans

namespace Ddk

open Foundation

/-- An entry gives the treasury total after one mainchain transaction. -/
structure TreasuryEntry where
  hashblock : Bitcoin.BlockHash
  total : UInt64
  outpoint : OutPoint
  destination : String
  deriving DecidableEq

structure TreasuryBlock where
  hash : Bitcoin.BlockHash
  entries : List TreasuryEntry

/-- A treasury lists the mainchain blocks in order. Blocks and entries have distinct names. -/
structure Treasury where
  blocks : List TreasuryBlock
  distinct : (blocks.map (·.hash)).Nodup
  placed : ∀ block ∈ blocks, ∀ entry ∈ block.entries, entry.hashblock = block.hash
  named : ((blocks.flatMap (·.entries)).map (·.outpoint)).Nodup

namespace Treasury

variable (treasury : Treasury)

def Known (hash : Bitcoin.BlockHash) : Prop := hash ∈ treasury.blocks.map (·.hash)

instance (hash : Bitcoin.BlockHash) : Decidable (treasury.Known hash) :=
  inferInstanceAs (Decidable (hash ∈ treasury.blocks.map (·.hash)))

def position (hash : Bitcoin.BlockHash) : ℕ := treasury.blocks.findIdx (·.hash = hash)

/-- These are the entries of the blocks from one index up to another. -/
def entriesBetween (first last : ℕ) : List TreasuryEntry :=
  ((treasury.blocks.take last).drop first).flatMap (·.entries)

def upTo (stop : Bitcoin.BlockHash) : List TreasuryEntry :=
  treasury.entriesBetween 0 (treasury.position stop + 1)

/-- The list goes from the first entry of the start block to the last entry of the end block. -/
def listed (start : Option Bitcoin.BlockHash) (stop : Bitcoin.BlockHash) : List TreasuryEntry :=
  treasury.entriesBetween (start.elim 0 treasury.position) (treasury.position stop + 1)

end Treasury

namespace Drivechain

variable [Bitcoin] {C : Type}

/-- A listed deposit carries the data of one treasury entry. -/
structure Deposit.Carries (deposit : Deposit) (entry : TreasuryEntry) : Prop where
  hashblock : deposit.hashblock = entry.hashblock
  destination : deposit.strdest = entry.destination
  decoded : ∃ bytes transaction treasury, Bitcoin.hexDecode deposit.txhex = some bytes ∧
    Bitcoin.consensusDecode bytes = some transaction ∧
      transaction.output[deposit.nburnindex]? = some treasury ∧
    treasury.value = entry.total ∧
    entry.outpoint = .deposit ⟨Bitcoin.txid transaction, UInt32.ofNat deposit.nburnindex⟩

/-- The mainchain lists the entries from the start block to the end block. -/
def MainClient.Answers (client : MainClient) (sidechainNumber : UInt8) (treasury : Treasury)
    (start : Option Bitcoin.BlockHash) (stop : Bitcoin.BlockHash) : Prop :=
  ∃ deposits, client.listSidechainDepositsByBlock sidechainNumber (some stop) start =
    some deposits ∧
    List.Forall₂ Deposit.Carries deposits (treasury.listed start stop)

/-- The mainchain answers every call that does not end before it starts. -/
def MainClient.Serves (client : MainClient) (sidechainNumber : UInt8)
    (treasury : Treasury) : Prop :=
  ∀ start stop, treasury.Known stop →
    (∀ hash ∈ start, treasury.Known hash ∧ treasury.position hash ≤ treasury.position stop) →
    client.Answers sidechainNumber treasury start stop

variable [Bs58]

/-- Each call resumes at the last deposit block that the connected batches keep. -/
def depositBatches [DecidableEq C] (orders : Orders C) (client : MainClient)
    (sidechainNumber : UInt8)
    (state : State C) : List Bitcoin.BlockHash → Outcome Error (List (Scan C))
  | [] => return []
  | stop :: stops => do
      let scan ← getDepositOutputs client sidechainNumber stop state.lastDepositBlock
      let connected := state.connectDeposits orders ⟨scan.outputs, scan.lastBlockHash, ∅⟩
      let scans ← depositBatches orders client sidechainNumber connected stops
      return scan :: scans

/-- A falling total is not marked. -/
def risingBlock (previous : UInt64) (entry : TreasuryEntry) : Option Bitcoin.BlockHash :=
  if entry.total < previous then none else some entry.hashblock

/-- A rising total credits the difference to its destination. -/
def creditedOutputs (previous : UInt64) (entry : TreasuryEntry) : List (OutPoint × Output C) :=
  if entry.total < previous then []
  else
    match Address.fromStr entry.destination with
    | some address => [(entry.outpoint, { address, content := .value (entry.total - previous) })]
    | none => []

/-- An entry of the list credits an output against the total just before it. -/
def Credits (entries : List TreasuryEntry) (outpoint : OutPoint) (output : Output C) : Prop :=
  ∃ before entry after, entries = before ++ entry :: after ∧ entry.outpoint = outpoint ∧
    tip TreasuryEntry.total 0 before ≤ entry.total ∧
    Address.fromStr entry.destination = some output.address ∧
    output.content = .value (entry.total - tip TreasuryEntry.total 0 before)

end Drivechain

end Ddk

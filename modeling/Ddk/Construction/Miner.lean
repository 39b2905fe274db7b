/-
This file gives the blind merged mining of one block.
-/

import Ddk.Construction.Drivechain

namespace Ddk

open Foundation

namespace Drivechain

/-- The answer to a request names a transaction, or it carries another text or no text. -/
inductive BmmAnswer where
  | txid (txid : Bitcoin.Txid)
  | otherText
  | noText

/-- The mainchain answers about one commitment. A missing answer is a call error. -/
structure BmmClient where
  getBlock : Bitcoin.BlockHash → Option (Option Bitcoin.BlockHash)
  verifyBmm : Bitcoin.BlockHash → Bitcoin.BlockHash → UInt8 → Option Unit
  createBmmCriticalDataTx : UInt64 → UInt32 → Bitcoin.BlockHash → UInt8 → Bitcoin.BlockHash →
    Option BmmAnswer

variable [Bitcoin] [Blake3] {C : Type} [Bincode C]

/-- The mainchain block after the previous one must commit to the header. -/
def verifyBmm (client : BmmClient) (sidechainNumber : UInt8)
    (header : Header) : Outcome Error Unit := do
  let nextblockhash ← require (client.getBlock header.prevMainHash) .jsonrpsee
  let blockHash ← require nextblockhash (.noNextBlock header.prevMainHash)
  require (client.verifyBmm blockHash (header.hash (C := C)).hash sidechainNumber) .jsonrpsee

end Drivechain

structure Miner [Bitcoin] (A C : Type) where
  block : Option (Header × Body A C)
  sidechainNumber : UInt8

namespace Miner

inductive Error where
  | drivechain (error : Drivechain.Error)
  | invalidJson
  deriving DecidableEq

variable [Bitcoin] [Blake3] {A C : Type} [Bincode C]

def new (sidechainNumber : UInt8) : Miner A C := ⟨none, sidechainNumber⟩

/-- The miner remembers the block of its last request, which names the end of the previous block. -/
def attemptBmm (client : Drivechain.BmmClient) (miner : Miner A C) (amount : UInt64)
    (height : UInt32)
    (header : Header) (body : Body A C) : Outcome Error (Miner A C) := do
  let value ←
      (Drivechain.require (client.createBmmCriticalDataTx amount height (header.hash (C := C)).hash
    miner.sidechainNumber header.prevMainHash) .jsonrpsee).convert .drivechain
  match value with
  | .noText => Outcome.fail .invalidJson
  | .otherText => Outcome.fail (.drivechain .bitcoinHex)
  | .txid _ =>
      if header.merkleRoot = body.computeMerkleRoot then
          return { miner with block := some (header, body) }
      else Outcome.panicked

/-- A confirmed block is handed over once. -/
def confirmBmm (client : Drivechain.BmmClient) (miner : Miner A C) :
    Outcome Error (Option (Header × Body A C) × Miner A C) :=
  match miner.block with
  | some (header, body) => do
      (Drivechain.verifyBmm (C := C) client miner.sidechainNumber header).convert .drivechain
      return (some (header, body), { miner with block := none })
  | none => return (none, miner)

end Miner

end Ddk

/-
This file stores the transactions that no block includes yet.
-/

import Ddk.Construction.Types
import Ddk.Foundation.Outcome

namespace Ddk

open Foundation

structure MemPool [Bitcoin] (A C : Type) where
  transactions : Database Hash (AuthorizedTransaction A C)
  spentUtxos : Database OutPoint Unit

namespace MemPool

inductive Error where
  | utxoDoubleSpent
  deriving DecidableEq

variable [Bitcoin] {A C : Type}

def empty : MemPool A C := ⟨∅, ∅⟩

/-- The loop marks each input and stops at the first marked one. -/
def markInputs (spentUtxos : Database OutPoint Unit) : List OutPoint →
    Outcome Error (Database OutPoint Unit)
  | [] => return spentUtxos
  | input :: inputs =>
      if (spentUtxos[input]?).isSome then Outcome.fail .utxoDoubleSpent
      else markInputs (spentUtxos.insert input ()) inputs

variable [Blake3] [Bincode C]

/-- A failed call leaves no trace because its caller drops the write transaction. -/
def put (mempool : MemPool A C) (transaction : AuthorizedTransaction A C) :
    Outcome Error (MemPool A C) := do
  let spentUtxos ← markInputs mempool.spentUtxos transaction.transaction.inputs
  return {
    transactions := mempool.transactions.insert transaction.transaction.txid.hash transaction
    spentUtxos }

/-- The deletion keeps the marks of the inputs. -/
def delete (mempool : MemPool A C) (txid : Txid) : MemPool A C :=
  { mempool with transactions := mempool.transactions.erase txid.hash }

/-- The first transactions come in the order of their names. -/
def take (mempool : MemPool A C) (number : ℕ) : List (AuthorizedTransaction A C) :=
  (mempool.transactions.toList.take number).map (·.2)

end MemPool

end Ddk

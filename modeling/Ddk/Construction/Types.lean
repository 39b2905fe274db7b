/-
This file gives the sidechain data types and their hashes.
-/

import Ddk.Construction.Bitcoin
import Ddk.Foundation.Database
import Ddk.Foundation.Outcome

namespace Ddk

open Foundation

/-- An address has 20 bytes. -/
structure Address where
  bytes : Fin (2 ^ 160)
  deriving DecidableEq

instance addressNeZero : NeZero (2 ^ 160) := inferInstance

structure Txid where
  hash : Hash
  deriving DecidableEq

structure MerkleRoot where
  hash : Hash
  deriving DecidableEq

structure BlockHash where
  hash : Hash
  deriving DecidableEq

/-- Transactions, block bodies and mainchain deposits create outputs under different names. -/
inductive OutPoint where
  | regular (txid : Txid) (vout : UInt32)
  | coinbase (merkleRoot : MerkleRoot) (vout : UInt32)
  | deposit (outpoint : Bitcoin.OutPoint)

/-- The database compares the four little-endian bytes of an index from the first byte on. -/
def voutKey (vout : UInt32) : List ℕ := (leBytes 4 vout.toNat).map UInt8.toNat

theorem voutKey_injective : Function.Injective voutKey := by
  intro first second same
  have bytes := List.map_injective_iff.mpr (fun _ _ => UInt8.toNat_inj.mp) same
  exact UInt32.toNat_inj.mp (leBytes_injective 4 first.toNat_lt second.toNat_lt bytes)

/-- The serialized name gives the database order: the variant, the hash and the index. -/
def OutPoint.key : OutPoint → ℕ ×ₗ Hash ×ₗ List ℕ
  | .regular txid vout => toLex (0, toLex (txid.hash, voutKey vout))
  | .coinbase merkleRoot vout => toLex (1, toLex (merkleRoot.hash, voutKey vout))
  | .deposit outpoint => toLex (2, toLex (outpoint.txid, voutKey outpoint.vout))

theorem OutPoint.key_injective : Function.Injective OutPoint.key := by
  intro first second same
  rcases first with ⟨⟨hash⟩, vout⟩ | ⟨⟨hash⟩, vout⟩ | ⟨hash, vout⟩ <;>
    rcases second with ⟨⟨other⟩, index⟩ | ⟨⟨other⟩, index⟩ | ⟨other, index⟩ <;>
    simp_all [OutPoint.key, voutKey_injective.eq_iff]

instance : LinearOrder OutPoint := LinearOrder.lift' OutPoint.key OutPoint.key_injective

class GetAddress (A : Type) where
  getAddress : A → Address

class GetValue (C : Type) where
  getValue : C → UInt64

instance : GetValue Unit := ⟨fun _ => 0⟩

export GetAddress (getAddress)
export GetValue (getValue)

inductive Content [Bitcoin] (C : Type) where
  | custom (custom : C)
  | value (value : UInt64)
  | withdrawal (value mainFee : UInt64) (mainAddress : Bitcoin.Address)
  deriving DecidableEq

structure Output [Bitcoin] (C : Type) where
  address : Address
  content : Content C
  deriving DecidableEq

section

variable [Bitcoin] {A C : Type}

instance : GetAddress (Output C) := ⟨Output.address⟩

/-- A withdrawal counts its payout and leaves its mainchain fee out. -/
instance [GetValue C] : GetValue (Content C) where
  getValue
    | .custom custom => getValue custom
    | .value value => value
    | .withdrawal value _ _ => value

instance [GetValue C] : GetValue (Output C) := ⟨fun output => getValue output.content⟩

/-- The integer value of some entries does not wrap. -/
def totalValue [GetValue C] (entries : List (OutPoint × Output C)) : ℕ :=
  Overflow.exactSum (entries.map fun entry => getValue entry.2)

@[simp] theorem totalValue_nil [GetValue C] : totalValue ([] : List (OutPoint × Output C)) = 0 :=
  rfl

@[simp] theorem totalValue_append [GetValue C] (first second : List (OutPoint × Output C)) :
    totalValue (first ++ second) = totalValue first + totalValue second := by
  simp [totalValue]

end

structure Transaction [Bitcoin] (C : Type) where
  inputs : List OutPoint
  outputs : List (Output C)
  deriving DecidableEq

structure FilledTransaction [Bitcoin] (C : Type) where
  transaction : Transaction C
  spentUtxos : List (Output C)
  deriving DecidableEq

structure AuthorizedTransaction [Bitcoin] (A C : Type) where
  transaction : Transaction C
  authorizations : List A
  deriving DecidableEq

structure Body [Bitcoin] (A C : Type) where
  coinbase : List (Output C)
  transactions : List (Transaction C)
  authorizations : List A
  deriving DecidableEq

structure Header where
  merkleRoot : MerkleRoot
  prevSideHash : BlockHash
  prevMainHash : Bitcoin.BlockHash
  deriving DecidableEq

/-- The `blake3` crate gives a hash and a 20-byte extended output. -/
class Blake3 where
  hash : List UInt8 → Hash
  finalizeXof : List UInt8 → Address

/-- This class gives the `bincode` bytes of each type that the node hashes or signs. -/
class Bincode [Bitcoin] (C : Type) where
  transaction : Transaction C → List UInt8
  contents : List (Output C) × List (Transaction C) → List UInt8
  header : Header → List UInt8
  outPoints : List OutPoint → List UInt8

section

variable [Bitcoin] [Blake3] {A C : Type}

def Transaction.txid [Bincode C] (transaction : Transaction C) : Txid :=
  ⟨Blake3.hash (Bincode.transaction transaction)⟩

def Header.hash [Bincode C] (header : Header) : BlockHash :=
  ⟨Blake3.hash (Bincode.header C header)⟩

/-- The node numbers the outputs of one creator and stores each index as a `u32`. -/
def numbered (name : UInt32 → OutPoint) (outputs : List (Output C)) : List (OutPoint × Output C) :=
  outputs.zipIdx.map fun entry => (name (UInt32.ofNat entry.2), entry.1)

def Transaction.createdOutputs [Bincode C] (transaction : Transaction C) :
    List (OutPoint × Output C) :=
  numbered (.regular transaction.txid) transaction.outputs

namespace Body

/-- The new body concatenates the authorizations of its transactions. -/
def new (authorizedTransactions : List (AuthorizedTransaction A C)) (coinbase : List (Output C)) :
    Body A C where
  coinbase := coinbase
  transactions := authorizedTransactions.map (·.transaction)
  authorizations := authorizedTransactions.flatMap (·.authorizations)

def computeMerkleRoot [Bincode C] (body : Body A C) : MerkleRoot :=
  ⟨Blake3.hash (Bincode.contents (body.coinbase, body.transactions))⟩

def getInputs (body : Body A C) : List OutPoint := body.transactions.flatMap (·.inputs)

def coinbaseOutputs [Bincode C] (body : Body A C) : List (OutPoint × Output C) :=
  numbered (.coinbase body.computeMerkleRoot) body.coinbase

/-- The body creates its coinbase outputs first and then the outputs of each transaction. -/
def createdOutputs [Bincode C] (body : Body A C) : List (OutPoint × Output C) :=
  body.coinbaseOutputs ++ body.transactions.flatMap Transaction.createdOutputs

/-- A repeated name keeps the last output. -/
def getOutputs [Bincode C] (body : Body A C) : HashMap OutPoint (Output C) :=
  Database.putAll ∅ body.createdOutputs

end Body

end

inductive WithdrawalBundleStatus where
  | failed
  | confirmed
  deriving DecidableEq

structure WithdrawalBundle [Bitcoin] (C : Type) where
  spentUtxos : HashMap OutPoint (Output C)
  transaction : Bitcoin.Transaction
  deriving DecidableEq

structure TwoWayPegData [Bitcoin] (C : Type) where
  deposits : HashMap OutPoint (Output C)
  depositBlockHash : Option Bitcoin.BlockHash
  bundleStatuses : HashMap Bitcoin.Txid WithdrawalBundleStatus

structure AggregatedWithdrawal [Bitcoin] (C : Type) where
  spentUtxos : HashMap OutPoint (Output C)
  mainAddress : Bitcoin.Address
  value : UInt64
  mainFee : UInt64
  deriving DecidableEq

/-- One greater field makes the first withdrawal greater. So this is no total order: of two
withdrawals, each may be greater than the other. -/
def AggregatedWithdrawal.cmp [Bitcoin] {C : Type} [DecidableEq C]
    (first second : AggregatedWithdrawal C) : Ordering :=
  if first = second then .eq
  else if first.mainFee > second.mainFee ∨ first.value > second.value ∨
      first.mainAddress > second.mainAddress then .gt
  else .lt

end Ddk

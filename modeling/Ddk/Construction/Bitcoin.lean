/-
This file gives the mainchain data that the node builds, and the mainchain
library calls that it makes.
-/

import Mathlib

namespace Ddk

/-- A hash has 32 bytes. Its number reads the bytes in big-endian order. -/
abbrev Hash := Fin (2 ^ 256)

instance hashNeZero : NeZero (2 ^ 256) := inferInstance

instance hashTransCmp : Std.TransCmp (compare : Hash → Hash → Ordering) := inferInstance

/-- The `count` low bytes of a number start with the least significant byte. -/
def leBytes : ℕ → ℕ → List UInt8
  | 0, _ => []
  | count + 1, number => UInt8.ofNat number :: leBytes count (number / 2 ^ 8)

/-- The bytes of a hash start with the most significant byte. -/
def hashBytes (hash : Hash) : List UInt8 := (leBytes 32 hash.val).reverse

@[simp] theorem leBytes_length (count number : ℕ) : (leBytes count number).length = count := by
  induction count generalizing number with
  | zero => rfl
  | succ count ih => simp [leBytes, ih]

/-- The low bytes are the digits of a number that fits. -/
theorem ofDigits_leBytes (count : ℕ) {number : ℕ} (fits : number < 2 ^ (8 * count)) :
    Nat.ofDigits 256 ((leBytes count number).map UInt8.toNat) = number := by
  induction count generalizing number with
  | zero =>
      have zero : number = 0 := by simpa using fits
      rw [zero]
      rfl
  | succ count ih =>
      have width : 2 ^ (8 * (count + 1)) = 2 ^ 8 * 2 ^ (8 * count) := by
        rw [← pow_add, Nat.mul_succ, Nat.add_comm]
      have high := ih (Nat.div_lt_of_lt_mul (width ▸ fits))
      rw [leBytes, List.map_cons, Nat.ofDigits_cons, high, UInt8.toNat_ofNat']
      omega

/-- The low bytes determine a number that fits. -/
theorem leBytes_injective (count : ℕ) {first second : ℕ} (firstFits : first < 2 ^ (8 * count))
    (secondFits : second < 2 ^ (8 * count)) (same : leBytes count first = leBytes count second) :
    first = second := by
  rw [← ofDigits_leBytes count firstFits, same, ofDigits_leBytes count secondFits]

@[simp] theorem hashBytes_length (hash : Hash) : (hashBytes hash).length = 32 := by
  simp [hashBytes]

theorem hashBytes_injective : Function.Injective hashBytes := by
  intro first second same
  apply Fin.ext
  exact leBytes_injective 32 first.isLt second.isLt (List.reverse_injective same)

namespace Bitcoin

abbrev Txid := Hash

abbrev BlockHash := Hash

structure OutPoint where
  txid : Txid
  vout : UInt32
  deriving DecidableEq

structure TxIn where
  previousOutput : OutPoint
  scriptSig : List UInt8
  sequence : UInt32
  deriving DecidableEq

/-- The default input spends the null outpoint. -/
def TxIn.default : TxIn := ⟨⟨0, UInt32.ofNat (2 ^ 32 - 1)⟩, [], UInt32.ofNat (2 ^ 32 - 1)⟩

structure TxOut where
  value : UInt64
  scriptPubkey : List UInt8
  deriving DecidableEq

/-- A transaction of this type carries no witness. -/
structure Transaction where
  version : UInt32
  lockTime : UInt32
  input : List TxIn
  output : List TxOut
  deriving DecidableEq

/-- This is the compact size prefix of a consensus vector. -/
def compactSize (length : ℕ) : List UInt8 :=
  if length < 0xfd then leBytes 1 length
  else if length < 2 ^ 16 then 0xfd :: leBytes 2 length
  else if length < 2 ^ 32 then 0xfe :: leBytes 4 length
  else 0xff :: leBytes 8 length

def TxIn.consensusEncode (input : TxIn) : List UInt8 :=
  hashBytes input.previousOutput.txid ++ leBytes 4 input.previousOutput.vout.toNat ++
    compactSize input.scriptSig.length ++ input.scriptSig ++ leBytes 4 input.sequence.toNat

def TxOut.consensusEncode (output : TxOut) : List UInt8 :=
  leBytes 8 output.value.toNat ++ compactSize output.scriptPubkey.length ++ output.scriptPubkey

def Transaction.consensusEncode (transaction : Transaction) : List UInt8 :=
  leBytes 4 transaction.version.toNat ++
    compactSize transaction.input.length ++ transaction.input.flatMap TxIn.consensusEncode ++
    compactSize transaction.output.length ++ transaction.output.flatMap TxOut.consensusEncode ++
    leBytes 4 transaction.lockTime.toNat

/-- Each byte of a transaction without witnesses weighs four units. -/
def Transaction.weight (transaction : Transaction) : ℕ := 4 * transaction.consensusEncode.length

def maxStandardTxWeight : ℕ := 400000

def opReturn : UInt8 := 0x6a

def opFalse : UInt8 := 0x00

/-- A push of fewer than 76 bytes starts with its length. -/
def pushSlice (bytes : List UInt8) : List UInt8 := UInt8.ofNat bytes.length :: bytes

end Bitcoin

/-- This class gives the mainchain library types and calls outside the repository. -/
class Bitcoin where
  Address : Type
  addressOrder : LinearOrder Address
  scriptPubkey : Address → List UInt8
  txid : Bitcoin.Transaction → Bitcoin.Txid
  hexDecode : String → Option (List UInt8)
  consensusDecode : List UInt8 → Option Bitcoin.Transaction

@[reducible] instance [Bitcoin] : LinearOrder Bitcoin.Address := Bitcoin.addressOrder

instance addressTransCmp [Bitcoin] :
    Std.TransCmp (compare : Bitcoin.Address → Bitcoin.Address → Ordering) := inferInstance

end Ddk

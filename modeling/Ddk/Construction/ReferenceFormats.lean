/-
This file gives the fixed-width little-endian layout for the evaluation of the formats.
-/

import Ddk.Construction.Formats
import Ddk.Construction.Reference

namespace Ddk

open Foundation

/-- The digits of a number start with the least significant byte. -/
def leNumber (bytes : List UInt8) : ℕ := Nat.ofDigits 256 (bytes.map UInt8.toNat)

theorem leNumber_lt (bytes : List UInt8) : leNumber bytes < 2 ^ (8 * bytes.length) := by
  have bound : leNumber bytes < 256 ^ (bytes.map UInt8.toNat).length := by
    apply Nat.ofDigits_lt_base_pow_length (by decide)
    intro digit member
    obtain ⟨byte, _, rfl⟩ := List.mem_map.mp member
    exact byte.toNat_lt
  rwa [List.length_map, show 256 = 2 ^ 8 from rfl, ← pow_mul] at bound

theorem leBytes_leNumber (bytes : List UInt8) : leBytes bytes.length (leNumber bytes) = bytes := by
  induction bytes with
  | nil => rfl
  | cons byte bytes ih =>
      have low := byte.toNat_lt
      have number : leNumber (byte :: bytes) = byte.toNat + 256 * leNumber bytes := by
        rw [leNumber, List.map_cons, Nat.ofDigits_cons]
        rfl
      rw [List.length_cons, leBytes, number]
      congr 1
      · rw [← UInt8.toNat_inj, UInt8.toNat_ofNat']
        omega
      · have high : (byte.toNat + 256 * leNumber bytes) / 2 ^ 8 = leNumber bytes := by omega
        rw [high, ih]

/-- A number of some bytes is written with its least significant byte first. -/
def littleEndian (width : ℕ) : Codec ℕ :=
  Codec.fixed width (· < 2 ^ (8 * width)) (leBytes width) leNumber (leBytes_length width)
    (fun _ fits => ofDigits_leBytes width fits) fun bytes sized => sized ▸ leNumber_lt bytes

theorem littleEndian_exact (width : ℕ) : (littleEndian width).Exact :=
  Codec.fixed_exact fun bytes sized => sized ▸ leBytes_leNumber bytes

/-- A machine word or a byte array is a number of all its bytes. -/
structure WordFormat (α : Type) where
  width : ℕ
  toNat : α → ℕ
  ofNat : ℕ → α
  bounded : ∀ value, toNat value < 2 ^ (8 * width)
  ofNat_toNat : ∀ value, ofNat (toNat value) = value
  toNat_ofNat : ∀ number, number < 2 ^ (8 * width) → toNat (ofNat number) = number

namespace WordFormat

variable {α : Type} (word : WordFormat α)

/-- A word starts with its least significant byte. -/
def littleEndian : PrimitiveCodec α where
  toCodec := Codec.fixed word.width (fun _ => True)
    (fun value => leBytes word.width (word.toNat value))
    (fun bytes => word.ofNat (leNumber bytes)) (fun _ => leBytes_length _ _)
    (fun value _ => by rw [leNumber, ofDigits_leBytes word.width (word.bounded value),
      word.ofNat_toNat])
    fun _ _ => trivial
  total _ := trivial
  exact := Codec.fixed_exact fun bytes sized => by
    rw [word.toNat_ofNat _ (sized ▸ leNumber_lt bytes), ← sized, leBytes_leNumber]

/-- A byte array starts with its most significant byte. -/
def bigEndian : PrimitiveCodec α where
  toCodec := Codec.fixed word.width (fun _ => True)
    (fun value => (leBytes word.width (word.toNat value)).reverse)
    (fun bytes => word.ofNat (leNumber bytes.reverse))
      (fun _ => by rw [List.length_reverse, leBytes_length])
    (fun value _ => by
      rw [List.reverse_reverse, leNumber, ofDigits_leBytes word.width (word.bounded value),
        word.ofNat_toNat])
    fun _ _ => trivial
  total _ := trivial
  exact := Codec.fixed_exact fun bytes sized => by
    have turned : bytes.reverse.length = word.width := by rw [List.length_reverse, sized]
    rw [word.toNat_ofNat _ (turned ▸ leNumber_lt _), ← turned, leBytes_leNumber,
      List.reverse_reverse]

end WordFormat

namespace Reference

def word32 : WordFormat UInt32 where
  width := 4
  toNat := UInt32.toNat
  ofNat := UInt32.ofNat
  bounded := UInt32.toNat_lt
  ofNat_toNat _ := UInt32.ofNat_toNat
  toNat_ofNat _ small := by rw [UInt32.toNat_ofNat', Nat.mod_eq_of_lt small]

def word64 : WordFormat UInt64 where
  width := 8
  toNat := UInt64.toNat
  ofNat := UInt64.ofNat
  bounded := UInt64.toNat_lt
  ofNat_toNat _ := UInt64.ofNat_toNat
  toNat_ofNat _ small := by rw [UInt64.toNat_ofNat', Nat.mod_eq_of_lt small]

/-- An array has some bytes. -/
def array (width : ℕ) [NeZero (2 ^ (8 * width))] : WordFormat (Fin (2 ^ (8 * width))) where
  width := width
  toNat := Fin.val
  ofNat := Fin.ofNat _
  bounded := Fin.isLt
  ofNat_toNat value := Fin.ofNat_val_eq_self value
  toNat_ofNat _ small := Nat.mod_eq_of_lt small

instance bytes20NeZero : NeZero (2 ^ (8 * 20)) := ⟨by decide⟩

instance bytes32NeZero : NeZero (2 ^ (8 * 32)) := ⟨by decide⟩

scoped instance bincodeFormat : BincodeFormat where
  u32 := word32.littleEndian
  u64 := word64.littleEndian
  bytes20 := (array 20).bigEndian
  bytes32 := (array 32).bigEndian
  length := word64.littleEndian
  variant := word32.littleEndian

/-- A mainchain hash is a byte string with its length. -/
def mainHash : PrimitiveCodec Hash where
  toCodec := Codec.marked (leBytes 8 32) (array 32).bigEndian.toCodec
  total value := (array 32).bigEndian.total value
  exact := Codec.marked_exact (array 32).bigEndian.exact _

/-- A mainchain structure writes its fields in order, and a byte string starts with its length. -/
def mainOutPoint : PrimitiveCodec Bitcoin.OutPoint where
  toCodec := (mainHash.both word32.littleEndian).ofEquiv
    ⟨fun outpoint => (outpoint.txid, outpoint.vout), fun fields => ⟨fields.1, fields.2⟩,
      fun _ => rfl, fun _ => rfl⟩
  total outpoint := (mainHash.both word32.littleEndian).total (outpoint.txid, outpoint.vout)
  exact := Codec.ofEquiv_exact (mainHash.both word32.littleEndian).exact _

def byteString : Codec (List UInt8) :=
  Codec.vector word64.littleEndian
    ((⟨1, UInt8.toNat, UInt8.ofNat, UInt8.toNat_lt, fun _ => UInt8.ofNat_toNat,
    fun _ small => by rw [UInt8.toNat_ofNat', Nat.mod_eq_of_lt small]⟩ : WordFormat
      UInt8).littleEndian).toCodec

/-- An input without witnesses writes an empty list for them. -/
def txIn : Codec Bitcoin.TxIn :=
  (mainOutPoint.pair
    (byteString.pair (word32.littleEndian.pair (Codec.marked (leBytes 8 0) Codec.unit)))).ofEquiv
    ⟨fun input => (input.previousOutput, input.scriptSig, input.sequence, ()),
      fun fields => ⟨fields.1, fields.2.1, fields.2.2.1⟩, fun _ => rfl, fun _ => rfl⟩

def txOut : Codec Bitcoin.TxOut :=
  (word64.littleEndian.pair byteString).ofEquiv
    ⟨fun output => (output.value, output.scriptPubkey), fun fields => ⟨fields.1, fields.2⟩,
      fun _ => rfl, fun _ => rfl⟩

def mainTransaction : Codec Bitcoin.Transaction :=
  (word32.littleEndian.pair (word32.littleEndian.pair ((Codec.vector word64.littleEndian txIn).pair
    (Codec.vector word64.littleEndian txOut)))).ofEquiv
    ⟨fun transaction => (transaction.version, transaction.lockTime, transaction.input,
      transaction.output),
      fun fields => ⟨fields.1, fields.2.1, fields.2.2.1, fields.2.2.2⟩, fun _ => rfl, fun _ => rfl⟩

scoped instance bitcoinFormat : BitcoinFormat where
  hash := mainHash
  outPoint := mainOutPoint
  address := Codec.marked (leBytes 8 20) (Ddk.littleEndian 20)
  transaction := mainTransaction

scoped instance sidechainFormat : SidechainFormat Authorization Unit where
  authorization := ((Ddk.littleEndian 32).pair ((Ddk.littleEndian 32).pair byteString)).ofEquiv
    ⟨fun authorization => (authorization.publicKey, authorization.signature.1,
      authorization.signature.2),
      fun fields => ⟨fields.1, fields.2.1, fields.2.2⟩, fun _ => rfl, fun _ => rfl⟩
  custom := Codec.unit

end Reference

end Ddk

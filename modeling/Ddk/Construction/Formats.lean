/-
This file gives the serialized form of the types that the node stores, hashes and sends.
-/

import Ddk.Construction.Net
import Ddk.Foundation.Codecs

namespace Ddk

open Foundation

/-- The `bincode` crate formats numbers, byte arrays, vector lengths and variant indexes. -/
class BincodeFormat where
  u32 : PrimitiveCodec UInt32
  u64 : PrimitiveCodec UInt64
  bytes20 : PrimitiveCodec (Fin (2 ^ 160))
  bytes32 : PrimitiveCodec Hash
  length : PrimitiveCodec UInt64
  variant : PrimitiveCodec UInt32

/-- The `bitcoin` crate gives the formats of its own types. -/
class BitcoinFormat [Bitcoin] where
  hash : PrimitiveCodec Hash
  outPoint : PrimitiveCodec Bitcoin.OutPoint
  address : Codec Bitcoin.Address
  transaction : Codec Bitcoin.Transaction

/-- A sidechain gives the formats of its authorizations and of its custom data. -/
class SidechainFormat (A C : Type) where
  authorization : Codec A
  custom : Codec C

namespace Format

variable [BincodeFormat]

def vector {α : Type} (codec : Codec α) : Codec (List α) := Codec.vector BincodeFormat.length codec

def enumeration {α : Type} (variants : Enumeration α) : Codec α :=
  variants.codec BincodeFormat.variant

def txid : Codec Txid :=
  BincodeFormat.bytes32.ofEquiv ⟨Txid.hash, Txid.mk, fun _ => rfl, fun _ => rfl⟩

def merkleRoot : Codec MerkleRoot :=
  BincodeFormat.bytes32.ofEquiv ⟨MerkleRoot.hash, MerkleRoot.mk, fun _ => rfl, fun _ => rfl⟩

def blockHash : Codec BlockHash :=
  BincodeFormat.bytes32.ofEquiv ⟨BlockHash.hash, BlockHash.mk, fun _ => rfl, fun _ => rfl⟩

def address : Codec Address :=
  BincodeFormat.bytes20.ofEquiv ⟨Address.bytes, Address.mk, fun _ => rfl, fun _ => rfl⟩

section

variable [Bitcoin] [BitcoinFormat]

def regularOutPoint : Variant OutPoint where
  Payload := Txid × UInt32
  codec := txid.pair BincodeFormat.u32.toCodec
  build payload := .regular payload.1 payload.2
  project
    | .regular txid vout => some (txid, vout)
    | _ => none
  project_eq_some := by rintro (_ | _ | _) ⟨_, _⟩ <;> simp

def coinbaseOutPoint : Variant OutPoint where
  Payload := MerkleRoot × UInt32
  codec := merkleRoot.pair BincodeFormat.u32.toCodec
  build payload := .coinbase payload.1 payload.2
  project
    | .coinbase merkleRoot vout => some (merkleRoot, vout)
    | _ => none
  project_eq_some := by rintro (_ | _ | _) ⟨_, _⟩ <;> simp

def depositOutPoint : Variant OutPoint where
  Payload := Bitcoin.OutPoint
  codec := BitcoinFormat.outPoint.toCodec
  build := .deposit
  project
    | .deposit outpoint => some outpoint
    | _ => none
  project_eq_some := by rintro (_ | _ | _) _ <;> simp

def outPoints : Enumeration OutPoint where
  variants := [regularOutPoint, coinbaseOutPoint, depositOutPoint]
  covers := by rintro (_ | _ | _) <;> simp [regularOutPoint, coinbaseOutPoint, depositOutPoint]
  distinct := by
    simp only [List.pairwise_cons, List.mem_cons, List.not_mem_nil, or_false, forall_eq_or_imp,
      forall_eq, List.Pairwise.nil, false_imp_iff, implies_true, and_true]
    refine ⟨⟨?_, ?_⟩, ?_⟩ <;> rintro (_ | _ | _) <;>
      simp [regularOutPoint, coinbaseOutPoint, depositOutPoint]
  few := by simp

def outPoint : Codec OutPoint := enumeration outPoints

end

section

variable [Bitcoin] [BitcoinFormat] (A : Type) {C : Type} [SidechainFormat A C]

def customContent : Variant (Content C) where
  Payload := C
  codec := SidechainFormat.custom A
  build := .custom
  project
    | .custom custom => some custom
    | _ => none
  project_eq_some := by rintro (_ | _ | _) _ <;> simp

def valueContent : Variant (Content C) where
  Payload := UInt64
  codec := BincodeFormat.u64.toCodec
  build := .value
  project
    | .value value => some value
    | _ => none
  project_eq_some := by rintro (_ | _ | _) _ <;> simp

def withdrawalContent : Variant (Content C) where
  Payload := UInt64 × UInt64 × Bitcoin.Address
  codec := BincodeFormat.u64.pair (BincodeFormat.u64.pair BitcoinFormat.address)
  build payload := .withdrawal payload.1 payload.2.1 payload.2.2
  project
    | .withdrawal value mainFee mainAddress => some (value, mainFee, mainAddress)
    | _ => none
  project_eq_some := by rintro (_ | _ | _) ⟨_, _, _⟩ <;> simp

def contents : Enumeration (Content C) where
  variants := [customContent A, valueContent, withdrawalContent]
  covers := by rintro (_ | _ | _) <;> simp [customContent, valueContent, withdrawalContent]
  distinct := by
    simp only [List.pairwise_cons, List.mem_cons, List.not_mem_nil, or_false, forall_eq_or_imp,
      forall_eq, List.Pairwise.nil, false_imp_iff, implies_true, and_true]
    refine ⟨⟨?_, ?_⟩, ?_⟩ <;> rintro (_ | _ | _) <;>
      simp [customContent, valueContent, withdrawalContent]
  few := by simp

def content : Codec (Content C) := enumeration (contents A)

def output : Codec (Output C) :=
  (address.pair (content A)).ofEquiv
    ⟨fun output => (output.address, output.content), fun fields => ⟨fields.1, fields.2⟩,
      fun _ => rfl, fun _ => rfl⟩

def transaction : Codec (Transaction C) :=
  ((vector outPoint).pair (vector (output A))).ofEquiv
    ⟨fun transaction => (transaction.inputs, transaction.outputs),
      fun fields => ⟨fields.1, fields.2⟩,
      fun _ => rfl, fun _ => rfl⟩

/-- The merkle root hashes the coinbase and the transactions of a body. -/
def bodyContents : Codec (List (Output C) × List (Transaction C)) :=
  (vector (output A)).pair (vector (transaction A))

def header : Codec Header :=
  (merkleRoot.pair (blockHash.pair BitcoinFormat.hash.toCodec)).ofEquiv
    ⟨fun header => (header.merkleRoot, header.prevSideHash, header.prevMainHash),
      fun fields => ⟨fields.1, fields.2.1, fields.2.2⟩, fun _ => rfl, fun _ => rfl⟩

end

section

variable [Bitcoin] [BitcoinFormat] {A C : Type} [SidechainFormat A C]

def authorizedTransaction : Codec (AuthorizedTransaction A C) :=
  ((transaction A).pair (vector (SidechainFormat.authorization C))).ofEquiv
    ⟨fun transaction => (transaction.transaction, transaction.authorizations),
      fun fields => ⟨fields.1, fields.2⟩,
      fun _ => rfl, fun _ => rfl⟩

def body : Codec (Body A C) :=
  ((vector (output A)).pair
    ((vector (transaction A)).pair (vector (SidechainFormat.authorization C)))).ofEquiv
    ⟨fun body => (body.coinbase, body.transactions, body.authorizations),
      fun fields => ⟨fields.1, fields.2.1, fields.2.2⟩, fun _ => rfl, fun _ => rfl⟩

def getBlockRequest : Variant (Request A C) where
  Payload := UInt32
  codec := BincodeFormat.u32.toCodec
  build := .getBlock
  project
    | .getBlock height => some height
    | _ => none
  project_eq_some := by rintro (_ | _) _ <;> simp

def pushTransactionRequest : Variant (Request A C) where
  Payload := AuthorizedTransaction A C
  codec := authorizedTransaction
  build := .pushTransaction
  project
    | .pushTransaction transaction => some transaction
    | _ => none
  project_eq_some := by rintro (_ | _) _ <;> simp

def requests : Enumeration (Request A C) where
  variants := [getBlockRequest, pushTransactionRequest]
  covers := by rintro (_ | _) <;> simp [getBlockRequest, pushTransactionRequest]
  distinct := by
    simp only [List.pairwise_cons, List.mem_cons, List.not_mem_nil, or_false, forall_eq,
      List.Pairwise.nil, false_imp_iff, implies_true, and_true]
    rintro (_ | _) <;> simp [getBlockRequest, pushTransactionRequest]
  few := by simp

def request : Codec (Request A C) := enumeration requests

def blockResponse : Variant (Response A C) where
  Payload := Header × Body A C
  codec := header.pair body
  build payload := .block payload.1 payload.2
  project
    | .block header body => some (header, body)
    | _ => none
  project_eq_some := by rintro (_ | _ | _ | _) ⟨_, _⟩ <;> simp

def noBlockResponse : Variant (Response A C) where
  Payload := Unit
  codec := Codec.unit
  build _ := .noBlock
  project
    | .noBlock => some ()
    | _ => none
  project_eq_some := by rintro (_ | _ | _ | _) _ <;> simp

def transactionAcceptedResponse : Variant (Response A C) where
  Payload := Unit
  codec := Codec.unit
  build _ := .transactionAccepted
  project
    | .transactionAccepted => some ()
    | _ => none
  project_eq_some := by rintro (_ | _ | _ | _) _ <;> simp

def transactionRejectedResponse : Variant (Response A C) where
  Payload := Unit
  codec := Codec.unit
  build _ := .transactionRejected
  project
    | .transactionRejected => some ()
    | _ => none
  project_eq_some := by rintro (_ | _ | _ | _) _ <;> simp

def responses : Enumeration (Response A C) where
  variants :=
    [blockResponse, noBlockResponse, transactionAcceptedResponse, transactionRejectedResponse]
  covers := by
    rintro (_ | _ | _ | _) <;>
      simp [blockResponse, noBlockResponse, transactionAcceptedResponse,
        transactionRejectedResponse]
  distinct := by
    simp only [List.pairwise_cons, List.mem_cons, List.not_mem_nil, or_false, forall_eq_or_imp,
      forall_eq, List.Pairwise.nil, false_imp_iff, implies_true, and_true]
    refine ⟨⟨?_, ?_, ?_⟩, ⟨?_, ?_⟩, ?_⟩ <;> rintro (_ | _ | _ | _) <;>
      simp [blockResponse, noBlockResponse, transactionAcceptedResponse,
        transactionRejectedResponse]
  few := by simp

def response : Codec (Response A C) := enumeration responses

def peerState : Codec PeerState :=
  BincodeFormat.u32.ofEquiv ⟨PeerState.blockHeight, PeerState.mk, fun _ => rfl, fun _ => rfl⟩

/-- The database stores a bundle with its outputs in the iteration order of their map. -/
def withdrawalBundle (order : HashOrder OutPoint (Output C)) : Codec (WithdrawalBundle C) :=
  ((Codec.hashMap order BincodeFormat.length (outPoint.pair (output A))).pair
    BitcoinFormat.transaction).ofEquiv
    ⟨fun bundle => (bundle.spentUtxos, bundle.transaction), fun fields => ⟨fields.1, fields.2⟩,
      fun _ => rfl, fun _ => rfl⟩

end

variable [Bitcoin] [BitcoinFormat] (A C : Type) [SidechainFormat A C]

/-- The node hashes and signs the bytes of these formats. -/
@[reducible] def bincode : Bincode C where
  transaction := (transaction A).encode
  contents := (bodyContents A).encode
  header := header.encode
  outPoints := (vector outPoint).encode

/-- The peers exchange the bytes of these formats. Bytes after a message are ignored. -/
@[reducible] def wire : Wire A C where
  encodeRequest := request.encode
  decodeRequest := request.read
  encodeResponse := response.encode
  decodeResponse := response.read

end Format

end Ddk

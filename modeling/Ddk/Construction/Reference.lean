/-
This file gives small executable libraries for the evaluation of the model.
-/

import Ddk.Construction.History
import Ddk.Construction.Peers
import Ddk.Construction.Treasury
import Ddk.Construction.Wallet

namespace Ddk.Reference

open Foundation

/-- This hash reads the bytes as the digits of one number. -/
def digits (bytes : List UInt8) : ℕ :=
  bytes.foldl (fun number byte => number * 257 + byte.toNat + 1) 0

/-- A treasury transaction pays its total to the script of sidechain zero. -/
def treasury (total : UInt64) : Bitcoin.Transaction :=
  ⟨2, 0, [Bitcoin.TxIn.default], [⟨total, [0xb4, 0x01, 0x00, 0x51]⟩]⟩

/-- This list gives the raw bytes of two treasuries in hexadecimal digits. -/
def treasuries : List (UInt64 × String) := [
  (10,
    "02000000010000000000000000000000000000000000000000000000000000000000000000ffffffff00ffffffff010a0000000000000004b401005100000000"),
  (24,
    "02000000010000000000000000000000000000000000000000000000000000000000000000ffffffff00ffffffff01180000000000000004b401005100000000")]

/-- An address is a script hash, and its script has 23 bytes. The decoders know the treasuries. -/
@[reducible] scoped instance bitcoin : Bitcoin where
  Address := ℕ
  addressOrder := inferInstance
  scriptPubkey address := [0xa9, 0x14] ++ leBytes 20 address ++ [0x87]
  txid transaction := Fin.ofNat _ (digits transaction.consensusEncode)
  hexDecode text := (treasuries.find? (·.2 = text)).map
    fun entry => (treasury entry.1).consensusEncode
  consensusDecode bytes := (treasuries.map fun entry => treasury entry.1).find?
    fun transaction => transaction.consensusEncode = bytes

scoped instance blake3 : Blake3 where
  hash bytes := Fin.ofNat _ (digits bytes)
  finalizeXof bytes := ⟨Fin.ofNat _ (digits bytes)⟩

/-- This text encodes the address of the key 7. -/
def addressText : String := "HYZf7j3zriNWmdTCNVYZXPt32VDcc63dB"

scoped instance bs58 : Bs58 where
  decodeCheck text := if text = addressText then
      some (leBytes 20 (Blake3.finalizeXof (leBytes 32 7)).bytes.val).reverse
    else none

/-- A signature is the pair of its key and its message. -/
@[reducible] scoped instance ed25519 : Ed25519 where
  PublicKey := ℕ
  Signature := ℕ × List UInt8
  toBytes key := leBytes 32 key
  verify key message signature := if signature = (key, message) then .ok () else .error .invalid
  verifyBatch messages signatures keys :=
    if signatures = keys.zip messages ∧ keys.length = messages.length then .ok ()
      else .error .invalid

/-- A hardened index sets the highest bit of its number. -/
def childNumber : ChildIndex → UInt32
  | .normal index => index
  | .hardened index => (1 : UInt32) <<< 31 ||| index

/-- A child key appends the number of its index. -/
def childKey (key : ℕ) (child : ChildIndex) : ℕ := key * 2 ^ 32 + (childNumber child).toNat

@[reducible] scoped instance bip32 : Bip32 where
  ExtendedSecretKey := ℕ
  SecretKey := ℕ
  fromSeed seed := some (digits seed.val)
  derive key path := some (path.foldl childKey key)
  publicKey key := key
  secretKey key := key
  sign secret _ message := (secret, message)

scoped instance : DecidableEq Ed25519.PublicKey := inferInstanceAs (DecidableEq ℕ)

scoped instance : DecidableEq Ed25519.Signature := inferInstanceAs (DecidableEq (ℕ × List UInt8))

scoped instance : DecidableEq Authorization := fun first second =>
  decidable_of_iff (first.publicKey = second.publicKey ∧ first.signature = second.signature)
    Authorization.ext_iff.symm

scoped instance rayon : Rayon := ⟨2, by decide⟩

/-- A vector starts with its length. -/
def vector {α : Type} (serialize : α → List UInt8) (items : List α) : List UInt8 :=
  leBytes 8 items.length ++ items.flatMap serialize

def outPoint : OutPoint → List UInt8
  | .regular txid vout => leBytes 4 0 ++ hashBytes txid.hash ++ leBytes 4 vout.toNat
  | .coinbase merkleRoot vout => leBytes 4 1 ++ hashBytes merkleRoot.hash ++ leBytes 4 vout.toNat
  | .deposit outpoint =>
      leBytes 4 2 ++ leBytes 8 32 ++ hashBytes outpoint.txid ++ leBytes 4 outpoint.vout.toNat

def content : Content Unit → List UInt8
  | .custom _ => leBytes 4 0
  | .value value => leBytes 4 1 ++ leBytes 8 value.toNat
  | .withdrawal value mainFee mainAddress =>
      leBytes 4 2 ++ leBytes 8 value.toNat ++ leBytes 8 mainFee.toNat ++ leBytes 8 20 ++
        leBytes 20 mainAddress

def output (output : Output Unit) : List UInt8 :=
  (leBytes 20 output.address.bytes.val).reverse ++ content output.content

def transaction (transaction : Transaction Unit) : List UInt8 :=
  vector outPoint transaction.inputs ++ vector output transaction.outputs

/-- The unit type carries no custom data. -/
scoped instance bincode : Bincode Unit where
  transaction := transaction
  contents contents := vector output contents.1 ++ vector transaction contents.2
  header header := hashBytes header.merkleRoot.hash ++ hashBytes header.prevSideHash.hash ++
    leBytes 8 32 ++ hashBytes header.prevMainHash
  outPoints := vector outPoint

def authorization (authorization : Authorization) : List UInt8 :=
  leBytes 32 authorization.publicKey ++ leBytes 32 authorization.signature.1 ++
    vector (fun byte => [byte]) authorization.signature.2

def request : Request Authorization Unit → List UInt8
  | .getBlock height => leBytes 4 0 ++ leBytes 4 height.toNat
  | .pushTransaction pushed =>
      leBytes 4 1 ++ transaction pushed.transaction ++ vector authorization pushed.authorizations

def response : Response Authorization Unit → List UInt8
  | .block header body =>
      leBytes 4 0 ++ Bincode.header Unit header ++ Bincode.contents
        (body.coinbase, body.transactions) ++
        vector authorization body.authorizations
  | .noBlock => leBytes 4 1
  | .transactionAccepted => leBytes 4 2
  | .transactionRejected => leBytes 4 3

/-- This transaction spends nothing and creates some outputs without value. -/
def worthless (count : ℕ) : Transaction Unit := ⟨[], List.replicate count ⟨⟨5⟩, .value 0⟩⟩

/-- The first block of a chain carries one such transaction. -/
def worthlessBody (count : ℕ) : Body Authorization Unit := ⟨[], [worthless count], []⟩

def worthlessHeader (count : ℕ) : Header := ⟨(worthlessBody count).computeMerkleRoot, ⟨0⟩, 1⟩

/-- The decoders know a small and a large block and transaction. -/
scoped instance wire : Wire Authorization Unit where
  encodeRequest := request
  decodeRequest bytes :=
    [.getBlock 1, .pushTransaction ⟨worthless 1, []⟩, .pushTransaction ⟨worthless 40, []⟩].find?
    fun message => request message = bytes
  encodeResponse := response
  decodeResponse bytes := [.noBlock, .transactionAccepted, .transactionRejected,
    .block (worthlessHeader 1) (worthlessBody 1),
      .block (worthlessHeader 40) (worthlessBody 40)].find?
    fun message => response message = bytes

/-- This sidechain has no rules of its own. -/
scoped instance customState : CustomState Unit Authorization Unit where
  Error := Empty
  thisSidechain := 0
  validateFilledTransaction _ _ _ _ := .ok ()
  validateBody _ _ _ _ := .ok ()
  connectBody _ _ _ _ := .ok ()

scoped instance : DecidableEq (CustomState.Error Unit Authorization Unit) :=
  inferInstanceAs (DecidableEq Empty)

/-- A deposit raises the treasury to its total on behalf of the key 7. -/
def deposit (hashblock : Bitcoin.BlockHash) (total : UInt64) : Drivechain.Deposit :=
  ⟨hashblock, 0, addressText, ((treasuries.find? (·.1 = total)).map (·.2)).getD ""⟩

def depositOutPoint (total : UInt64) : OutPoint := .deposit ⟨Bitcoin.txid (treasury total), 0⟩

def entry (hashblock : Bitcoin.BlockHash) (total : UInt64) : TreasuryEntry :=
  ⟨hashblock, total, depositOutPoint total, addressText⟩

/-- This client lists the deposits of a treasury, and no bundle has a status. -/
def serving (treasury : Treasury) : Drivechain.MainClient :=
  ⟨fun _ stop start => stop.map fun stop => (treasury.listed start stop).map fun entry =>
    deposit entry.hashblock entry.total, some [], some []⟩

/-- This client gives fixed answers. -/
def client (deposits : List Drivechain.Deposit) (spent : List Drivechain.SpentWithdrawal)
    (failed : List Drivechain.FailedWithdrawal) : Drivechain.MainClient :=
  ⟨fun _ _ _ => some deposits, some spent, some failed⟩

/-- The key 7 authorizes each input of a transaction. -/
def authorize (transaction : Transaction Unit) : AuthorizedTransaction Authorization Unit :=
  ⟨transaction, transaction.inputs.map fun _ =>
    ⟨(7 : ℕ), ((7 : ℕ), Bincode.transaction transaction)⟩⟩

/-- These orders follow the keys. -/
def orders : Orders Unit := ⟨.byKey, .byKey, .byKey, .insertion _⟩

/-- A submission carries its header and body, and a client answers its call. -/
structure Submission where
  header : Header
  body : Body Authorization Unit
  client : Drivechain.MainClient

/-- This submission extends the chain of a node. -/
def Submission.extending (node : Node Authorization Unit Unit) (body : Body Authorization Unit)
    (prevMainHash : Bitcoin.BlockHash) (client : Drivechain.MainClient) : Submission :=
  ⟨⟨body.computeMerkleRoot, node.archive.getBestHash, prevMainHash⟩, body, client⟩

/-- The first block of a node creates some outputs without value. -/
def worthlessBlock (count : ℕ) : Submission :=
  .extending (Node.new ()) (worthlessBody count) 1 (client [] [] [])

namespace Submission

variable (submission : Submission) (mode : Overflow) (node : Node Authorization Unit Unit)

def fetch : Node.Result Unit Authorization Unit (TwoWayPegData Unit) :=
  Node.getTwoWayPegData submission.client submission.header node.state.lastDepositBlock

def pegData : TwoWayPegData Unit := (submission.fetch node).toOption.getD ⟨∅, none, ∅⟩

def record : Outcome State.Error (Receipt Authorization Unit) :=
  node.state.blockReceipt orders mode submission.body
    (submission.pegData node) node.archive.getHeight

def receipt : Receipt Authorization Unit :=
  (submission.record mode node).toOption.getD ⟨submission.body, [], 0, ∅, none⟩

def commit : Node.Result Unit Authorization Unit (Node Authorization Unit Unit) :=
  node.commitBlock orders mode submission.header submission.body (submission.pegData node)

def next : Node Authorization Unit Unit := (submission.commit mode node).toOption.getD node

/-- An accepted submission passes each of its calls. -/
def accepted : Bool :=
  (submission.fetch node).isOk && (submission.record mode node).isOk &&
    (submission.commit mode node).isOk

end Submission

end Ddk.Reference

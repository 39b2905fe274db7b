/-
This file derives addresses, selects coins, builds payments and signs them.
-/

import Ddk.Construction.Archive
import Ddk.Construction.Authorization
import Ddk.Foundation.Sorting

namespace Ddk

open Foundation

instance : LinearOrder Address := LinearOrder.lift' Address.bytes fun first second same => by
  cases first
  cases second
  exact congrArg Address.mk same

/-- A seed has 64 bytes. -/
abbrev Seed := {bytes : List UInt8 // bytes.length = 64}

inductive ChildIndex where
  | normal (index : UInt32)
  | hardened (index : UInt32)
  deriving DecidableEq

/-- This class gives the `ed25519_dalek_bip32` calls. A missing key is a derivation error. -/
class Bip32 [Ed25519] where
  ExtendedSecretKey : Type
  SecretKey : Type
  fromSeed : Seed → Option ExtendedSecretKey
  derive : ExtendedSecretKey → List ChildIndex → Option ExtendedSecretKey
  publicKey : ExtendedSecretKey → Ed25519.PublicKey
  secretKey : ExtendedSecretKey → SecretKey
  sign : SecretKey → Ed25519.PublicKey → List UInt8 → Ed25519.Signature

structure Keypair [Ed25519] [Bip32] where
  secret : Bip32.SecretKey
  publicKey : Ed25519.PublicKey

def Authorization.sign [Bitcoin] [Ed25519] [Bip32] {C : Type} [Bincode C] (keypair : Keypair)
    (transaction : Transaction C) : Ed25519.Signature :=
  Bip32.sign keypair.secret keypair.publicKey (Bincode.transaction transaction)

def Content.isWithdrawal [Bitcoin] {C : Type} : Content C → Bool
  | .withdrawal _ _ _ => true
  | _ => false

/-- A wallet of one seed. Its index keys have the four bytes of a height key. -/
structure Wallet [Bitcoin] (C : Type) where
  seed : Option Seed
  addressToIndex : Database Address HeightBytes
  indexToAddress : Database HeightBytes Address
  utxos : Database OutPoint (Output C)

/-- The library leaves these orders open: the unstable sort and the order of the selected coins. -/
structure CoinOrders [Bitcoin] (C : Type) [GetValue C] where
  sort : LibrarySort fun first second : OutPoint × Output C =>
    compare (getValue first.2) (getValue second.2)
  coins : HashOrder OutPoint (Output C)

namespace Wallet

inductive Error where
  | bip32
  | noUtxo
  | noSeed
  | noIndex (address : Address)
  | notEnoughFunds
  deriving DecidableEq

variable [Bitcoin] {C : Type}

/-- A new environment has empty databases. -/
def empty : Wallet C := ⟨none, ∅, ∅, ∅⟩

/-- A new seed clears everything else. -/
def setSeed (wallet : Wallet C) (seed : Seed) : Wallet C :=
  { wallet with seed := some seed, addressToIndex := ∅, indexToAddress := ∅, utxos := ∅ }

def deleteUtxos (wallet : Wallet C) (outpoints : List OutPoint) : Wallet C :=
  { wallet with utxos := wallet.utxos.deleteAll outpoints }

def putUtxos (wallet : Wallet C) (order : HashOrder OutPoint (Output C))
    (utxos : HashMap OutPoint (Output C)) :
    Wallet C :=
  { wallet with utxos := wallet.utxos.putAll (order.iter utxos) }

/-- A missing value becomes the given error. -/
def orError {α : Type} (value : Option α) (error : Error) : Outcome Error α :=
  match value with
  | some value => .ok value
  | none => Outcome.fail error

section

variable [Ed25519] [Bip32]

def getKeypair (wallet : Wallet C) (index : UInt32) : Outcome Error Keypair := do
  let seed ← orError wallet.seed .noSeed
  let xpriv ← orError (Bip32.fromSeed seed) .bip32
  let child ← orError
    (Bip32.derive xpriv [.hardened 1, .hardened 0, .hardened 0, .hardened index]) .bip32
  return { secret := Bip32.secretKey child, publicKey := Bip32.publicKey child }

def getNumAddresses (wallet : Wallet C) : UInt32 :=
  match wallet.indexToAddress.last with
  | some (lastIndex, _) => readU32 lastIndex
  | none => 0

/-- The call derives the key after the last index and stores its address in both directions. -/
def getNewAddress [Blake3] (mode : Overflow) (wallet : Wallet C) :
    Outcome Error (Address × Wallet C) := do
  let index ← mode.add32 wallet.getNumAddresses 1
  let keypair ← wallet.getKeypair index
  let address := Authorization.getAddress keypair.publicKey
  return (address, { wallet with
    indexToAddress := wallet.indexToAddress.insert (toBeBytes index) address
    addressToIndex := wallet.addressToIndex.insert address (toBeBytes index) })

/-- Each input is signed with the key of its own address. -/
def authorizeInput [Bincode C] (wallet : Wallet C) (transaction : Transaction C)
    (input : OutPoint) :
    Outcome Error Authorization := do
  let spentUtxo ← orError wallet.utxos[input]? .noUtxo
  let index ← orError wallet.addressToIndex[spentUtxo.address]? (.noIndex spentUtxo.address)
  let keypair ← wallet.getKeypair (readU32 index)
  return { publicKey := keypair.publicKey, signature := Authorization.sign keypair transaction }

def authorize [Bincode C] (wallet : Wallet C) (transaction : Transaction C) :
    Outcome Error (AuthorizedTransaction Authorization C) := do
  let authorizations ← transaction.inputs.mapM (wallet.authorizeInput transaction)
  return { authorizations, transaction }

end

variable [GetValue C]

/-- The loop keeps the total and the selected coins. It stops after the total exceeds the value. -/
def selectLoop (mode : Overflow) (value total : UInt64) (selected : HashMap OutPoint (Output C)) :
    List (OutPoint × Output C) → Outcome Error (UInt64 × HashMap OutPoint (Output C))
  | [] => return (total, selected)
  | utxo :: utxos =>
      if utxo.2.content.isWithdrawal then selectLoop mode value total selected utxos
      else if total > value then return (total, selected)
      else do
        let total ← mode.add total (getValue utxo.2)
        selectLoop mode value total (selected.insert utxo.1 utxo.2) utxos

def selectCoins (orders : CoinOrders C) (mode : Overflow) (wallet : Wallet C) (value : UInt64) :
    Outcome Error (UInt64 × HashMap OutPoint (Output C)) := do
  let utxos := orders.sort.sort wallet.utxos.toList
  let (total, selected) ← selectLoop mode value 0 ∅ utxos
  Outcome.ensure (value ≤ total) .notEnoughFunds
  return (total, selected)

/-- The coins cover the asked amount, and the change is what the value and the fee leave. -/
def fundPayment (orders : CoinOrders C) (mode : Overflow) (wallet : Wallet C)
    (amount value fee : UInt64) :
    Outcome Error (List OutPoint × UInt64) := do
  let (total, coins) ← wallet.selectCoins orders mode amount
  let rest ← mode.sub total value
  let change ← mode.sub rest fee
  return ((orders.coins.iter coins).map (·.1), change)

variable [Blake3] [Ed25519] [Bip32]

/-- The change goes to a new address. -/
def createTransaction (orders : CoinOrders C) (mode : Overflow) (wallet : Wallet C)
    (address : Address)
    (value fee : UInt64) : Outcome Error (Transaction C × Wallet C) := do
  let amount ← mode.add value fee
  let (inputs, change) ← wallet.fundPayment orders mode amount value fee
  let (changeAddress, wallet) ← wallet.getNewAddress mode
  let outputs :=
      [{ address, content := .value value }, { address := changeAddress, content := .value change }]
  return ({ inputs, outputs }, wallet)

/-- The withdrawal and the change go to new addresses. Each new address is a write of its own. -/
def createWithdrawal (orders : CoinOrders C) (mode : Overflow) (wallet : Wallet C)
    (mainAddress : Bitcoin.Address) (value mainFee fee : UInt64) :
    Outcome Error (Transaction C × Wallet C) := do
  let subtotal ← mode.add value fee
  let amount ← mode.add subtotal mainFee
  let (inputs, change) ← wallet.fundPayment orders mode amount value fee
  let (address, wallet) ← wallet.getNewAddress mode
  let (changeAddress, wallet) ← wallet.getNewAddress mode
  let outputs := [{ address, content := .withdrawal value mainFee mainAddress },
    { address := changeAddress, content := .value change }]
  return ({ inputs, outputs }, wallet)

/-- A payment asks for the coins of its value and its fees. -/
inductive Payment [Bitcoin] where
  | transaction (address : Address) (value fee : UInt64)
  | withdrawal (mainAddress : Bitcoin.Address) (value mainFee fee : UInt64)

namespace Payment

def fee : Payment → UInt64
  | .transaction _ _ fee => fee
  | .withdrawal _ _ _ fee => fee

/-- The integer amount does not wrap. -/
def amount : Payment → ℕ
  | .transaction _ value fee => value.toNat + fee.toNat
  | .withdrawal _ value mainFee fee => value.toNat + fee.toNat + mainFee.toNat

end Payment

def pay (orders : CoinOrders C) (mode : Overflow) (wallet : Wallet C) :
    Payment → Outcome Error (Transaction C × Wallet C)
  | .transaction address value fee => wallet.createTransaction orders mode address value fee
  | .withdrawal mainAddress value mainFee fee =>
    wallet.createWithdrawal orders mode mainAddress value mainFee fee

/-- A wallet runs from the empty databases. A call that fails changes nothing. -/
inductive Run (mode : Overflow) : Wallet C → Prop where
  | new : Run mode Wallet.empty
  | setSeed {wallet : Wallet C} (seed : Seed) (before : Run mode wallet) :
      Run mode (wallet.setSeed seed)
  | getNewAddress {wallet next : Wallet C} {address : Address} (before : Run mode wallet)
      (made : wallet.getNewAddress mode = .ok (address, next)) : Run mode next
  | putUtxos {wallet : Wallet C} (order : HashOrder OutPoint (Output C))
      (utxos : HashMap OutPoint (Output C))
      (before : Run mode wallet) : Run mode (wallet.putUtxos order utxos)
  | deleteUtxos {wallet : Wallet C} (outpoints : List OutPoint) (before : Run mode wallet) :
      Run mode (wallet.deleteUtxos outpoints)

/-- This run lists all issued addresses with their seeds and the addresses since the last seed. -/
inductive AddressRun (mode : Overflow) : List (Option Seed × Address) → List Address →
    Wallet C → Prop where
  | new : AddressRun mode [] [] Wallet.empty
  | setSeed {issued : List (Option Seed × Address)} {recent : List Address} {wallet : Wallet C}
      (seed : Seed) (before : AddressRun mode issued recent wallet) :
      AddressRun mode issued [] (wallet.setSeed seed)
  | getNewAddress {issued : List (Option Seed × Address)} {recent : List Address}
      {wallet next : Wallet C} {address : Address} (before : AddressRun mode issued recent wallet)
      (made : wallet.getNewAddress mode = .ok (address, next)) :
      AddressRun mode ((wallet.seed, address) :: issued) (address :: recent) next
  | putUtxos {issued : List (Option Seed × Address)} {recent : List Address} {wallet : Wallet C}
      (order : HashOrder OutPoint (Output C)) (utxos : HashMap OutPoint (Output C))
      (before : AddressRun mode issued recent wallet) :
      AddressRun mode issued recent (wallet.putUtxos order utxos)
  | deleteUtxos {issued : List (Option Seed × Address)} {recent : List Address} {wallet : Wallet C}
      (outpoints : List OutPoint) (before : AddressRun mode issued recent wallet) :
      AddressRun mode issued recent (wallet.deleteUtxos outpoints)

end Wallet

end Ddk

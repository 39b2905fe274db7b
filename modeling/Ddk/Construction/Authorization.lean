/-
This file verifies the authorizations of transactions and bodies.
-/

import Ddk.Construction.Types
import Ddk.Foundation.Packages

namespace Ddk

open Foundation

/-- The signature library reports a failure without further data. -/
inductive SignatureError where
  | invalid
  deriving DecidableEq

/-- This class gives the `ed25519_dalek` types and calls. -/
class Ed25519 where
  PublicKey : Type
  Signature : Type
  toBytes : PublicKey → List UInt8
  verify : PublicKey → List UInt8 → Signature → Except SignatureError Unit
  verifyBatch : List (List UInt8) → List Signature → List PublicKey → Except SignatureError Unit

/-- The thread pool has at least one thread. -/
class Rayon where
  currentNumThreads : ℕ
  positive : 0 < currentNumThreads

/-- The associated type `Error` of the `Verify` trait becomes a field. -/
class Verify [Bitcoin] (A C : Type) where
  Error : Type
  verifyTransaction : AuthorizedTransaction A C → Outcome Error Unit
  verifyBody : Body A C → Outcome Error Unit

@[ext] structure Authorization [Ed25519] where
  publicKey : Ed25519.PublicKey
  signature : Ed25519.Signature

namespace Authorization

inductive Error where
  | wrongKeypairForAddress (address hashPublicKey : Address)
  | dalekError (error : SignatureError)
  deriving DecidableEq

variable [Bitcoin] [Blake3] [Ed25519] {C : Type}

def getAddress (publicKey : Ed25519.PublicKey) : Address :=
  Blake3.finalizeXof (Ed25519.toBytes publicKey)

instance : GetAddress Authorization := ⟨fun authorization => getAddress authorization.publicKey⟩

/-- A package holds the three arguments of one batch verification. -/
structure Package where
  messages : List (List UInt8)
  signatures : List Ed25519.Signature
  publicKeys : List Ed25519.PublicKey

def Package.ofPairs (pairs : List (Authorization × List UInt8)) : Package where
  messages := pairs.map (·.2)
  signatures := pairs.map (·.1.signature)
  publicKeys := pairs.map (·.1.publicKey)

def Package.verify (package : Package) : Outcome Error Unit :=
  (Ed25519.verifyBatch package.messages package.signatures package.publicKeys).mapError
    fun error => .error (.dalekError error)

variable [Bincode C]

/-- Every authorization of a transaction signs the same bytes. -/
def verifyAuthorizedTransaction (transaction : AuthorizedTransaction Authorization C) :
    Outcome Error Unit :=
  let serializedTransaction := Bincode.transaction transaction.transaction
  Package.verify {
    messages := List.replicate transaction.authorizations.length serializedTransaction
    signatures := transaction.authorizations.map (·.signature)
    publicKeys := transaction.authorizations.map (·.publicKey) }

/-- Each input of a transaction repeats the bytes of the transaction. -/
def inputMessages (body : Body Authorization C) : List (List UInt8) :=
  let inputNumbers := body.transactions.map fun transaction => transaction.inputs.length
  let serializedTransactions := body.transactions.map Bincode.transaction
  (inputNumbers.zip serializedTransactions).flatMap fun pair => List.replicate pair.1 pair.2

/-- The threads verify one package each. The assertion counts the packaged signatures. -/
def verifyAuthorizations [Rayon] (body : Body Authorization C) : Outcome Error Unit := do
  let pairs := body.authorizations.zip (inputMessages body)
  let numThreads := Rayon.currentNumThreads
  let numAuthorizations := body.authorizations.length
  let packageSize := numAuthorizations / numThreads
  let slices ← package pairs numThreads packageSize
  let packages := slices.map Package.ofPairs
  if (packages.map (·.signatures.length)).sum ≠ body.authorizations.length then Outcome.panicked
  else
    let _ ← packages.mapM Package.verify
    return ()

instance [Rayon] : Verify Authorization C where
  Error := Error
  verifyTransaction := verifyAuthorizedTransaction
  verifyBody := verifyAuthorizations

end Authorization

end Ddk

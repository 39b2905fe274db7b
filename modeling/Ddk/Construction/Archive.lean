/-
This file stores headers and bodies by height.
-/

import Ddk.Construction.Types
import Ddk.Foundation.Outcome

namespace Ddk

open Foundation

/-- A height key has four bytes, and the database compares the most significant byte first. -/
abbrev HeightBytes := Fin 256 ×ₗ Fin 256 ×ₗ Fin 256 ×ₗ Fin 256

instance heightTransCmp : Std.TransCmp (compare : HeightBytes → HeightBytes → Ordering) :=
  inferInstance

def toBeBytes (height : UInt32) : HeightBytes :=
  let number := height.toNat
  toLex (Fin.ofNat 256 (number / 2 ^ 24), toLex (Fin.ofNat 256 (number / 2 ^ 16),
    toLex (Fin.ofNat 256 (number / 2 ^ 8), Fin.ofNat 256 number)))

def readU32 (bytes : HeightBytes) : UInt32 :=
  let first := ofLex bytes
  let second := ofLex first.2
  let third := ofLex second.2
  UInt32.ofNat (first.1.val * 2 ^ 24 + second.1.val * 2 ^ 16 + third.1.val * 2 ^ 8 + third.2.val)

structure Archive [Bitcoin] (A C : Type) where
  headers : Database HeightBytes Header
  bodies : Database HeightBytes (Body A C)
  hashToHeight : Database Hash HeightBytes

namespace Archive

inductive Error where
  | invalidPrevSideHash
  | invalidMerkleRoot
  | noHeader (hash : BlockHash)
  deriving DecidableEq

variable [Bitcoin] {A C : Type}

def empty : Archive A C := ⟨∅, ∅, ∅⟩

def getHeader (archive : Archive A C) (height : UInt32) : Option Header :=
  archive.headers[toBeBytes height]?

def getBody (archive : Archive A C) (height : UInt32) : Option (Body A C) :=
  archive.bodies[toBeBytes height]?

def getHeight (archive : Archive A C) : UInt32 :=
  match archive.headers.last with
  | some (height, _) => readU32 height
  | none => 0

variable [Blake3] [Bincode C]

def getBestHash (archive : Archive A C) : BlockHash :=
  match archive.headers.last with
  | some (_, header) => header.hash (C := C)
  | none => ⟨0⟩

def putBody (archive : Archive A C) (header : Header) (body : Body A C) :
    Outcome Error (Archive A C) := do
  Outcome.ensure (header.merkleRoot = body.computeMerkleRoot) .invalidMerkleRoot
  let hash := header.hash (C := C)
  match archive.hashToHeight[hash.hash]? with
  | some height => return { archive with bodies := archive.bodies.insert height body }
  | none => Outcome.fail (.noHeader hash)

def appendHeader (mode : Overflow) (archive : Archive A C) (header : Header) :
    Outcome Error (Archive A C) := do
  Outcome.ensure (header.prevSideHash = archive.getBestHash) .invalidPrevSideHash
  let newHeight ← mode.add32 archive.getHeight 1
  return { archive with
    headers := archive.headers.insert (toBeBytes newHeight) header
    hashToHeight := archive.hashToHeight.insert (header.hash (C := C)).hash (toBeBytes newHeight) }

end Archive

end Ddk

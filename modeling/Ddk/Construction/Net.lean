/-
This file gives the messages of two peers and one exchange on a stream.
-/

import Ddk.Construction.Types
import Ddk.Foundation.Outcome

namespace Ddk

open Foundation

namespace Net

inductive Error where
  | connection
  | readToEnd
  | write
  | bincode
  deriving DecidableEq

def readLimit : ℕ := 1024

/-- A message above the limit is an error. -/
def readToEnd (limit : ℕ) (data : List UInt8) : Outcome Error (List UInt8) := do
  Outcome.ensure (data.length ≤ limit) .readToEnd
  return data

end Net

inductive Request [Bitcoin] (A C : Type) where
  | getBlock (height : UInt32)
  | pushTransaction (transaction : AuthorizedTransaction A C)
  deriving DecidableEq

inductive Response [Bitcoin] (A C : Type) where
  | block (header : Header) (body : Body A C)
  | noBlock
  | transactionAccepted
  | transactionRejected
  deriving DecidableEq

structure PeerState where
  blockHeight : UInt32

/-- This class gives the `bincode` bytes of the messages. -/
class Wire [Bitcoin] (A C : Type) where
  encodeRequest : Request A C → List UInt8
  decodeRequest : List UInt8 → Option (Request A C)
  encodeResponse : Response A C → List UInt8
  decodeResponse : List UInt8 → Option (Response A C)

/-- The other end of a stream answers the written bytes with any bytes, or the stream fails. -/
abbrev Stream := List UInt8 → Except Net.Error (List UInt8)

namespace Peer

variable [Bitcoin] {A C : Type} [Wire A C]

/-- Bytes that are no message are an error. -/
def decoded {α : Type} (value : Option α) : Outcome Net.Error α :=
  match value with
  | some value => .ok value
  | none => Outcome.fail .bincode

def request (stream : Stream) (message : Request A C) : Outcome Net.Error (Response A C) := do
  let response ← (stream (Wire.encodeRequest message)).mapError .error
  let response ← Net.readToEnd Net.readLimit response
  decoded (Wire.decodeResponse response)

end Peer

end Ddk

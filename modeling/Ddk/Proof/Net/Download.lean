import Ddk.Construction.Reference
import Ddk.Proof.Node.Runs

namespace Ddk.Node

open Foundation

section

variable [Bitcoin] {A C S : Type} [CustomState S A C]
variable [GetValue C] [GetAddress A] [Verify A C] [Blake3] [Bincode C] [DecidableEq C] [Bs58]

/-- A block is accepted when the mainchain answers and each step of the commitment succeeds. -/
def Accepts (orders : Orders C) (mode : Overflow) (client : Drivechain.MainClient)
    (node : Node A C S)
    (header : Header) (body : Body A C) (next : Node A C S) : Prop :=
  ∃ twoWayPegData, getTwoWayPegData (S := S) (A := A) client header node.state.lastDepositBlock =
    .ok twoWayPegData ∧
    Committed orders mode node header body twoWayPegData next

/-- A call without interference succeeds exactly for an accepted block. -/
theorem submitBlock_eq_ok {orders : Orders C} {mode : Overflow} {client : Drivechain.MainClient}
    {node next : Node A C S} {header : Header} {body : Body A C} :
    node.submitBlock orders mode client header body = .ok next ↔
      Accepts orders mode client node header body next := by
  rw [submitBlock, Outcome.bind_eq_ok, Accepts]
  apply exists_congr
  intro twoWayPegData
  rw [commitBlock_eq_ok]

variable [Wire A C]

/-- The request for the next block has a reply, and a block in it is accepted. -/
def HandlesReply (orders : Orders C) (mode : Overflow) (client : Drivechain.MainClient)
    (node : Node A C S)
    (stream : Stream) : Prop :=
  ∃ response, Peer.request stream
      (Request.getBlock (A := A) (C := C) (node.archive.getHeight + 1)) = .ok response ∧
    ∀ header body, response = .block header body → ∃ next,
      Accepts orders mode client node header body next

/-- A reply changes the node only when it is an accepted block. -/
def KeepsOrAccepts (orders : Orders C) (mode : Overflow) (client : Drivechain.MainClient)
    (node : Node A C S)
    (stream : Stream) (next : Node A C S) : Prop :=
  next = node ∨ ∃ header body, Peer.request stream (Request.getBlock (node.archive.getHeight + 1)) =
    .ok (.block header body) ∧ Accepts orders mode client node header body next

/-- A peer with more blocks is asked for the next one, and each failure of the reply is a panic. -/
theorem requestMissingHeader_ahead (orders : Orders C) (mode : Overflow)
    (client : Drivechain.MainClient) (node : Node A C S) {peer : PeerState}
    (ahead : node.archive.getHeight < peer.blockHeight) (stream : Stream) :
    node.requestMissingHeader orders mode client (some peer) stream =
      match Peer.request stream
        (Request.getBlock (A := A) (C := C) (node.archive.getHeight + 1)) with
      | .error _ => Outcome.panicked
      | .ok (.block header body) => Outcome.unwrap (node.submitBlock orders mode client header body)
      | .ok _ => .ok node := by
  have room : node.archive.getHeight.toNat + 1 < 2 ^ 32 :=
    Nat.lt_of_le_of_lt (UInt32.lt_iff_toNat_lt.mp ahead) peer.blockHeight.toNat_lt
  have next : (mode.add32 node.archive.getHeight 1 : Outcome Empty UInt32) =
      .ok (node.archive.getHeight + 1) := by
    cases mode with
    | checked => exact Overflow.guard_checked_eq_ok.mpr ⟨decide_eq_true room, rfl⟩
    | wrapping => rfl
  unfold requestMissingHeader
  dsimp only
  rw [if_pos ahead, next]
  change
      (Outcome.unwrap (Peer.request stream
          (Request.getBlock (A := A) (C := C) (node.archive.getHeight + 1))) >>= _) = _
  cases Peer.request stream (Request.getBlock (A := A) (C := C) (node.archive.getHeight + 1)) with
  | error fault => rfl
  | ok response => cases response <;> rfl

/-- A peer without more blocks is not asked. -/
theorem requestMissingHeader_idle (orders : Orders C) (mode : Overflow)
    (client : Drivechain.MainClient) (node : Node A C S) {state : Option PeerState}
    (idle : ∀ peer, state = some peer → ¬ node.archive.getHeight < peer.blockHeight)
    (stream : Stream) :
    node.requestMissingHeader orders mode client state stream = .ok node := by
  cases state with
  | none => rfl
  | some peer =>
      unfold requestMissingHeader
      dsimp only
      rw [if_neg (idle peer rfl)]
      rfl

/-- A surviving download keeps the node or accepts the block of the reply. -/
theorem requestMissingHeader_keepsOrAccepts {orders : Orders C} {mode : Overflow}
    {client : Drivechain.MainClient} {node next : Node A C S} {state : Option PeerState}
    {stream : Stream}
    (survived : node.requestMissingHeader orders mode client state stream = .ok next) :
    KeepsOrAccepts orders mode client node stream next := by
  by_cases claimed : ∃ peer, state = some peer ∧ node.archive.getHeight < peer.blockHeight
  · obtain ⟨peer, rfl, ahead⟩ := claimed
    rw [requestMissingHeader_ahead orders mode client node ahead stream] at survived
    split at survived
    next => cases survived
    next header body replied =>
      rw [Outcome.unwrap_eq_ok, submitBlock_eq_ok] at survived
      exact .inr ⟨header, body, replied, survived⟩
    next => exact .inl (Except.ok.inj survived).symm
  · have idle : ∀ peer, state = some peer → ¬ node.archive.getHeight < peer.blockHeight :=
      fun peer same ahead => claimed ⟨peer, same, ahead⟩
    rw [requestMissingHeader_idle orders mode client node idle stream] at survived
    exact .inl (Except.ok.inj survived).symm

/-- The download survives exactly when no block is missing or the reply is handled. -/
theorem requestMissingHeader_survives_iff (orders : Orders C) (mode : Overflow)
    (client : Drivechain.MainClient) (node : Node A C S) (state : Option PeerState)
    (stream : Stream) :
    (∃ next, node.requestMissingHeader orders mode client state stream = .ok next ∧
        KeepsOrAccepts orders mode client node stream next) ↔
      ∀ peer, state = some peer → node.archive.getHeight < peer.blockHeight →
        HandlesReply orders mode client node stream := by
  constructor
  · intro success peer claimed ahead
    obtain ⟨next, survived, _⟩ := success
    rw [claimed, requestMissingHeader_ahead orders mode client node ahead stream] at survived
    split at survived
    next => cases survived
    next header body replied =>
      refine ⟨_, replied, fun other otherBody same => ?_⟩
      cases same
      exact ⟨next, submitBlock_eq_ok.mp (Outcome.unwrap_eq_ok.mp survived)⟩
    next response other replied =>
      exact ⟨response, replied, fun header body same => absurd same (other header body)⟩
  · intro handled
    by_cases claimed : ∃ peer, state = some peer ∧ node.archive.getHeight < peer.blockHeight
    · obtain ⟨peer, rfl, ahead⟩ := claimed
      obtain ⟨response, replied, accepts⟩ := handled peer rfl ahead
      have survives : ∃ next, node.requestMissingHeader orders mode client (some peer) stream =
          .ok next := by
        rw [requestMissingHeader_ahead orders mode client node ahead stream, replied]
        cases response with
        | block header body =>
            obtain ⟨next, accepted⟩ := accepts header body rfl
            exact ⟨next, Outcome.unwrap_eq_ok.mpr (submitBlock_eq_ok.mpr accepted)⟩
        | noBlock => exact ⟨node, rfl⟩
        | transactionAccepted => exact ⟨node, rfl⟩
        | transactionRejected => exact ⟨node, rfl⟩
      obtain ⟨next, survived⟩ := survives
      exact ⟨next, survived, requestMissingHeader_keepsOrAccepts survived⟩
    · have idle : ∀ peer, state = some peer → ¬ node.archive.getHeight < peer.blockHeight :=
        fun peer same ahead => claimed ⟨peer, same, ahead⟩
      exact ⟨node, requestMissingHeader_idle orders mode client node idle stream, .inl rfl⟩

end

section

open Reference

/-- A peer that claims a block and closes the stream ends the download. -/
theorem closed_stream_panics :
    ¬ ∀ (node : Node Authorization Unit Unit) (state : Option PeerState) (stream : Stream),
      ∃ next, node.requestMissingHeader orders .checked (client [] [] []) state stream = .ok next ∧
        KeepsOrAccepts orders .checked (client [] [] []) node stream next := by
  intro claim
  obtain ⟨next, survived, _⟩ := claim (Node.new ()) (some ⟨1⟩) fun _ => .error .connection
  cases survived

end

end Ddk.Node

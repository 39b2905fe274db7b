import Ddk.Proof.Node.Capacity

namespace Ddk

open Foundation

/-- A message is read exactly when it is within the limit. -/
theorem Net.readToEnd_eq_ok {limit : ℕ} {data read : List UInt8} :
    Net.readToEnd limit data = .ok read ↔ data.length ≤ limit ∧ data = read := by
  rw [Net.readToEnd, Outcome.bind_eq_ok]
  simp only [Outcome.ensure_eq_ok, Outcome.pure_eq_ok, exists_const]

section

variable [Bitcoin] {A C S : Type} [Wire A C]

/-- A decodable answer is received exactly when it is within the limit. -/
theorem Peer.request_eq_ok_iff {message : Request A C} {response : Response A C} {data : List UInt8}
    (decodes : Wire.decodeResponse data = some response) :
    Peer.request (fun _ => .ok data) message = .ok response ↔ data.length ≤ Net.readLimit := by
  have answered : Peer.request (fun _ => .ok data) message =
      (Net.readToEnd Net.readLimit data >>= fun read => Peer.decoded (Wire.decodeResponse read)) :=
        rfl
  rw [answered, Outcome.bind_eq_ok]
  constructor
  · intro received
    obtain ⟨read, fits, _⟩ := received
    exact (Net.readToEnd_eq_ok.mp fits).1
  · intro fits
    refine ⟨data, Net.readToEnd_eq_ok.mpr ⟨fits, rfl⟩, ?_⟩
    rw [decodes]
    rfl

variable [CustomState S A C]

/-- A decodable request is received exactly when it is within the limit. -/
theorem Node.readRequest_eq_ok_iff {message : Request A C} {data : List UInt8}
    (decodes : Wire.decodeRequest data = some message) :
    (Node.readRequest data : Node.Result S A C (Request A C)) = .ok message ↔
      data.length ≤ Net.readLimit := by
  rw [Node.readRequest, Outcome.bind_eq_ok]
  simp only [Outcome.convert_eq_ok, Net.readToEnd_eq_ok]
  constructor
  · intro received
    obtain ⟨read, ⟨fits, _⟩, _⟩ := received
    exact fits
  · intro fits
    refine ⟨data, ⟨fits, rfl⟩, ?_⟩
    rw [decodes]
    rfl

omit [Wire A C] [CustomState S A C] in
/-- A stored block is the answer to its height. -/
theorem Node.answerGetBlock_stored {node : Node A C S} {height : UInt32} {header : Header}
    {body : Body A C} (stored : node.archive.getHeader height = some header)
    (found : node.archive.getBody height = some body) :
    node.answerGetBlock height = .block header body := by
  rw [Node.answerGetBlock, stored, found]

variable [GetValue C] [GetAddress A] [Verify A C]

/-- Each stored block crosses the wire if `bincode` restores its answer. -/
def Node.BlockCrosses (node : Node A C S) (height : UInt32) (header : Header)
    (body : Body A C) : Prop :=
  Peer.request (fun _ => .ok (Wire.encodeResponse (node.answerGetBlock height)))
    (Request.getBlock (A := A) (C := C) height) = .ok (.block header body)

/-- A pushed transaction crosses the wire when the listening peer reads it. -/
def Node.TransactionCrosses (S : Type) [CustomState S A C]
    (transaction : AuthorizedTransaction A C) : Prop :=
  (Node.readRequest (Wire.encodeRequest (.pushTransaction transaction)) : Node.Result S A C
    (Request A C)) =
    .ok (.pushTransaction transaction)

/-- A block or a valid transaction crosses the wire exactly when its message is within the limit. -/
theorem Node.messages_cross_iff (mode : Overflow) (node : Node A C S) :
    (∀ (height : UInt32) (header : Header) (body : Body A C),
      node.archive.getHeader height = some header →
      node.archive.getBody height = some body →
      Wire.decodeResponse (Wire.encodeResponse (Response.block header body)) =
        some (.block header body) →
      (node.BlockCrosses height header body ↔
        (Wire.encodeResponse (Response.block header body)).length ≤ Net.readLimit)) ∧
    (∀ (transaction : AuthorizedTransaction A C) (fee : UInt64),
      node.validateTransaction mode transaction = .ok fee →
      Wire.decodeRequest (Wire.encodeRequest (Request.pushTransaction transaction)) =
        some (.pushTransaction transaction) →
      (Node.TransactionCrosses S transaction ↔
        (Wire.encodeRequest (Request.pushTransaction transaction)).length ≤ Net.readLimit)) := by
  constructor
  · intro height header body stored found decodes
    rw [BlockCrosses, answerGetBlock_stored stored found]
    exact Peer.request_eq_ok_iff decodes
  · intro transaction fee _ decodes
    exact readRequest_eq_ok_iff decodes

end

namespace Node

open Reference

/-- The first block of this node creates forty outputs. -/
def largeNode : Node Authorization Unit Unit := (worthlessBlock 40).next .checked (Node.new ())

/-- The node accepts and stores this block, and it accepts a transaction of the same size. -/
theorem largeNode_facts : (worthlessBlock 40).accepted .checked (Node.new ()) ∧
    largeNode.archive.getHeader 1 = some (worthlessHeader 40) ∧
    largeNode.archive.getBody 1 = some (worthlessBody 40) ∧
    largeNode.validateTransaction .checked ⟨worthless 40, []⟩ = .ok 0 := by
  decide +kernel

theorem largeNode_run : Run .checked [(worthlessBlock 40).receipt .checked (Node.new ())]
    largeNode :=
  (Run.new ()).submission (worthlessBlock 40) largeNode_facts.1

theorem largeNode_header : largeNode.archive.getHeader 1 = some (worthlessHeader 40) :=
  largeNode_facts.2.1

theorem largeNode_body : largeNode.archive.getBody 1 = some (worthlessBody 40) :=
  largeNode_facts.2.2.1

theorem largeNode_accepts :
    largeNode.validateTransaction .checked ⟨worthless 40, []⟩ = .ok 0 := largeNode_facts.2.2.2

theorem messages_cross_iff_large :
    (largeNode.BlockCrosses 1 (worthlessHeader 40) (worthlessBody 40) ↔
        (Wire.encodeResponse (Response.block (worthlessHeader 40) (worthlessBody 40))).length ≤
          Net.readLimit) ∧
      (TransactionCrosses Unit (⟨worthless 40, []⟩ : AuthorizedTransaction Authorization Unit) ↔
        (Wire.encodeRequest
          (Request.pushTransaction ⟨worthless 40, []⟩ : Request Authorization Unit)).length ≤
          Net.readLimit) := by
  obtain ⟨blocks, transactions⟩ := messages_cross_iff .checked largeNode
  exact ⟨blocks 1 _ _ largeNode_header largeNode_body (by decide +kernel),
    transactions _ 0 largeNode_accepts (by decide +kernel)⟩

/-- A block and a transaction with forty outputs do not cross the wire. -/
theorem large_messages_lost :
    (¬ ∀ (history : List (Receipt Authorization Unit)) (node : Node Authorization Unit Unit),
        Run .checked history node → ∀ (height : UInt32) (header : Header)
          (body : Body Authorization Unit),
        node.archive.getHeader height = some header → node.archive.getBody height = some body →
        Wire.decodeResponse (Wire.encodeResponse (Response.block header body)) =
          some (.block header body) →
        node.BlockCrosses height header body) ∧
      ¬ ∀ (history : List (Receipt Authorization Unit)) (node : Node Authorization Unit Unit),
        Run .checked history node → ∀ (transaction : AuthorizedTransaction Authorization Unit)
          (fee : UInt64),
        node.validateTransaction .checked transaction = .ok fee →
        Wire.decodeRequest (Wire.encodeRequest (Request.pushTransaction transaction)) =
          some (.pushTransaction transaction) →
        TransactionCrosses Unit transaction := by
  constructor
  · intro claim
    have crossed := claim _ largeNode largeNode_run 1 _ _ largeNode_header largeNode_body
      (by decide +kernel)
    rw [BlockCrosses, answerGetBlock_stored largeNode_header largeNode_body,
      Peer.request_eq_ok_iff (by decide +kernel)] at crossed
    exact absurd crossed (by decide +kernel)
  · intro claim
    have crossed := claim _ largeNode largeNode_run ⟨worthless 40, []⟩ 0 largeNode_accepts
      (by decide +kernel)
    rw [TransactionCrosses, readRequest_eq_ok_iff (by decide +kernel)] at crossed
    exact absurd crossed (by decide +kernel)

end Node

end Ddk

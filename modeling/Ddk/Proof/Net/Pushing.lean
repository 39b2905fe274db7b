import Ddk.Construction.Peers
import Ddk.Proof.MemPool.Marks

namespace Ddk

open Foundation

section

variable [Bitcoin] {A C : Type}

/-- A request to a peer does not panic. -/
theorem Peer.request_ne_panicked [Wire A C] (stream : Stream) (message : Request A C) :
    Peer.request stream message ≠ Outcome.panicked := by
  intro panics
  rcases Outcome.bind_eq_panicked.mp panics with failed | ⟨data, _, panics⟩
  · cases answer : stream (Wire.encodeRequest message) with
    | error error =>
        rw [answer] at failed
        cases failed
    | ok data =>
        rw [answer] at failed
        cases failed
  rcases Outcome.bind_eq_panicked.mp panics with failed | ⟨read, _, panics⟩
  · rcases Outcome.bind_eq_panicked.mp failed with limited | ⟨_, _, returned⟩
    · exact Outcome.ensure_ne_panicked.mp limited
    · cases returned
  · unfold decoded at panics
    cases decodes : (Wire.decodeResponse read : Option (Response A C)) with
    | none =>
        rw [decodes] at panics
        cases panics
    | some response =>
        rw [decodes] at panics
        cases panics

/-- The other end of a stream answers the push of a transaction. -/
def Answers [Wire A C] (stream : Stream) (transaction : AuthorizedTransaction A C) : Prop :=
  ∃ response, Peer.request stream (.pushTransaction transaction) = .ok response

variable [Blake3] [Bincode C]

/-- A put leaves a mempool exactly when it repeats a stored transaction without inputs. -/
theorem MemPool.put_eq_self {mempool : MemPool A C} {transaction : AuthorizedTransaction A C} :
    mempool.put transaction = .ok mempool ↔ transaction.transaction.inputs = [] ∧
      mempool.transactions[transaction.transaction.txid.hash]? = some transaction := by
  rw [put_eq_ok]
  constructor
  · intro stored
    obtain ⟨spentUtxos, marking, same⟩ := stored
    obtain ⟨_, unmarked⟩ := markInputs_nodup marking
    have marks : spentUtxos = mempool.spentUtxos := congrArg MemPool.spentUtxos same
    have entries : mempool.transactions.insert transaction.transaction.txid.hash transaction =
        mempool.transactions := congrArg MemPool.transactions same
    constructor
    · apply List.eq_nil_iff_forall_not_mem.mpr
      intro input used
      have mark := (markInputs_marks marking input).mpr (.inl used)
      rw [marks, unmarked input used] at mark
      cases mark
    · rw [← entries, Database.getElem?_put, if_pos rfl]
  · intro repeated
    obtain ⟨none, stored⟩ := repeated
    refine ⟨mempool.spentUtxos, by rw [none]; rfl, ?_⟩
    have same : mempool.transactions.insert transaction.transaction.txid.hash transaction =
        mempool.transactions := by
      apply Std.ExtTreeMap.ext_getElem?
      intro name
      rw [Database.getElem?_put]
      split
      next own => rw [own, stored]
      next => rfl
    rw [same]

namespace Node

variable {S : Type} [CustomState S A C] [Wire A C]

omit [Blake3] [Bincode C] in
/-- The push loop succeeds exactly when each peer answers. -/
theorem pushTransaction_eq_ok {transaction : AuthorizedTransaction A C}
    {peers : List (ℕ × Stream)} :
    (pushTransaction (S := S) transaction peers).2 = .ok () ↔
      ∀ peer ∈ peers, Answers peer.2 transaction := by
  induction peers with
  | nil => simp [pushTransaction]
  | cons peer peers ih =>
      rw [pushTransaction, List.forall_mem_cons, Answers]
      cases answer : Peer.request peer.2 (.pushTransaction transaction) with
      | error fault => simp [Outcome.convert, Except.mapError]
      | ok response => simp [Outcome.convert, Except.mapError, ih]

omit [Blake3] [Bincode C] in
/-- A successful push loop has reached each peer. -/
theorem pushTransaction_pushed {transaction : AuthorizedTransaction A C} {peers : List (ℕ × Stream)}
    (success : (pushTransaction (S := S) transaction peers).2 = .ok ()) :
    (pushTransaction (S := S) transaction peers).1 = peers.map (·.1) := by
  induction peers with
  | nil => rfl
  | cons peer peers ih =>
      rw [pushTransaction] at success ⊢
      cases answer : Peer.request peer.2 (.pushTransaction transaction) with
      | error fault =>
          rw [answer] at success
          cases success
      | ok response =>
          rw [answer] at success
          exact congrArg (peer.1 :: ·) (ih success)

omit [Blake3] [Bincode C] in
/-- The push loop does not panic. -/
theorem pushTransaction_ne_panicked {transaction : AuthorizedTransaction A C}
    {peers : List (ℕ × Stream)} :
    (pushTransaction (S := S) transaction peers).2 ≠ Outcome.panicked := by
  intro panics
  induction peers with
  | nil => cases panics
  | cons peer peers ih =>
      rw [pushTransaction] at panics
      cases answer : Peer.request peer.2 (.pushTransaction transaction) with
      | error fault =>
          rw [answer] at panics
          cases fault with
          | error error => cases panics
          | panic => exact Peer.request_ne_panicked _ _ answer
      | ok response =>
          rw [answer] at panics
          exact ih panics

variable [GetValue C] [GetAddress A] [Verify A C]

/-- An error leaves the mempool, and a success pools the transaction and pushes it to each peer. -/
structure FailsCleanly (node : Node A C S) (peers : HashMap ℕ Stream)
    (transaction : AuthorizedTransaction A C)
    (call : Submitted S A C) : Prop where
  unchanged : ∀ error, call.result = Outcome.fail error → call.node.mempool = node.mempool
  pooled : call.result = .ok () →
    call.node.mempool.transactions[transaction.transaction.txid.hash]? = some transaction
  pushed : call.result = .ok () → ∀ (id : ℕ) (stream : Stream), peers[id]? = some stream →
    id ∈ call.pushed

/-- The node admits a valid transaction whose inputs are distinct and not marked. -/
structure Admits (mode : Overflow) (node : Node A C S)
    (transaction : AuthorizedTransaction A C) : Prop where
  valid : ∃ fee, node.validateTransaction mode transaction = .ok fee
  distinct : transaction.transaction.inputs.Nodup
  unmarked : ∀ input ∈ transaction.transaction.inputs, node.mempool.spentUtxos[input]? = none

omit [Wire A C] in
/-- The write transaction commits exactly when the node admits the transaction. -/
theorem submitTransaction_succeeds_iff {mode : Overflow} {node : Node A C S}
    {transaction : AuthorizedTransaction A C} :
    (∃ next, node.submitTransaction mode transaction = .ok next) ↔
      node.Admits mode transaction := by
  simp only [submitTransaction_eq_ok, MemPool.put_eq_ok]
  constructor
  · intro submitted
    obtain ⟨_, fee, _, valid, ⟨marked, marking, _⟩, _⟩ := submitted
    obtain ⟨distinct, unmarked⟩ := MemPool.markInputs_nodup marking
    exact ⟨⟨fee, valid⟩, distinct, unmarked⟩
  · intro admits
    obtain ⟨fee, valid⟩ := admits.valid
    obtain ⟨marked, marking⟩ :=
      MemPool.markInputs_succeeds_iff.mpr ⟨admits.distinct, admits.unmarked⟩
    exact ⟨_, fee, _, valid, ⟨marked, marking, rfl⟩, rfl⟩

/-- A submission fails cleanly exactly when nothing is committed, each peer answers, or
the commit repeats an entry. -/
theorem submitTransaction_clean_iff (order : HashOrder ℕ Stream) (mode : Overflow)
    (peers : HashMap ℕ Stream) (node : Node A C S) (transaction : AuthorizedTransaction A C) :
    FailsCleanly node peers transaction
      (node.submitTransactionToPeers order mode peers transaction) ↔
      (node.Admits mode transaction →
        (∀ (id : ℕ) (stream : Stream), peers[id]? = some stream → Answers stream transaction) ∨
        transaction.transaction.inputs = [] ∧
          node.mempool.transactions[transaction.transaction.txid.hash]? = some transaction) := by
  have listed : (∀ (id : ℕ) (stream : Stream), peers[id]? = some stream →
      Answers stream transaction) ↔
      ∀ peer ∈ order.iter peers, Answers peer.2 transaction := by
    constructor
    · intro answered peer member
      exact answered peer.1 peer.2 (order.mem_iter.mp member)
    · intro answered id stream found
      exact answered (id, stream) (order.mem_iter.mpr found)
  rw [listed, ← submitTransaction_succeeds_iff, submitTransactionToPeers]
  cases submission : node.submitTransaction mode transaction with
  | error fault =>
      apply iff_of_true
      · constructor
        · intro error failed
          rfl
        · intro success
          cases success
        · intro success
          cases success
      · intro committed
        obtain ⟨next, success⟩ := committed
        cases success
  | ok next =>
      obtain ⟨fee, mempool, valid, stored, rfl⟩ := submitTransaction_eq_ok.mp submission
      constructor
      · intro clean _
        by_cases answered : ∀ peer ∈ order.iter peers, Answers peer.2 transaction
        · exact .inl answered
        · right
          cases result : (pushTransaction (S := S) transaction (order.iter peers)).2 with
          | ok done => exact absurd (pushTransaction_eq_ok.mp result) answered
          | error fault =>
              cases fault with
              | panic => exact absurd result pushTransaction_ne_panicked
              | error error =>
                  have same : mempool = node.mempool := clean.unchanged error result
                  rw [same] at stored
                  exact MemPool.put_eq_self.mp stored
      · intro condition
        have pooled : mempool.transactions[transaction.transaction.txid.hash]? =
            some transaction := by
          obtain ⟨_, _, same⟩ := MemPool.put_eq_ok.mp stored
          rw [← same, Database.getElem?_put, if_pos rfl]
        constructor
        · intro error failed
          rcases condition ⟨_, rfl⟩ with answered | repeated
          · have success := pushTransaction_eq_ok (S := S).mpr answered
            exact absurd (success.symm.trans failed) (by simp [Outcome.fail])
          · have kept := MemPool.put_eq_self.mpr repeated
            rw [stored] at kept
            exact Except.ok.inj kept
        · intro _
          exact pooled
        · intro success id stream found
          have reached : (pushTransaction (S := S) transaction (order.iter peers)).1 =
              (order.iter peers).map (·.1) := pushTransaction_pushed success
          change id ∈ (pushTransaction (S := S) transaction (order.iter peers)).1
          rw [reached]
          exact List.mem_map.mpr ⟨(id, stream), order.mem_iter.mpr found, rfl⟩

end Node

end

namespace Node

open Reference

/-- The connection to the only peer fails. -/
def unreachable : HashMap ℕ Stream := (∅ : HashMap ℕ Stream).insert 0 fun _ => .error .connection

def submitUnreachable : Submitted Unit Authorization Unit :=
  depositNode.submitTransactionToPeers .byKey .checked unreachable (authorize spendDeposit)

/-- The call returns the error of the connection, but the transaction stays in the mempool. -/
theorem error_after_commit :
    ¬ (∀ (order : HashOrder ℕ Stream) (mode : Overflow) (peers : HashMap ℕ Stream)
        (node : Node Authorization Unit Unit)
          (transaction : AuthorizedTransaction Authorization Unit),
        FailsCleanly node peers transaction
          (node.submitTransactionToPeers order mode peers transaction)) ∧
      submitUnreachable.result = Outcome.fail (.net .connection) ∧
      submitUnreachable.node.mempool.transactions[spendDeposit.txid.hash]?.isSome ∧
      depositNode.mempool.transactions[spendDeposit.txid.hash]? = none := by
  have failed : submitUnreachable.result = Outcome.fail (.net .connection) := by decide +kernel
  have pooled : submitUnreachable.node.mempool.transactions[spendDeposit.txid.hash]?.isSome := by
    decide +kernel
  have absent : depositNode.mempool.transactions[spendDeposit.txid.hash]?.isNone := by
    decide +kernel
  rw [Option.isNone_iff_eq_none] at absent
  refine ⟨fun claim => ?_, failed, pooled, absent⟩
  have clean : FailsCleanly depositNode unreachable (authorize spendDeposit) submitUnreachable :=
    claim .byKey .checked unreachable depositNode (authorize spendDeposit)
  rw [clean.unchanged _ failed, absent] at pooled
  cases pooled

end Node

end Ddk

import Ddk.Construction.Reference
import Ddk.Proof.Authorization.Alignment

namespace Ddk

open Foundation

/-- The reference batch call agrees with the reference single call. -/
theorem Reference.verifyBatch_exact : Authorization.VerifyBatchExact := by
  intro (triples : List (List UInt8 × (ℕ × List UInt8) × ℕ))
  have paired : (triples.map (·.2.2)).zip (triples.map (·.1)) = triples.map
      fun triple => (triple.2.2, triple.1) :=
    List.zip_map'
  unfold Ed25519.verifyBatch Ed25519.verify ed25519
  dsimp only
  simp only [paired, List.map_inj_left]
  simp

namespace Node

section

variable [Bitcoin] {A C S : Type} [CustomState S A C]
variable [GetValue C] [GetAddress A] [Verify A C]

/-- These facts hold exactly for accepted transactions. -/
structure ValidTransaction (mode : Overflow) (node : Node A C S)
    (transaction : AuthorizedTransaction A C)
    (filledTransaction : FilledTransaction C) (fee : UInt64) : Prop where
  filled : node.state.fillTransaction transaction.transaction = .ok filledTransaction
  addressed : ∀ pair ∈ transaction.authorizations.zip filledTransaction.spentUtxos,
    getAddress pair.1 = pair.2.address
  verified : (Verify.verifyTransaction transaction : Outcome (Verify.Error A C) Unit) = .ok ()
  custom : CustomState.validateFilledTransaction (A := A) node.customState
    node.archive.getHeight node.state
    filledTransaction = .ok ()
  valued : State.validateFilledTransaction mode filledTransaction = .ok fee

/-- The transaction check succeeds exactly for valid transactions. -/
theorem validateTransaction_eq_ok {mode : Overflow} {node : Node A C S}
    {transaction : AuthorizedTransaction A C} {fee : UInt64} :
    node.validateTransaction mode transaction = .ok fee ↔
      ∃ filledTransaction, ValidTransaction mode node transaction filledTransaction fee := by
  simp only [validateTransaction, State.checkAddresses, State.authorized, Outcome.bind_eq_ok,
    Outcome.convert_eq_ok, Outcome.ensure_eq_ok]
  constructor
  · rintro ⟨filledTransaction, filled, _, addressed, _, verified, _, custom, valued⟩
    exact ⟨filledTransaction, filled, addressed, verified, custom, valued⟩
  · rintro ⟨filledTransaction, filled, addressed, verified, custom, valued⟩
    exact ⟨filledTransaction, filled, (), addressed, (), verified, (), custom, valued⟩

end

section

variable [Bitcoin] [Blake3] [Ed25519] [Rayon] {C S : Type} [GetValue C] [Bincode C]
variable [CustomState S Authorization C]

/-- An accepted transaction is authorized exactly when no input lacks an authorization. -/
theorem validateTransaction_authorizesAll_iff (batch : Authorization.VerifyBatchExact)
    {mode : Overflow} {node : Node Authorization C S}
    {transaction : AuthorizedTransaction Authorization C} {fee : UInt64}
    (accepted : node.validateTransaction mode transaction = .ok fee) :
    node.state.AuthorizesAll transaction.authorizations [transaction.transaction] ↔
      transaction.authorizations.length = transaction.transaction.inputs.length := by
  obtain ⟨filledTransaction, valid⟩ := validateTransaction_eq_ok.mp accepted
  have signed := (Authorization.verifyAuthorizedTransaction_eq_ok batch transaction).mp
    valid.verified
  have filled :
      List.Forall₂ (fun transaction filled => node.state.fillTransaction transaction = .ok filled)
        [transaction.transaction] [filledTransaction] := .cons valid.filled .nil
  rw [State.authorizesAll_iff, State.aligned_iff filled]
  simp only [Authorization.spends, List.flatMap_cons, List.flatMap_nil, List.append_nil,
    List.length_map]
  constructor
  · exact And.right
  · intro same
    refine ⟨⟨valid.addressed, same.le, ?_⟩, same⟩
    intro pair member
    obtain ⟨authorized, spent⟩ := List.of_mem_zip member
    obtain ⟨input, _, spending⟩ := List.mem_map.mp spent
    rw [← spending]
    exact signed pair.1 authorized

/-- Accepted spends are authorized exactly when no input lacks an authorization. -/
theorem spends_authorized_iff (batch : Authorization.VerifyBatchExact) (mode : Overflow) :
    (∀ (state : State C) (body : Body Authorization C) (fees : UInt64),
      state.validateBody mode body = .ok fees →
      (state.AuthorizesAll body.authorizations body.transactions ↔
        body.authorizations.length = body.getInputs.length)) ∧
    (∀ (node : Node Authorization C S) (transaction : AuthorizedTransaction Authorization C)
      (fee : UInt64),
      node.validateTransaction mode transaction = .ok fee →
      (node.state.AuthorizesAll transaction.authorizations [transaction.transaction] ↔
        transaction.authorizations.length = transaction.transaction.inputs.length)) :=
  ⟨fun _ _ _ => State.validateBody_authorizesAll_iff batch,
    fun _ _ _ => validateTransaction_authorizesAll_iff batch⟩

end

section

open Reference

/-- The key 7 owns the only output. -/
def ownedCoin : State Unit :=
  { State.empty with
    utxos := Database.putAll ∅ [(.deposit ⟨1, 0⟩, ⟨Authorization.getAddress (7 : ℕ), .value 1⟩)] }

/-- This transaction moves the output to another address. -/
def theft : Transaction Unit := ⟨[.deposit ⟨1, 0⟩], [⟨⟨5⟩, .value 1⟩]⟩

def theftBody : Body Authorization Unit := ⟨[], [theft], []⟩

def ownedCoinNode : Node Authorization Unit Unit := { Node.new () with state := ownedCoin }

theorem spends_authorized_theft :
    (ownedCoin.AuthorizesAll theftBody.authorizations theftBody.transactions ↔
      theftBody.authorizations.length = theftBody.getInputs.length) ∧
    (ownedCoinNode.state.AuthorizesAll ([] : List Authorization) [theft] ↔
      ([] : List Authorization).length = theft.inputs.length) :=
  ⟨(spends_authorized_iff (S := Unit) verifyBatch_exact .wrapping).1 ownedCoin theftBody 0
    (by decide +kernel),
    (spends_authorized_iff (S := Unit) verifyBatch_exact .wrapping).2 ownedCoinNode ⟨theft, []⟩ 0
      (by decide +kernel)⟩

/-- No authorization at all passes both checks, so anyone can spend the output. -/
theorem spends_unauthorized :
    ¬ ((∀ (state : State Unit) (body : Body Authorization Unit) (fees : UInt64),
        state.validateBody .wrapping body = .ok fees →
        state.AuthorizesAll body.authorizations body.transactions) ∧
      ∀ (node : Node Authorization Unit Unit)
        (transaction : AuthorizedTransaction Authorization Unit)
        (fee : UInt64), node.validateTransaction .wrapping transaction = .ok fee →
        node.state.AuthorizesAll transaction.authorizations [transaction.transaction]) ∧
    ownedCoin.validateBody .wrapping theftBody = .ok 0 ∧
    ownedCoinNode.validateTransaction .wrapping ⟨theft, []⟩ = .ok 0 ∧
    ¬ ownedCoin.AuthorizesAll [] [theft] := by
  have accepted : ownedCoin.validateBody .wrapping theftBody = .ok 0 := by decide +kernel
  have relayed : ownedCoinNode.validateTransaction .wrapping ⟨theft, []⟩ = .ok 0 := by
    decide +kernel
  have unauthorized : ¬ ownedCoin.AuthorizesAll [] [theft] := by
    intro authorized
    have counted := (State.authorizesAll_iff.mp authorized).2
    simp [theft] at counted
  exact ⟨fun claim => unauthorized (claim.1 ownedCoin theftBody 0 accepted), accepted, relayed,
    unauthorized⟩

end

end Node

end Ddk

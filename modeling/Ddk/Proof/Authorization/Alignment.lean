import Ddk.Proof.Authorization.Verification
import Ddk.Proof.State.Validation

namespace Ddk.State

open Foundation

variable [Bitcoin] [Blake3] [Ed25519] {C : Type} [Bincode C]

/-- An authorization matches the address of the spent output and signs the spending transaction. -/
def Authorizes (state : State C) (authorization : Authorization)
    (spend : Transaction C × OutPoint) : Prop :=
  ∃ utxo, state.utxos[spend.2]? = some utxo ∧ getAddress authorization = utxo.address ∧
    authorization.Signs (Bincode.transaction spend.1)

/-- Each input has its own authorization at its own position. -/
def AuthorizesAll (state : State C) (authorizations : List Authorization)
    (transactions : List (Transaction C)) : Prop :=
  List.Forall₂ state.Authorizes authorizations (Authorization.spends transactions)

/-- The authorizations belong to a first part of the inputs. -/
structure Aligned (state : State C) (authorizations : List Authorization)
    (transactions : List (Transaction C)) : Prop where
  bounded : authorizations.length ≤ (Authorization.spends transactions).length
  paired : ∀ pair ∈ authorizations.zip (Authorization.spends transactions),
    state.Authorizes pair.1 pair.2

/-- Authorized lists stay authorized when they are concatenated. -/
theorem AuthorizesAll.append {state : State C} {first second : List Authorization}
    {transactions others : List (Transaction C)} (left : state.AuthorizesAll first transactions)
    (right : state.AuthorizesAll second others) :
    state.AuthorizesAll (first ++ second) (transactions ++ others) := by
  rw [AuthorizesAll, Authorization.spends, List.flatMap_append]
  exact List.rel_append left right

/-- Full authorization is alignment with one authorization for each input. -/
theorem authorizesAll_iff {state : State C} {authorizations : List Authorization}
    {transactions : List (Transaction C)} :
    state.AuthorizesAll authorizations transactions ↔
      state.Aligned authorizations transactions ∧
        authorizations.length = (transactions.flatMap (·.inputs)).length := by
  have counted : (Authorization.spends transactions).length =
      (transactions.flatMap (·.inputs)).length := by
    rw [← Authorization.spends_inputs, List.length_map]
  rw [AuthorizesAll, List.forall₂_iff_zip, counted]
  constructor
  · rintro ⟨same, paired⟩
    exact ⟨⟨by rw [counted, same], fun _ member => paired member⟩, same⟩
  · rintro ⟨aligned, same⟩
    exact ⟨same, fun member => aligned.paired _ member⟩

omit [Blake3] [Ed25519] [Bincode C] in
/-- The spent outputs of a filled body follow its inputs. -/
theorem spends_filled {state : State C} {transactions : List (Transaction C)}
    {filledTransactions : List (FilledTransaction C)}
    (filled : List.Forall₂ (fun transaction filled =>
      state.fillTransaction transaction = .ok filled)
      transactions filledTransactions) :
    List.Forall₂ (fun spend utxo => state.utxos[spend.2]? = some utxo)
      (Authorization.spends transactions) (filledTransactions.flatMap (·.spentUtxos)) := by
  induction filled with
  | nil => exact .nil
  | @cons transaction filled _ _ first _ ih =>
      have found := (fillTransaction_eq_ok.mp first).2
      rw [Authorization.spends, List.flatMap_cons, List.flatMap_cons]
      exact List.rel_append (List.forall₂_map_left_iff.mpr found) ih

/-- The address check and the signature check together decide alignment. -/
theorem aligned_iff {state : State C} {authorizations : List Authorization}
    {transactions : List (Transaction C)} {filledTransactions : List (FilledTransaction C)}
    (filled : List.Forall₂ (fun transaction filled =>
      state.fillTransaction transaction = .ok filled)
      transactions filledTransactions) :
    state.Aligned authorizations transactions ↔
      (∀ pair ∈ authorizations.zip (filledTransactions.flatMap (·.spentUtxos)),
        getAddress pair.1 = pair.2.address) ∧
      authorizations.length ≤ (Authorization.spends transactions).length ∧
      ∀ pair ∈ authorizations.zip (Authorization.spends transactions),
        pair.1.Signs (Bincode.transaction pair.2.1) := by
  have functional (spend : Transaction C × OutPoint) (first second : Output C)
      (left : state.utxos[spend.2]? = some first) (right : state.utxos[spend.2]? = some second) :
      first = second := Option.some.inj (left.symm.trans right)
  have addressed :=
    zip_related_iff (fun authorization utxo => getAddress authorization = utxo.address)
    (spends_filled filled) functional authorizations
  rw [addressed]
  constructor
  · rintro ⟨bounded, paired⟩
    refine ⟨?_, bounded, ?_⟩
    · intro pair member
      obtain ⟨utxo, found, address, _⟩ := paired pair member
      exact ⟨utxo, found, address⟩
    · intro pair member
      obtain ⟨_, _, _, signs⟩ := paired pair member
      exact signs
  · rintro ⟨addresses, bounded, signed⟩
    refine ⟨bounded, ?_⟩
    intro pair member
    obtain ⟨utxo, found, address⟩ := addresses pair member
    exact ⟨utxo, found, address, signed pair member⟩

/-- The body checks accept exactly aligned authorizations. -/
theorem aligned_body_iff [Rayon] (batch : Authorization.VerifyBatchExact) {state : State C}
    (body : Body Authorization C) {filledTransactions : List (FilledTransaction C)}
    (filled : List.Forall₂ (fun transaction filled =>
      state.fillTransaction transaction = .ok filled)
      body.transactions filledTransactions) :
    state.Aligned body.authorizations body.transactions ↔
      (∀ pair ∈ body.authorizations.zip (filledTransactions.flatMap (·.spentUtxos)),
        getAddress pair.1 = pair.2.address) ∧
      Authorization.verifyAuthorizations body = .ok () := by
  rw [aligned_iff filled, Authorization.verifyAuthorizations_eq_ok batch,
    Authorization.inputMessages_eq, List.length_map, List.zip_map_right]
  simp only [List.forall_mem_map, Prod.map_fst, Prod.map_snd, id_eq]

/-- An accepted body is authorized exactly when no input lacks an authorization. -/
theorem validateBody_authorizesAll_iff [GetValue C] [Rayon] (batch : Authorization.VerifyBatchExact)
    {mode : Overflow} {state : State C} {body : Body Authorization C} {fees : UInt64}
    (accepted : state.validateBody mode body = .ok fees) :
    state.AuthorizesAll body.authorizations body.transactions ↔
      body.authorizations.length = body.getInputs.length := by
  obtain ⟨filledTransactions, valid⟩ := validateBody_eq_ok.mp accepted
  have aligned := (aligned_body_iff batch body valid.filled).mpr ⟨valid.addressed, valid.verified⟩
  rw [authorizesAll_iff]
  exact ⟨And.right, fun same => ⟨aligned, same⟩⟩

end Ddk.State

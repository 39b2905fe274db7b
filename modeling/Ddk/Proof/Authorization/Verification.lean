import Ddk.Construction.Authorization
import Ddk.Foundation.Lists

namespace Ddk.Authorization

open Foundation

/-- The batch call agrees with the single call on lists of equal length. -/
def VerifyBatchExact [Ed25519] : Prop :=
  ∀ triples : List (List UInt8 × Ed25519.Signature × Ed25519.PublicKey),
    Ed25519.verifyBatch (triples.map (·.1)) (triples.map (·.2.1)) (triples.map (·.2.2)) = .ok () ↔
      ∀ triple ∈ triples, Ed25519.verify triple.2.2 triple.1 triple.2.1 = .ok ()

/-- The signature of an authorization verifies on a message. -/
def Signs [Ed25519] (authorization : Authorization) (message : List UInt8) : Prop :=
  Ed25519.verify authorization.publicKey message authorization.signature = .ok ()

section

variable [Ed25519]

/-- The packages hold one signature for each pair. -/
theorem signatures_ofPairs (slices : List (List (Authorization × List UInt8))) :
    ((slices.map Package.ofPairs).map (·.signatures.length)).sum = slices.flatten.length := by
  rw [List.length_flatten, List.map_map]
  simp [Package.ofPairs, Function.comp_def]

/-- A package verifies exactly when each of its signatures verifies. -/
theorem Package.verify_ofPairs (batch : VerifyBatchExact)
    (pairs : List (Authorization × List UInt8)) :
    (Package.ofPairs pairs).verify = .ok () ↔ ∀ pair ∈ pairs, Signs pair.1 pair.2 := by
  have exact := batch (pairs.map fun pair => (pair.2, pair.1.signature, pair.1.publicKey))
  simp only [List.map_map, List.forall_mem_map, Function.comp_def] at exact
  unfold Package.verify Package.ofPairs Signs
  rw [← exact]
  cases Ed25519.verifyBatch _ _ _ <;> simp [Except.mapError]

end

section

variable [Bitcoin] {C : Type}

/-- Each input of a transaction list spends on behalf of its transaction. -/
def spends (transactions : List (Transaction C)) : List (Transaction C × OutPoint) :=
  transactions.flatMap fun transaction => transaction.inputs.map fun input => (transaction, input)

theorem spends_inputs (transactions : List (Transaction C)) :
    (spends transactions).map (·.2) = transactions.flatMap (·.inputs) := by
  simp [spends, List.map_flatMap, Function.comp_def]

variable [Bincode C] [Ed25519]

/-- A transaction verifies exactly when each of its signatures verifies on its bytes. -/
theorem verifyAuthorizedTransaction_eq_ok (batch : VerifyBatchExact)
    (transaction : AuthorizedTransaction Authorization C) :
    verifyAuthorizedTransaction transaction = .ok () ↔
      ∀ authorization ∈ transaction.authorizations,
        Signs authorization (Bincode.transaction transaction.transaction) := by
  let message := Bincode.transaction transaction.transaction
  have packaged : verifyAuthorizedTransaction transaction =
      (Package.ofPairs (transaction.authorizations.map fun authorization =>
          (authorization, message))).verify := by
    simp [verifyAuthorizedTransaction, Package.ofPairs, message, Function.comp_def, List.map_const']
  rw [packaged, Package.verify_ofPairs batch, List.forall_mem_map]

/-- The messages repeat the bytes of a transaction once for each of its inputs. -/
theorem inputMessages_eq (body : Body Authorization C) :
    inputMessages body = (spends body.transactions).map fun spend =>
      Bincode.transaction spend.1 := by
  unfold inputMessages spends
  induction body.transactions with
  | nil => rfl
  | cons transaction transactions ih =>
      simp only [List.map_cons, List.zip_cons_cons, List.flatMap_cons, List.map_append, ih]
      simp [Function.comp_def, List.map_const']

/-- The packages verify exactly when no authorization is left over and each pair verifies. -/
theorem verifyAuthorizations_eq_ok [Rayon] (batch : VerifyBatchExact)
    (body : Body Authorization C) :
    verifyAuthorizations body = .ok () ↔
      body.authorizations.length ≤ (inputMessages body).length ∧
        ∀ pair ∈ body.authorizations.zip (inputMessages body), Signs pair.1 pair.2 := by
  let pairs := body.authorizations.zip (inputMessages body)
  have counted (slices : List (List (Authorization × List UInt8))) (flat : slices.flatten = pairs) :
      ((slices.map Package.ofPairs).map (·.signatures.length)).sum = pairs.length := by
    rw [signatures_ofPairs, flat]
  have verified (slices : List (List (Authorization × List UInt8)))
      (flat : slices.flatten = pairs) :
      (∃ results, (slices.map Package.ofPairs).mapM Package.verify = .ok results) ↔
        ∀ pair ∈ pairs, Signs pair.1 pair.2 := by
    rw [← flat]
    simp only [List.mem_flatten]
    constructor
    · rintro ⟨results, success⟩ pair ⟨slice, member, inside⟩
      have each := Outcome.mapM_eq_ok.mp success
      rw [List.forall₂_map_left_iff] at each
      obtain ⟨done, _, reached⟩ := forall₂_mem_left each member
      exact (Package.verify_ofPairs batch slice).mp reached pair inside
    · intro each
      refine ⟨slices.map fun _ => (), Outcome.mapM_eq_ok.mpr ?_⟩
      rw [List.forall₂_map_left_iff, List.forall₂_map_right_iff, List.forall₂_same]
      intro slice member
      exact (Package.verify_ofPairs batch slice).mpr fun pair inside =>
        each pair ⟨slice, member, inside⟩
  have paired : pairs.length = min body.authorizations.length (inputMessages body).length :=
    List.length_zip
  constructor
  · intro success
    obtain ⟨slices, packaged, success⟩ := Outcome.bind_eq_ok.mp success
    obtain ⟨_, flat⟩ := package_eq_ok Rayon.positive packaged
    dsimp only at success
    rw [counted slices flat] at success
    split at success
    next => simp [Outcome.panicked] at success
    next balanced =>
      obtain ⟨results, each, _⟩ := Outcome.bind_eq_ok.mp success
      exact ⟨by omega, (verified slices flat).mp ⟨results, each⟩⟩
  · rintro ⟨enough, each⟩
    have fits : Rayon.currentNumThreads * (body.authorizations.length / Rayon.currentNumThreads) ≤
        pairs.length := by
      have quotient := Nat.mul_div_le body.authorizations.length Rayon.currentNumThreads
      omega
    obtain ⟨slices, packaged, _, flat⟩ := package_flatten (ε := Error) Rayon.positive fits
    obtain ⟨results, success⟩ := (verified slices flat).mpr each
    have balanced : pairs.length = body.authorizations.length := by omega
    rw [verifyAuthorizations, Outcome.bind_eq_ok]
    refine ⟨slices, packaged, ?_⟩
    dsimp only
    rw [counted slices flat, if_neg (not_not.mpr balanced), Outcome.bind_eq_ok]
    exact ⟨results, success, rfl⟩

end

end Ddk.Authorization

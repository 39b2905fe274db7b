import Ddk.Proof.Node.Authorization

namespace Ddk.Authorization

open Foundation

section

variable [Ed25519]

/-- A package fails with the error of the signature library. -/
theorem Package.verify_eq_error {package : Package} {fault : Fault Error}
    (failed : package.verify = .error fault) : fault = .error (.dalekError .invalid) := by
  unfold Package.verify at failed
  cases checked : Ed25519.verifyBatch package.messages package.signatures package.publicKeys with
  | ok =>
      rw [checked] at failed
      cases failed
  | error error =>
      rw [checked] at failed
      cases error
      cases failed
      rfl

end

section

variable [Bitcoin] [Ed25519] {C : Type} [Bincode C]

/-- There is one message for each input. -/
theorem inputMessages_length (body : Body Authorization C) :
    (inputMessages body).length = body.getInputs.length := by
  rw [inputMessages_eq, List.length_map, Body.getInputs, ← spends_inputs, List.length_map]

variable [Rayon]

/-- Each slice lies in the list of pairs, and the packages have one signature per authorization. -/
structure Packaged (body : Body Authorization C) : Prop where
  sliced : ∀ index < Rayon.currentNumThreads,
    (index + 1) * (body.authorizations.length / Rayon.currentNumThreads) ≤
      (body.authorizations.zip (inputMessages body)).length
  remainder : Rayon.currentNumThreads * (body.authorizations.length / Rayon.currentNumThreads) ≤
    (body.authorizations.zip (inputMessages body)).length
  asserted : ∀ slices,
    (package (body.authorizations.zip (inputMessages body)) Rayon.currentNumThreads
      (body.authorizations.length / Rayon.currentNumThreads) : Outcome Error _) = .ok slices →
    ((slices.map Package.ofPairs).map (·.signatures.length)).sum = body.authorizations.length

/-- A body without surplus authorizations is packaged whole, and its packages decide the result. -/
theorem verifyAuthorizations_packages {body : Body Authorization C}
    (enough : body.authorizations.length ≤ body.getInputs.length) :
    ∃ slices, (package (body.authorizations.zip (inputMessages body)) Rayon.currentNumThreads
        (body.authorizations.length / Rayon.currentNumThreads) : Outcome Error _) = .ok slices ∧
      slices.length = Rayon.currentNumThreads ∧
      slices.flatten = body.authorizations.zip (inputMessages body) ∧
      verifyAuthorizations body = (slices.map Package.ofPairs).mapM Package.verify >>=
        fun _ => pure () := by
  have paired : (body.authorizations.zip (inputMessages body)).length =
      body.authorizations.length := by
    rw [List.length_zip, inputMessages_length]
    exact Nat.min_eq_left enough
  have fits : Rayon.currentNumThreads * (body.authorizations.length / Rayon.currentNumThreads) ≤
      (body.authorizations.zip (inputMessages body)).length := by
    rw [paired]
    exact Nat.mul_div_le _ _
  obtain ⟨slices, packaged, count, flat⟩ := package_flatten (ε := Error) Rayon.positive fits
  refine ⟨slices, packaged, count, flat, ?_⟩
  have balanced : ((slices.map Package.ofPairs).map (·.signatures.length)).sum =
      body.authorizations.length := by
    rw [signatures_ofPairs, flat, paired]
  unfold verifyAuthorizations
  dsimp only
  rw [packaged]
  change (if _ then _ else _) = _
  rw [if_neg (not_not.mpr balanced)]

/-- A body without surplus authorizations verifies or fails with the error of the library. -/
theorem verifyAuthorizations_cases {body : Body Authorization C}
    (enough : body.authorizations.length ≤ body.getInputs.length) :
    verifyAuthorizations body = .ok () ∨ verifyAuthorizations body =
      Outcome.fail (.dalekError .invalid) := by
  obtain ⟨slices, _, _, _, result⟩ := verifyAuthorizations_packages enough
  rw [result]
  cases verified : (slices.map Package.ofPairs).mapM Package.verify with
  | ok results => exact .inl rfl
  | error fault =>
      obtain ⟨package, _, failed⟩ := Outcome.mapM_eq_error verified
      rw [Package.verify_eq_error failed]
      exact .inr rfl

/-- A body with surplus authorizations panics. -/
theorem verifyAuthorizations_surplus {body : Body Authorization C}
    (surplus : body.getInputs.length < body.authorizations.length) :
    verifyAuthorizations body = Outcome.panicked := by
  unfold verifyAuthorizations
  dsimp only
  cases packaged : (package (body.authorizations.zip (inputMessages body)) Rayon.currentNumThreads
      (body.authorizations.length / Rayon.currentNumThreads) : Outcome Error _) with
  | error fault =>
      rw [package_eq_error packaged]
      rfl
  | ok slices =>
      have unbalanced : ((slices.map Package.ofPairs).map (·.signatures.length)).sum ≠
          body.authorizations.length := by
        rw [signatures_ofPairs, (package_eq_ok Rayon.positive packaged).2, List.length_zip,
          inputMessages_length]
        omega
      change (if _ then _ else _) = _
      rw [if_pos unbalanced]

/-- The verification keeps its bounds and does not panic exactly without surplus authorizations. -/
theorem verifyAuthorizations_safe_iff (body : Body Authorization C) :
    (Packaged body ↔ body.authorizations.length ≤ body.getInputs.length) ∧
      (verifyAuthorizations body ≠ Outcome.panicked ↔
        body.authorizations.length ≤ body.getInputs.length) := by
  constructor
  · constructor
    · intro packaged
      obtain ⟨slices, success, _, flat⟩ :=
          package_flatten (ε := Error) Rayon.positive packaged.remainder
      have balanced := packaged.asserted slices success
      rw [signatures_ofPairs, flat, List.length_zip, inputMessages_length] at balanced
      omega
    · intro enough
      have paired : (body.authorizations.zip (inputMessages body)).length =
          body.authorizations.length := by
        rw [List.length_zip, inputMessages_length]
        exact Nat.min_eq_left enough
      have quotient := Nat.mul_div_le body.authorizations.length Rayon.currentNumThreads
      constructor
      · intro index inside
        rw [paired]
        exact (Nat.mul_le_mul_right _ inside).trans quotient
      · rw [paired]
        exact quotient
      · intro slices success
        rw [signatures_ofPairs, (package_eq_ok Rayon.positive success).2, paired]
  · constructor
    · intro calm
      by_contra surplus
      exact calm (verifyAuthorizations_surplus (Nat.lt_of_not_le surplus))
    · intro enough panics
      rcases verifyAuthorizations_cases enough with verified | failed
      · rw [verified] at panics
        cases panics
      · rw [failed] at panics
        cases panics

omit [Rayon] in
/-- The pairs of a new body join each authorization with the bytes of its transaction. -/
theorem pairs_new {transactions : List (AuthorizedTransaction Authorization C)}
    (coinbase : List (Output C))
    (counted : ∀ transaction ∈ transactions,
      transaction.authorizations.length = transaction.transaction.inputs.length) :
    (Body.new transactions coinbase).authorizations.zip
      (inputMessages (Body.new transactions coinbase)) =
      transactions.flatMap fun transaction => transaction.authorizations.map fun authorization =>
        (authorization, Bincode.transaction transaction.transaction) := by
  rw [inputMessages_eq]
  change (transactions.flatMap (·.authorizations)).zip
    ((spends (transactions.map (·.transaction))).map fun spend => Bincode.transaction spend.1) = _
  induction transactions with
  | nil => rfl
  | cons transaction transactions ih =>
      have same := counted transaction List.mem_cons_self
      have messages : (spends [transaction.transaction]).map
          (fun spend => Bincode.transaction spend.1) =
          List.replicate transaction.authorizations.length
              (Bincode.transaction transaction.transaction) := by
        simp [spends, Function.comp_def, List.map_const', same]
      have split : spends ((transaction :: transactions).map (·.transaction)) =
          spends [transaction.transaction] ++ spends (transactions.map (·.transaction)) := by
        simp [spends]
      rw [split, List.map_append, messages, List.flatMap_cons, List.flatMap_cons,
        List.zip_append (by rw [List.length_replicate]),
        ih fun later member => counted later (List.mem_cons_of_mem _ member)]
      rw [← List.map_const', ← List.map_prod_left_eq_zip]

/-- The threads verify a new body exactly when each transaction verifies, for any number of them. -/
theorem verifyAuthorizations_new (batch : VerifyBatchExact)
    (transactions : List (AuthorizedTransaction Authorization C)) (coinbase : List (Output C))
    (counted : ∀ transaction ∈ transactions,
      transaction.authorizations.length = transaction.transaction.inputs.length) :
    (∃ slices, (package ((Body.new transactions coinbase).authorizations.zip
          (inputMessages (Body.new transactions coinbase))) Rayon.currentNumThreads
          ((Body.new transactions coinbase).authorizations.length / Rayon.currentNumThreads) :
            Outcome Error _) =
            .ok slices ∧ slices.length = Rayon.currentNumThreads ∧
        slices.flatten = transactions.flatMap fun transaction => transaction.authorizations.map
          fun authorization =>
          (authorization, Bincode.transaction transaction.transaction)) ∧
      verifyAuthorizations (Body.new transactions coinbase) ≠ Outcome.panicked ∧
      (verifyAuthorizations (Body.new transactions coinbase) = .ok () ↔
        ∀ transaction ∈ transactions, verifyAuthorizedTransaction transaction = .ok ()) ∧
      ∀ first second : Rayon, @verifyAuthorizations _ _ _ _ first (Body.new transactions coinbase) =
        @verifyAuthorizations _ _ _ _ second (Body.new transactions coinbase) := by
  have pairs := pairs_new coinbase counted
  have enough : (Body.new transactions coinbase).authorizations.length ≤
      (Body.new transactions coinbase).getInputs.length := by
    have sizes : ∀ listed : List (AuthorizedTransaction Authorization C), (∀ transaction ∈ listed,
        transaction.authorizations.length = transaction.transaction.inputs.length) →
        (listed.flatMap (·.authorizations)).length =
          ((listed.map (·.transaction)).flatMap (·.inputs)).length := by
      intro listed each
      rw [List.length_flatMap, List.length_flatMap, List.map_map]
      exact congrArg List.sum (List.map_congr_left each)
    exact (sizes transactions counted).le
  have decided : ∀ threads : Rayon, @verifyAuthorizations _ _ _ _ threads
      (Body.new transactions coinbase) = .ok () ↔
      ∀ transaction ∈ transactions, verifyAuthorizedTransaction transaction = .ok () := by
    intro threads
    rw [verifyAuthorizations_eq_ok batch, pairs, inputMessages_length, and_iff_right enough]
    simp only [verifyAuthorizedTransaction_eq_ok batch, List.forall_mem_flatMap,
      List.forall_mem_map]
  obtain ⟨slices, packaged, count, flat, _⟩ := verifyAuthorizations_packages enough
  refine ⟨⟨slices, packaged, count, flat.trans pairs⟩,
    (verifyAuthorizations_safe_iff _).2.mpr enough,
    decided inferInstance, ?_⟩
  have results := fun threads : Rayon => @verifyAuthorizations_cases _ _ _ _ threads _ enough
  intro first second
  rcases results first with verified | failed
  · rw [verified, (decided second).mpr ((decided first).mp verified)]
  · rcases results second with verified | same
    · have wrong := (decided first).mpr ((decided second).mp verified)
      rw [failed] at wrong
      cases wrong
    · rw [failed, same]

end

section

open Reference

/-- Two transactions with one input each give the two threads one pair each. -/
def signedPair : List (AuthorizedTransaction Authorization Unit) :=
  [authorize ⟨[.deposit ⟨1, 0⟩], []⟩, authorize ⟨[.deposit ⟨2, 0⟩], []⟩]

theorem verifyAuthorizations_new_pair :
    verifyAuthorizations (Body.new signedPair []) = .ok () ↔
      ∀ transaction ∈ signedPair, verifyAuthorizedTransaction transaction = .ok () :=
  (verifyAuthorizations_new verifyBatch_exact signedPair [] (by decide +kernel)).2.2.1

/-- This body carries one authorization and no transaction. -/
def surplusBody : Body Authorization Unit := ⟨[], [], [⟨(7 : ℕ), ((7 : ℕ), [])⟩]⟩

/-- A surplus authorization is never packaged, so the assertion fails. -/
theorem surplus_panics :
    (¬ ∀ body : Body Authorization Unit, Packaged body ∧
      verifyAuthorizations body ≠ Outcome.panicked) ∧
      verifyAuthorizations surplusBody = Outcome.panicked := by
  have panics : verifyAuthorizations surplusBody = Outcome.panicked := by decide +kernel
  exact ⟨fun claim => (claim surplusBody).2 panics, panics⟩

end

end Ddk.Authorization

import Ddk.Construction.State

namespace Ddk.State

open Foundation

variable [Bitcoin] {A C : Type}

@[simp] theorem getUtxo_eq_ok {state : State C} {input : OutPoint} {utxo : Output C} :
    state.getUtxo input = .ok utxo ↔ state.utxos[input]? = some utxo := by
  unfold getUtxo
  cases state.utxos[input]? <;> simp

/-- Filling succeeds exactly when each input names the output that it returns. -/
theorem fillTransaction_eq_ok {state : State C} {transaction : Transaction C}
    {filled : FilledTransaction C} :
    state.fillTransaction transaction = .ok filled ↔
      filled.transaction = transaction ∧
        List.Forall₂ (fun input utxo => state.utxos[input]? = some utxo)
          transaction.inputs filled.spentUtxos := by
  rw [fillTransaction, Outcome.bind_eq_ok]
  simp only [Outcome.mapM_eq_ok, Outcome.pure_eq_ok, getUtxo_eq_ok]
  constructor
  · rintro ⟨spentUtxos, found, rfl⟩
    exact ⟨rfl, found⟩
  · rintro ⟨rfl, found⟩
    exact ⟨filled.spentUtxos, found, rfl⟩

/-- The value check succeeds exactly when the accumulated outputs fit the accumulated inputs. -/
theorem validateFilledTransaction_eq_ok [GetValue C] {mode : Overflow}
    {transaction : FilledTransaction C} {fee : UInt64} :
    validateFilledTransaction mode transaction = .ok fee ↔
      ∃ valueIn valueOut : UInt64,
        (mode.sum (transaction.spentUtxos.map getValue) : Outcome Error UInt64) = .ok valueIn ∧
        (mode.sum (transaction.transaction.outputs.map getValue) : Outcome Error UInt64) =
          .ok valueOut ∧
        valueOut ≤ valueIn ∧ valueIn - valueOut = fee := by
  simp only [validateFilledTransaction, Outcome.bind_eq_ok, Outcome.ensure_eq_ok,
    Outcome.pure_eq_ok]
  constructor
  · rintro ⟨valueIn, sumIn, valueOut, sumOut, _, enough, same⟩
    exact ⟨valueIn, valueOut, sumIn, sumOut, enough, same⟩
  · rintro ⟨valueIn, valueOut, sumIn, sumOut, enough, same⟩
    exact ⟨valueIn, sumIn, valueOut, sumOut, (), enough, same⟩

/-- The integer sum of the spent values does not wrap. -/
def valueIn [GetValue C] (transaction : FilledTransaction C) : ℕ :=
  Overflow.exactSum (transaction.spentUtxos.map getValue)

/-- The integer sum of the created values does not wrap. -/
def valueOut [GetValue C] (transaction : FilledTransaction C) : ℕ :=
  Overflow.exactSum (transaction.transaction.outputs.map getValue)

/-- A checked value check balances the integers. -/
theorem validateFilledTransaction_checked [GetValue C] {transaction : FilledTransaction C}
    {fee : UInt64} (success : validateFilledTransaction .checked transaction = .ok fee) :
    valueOut transaction + fee.toNat = valueIn transaction := by
  obtain ⟨sumIn, sumOut, reachedIn, reachedOut, enough, rfl⟩ :=
    validateFilledTransaction_eq_ok.mp success
  have ordered := UInt64.le_iff_toNat_le.mp enough
  rw [valueIn, valueOut, ← Overflow.sum_checked.mp reachedIn, ← Overflow.sum_checked.mp reachedOut,
    UInt64.toNat_sub_of_le _ _ enough]
  omega

omit [Bitcoin] in
/-- The inner loop accepts exactly the inputs that are new and distinct. -/
theorem spendInputs_eq_ok {spent result : Finset OutPoint} {inputs : List OutPoint} :
    spendInputs spent inputs = .ok result ↔
      inputs.Nodup ∧ (∀ input ∈ inputs, input ∉ spent) ∧ result = spent ∪ inputs.toFinset := by
  induction inputs generalizing spent with
  | nil =>
      simp only [spendInputs, Outcome.pure_eq_ok]
      simp [eq_comm]
  | cons input inputs ih =>
      rw [spendInputs]
      split
      next seen => simp [seen]
      next new =>
        rw [ih, List.nodup_cons, List.toFinset_cons, Finset.insert_union, Finset.union_insert]
        simp only [Finset.mem_insert, not_or, List.mem_cons, forall_eq_or_imp]
        constructor
        · rintro ⟨distinct, fresh, same⟩
          exact ⟨⟨fun member => (fresh input member).1 rfl, distinct⟩,
            ⟨new, fun other member => (fresh other member).2⟩, same⟩
        · rintro ⟨⟨absent, distinct⟩, ⟨_, fresh⟩, same⟩
          exact ⟨distinct, fun other member =>
            ⟨fun equal => absent (equal ▸ member), fresh other member⟩, same⟩

/-- The inputs of filled transactions form one list. -/
def filledInputs (filledTransactions : List (FilledTransaction C)) : List OutPoint :=
  filledTransactions.flatMap fun filled => filled.transaction.inputs

/-- The outer loop accepts exactly distinct inputs and adds the fees of the value checks. -/
theorem sumFees_eq_ok [GetValue C] {mode : Overflow} {spent : Finset OutPoint} {start fees : UInt64}
    {filledTransactions : List (FilledTransaction C)} :
    sumFees mode spent start filledTransactions = .ok fees ↔
      (filledInputs filledTransactions).Nodup ∧
        (∀ input ∈ filledInputs filledTransactions, input ∉ spent) ∧
        ∃ feeList, List.Forall₂ (fun filled fee => validateFilledTransaction mode filled = .ok fee)
            filledTransactions feeList ∧
          feeList.foldlM (mode.add : UInt64 → UInt64 → Outcome Error UInt64) start = .ok fees := by
  induction filledTransactions generalizing spent start with
  | nil =>
      simp only [sumFees, Outcome.pure_eq_ok]
      simp [filledInputs]
  | cons filled filledTransactions ih =>
      simp only [sumFees, Outcome.bind_eq_ok, spendInputs_eq_ok, ih]
      simp only [filledInputs, List.flatMap_cons, List.nodup_append, List.mem_append]
      constructor
      · rintro ⟨_, ⟨distinct, fresh, rfl⟩, fee, valid, total, added, laterDistinct, laterFresh,
          feeList, laterValid, sum⟩
        refine ⟨⟨distinct, laterDistinct, ?_⟩, ?_, fee :: feeList, .cons valid laterValid, ?_⟩
        · rintro input member other later rfl
          exact laterFresh input later (by simp [member])
        · rintro input (member | later)
          · exact fresh input member
          · intro seen
            exact laterFresh input later (by simp [seen])
        · rw [List.foldlM_cons, added]
          exact sum
      · rintro ⟨⟨distinct, laterDistinct, apart⟩, fresh, feeList, valid, sum⟩
        obtain ⟨fee, rest, first, laterValid, rfl⟩ := List.forall₂_cons_left_iff.mp valid
        obtain ⟨total, added, laterSum⟩ := Outcome.bind_eq_ok.mp sum
        refine ⟨_, ⟨distinct, fun input member => fresh input (.inl member), rfl⟩, fee, first,
          total, added,
          laterDistinct, ?_, rest, laterValid, laterSum⟩
        intro input later seen
        rcases Finset.mem_union.mp seen with old | earlier
        · exact fresh input (.inr later) old
        · exact apart input (List.mem_toFinset.mp earlier) input later rfl

/-- These facts hold exactly for accepted bodies. -/
structure ValidBody [GetValue C] [GetAddress A] [Verify A C] (mode : Overflow) (state : State C)
    (body : Body A C) (filledTransactions : List (FilledTransaction C)) (fees : UInt64) : Prop where
  filled : List.Forall₂ (fun transaction filled => state.fillTransaction transaction = .ok filled)
    body.transactions filledTransactions
  distinct : body.getInputs.Nodup
  valued : ∃ feeList,
    List.Forall₂ (fun filled fee => validateFilledTransaction mode filled = .ok fee)
      filledTransactions feeList ∧ (mode.sum feeList : Outcome Error UInt64) = .ok fees
  covered : ∃ coinbaseValue, (mode.sum (body.coinbase.map getValue) : Outcome Error UInt64) =
    .ok coinbaseValue ∧ coinbaseValue ≤ fees
  addressed : ∀ pair ∈ body.authorizations.zip (filledTransactions.flatMap (·.spentUtxos)),
    getAddress pair.1 = pair.2.address
  verified : (Verify.verifyBody body : Outcome (Verify.Error A C) Unit) = .ok ()

/-- Filling keeps the transactions, so both bodies list the same inputs. -/
theorem filledInputs_eq {state : State C} {transactions : List (Transaction C)}
    {filledTransactions : List (FilledTransaction C)}
    (filled : List.Forall₂ (fun transaction filled =>
      state.fillTransaction transaction = .ok filled)
      transactions filledTransactions) :
    filledInputs filledTransactions = transactions.flatMap (·.inputs) := by
  induction filled with
  | nil => rfl
  | cons first _ ih =>
      have same := (fillTransaction_eq_ok.mp first).1
      simp only [filledInputs, List.flatMap_cons, same] at ih ⊢
      rw [ih]

/-- The body check succeeds exactly for valid bodies. -/
theorem validateBody_eq_ok [GetValue C] [GetAddress A] [Verify A C] {mode : Overflow}
    {state : State C} {body : Body A C} {fees : UInt64} :
    state.validateBody mode body = .ok fees ↔
      ∃ filledTransactions, ValidBody mode state body filledTransactions fees := by
  simp only [validateBody, checkAddresses, authorized, Outcome.bind_eq_ok, Outcome.ensure_eq_ok,
    Outcome.pure_eq_ok, Outcome.convert_eq_ok, Outcome.mapM_eq_ok, sumFees_eq_ok]
  constructor
  · rintro ⟨coinbaseValue, coinbase, filledTransactions, filled, total,
      ⟨distinct, _, valued⟩, _, enough,
      _, addressed, _, verified, rfl⟩
    rw [filledInputs_eq filled] at distinct
    exact ⟨filledTransactions, filled, distinct, valued, ⟨coinbaseValue, coinbase, enough⟩,
      addressed, verified⟩
  · rintro ⟨filledTransactions, filled, distinct, valued, ⟨coinbaseValue, coinbase, enough⟩,
      addressed, verified⟩
    refine ⟨coinbaseValue, coinbase, filledTransactions, filled, fees,
      ⟨?_, by simp, valued⟩, (), enough,
      (), addressed, (), verified, rfl⟩
    rw [filledInputs_eq filled]
    exact distinct

end Ddk.State

import Ddk.Construction.Reference
import Ddk.Proof.State.Validation

namespace Ddk.State

open Foundation

section

variable [Bitcoin] {A C : Type} [GetValue C]

/-- A successful check compares the reduced sums and returns their difference. -/
theorem validateFilledTransaction_reduced {mode : Overflow} {transaction : FilledTransaction C}
    {fee : UInt64} (success : validateFilledTransaction mode transaction = .ok fee) :
    valueOut transaction % 2 ^ 64 ≤ valueIn transaction % 2 ^ 64 ∧
      fee.toNat = valueIn transaction % 2 ^ 64 - valueOut transaction % 2 ^ 64 := by
  obtain ⟨sumIn, sumOut, reachedIn, reachedOut, enough, rfl⟩ :=
    validateFilledTransaction_eq_ok.mp success
  have exactIn := Overflow.sum_toNat reachedIn
  have exactOut := Overflow.sum_toNat reachedOut
  have ordered := UInt64.le_iff_toNat_le.mp enough
  rw [UInt64.toNat_sub_of_le _ _ enough, valueIn, valueOut, ← exactIn, ← exactOut]
  exact ⟨ordered, rfl⟩

/-- The wrapping check succeeds exactly when the reduced outputs fit the reduced inputs. -/
theorem validateFilledTransaction_wrapping (transaction : FilledTransaction C) :
    (∃ fee, validateFilledTransaction .wrapping transaction = .ok fee) ↔
      valueOut transaction % 2 ^ 64 ≤ valueIn transaction % 2 ^ 64 := by
  constructor
  · rintro ⟨fee, success⟩
    exact (validateFilledTransaction_reduced success).1
  · intro enough
    refine ⟨_, validateFilledTransaction_eq_ok.mpr
      ⟨_, _, Overflow.sum_wrapping _, Overflow.sum_wrapping _, ?_, rfl⟩⟩
    rw [UInt64.le_iff_toNat_le, UInt64.toNat_ofNat', UInt64.toNat_ofNat']
    exact enough

/-- The check of one transaction agrees with the integers. -/
structure ExactValueCheck (transaction : FilledTransaction C) : Prop where
  accepted : (∃ fee, validateFilledTransaction .wrapping transaction = .ok fee) ↔
    valueOut transaction ≤ valueIn transaction
  fee : ∀ fee, validateFilledTransaction .wrapping transaction = .ok fee →
    fee.toNat + valueOut transaction = valueIn transaction

/-- The two sums wrap equally often, or the outputs exceed the inputs in both forms. -/
def WrapsAlike (transaction : FilledTransaction C) : Prop :=
  valueIn transaction / 2 ^ 64 = valueOut transaction / 2 ^ 64 ∨
    (valueIn transaction < valueOut transaction ∧
      valueIn transaction % 2 ^ 64 < valueOut transaction % 2 ^ 64)

instance (transaction : FilledTransaction C) : Decidable (WrapsAlike transaction) :=
  inferInstanceAs (Decidable (_ ∨ _))

theorem exactValueCheck_iff (transaction : FilledTransaction C) :
    ExactValueCheck transaction ↔ WrapsAlike transaction := by
  have splitIn := Nat.div_add_mod (valueIn transaction) (2 ^ 64)
  have splitOut := Nat.div_add_mod (valueOut transaction) (2 ^ 64)
  have accepted := validateFilledTransaction_wrapping transaction
  unfold WrapsAlike
  constructor
  · rintro ⟨agrees, difference⟩
    rw [accepted] at agrees
    by_cases enough : valueOut transaction % 2 ^ 64 ≤ valueIn transaction % 2 ^ 64
    · obtain ⟨fee, success⟩ := accepted.mpr enough
      have reduced := (validateFilledTransaction_reduced success).2
      have exact := difference fee success
      omega
    · have short : ¬ valueOut transaction ≤ valueIn transaction :=
        fun ordered => enough (agrees.mpr ordered)
      omega
  · intro alike
    refine ⟨by rw [accepted]; omega, ?_⟩
    intro fee success
    have reduced := validateFilledTransaction_reduced success
    omega

/-- The integer fee of filled transactions is the sum of their differences. -/
def exactFees (filledTransactions : List (FilledTransaction C)) : ℕ :=
  (filledTransactions.map fun filled => valueIn filled - valueOut filled).sum

/-- An accepted body creates no value in the integers. -/
structure ExactBodyCheck (coinbase : List (Output C))
    (filledTransactions : List (FilledTransaction C)) :
    Prop where
  transactions : ∀ filled ∈ filledTransactions, valueOut filled ≤ valueIn filled
  coinbase : Overflow.exactSum (coinbase.map getValue) ≤ exactFees filledTransactions

/-- No output sum wraps more often than the sum that pays for it. -/
structure WrapsBelow (coinbase : List (Output C))
    (filledTransactions : List (FilledTransaction C)) :
    Prop where
  transactions : ∀ filled ∈ filledTransactions, valueOut filled / 2 ^ 64 ≤ valueIn filled / 2 ^ 64
  coinbase : Overflow.exactSum (coinbase.map getValue) / 2 ^ 64 ≤
    exactFees filledTransactions / 2 ^ 64

/-- A checked transaction creates too much exactly when its outputs wrap more often. -/
theorem valueOut_le_iff {mode : Overflow} {transaction : FilledTransaction C} {fee : UInt64}
    (success : validateFilledTransaction mode transaction = .ok fee) :
    valueOut transaction ≤ valueIn transaction ↔
      valueOut transaction / 2 ^ 64 ≤ valueIn transaction / 2 ^ 64 := by
  have reduced := (validateFilledTransaction_reduced success).1
  constructor
  · exact fun ordered => Nat.div_le_div_right ordered
  · intro wraps
    omega

/-- The accumulated fees are the integer fees modulo the word size. -/
theorem exactSum_fees {mode : Overflow} {filledTransactions : List (FilledTransaction C)}
    {feeList : List UInt64}
    (valid : List.Forall₂ (fun filled fee => validateFilledTransaction mode filled = .ok fee)
      filledTransactions feeList)
    (ordered : ∀ filled ∈ filledTransactions, valueOut filled ≤ valueIn filled) :
    Overflow.exactSum feeList % 2 ^ 64 = exactFees filledTransactions % 2 ^ 64 := by
  induction valid with
  | nil => rfl
  | @cons filled fee _ _ success _ ih =>
      have reduced := validateFilledTransaction_reduced success
      have enough := ordered filled List.mem_cons_self
      have rest := ih fun other member => ordered other (List.mem_cons_of_mem _ member)
      simp only [exactFees] at rest
      simp only [Overflow.exactSum_cons, exactFees, List.map_cons, List.sum_cons]
      omega

/-- An accepted body is exact exactly when no sum wraps above its payer. -/
theorem exactBodyCheck_iff [GetAddress A] [Verify A C] {mode : Overflow} {state : State C}
    {body : Body A C} {filledTransactions : List (FilledTransaction C)} {fees : UInt64}
    (valid : ValidBody mode state body filledTransactions fees) :
    ExactBodyCheck body.coinbase filledTransactions ↔
      WrapsBelow body.coinbase filledTransactions := by
  obtain ⟨feeList, checks, sum⟩ := valid.valued
  obtain ⟨coinbaseValue, coinbaseSum, enough⟩ := valid.covered
  have each : ∀ filled ∈ filledTransactions, valueOut filled ≤ valueIn filled ↔
      valueOut filled / 2 ^ 64 ≤ valueIn filled / 2 ^ 64 := by
    intro filled member
    obtain ⟨index, bound, rfl⟩ := List.mem_iff_getElem.mp member
    exact valueOut_le_iff (checks.get bound (checks.length_eq ▸ bound))
  have whole (ordered : ∀ filled ∈ filledTransactions, valueOut filled ≤ valueIn filled) :
      Overflow.exactSum (body.coinbase.map getValue) ≤ exactFees filledTransactions ↔
        Overflow.exactSum (body.coinbase.map getValue) / 2 ^ 64 ≤
            exactFees filledTransactions / 2 ^ 64 := by
    have reduced := exactSum_fees checks ordered
    have total := Overflow.sum_toNat sum
    have created := Overflow.sum_toNat coinbaseSum
    have ordered' := UInt64.le_iff_toNat_le.mp enough
    constructor
    · exact fun small => Nat.div_le_div_right small
    · intro wraps
      omega
  constructor
  · rintro ⟨transactions, coinbase⟩
    exact ⟨fun filled member => (each filled member).mp (transactions filled member),
      (whole transactions).mp coinbase⟩
  · rintro ⟨transactions, coinbase⟩
    have ordered : ∀ filled ∈ filledTransactions, valueOut filled ≤ valueIn filled :=
      fun filled member => (each filled member).mpr (transactions filled member)
    exact ⟨ordered, (whole ordered).mpr coinbase⟩

/-- The wrapping checks are exact for exactly the inputs whose sums wrap alike. -/
theorem valueChecks_exact_iff [GetAddress A] [Verify A C] :
    (∀ transaction : FilledTransaction C, ExactValueCheck transaction ↔ WrapsAlike transaction) ∧
    (∀ (state : State C) (body : Body A C) (filledTransactions : List (FilledTransaction C))
      (fees : UInt64),
      state.validateBody .wrapping body = .ok fees →
      body.transactions.mapM state.fillTransaction = .ok filledTransactions →
      (ExactBodyCheck body.coinbase filledTransactions ↔
        WrapsBelow body.coinbase filledTransactions)) := by
  refine ⟨exactValueCheck_iff, ?_⟩
  intro state body filledTransactions fees accepted filled
  obtain ⟨found, valid⟩ := validateBody_eq_ok.mp accepted
  have same : found = filledTransactions := by
    have reached := Outcome.mapM_eq_ok.mpr valid.filled
    rw [filled] at reached
    exact (Except.ok.inj reached).symm
  exact same ▸ exactBodyCheck_iff valid

end

section

open Reference

/-- This state holds one output of value one. -/
def oneCoin : State Unit :=
  { State.empty with utxos := Database.putAll ∅ [(.deposit ⟨1, 0⟩, ⟨⟨5⟩, .value 1⟩)] }

/-- The two outputs add up to the word size and one. -/
def inflation : FilledTransaction Unit where
  transaction := ⟨[.deposit ⟨1, 0⟩], [⟨⟨5⟩, .value (2 ^ 63)⟩, ⟨⟨5⟩, .value (2 ^ 63 + 1)⟩]⟩
  spentUtxos := [⟨⟨5⟩, .value 1⟩]

def inflationBody : Body Authorization Unit := ⟨[], [inflation.transaction], []⟩

theorem valueChecks_exact_inflation :
    ExactBodyCheck inflationBody.coinbase [inflation] ↔
      WrapsBelow inflationBody.coinbase [inflation] :=
  (valueChecks_exact_iff (A := Authorization)).2 oneCoin inflationBody [inflation] 0
    (by decide +kernel) (by decide +kernel)

/-- The wrapped sum of the outputs is one, so the body passes and creates value. -/
theorem valueChecks_inexact :
    ¬ ((∀ transaction : FilledTransaction Unit, ExactValueCheck transaction) ∧
      ∀ (state : State Unit) (body : Body Authorization Unit)
        (filledTransactions : List (FilledTransaction Unit)) (fees : UInt64),
        state.validateBody .wrapping body = .ok fees →
        body.transactions.mapM state.fillTransaction = .ok filledTransactions →
        ExactBodyCheck body.coinbase filledTransactions) ∧
    ¬ ExactValueCheck inflation ∧
    oneCoin.validateBody .wrapping inflationBody = .ok 0 ∧
    ¬ ExactBodyCheck inflationBody.coinbase [inflation] := by
  have single : ¬ ExactValueCheck inflation := by
    rw [exactValueCheck_iff]
    decide +kernel
  have accepted : oneCoin.validateBody .wrapping inflationBody = .ok 0 := by decide +kernel
  have created : ¬ ExactBodyCheck inflationBody.coinbase [inflation] := by
    intro exact
    have bounded := exact.transactions inflation (by simp)
    exact absurd bounded (by decide +kernel)
  exact ⟨fun claim => single (claim.1 inflation), single, accepted, created⟩

end

end Ddk.State

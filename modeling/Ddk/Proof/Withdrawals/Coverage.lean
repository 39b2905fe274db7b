import Ddk.Proof.Withdrawals.Contents

namespace Ddk

open Foundation

namespace Bitcoin

/-- The mainchain pays the outputs after the three data outputs. -/
def Transaction.payouts (transaction : Transaction) : ℕ :=
  Overflow.exactSum ((transaction.output.drop 3).map TxOut.value)

/-- The mainchain reads the fee from the push in the second output. -/
def Transaction.encodedFee (transaction : Transaction) : ℕ :=
  Nat.ofDigits 256 (((transaction.output[1]?).elim [] fun output => output.scriptPubkey.drop 2).map
    UInt8.toNat)

end Bitcoin

variable [Bitcoin] {C : Type}

section

variable [Blake3] [Bincode C]

/-- A bundle transaction pays exactly its bundle outputs. -/
theorem State.bundleTransaction_payouts (inputs : List OutPoint) (blockHeight : UInt32)
    (fee : UInt64) (bundleOutputs : List Bitcoin.TxOut) :
    (bundleTransaction (C := C) inputs blockHeight fee bundleOutputs).payouts =
      Overflow.exactSum (bundleOutputs.map Bitcoin.TxOut.value) := rfl

/-- A bundle transaction encodes its fee. -/
theorem State.bundleTransaction_encodedFee (inputs : List OutPoint) (blockHeight : UInt32)
    (fee : UInt64) (bundleOutputs : List Bitcoin.TxOut) :
    (bundleTransaction (C := C) inputs blockHeight fee bundleOutputs).encodedFee = fee.toNat :=
  ofDigits_leBytes 8 fee.toNat_lt

end

/-- The mainchain takes at most the value of the spent outputs from the treasury. -/
def WithdrawalBundle.Covered [GetValue C] (bundle : WithdrawalBundle C) : Prop :=
  bundle.transaction.payouts + bundle.transaction.encodedFee ≤ totalValue bundle.spentUtxos.toList

namespace State

variable [GetValue C] [DecidableEq C]

/-- The selected fees add up to nothing in a word, or a selected payout does not fit in a word. -/
def FeesCovered (orders : Orders C) (utxos : Database OutPoint (Output C)) : Prop :=
  let selected := chosen orders (groupsOf utxos)
  2 ^ 64 ∣ Overflow.exactSum (selected.map (·.mainFee)) ∨
    ∃ aggregated ∈ selected, 2 ^ 64 ≤ totalValue (withdrawalsTo aggregated.mainAddress utxos.toList)

omit [DecidableEq C] in
/-- Reordering entries keeps their value. -/
theorem totalValue_perm {first second : List (OutPoint × Output C)} (same : first.Perm second) :
    totalValue first = totalValue second :=
  ((same.map _).map _).sum_eq

omit [DecidableEq C] in
/-- The payouts of aggregates lose what their words cannot hold. -/
theorem sum_payouts {entries : List (OutPoint × Output C)}
    {selected : List (AggregatedWithdrawal C)}
    (aggregates : ∀ aggregated ∈ selected,
      Aggregates aggregated.mainAddress (withdrawalsTo aggregated.mainAddress entries) aggregated) :
    ∃ lost, (2 ^ 64 ≤ lost ∨ lost = 0) ∧
      ((∃ aggregated ∈ selected, 2 ^ 64 ≤ totalValue
        (withdrawalsTo aggregated.mainAddress entries)) ↔ 2 ^ 64 ≤ lost) ∧
      Overflow.exactSum (selected.map (·.value)) + lost =
        totalValue (selected.flatMap fun aggregated =>
          withdrawalsTo aggregated.mainAddress entries) := by
  induction selected with
  | nil => exact ⟨0, .inr rfl, by simp, rfl⟩
  | cons aggregated selected ih =>
      obtain ⟨lost, whole, wraps, rest⟩ :=
        ih fun other member => aggregates other (List.mem_cons_of_mem _ member)
      have value := (aggregates aggregated List.mem_cons_self).value
      let total := totalValue (withdrawalsTo aggregated.mainAddress entries)
      refine ⟨total / 2 ^ 64 * 2 ^ 64 + lost, by omega, ?_, ?_⟩
      · rw [List.exists_mem_cons_iff, wraps]
        change 2 ^ 64 ≤ total ∨ _ ↔ _
        omega
      · rw [List.map_cons, Overflow.exactSum_cons, List.flatMap_cons, totalValue_append, ← rest,
          value]
        change total % 2 ^ 64 + _ + _ = total + _
        omega

variable [Blake3] [Bincode C]

/-- A collected bundle is covered exactly when its fees are. -/
theorem Collected.covered_iff {orders : Orders C} {mode : Overflow}
    {utxos : Database OutPoint (Output C)} {blockHeight : UInt32}
    {groups : HashMap Bitcoin.Address (AggregatedWithdrawal C)} {fee : UInt64}
    {bundle : WithdrawalBundle C}
    (collected : Collected orders mode utxos blockHeight groups fee bundle) :
    bundle.Covered ↔ FeesCovered orders utxos := by
  obtain ⟨rfl, _⟩ := aggregateUtxos_eq_ok.mp collected.aggregated
  have all := groupsOf_aggregates utxos
  have charged := Overflow.sum_toNat collected.charged
  have spent : totalValue bundle.spentUtxos.toList =
      totalValue ((chosen orders (groupsOf utxos)).flatMap fun aggregated =>
        withdrawalsTo aggregated.mainAddress utxos.toList) := by
    rw [collected.bundle]
    exact totalValue_perm (chosen_spent_perm orders all)
  have payouts : bundle.transaction.payouts =
      Overflow.exactSum ((chosen orders (groupsOf utxos)).map (·.value)) := by
    rw [collected.bundle, chosenBundle, bundleTransaction_payouts, List.map_map]
    rfl
  have encoded : bundle.transaction.encodedFee = fee.toNat := by
    rw [collected.bundle, chosenBundle, bundleTransaction_encodedFee]
  have aggregates : ∀ aggregated ∈ chosen orders (groupsOf utxos),
      Aggregates aggregated.mainAddress (withdrawalsTo aggregated.mainAddress utxos.toList)
          aggregated :=
    fun _ member => chosen_aggregates all member
  obtain ⟨lost, whole, wraps, sum⟩ := sum_payouts aggregates
  have small := fee.toNat_lt
  rw [WithdrawalBundle.Covered, FeesCovered, wraps, Nat.dvd_iff_mod_eq_zero, spent, payouts,
    encoded, charged]
  rw [charged] at small
  omega

omit [Blake3] [Bincode C] in
/-- Without a positive fee, the bundle claims nothing beyond its payouts. -/
theorem FeesCovered.of_free {orders : Orders C} {utxos : Database OutPoint (Output C)}
    (free : ∀ entry ∈ utxos.toList, entry.2.mainFee = 0) : FeesCovered orders utxos := by
  have zero : Overflow.exactSum ((chosen orders (groupsOf utxos)).map (·.mainFee)) = 0 := by
    apply List.sum_eq_zero
    intro number member
    obtain ⟨fee, listed, rfl⟩ := List.mem_map.mp member
    obtain ⟨aggregated, selected, rfl⟩ := List.mem_map.mp listed
    rcases (chosen_aggregates (groupsOf_aggregates utxos) selected).fee_offered
      with none | ⟨entry, inside, same⟩
    · rw [none, UInt64.toNat_zero]
    · rw [same, free entry (mem_withdrawalsTo.mp inside).1, UInt64.toNat_zero]
  exact .inl (zero ▸ Nat.dvd_zero _)

omit [Blake3] [Bincode C] in
/-- When the sums fit, the fees are covered exactly when the selected destinations offer none. -/
theorem feesCovered_iff_of_fits {orders : Orders C} {utxos : Database OutPoint (Output C)}
    (payouts : ∀ mainAddress, totalValue (withdrawalsTo mainAddress utxos.toList) < 2 ^ 64)
    (fees : Overflow.exactSum ((chosen orders (groupsOf utxos)).map (·.mainFee)) < 2 ^ 64) :
    FeesCovered orders utxos ↔ ∀ aggregated ∈ chosen orders (groupsOf utxos),
      ∀ entry ∈ withdrawalsTo aggregated.mainAddress utxos.toList, entry.2.mainFee = 0 := by
  have all := groupsOf_aggregates utxos
  have sum : FeesCovered orders utxos ↔
      Overflow.exactSum ((chosen orders (groupsOf utxos)).map (·.mainFee)) = 0 := by
    constructor
    · rintro (whole | ⟨aggregated, _, large⟩)
      · exact Nat.eq_zero_of_dvd_of_lt whole fees
      · have small := payouts aggregated.mainAddress
        omega
    · intro zero
      exact .inl (zero ▸ Nat.dvd_zero _)
  rw [sum, Overflow.exactSum, List.sum_eq_zero_iff]
  simp only [List.forall_mem_map]
  refine forall₂_congr fun aggregated selected => ?_
  have aggregates := chosen_aggregates all selected
  rw [← UInt64.toNat_zero, UInt64.toNat_inj]
  constructor
  · intro zero entry inside
    have bound := aggregates.fee_bounds entry inside
    rw [zero, UInt64.le_iff_toNat_le, UInt64.toNat_zero] at bound
    exact UInt64.toNat_inj.mp (Nat.le_zero.mp bound)
  · intro free
    rcases aggregates.fee_offered with zero | ⟨entry, inside, same⟩
    · exact zero
    · rw [same, free entry inside]

end State

end Ddk

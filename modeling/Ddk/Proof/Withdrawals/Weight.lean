import Ddk.Proof.Withdrawals.Contents

namespace Ddk

open Foundation Bitcoin

namespace Bitcoin

/-- An output has its value and its script with a length prefix. -/
theorem TxOut.consensusEncode_length (output : TxOut) : output.consensusEncode.length =
    8 + (compactSize output.scriptPubkey.length).length + output.scriptPubkey.length := by
  rw [TxOut.consensusEncode, List.length_append, List.length_append, leBytes_length]

/-- An input has its outpoint, its script with a length prefix and its sequence. -/
theorem TxIn.consensusEncode_length (input : TxIn) : input.consensusEncode.length =
    40 + (compactSize input.scriptSig.length).length + input.scriptSig.length := by
  simp only [TxIn.consensusEncode, List.length_append, leBytes_length, hashBytes_length]
  omega

/-- A transaction has its version, its inputs and outputs with their counts and its lock time. -/
theorem Transaction.consensusEncode_length (transaction : Transaction) :
    transaction.consensusEncode.length =
    8 + (compactSize transaction.input.length).length +
      (transaction.input.map fun input => input.consensusEncode.length).sum +
      (compactSize transaction.output.length).length +
      (transaction.output.map fun output => output.consensusEncode.length).sum := by
  simp only [Transaction.consensusEncode, List.length_append, leBytes_length, List.length_flatMap]
  omega

end Bitcoin

variable [Bitcoin] {C : Type}

namespace State

section

variable [Blake3] [Bincode C]

/-- The weight of a bundle depends on its payouts only. -/
theorem bundleTransaction_weight (inputs : List OutPoint) (blockHeight : UInt32) (fee : UInt64)
    (bundleOutputs : List TxOut) :
    (bundleTransaction (C := C) inputs blockHeight fee bundleOutputs).weight =
      4 * (125 + (compactSize (3 + bundleOutputs.length)).length +
        (bundleOutputs.map fun output => output.consensusEncode.length).sum) := by
  have data (bytes : List UInt8) (short : bytes.length < 251) :
      (dataOutput bytes).consensusEncode.length = 11 + bytes.length := by
    have prefixed : compactSize (bytes.length + 2) = leBytes 1 (bytes.length + 2) :=
      if_pos (by omega)
    rw [TxOut.consensusEncode_length, dataOutput, pushSlice, List.length_cons, List.length_cons,
      prefixed, leBytes_length]
    omega
  have spent : (TxIn.consensusEncode { TxIn.default with scriptSig := [opFalse] }).length = 42 := by
    rw [TxIn.consensusEncode_length]
    rfl
  rw [Transaction.weight, Transaction.consensusEncode_length, bundleTransaction]
  simp only [List.map_append, List.sum_append, List.length_append, List.map_cons, List.map_nil,
    List.sum_cons, List.sum_nil, List.length_cons, List.length_nil, Nat.zero_add, Nat.reduceAdd,
    spent, data [68] (by decide), leBytes_length, hashBytes_length,
    data (leBytes 8 fee.toNat) (by simp),
    data (hashBytes (inputsCommitment (C := C) inputs blockHeight)) (by simp)]
  have single : (compactSize 1).length = 1 := rfl
  omega

end

variable [DecidableEq C]

/-- This is the weight of the bundle that the selection builds. -/
def selectedWeight (orders : Orders C) (utxos : Database OutPoint (Output C)) : ℕ :=
  let scripts := (chosen orders (groupsOf utxos)).map fun aggregated =>
    Bitcoin.scriptPubkey aggregated.mainAddress
  4 * (125 + (compactSize (3 + scripts.length)).length +
    (scripts.map fun script => 8 + (compactSize script.length).length + script.length).sum)

variable [GetValue C]

/-- The selected payouts are light, and a checked build also adds its values without overflow. -/
structure Collectable (orders : Orders C) (mode : Overflow)
    (utxos : Database OutPoint (Output C)) : Prop where
  light : selectedWeight orders utxos ≤ maxStandardTxWeight
  payouts : mode = .checked → ∀ mainAddress,
    totalValue (withdrawalsTo mainAddress utxos.toList) < 2 ^ 64
  fees : mode = .checked → Overflow.exactSum ((chosen orders (groupsOf utxos)).map (·.mainFee)) <
    2 ^ 64

variable [Blake3] [Bincode C]

omit [GetValue C] in
/-- The chosen bundle has the weight of the selection. -/
theorem chosenBundle_weight (orders : Orders C) (utxos : Database OutPoint (Output C))
    (blockHeight : UInt32)
    (fee : UInt64) : (chosenBundle orders (groupsOf utxos) blockHeight fee).transaction.weight =
      selectedWeight orders utxos := by
  rw [chosenBundle, bundleTransaction_weight, selectedWeight, List.length_map, List.length_map,
    List.map_map, List.map_map]
  simp only [Function.comp_def, TxOut.consensusEncode_length, bundleOutput]

/-- The collection succeeds exactly when the selection is light and its sums fit. -/
theorem collectWithdrawalBundle_succeeds_iff {orders : Orders C} {mode : Overflow}
    {utxos : Database OutPoint (Output C)} {blockHeight : UInt32} :
    (∃ bundle, collectWithdrawalBundle orders mode utxos blockHeight = .ok bundle) ↔
      Collectable orders mode utxos := by
  constructor
  · rintro ⟨bundle, success⟩
    cases bundle with
    | none =>
        obtain ⟨empty, payouts⟩ :=
          aggregateUtxos_eq_ok.mp (collectWithdrawalBundle_eq_none.mp success)
        have none : chosen orders (groupsOf utxos) = [] := by
          apply List.eq_nil_iff_forall_not_mem.mpr
          intro aggregated member
          obtain ⟨mainAddress, found⟩ := mem_chosen member
          rw [← empty] at found
          simp at found
        refine ⟨?_, payouts, ?_⟩
        · rw [selectedWeight, none]
          exact Nat.le_of_ble_eq_true rfl
        · rw [none]
          exact fun _ => Nat.two_pow_pos 64
    | some bundle =>
        obtain ⟨groups, fee, collected⟩ := collectWithdrawalBundle_eq_some.mp success
        obtain ⟨rfl, payouts⟩ := aggregateUtxos_eq_ok.mp collected.aggregated
        have light := collected.light
        rw [collected.bundle, chosenBundle_weight] at light
        refine ⟨light, payouts, ?_⟩
        rintro rfl
        rw [← Overflow.sum_checked.mp collected.charged]
        exact fee.toNat_lt
  · intro collectable
    have aggregated := aggregateUtxos_eq_ok.mpr ⟨rfl, collectable.payouts⟩
    by_cases absent : (groupsOf utxos).isEmpty = true
    · refine ⟨none, collectWithdrawalBundle_eq_none.mpr ?_⟩
      rw [aggregated, Std.ExtTreeMap.isEmpty_iff.mp absent]
    · have charged : ∃ fee,
          (mode.sum ((chosen orders (groupsOf utxos)).map (·.mainFee)) : Outcome Error UInt64) =
          .ok fee := by
        cases mode with
        | checked =>
            obtain ⟨fee, sum, _⟩ := Overflow.sum_of_fits .checked (collectable.fees rfl)
            exact ⟨fee, sum⟩
        | wrapping => exact ⟨_, Overflow.sum_wrapping _⟩
      obtain ⟨fee, charged⟩ := charged
      refine ⟨_, collectWithdrawalBundle_eq_some.mpr
        ⟨groupsOf utxos, fee, aggregated, Bool.eq_false_iff.mpr absent, charged, ?_, rfl⟩⟩
      rw [chosenBundle_weight]
      exact collectable.light

/-- The peg data connects exactly when a due bundle is collectable. -/
theorem connectTwoWayPegData_succeeds_iff {orders : Orders C} {mode : Overflow} {state : State C}
    {twoWayPegData : TwoWayPegData C} {blockHeight : UInt32} :
    (∃ next, state.connectTwoWayPegData orders mode twoWayPegData blockHeight = .ok next) ↔
      ∃ due, bundleDue mode state blockHeight = .ok due ∧
        (due = true → Collectable orders mode
          (state.connectDeposits orders twoWayPegData).utxos) := by
  have same : bundleDue mode (state.connectDeposits orders twoWayPegData) blockHeight =
      bundleDue mode state blockHeight := rfl
  simp only [connectTwoWayPegData, connectWithdrawals, same, Outcome.bind_eq_ok, Outcome.pure_eq_ok]
  constructor
  · rintro ⟨next, collected, ⟨due, waited, success⟩, _⟩
    refine ⟨due, waited, ?_⟩
    rintro rfl
    rw [if_pos rfl] at success
    obtain ⟨bundle, reached, _⟩ := Outcome.bind_eq_ok.mp success
    exact collectWithdrawalBundle_succeeds_iff.mp ⟨bundle, reached⟩
  · rintro ⟨due, waited, collectable⟩
    cases due with
    | false => exact ⟨_, _, ⟨false, waited, rfl⟩, rfl⟩
    | true =>
        obtain ⟨bundle, reached⟩ := collectWithdrawalBundle_succeeds_iff.mpr (collectable rfl)
        cases bundle with
        | none => exact ⟨_, _, ⟨true, waited, Outcome.bind_eq_ok.mpr ⟨none, reached, rfl⟩⟩, rfl⟩
        | some bundle =>
            exact ⟨_, _, ⟨true, waited, Outcome.bind_eq_ok.mpr ⟨some bundle, reached, rfl⟩⟩, rfl⟩

end State

end Ddk

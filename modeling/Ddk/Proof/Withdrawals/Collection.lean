import Ddk.Proof.Withdrawals.Aggregation

namespace Ddk.State

open Foundation Bitcoin

variable [Bitcoin] {C : Type} [DecidableEq C]

/-- The selected outputs of several destinations form one map. -/
def gatherSpent (orders : Orders C) (spentUtxos : HashMap OutPoint (Output C))
    (aggregatedWithdrawals : List (AggregatedWithdrawal C)) : HashMap OutPoint (Output C) :=
  aggregatedWithdrawals.foldl (fun spentUtxos aggregated =>
    spentUtxos.putAll (orders.outputs.iter aggregated.spentUtxos)) spentUtxos

/-- The loop guard admits one destination more than the limit. -/
def chosen (orders : Orders C) (groups : HashMap Bitcoin.Address (AggregatedWithdrawal C)) :
    List (AggregatedWithdrawal C) :=
  (orders.sort.sort ((orders.groups.iter groups).map (·.2))).take (maxBundleOutputs + 1)

/-- The loop selects the first destinations until the bundle has more outputs than the limit. -/
theorem selectOutputs_eq_ok {orders : Orders C} {mode : Overflow} {selection result : Selection C}
    {aggregatedWithdrawals : List (AggregatedWithdrawal C)} :
    selectOutputs orders mode selection aggregatedWithdrawals = .ok result ↔
      let selected :=
        aggregatedWithdrawals.take (maxBundleOutputs + 1 - selection.bundleOutputs.length)
      ∃ fee, (selected.map (·.mainFee)).foldlM (mode.add : UInt64 → UInt64 → Outcome Error UInt64)
          selection.fee = .ok fee ∧
        ⟨fee, gatherSpent orders selection.spentUtxos selected,
          selection.bundleOutputs ++ selected.map bundleOutput⟩ = result := by
  induction aggregatedWithdrawals generalizing selection with
  | nil => simp [selectOutputs, gatherSpent]
  | cons aggregated rest ih =>
      rw [selectOutputs]
      split
      next full =>
        have none : maxBundleOutputs + 1 - selection.bundleOutputs.length = 0 := by omega
        simp [none, gatherSpent]
      next room =>
        have count : maxBundleOutputs + 1 - selection.bundleOutputs.length =
            maxBundleOutputs + 1 - (selection.bundleOutputs ++ [bundleOutput aggregated]).length +
                1 := by
          rw [List.length_append, List.length_singleton]
          omega
        rw [Outcome.bind_eq_ok, count]
        simp only [ih, List.take_succ_cons, List.map_cons, List.foldlM_cons, Outcome.bind_eq_ok]
        simp only [gatherSpent, List.foldl_cons, List.append_assoc, List.singleton_append]
        constructor
        · rintro ⟨fee, added, total, sum, same⟩
          exact ⟨total, ⟨fee, added, sum⟩, same⟩
        · rintro ⟨total, ⟨fee, added, sum⟩, same⟩
          exact ⟨fee, added, total, sum, same⟩

/-- The selection starts without outputs and keeps the chosen destinations. -/
theorem selectOutputs_chosen {orders : Orders C} {mode : Overflow} {result : Selection C}
    {groups : HashMap Bitcoin.Address (AggregatedWithdrawal C)} :
    selectOutputs orders mode ⟨0, ∅, []⟩
      (orders.sort.sort ((orders.groups.iter groups).map (·.2))) = .ok result ↔
      ∃ fee, (mode.sum ((chosen orders groups).map (·.mainFee)) : Outcome Error UInt64) = .ok fee ∧
        ⟨fee, gatherSpent orders ∅ (chosen orders groups),
          (chosen orders groups).map bundleOutput⟩ = result := by
  rw [selectOutputs_eq_ok]
  simp only [List.length_nil, Nat.sub_zero, List.nil_append]
  rfl

variable [Blake3] [Bincode C]

/-- The collected bundle spends and pays the chosen destinations. -/
def chosenBundle (orders : Orders C) (groups : HashMap Bitcoin.Address (AggregatedWithdrawal C))
    (blockHeight : UInt32) (fee : UInt64) : WithdrawalBundle C :=
  let spentUtxos := gatherSpent orders ∅ (chosen orders groups)
  { spentUtxos
    transaction := bundleTransaction (C := C) ((orders.outputs.iter spentUtxos).map (·.1))
      blockHeight fee
      ((chosen orders groups).map bundleOutput) }

/-- These facts hold exactly for collected bundles. -/
structure Collected (orders : Orders C) (mode : Overflow) (utxos : Database OutPoint (Output C))
    (blockHeight : UInt32) (groups : HashMap Bitcoin.Address (AggregatedWithdrawal C))
    (fee : UInt64)
    (bundle : WithdrawalBundle C) : Prop where
  aggregated : utxos.toList.foldlM (aggregateUtxo mode) ∅ = .ok groups
  present : groups.isEmpty = false
  charged : (mode.sum ((chosen orders groups).map (·.mainFee)) : Outcome Error UInt64) = .ok fee
  light : bundle.transaction.weight ≤ maxStandardTxWeight
  bundle : bundle = chosenBundle orders groups blockHeight fee

/-- The collection returns a bundle exactly when it aggregates, adds and weighs it successfully. -/
theorem collectWithdrawalBundle_eq_some {orders : Orders C} {mode : Overflow}
    {utxos : Database OutPoint (Output C)} {blockHeight : UInt32} {bundle : WithdrawalBundle C} :
    collectWithdrawalBundle orders mode utxos blockHeight = .ok (some bundle) ↔
      ∃ groups fee, Collected orders mode utxos blockHeight groups fee bundle := by
  rw [collectWithdrawalBundle, Outcome.bind_eq_ok]
  constructor
  · rintro ⟨groups, aggregated, success⟩
    split at success
    next => cases success
    next present =>
      obtain ⟨selection, selected, success⟩ := Outcome.bind_eq_ok.mp success
      obtain ⟨_, light, stored⟩ := Outcome.bind_eq_ok.mp success
      rw [Outcome.ensure_eq_ok] at light
      cases stored
      obtain ⟨fee, sum, rfl⟩ := selectOutputs_chosen.mp selected
      exact ⟨groups, fee, aggregated, Bool.eq_false_iff.mpr present, sum, light, rfl⟩
  · rintro ⟨groups, fee, collected⟩
    refine ⟨groups, collected.aggregated, ?_⟩
    rw [if_neg (Bool.eq_false_iff.mp collected.present), Outcome.bind_eq_ok]
    refine ⟨_, selectOutputs_chosen.mpr ⟨fee, collected.charged, rfl⟩, ?_⟩
    rw [Outcome.bind_eq_ok]
    have light := collected.light
    rw [collected.bundle] at light ⊢
    exact ⟨(), Outcome.ensure_eq_ok.mpr light, rfl⟩

/-- The collection returns no bundle exactly when no output is a withdrawal. -/
theorem collectWithdrawalBundle_eq_none {orders : Orders C} {mode : Overflow}
    {utxos : Database OutPoint (Output C)} {blockHeight : UInt32} :
    collectWithdrawalBundle orders mode utxos blockHeight = .ok none ↔
      utxos.toList.foldlM (aggregateUtxo mode) ∅ = .ok ∅ := by
  rw [collectWithdrawalBundle, Outcome.bind_eq_ok]
  constructor
  · rintro ⟨groups, aggregated, success⟩
    split at success
    next absent =>
      rw [aggregated, Std.ExtTreeMap.isEmpty_iff.mp absent]
    next =>
      obtain ⟨selection, _, success⟩ := Outcome.bind_eq_ok.mp success
      obtain ⟨_, _, stored⟩ := Outcome.bind_eq_ok.mp success
      cases stored
  · intro aggregated
    exact ⟨∅, aggregated, by simp⟩

end Ddk.State

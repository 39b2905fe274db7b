import Ddk.Proof.Run.Supply
import Ddk.Proof.Withdrawals.Coverage

namespace Ddk

open Foundation

section

variable [Bitcoin] {A C : Type}

namespace Receipt

variable (receipt : Receipt A C)

/-- The mainchain takes the payouts and the fee of a confirmed bundle from the treasury. -/
def taken : ℕ :=
  receipt.confirmed.elim 0 fun bundle => bundle.transaction.payouts + bundle.transaction.encodedFee

def bundleFee : ℕ := receipt.confirmed.elim 0 (·.transaction.encodedFee)

end Receipt

variable [GetValue C]

/-- The treasury holds what the credited deposits brought less what the confirmed bundles took. -/
def History.treasury (history : List (Receipt A C)) : ℤ :=
  totalValue (History.depositEntries history) - (history.map Receipt.taken).sum

/-- The payouts of a bundle are worth the outputs that it spends. -/
def WithdrawalBundle.PaysSpent (bundle : WithdrawalBundle C) : Prop :=
  bundle.transaction.payouts = totalValue bundle.spentUtxos.toList

/-- The created value is held by the state, consumed or paid out. -/
theorem History.Accounted.value [Blake3] [Bincode C] {history : List (Receipt A C)}
    {state : State C} (accounted : History.Accounted history state) :
    totalValue state.utxos.toList + totalValue (bundleEntries state.pendingWithdrawalBundle) +
        totalValue (History.spentEntries history) + totalValue (History.paidEntries history) =
      totalValue (History.createdEntries history) := by
  have sums := accounted.accounts.sum_eq (fun output => (getValue output).toNat)
    fun entry member weighted =>
    accounted.once entry member (Overflow.toNat_pos.mp (Nat.pos_of_ne_zero weighted))
  have held : totalValue (History.heldEntries history state) =
      totalValue (History.createdEntries history) := by
    simpa [totalValue, Overflow.exactSum, Function.comp_def] using sums
  simp only [History.heldEntries, totalValue_append] at held
  omega

namespace State

variable [DecidableEq C] [Blake3] [Bincode C]

/-- A bundle that is collected with checked sums pays what it spends. -/
theorem Collected.paysSpent {orders : Orders C} {utxos : Database OutPoint (Output C)}
    {blockHeight : UInt32} {groups : HashMap Bitcoin.Address (AggregatedWithdrawal C)}
    {fee : UInt64} {bundle : WithdrawalBundle C}
    (collected : Collected orders .checked utxos blockHeight groups fee bundle) :
    bundle.PaysSpent := by
  obtain ⟨rfl, fits⟩ := aggregateUtxos_eq_ok.mp collected.aggregated
  have all := groupsOf_aggregates utxos
  obtain ⟨lost, whole, wraps, sum⟩ := sum_payouts fun aggregated
      (member : aggregated ∈ chosen orders (groupsOf utxos)) => chosen_aggregates all member
  have exact_sum : lost = 0 := by
    refine whole.resolve_left fun large => ?_
    obtain ⟨aggregated, _, overflow⟩ := wraps.mpr large
    exact absurd overflow (not_le.mpr (fits rfl aggregated.mainAddress))
  have spent : totalValue bundle.spentUtxos.toList =
      totalValue ((chosen orders (groupsOf utxos)).flatMap fun aggregated =>
        withdrawalsTo aggregated.mainAddress utxos.toList) := by
    rw [collected.bundle]
    exact totalValue_perm (chosen_spent_perm orders all)
  rw [WithdrawalBundle.PaysSpent, spent, ← sum, exact_sum, Nat.add_zero, collected.bundle,
    chosenBundle, bundleTransaction_payouts, List.map_map]
  rfl

omit [GetValue C] [Blake3] [Bincode C] in
/-- The statuses leave the pending bundle or remove it. -/
theorem connectStatuses_kept (orders : Orders C) (state : State C)
    (bundleStatuses : HashMap Bitcoin.Txid WithdrawalBundleStatus) (blockHeight : UInt32)
    {bundle : WithdrawalBundle C}
    (pending : (state.connectStatuses orders bundleStatuses blockHeight).pendingWithdrawalBundle =
      some bundle) :
    state.pendingWithdrawalBundle = some bundle := by
  cases before : state.pendingWithdrawalBundle with
  | none =>
      rw [connectStatuses, foldl_connectStatus_none before, before] at pending
      cases pending
  | some other =>
      rw [connectStatuses_eq orders before] at pending
      split at pending
      next =>
        rw [before] at pending
        exact pending
      next status _ => cases status <;> cases pending

omit [GetValue C] [DecidableEq C] [Blake3] [Bincode C] in
/-- A confirmed bundle was pending. -/
theorem confirmedBundle_pending {state : State C}
    {bundleStatuses : HashMap Bitcoin.Txid WithdrawalBundleStatus}
    {bundle : WithdrawalBundle C} (confirmed : state.confirmedBundle bundleStatuses = some bundle) :
    state.pendingWithdrawalBundle = some bundle := by
  unfold confirmedBundle at confirmed
  split at confirmed
  next other pending =>
    split at confirmed
    next =>
      cases confirmed
      exact pending
    next => cases confirmed
  next => cases confirmed

variable [GetAddress A] [Verify A C]

/-- The pending bundle and the confirmed ones pay what they spend. -/
structure PaysSpent (history : List (Receipt A C)) (state : State C) : Prop where
  pending : ∀ bundle, state.pendingWithdrawalBundle = some bundle → bundle.PaysSpent
  confirmed : ∀ receipt ∈ history, ∀ bundle, receipt.confirmed = some bundle → bundle.PaysSpent

/-- A block collects a bundle that pays what it spends, or it keeps the pending one. -/
theorem PaysSpent.block {history : List (Receipt A C)} {state collected next : State C}
    {orders : Orders C} {twoWayPegData : TwoWayPegData C} {blockHeight : UInt32}
    {receipt : Receipt A C} (before : PaysSpent history state)
    (describes : Describes orders .checked state twoWayPegData blockHeight receipt collected next) :
    PaysSpent (receipt :: history) next := by
  have waiting : ∀ bundle, collected.pendingWithdrawalBundle = some bundle → bundle.PaysSpent := by
    intro bundle pending
    rcases connectWithdrawals_cases describes.collection
      with rfl | ⟨other, groups, fee, _, collects, rfl⟩
    · exact before.pending bundle pending
    · cases pending
      exact collects.paysSpent
  constructor
  · intro bundle pending
    rw [describes.statuses] at pending
    exact waiting bundle (connectStatuses_kept _ _ _ _ pending)
  · intro other member bundle confirmed
    rcases List.mem_cons.mp member with rfl | earlier
    · rw [describes.confirmed] at confirmed
      exact waiting bundle (confirmedBundle_pending confirmed)
    · exact before.confirmed other earlier bundle confirmed

/-- In every checked run, bundles pay what they spend. -/
theorem Run.paysSpent {history : List (Receipt A C)} {state : State C}
    (run : Run .checked history state) :
    PaysSpent history state := by
  induction run with
  | empty => exact ⟨nofun, nofun⟩
  | block before connects ih =>
      obtain ⟨collected, describes⟩ := connects.describes
      exact ih.block describes

omit [DecidableEq C] [Blake3] [Bincode C] [GetAddress A] [Verify A C] in
/-- The confirmed bundles took what they spent and their fees. -/
theorem taken_sum {history : List (Receipt A C)}
    (pays : ∀ receipt ∈ history, ∀ bundle, receipt.confirmed = some bundle → bundle.PaysSpent) :
    (history.map Receipt.taken).sum =
      totalValue (History.paidEntries history) + (history.map Receipt.bundleFee).sum := by
  induction history with
  | nil => rfl
  | cons receipt history ih =>
      have rest := ih fun other member => pays other (List.mem_cons_of_mem _ member)
      have own := pays receipt List.mem_cons_self
      have here : receipt.taken = totalValue receipt.paidEntries + receipt.bundleFee := by
        rw [Receipt.taken, Receipt.paidEntries, Receipt.bundleFee]
        cases confirmed : receipt.confirmed with
        | none => rfl
        | some bundle => exact congrArg (· + bundle.transaction.encodedFee) (own bundle confirmed)
      simp only [History.paidEntries, List.flatMap_cons, totalValue_append, List.map_cons,
        List.sum_cons] at rest ⊢
      omega

/-- In every checked run, treasury and bundle fees are the supply and the unclaimed block fees. -/
theorem Run.treasury_balances {history : List (Receipt A C)} {state : State C}
    (run : Run .checked history state) (free : History.WellNamed history)
    (delivered : History.DeliveredOnce history) :
    let supply : ℤ := totalValue state.utxos.toList + totalValue
      (bundleEntries state.pendingWithdrawalBundle)
    let bundleFees : ℤ := (history.map Receipt.bundleFee).sum
    let earned : ℤ := (history.map Receipt.earned).sum
    History.treasury history + bundleFees = supply + earned ∧
      (supply ≤ History.treasury history ↔ bundleFees ≤ earned) := by
  obtain ⟨accounted, balanced⟩ := run.accounted free delivered
  have created := History.created_balanced balanced
  have held := accounted.value
  have taken := taken_sum run.paysSpent.confirmed
  have balance : History.treasury history + (history.map Receipt.bundleFee).sum =
      totalValue state.utxos.toList + totalValue (bundleEntries state.pendingWithdrawalBundle) +
        (history.map Receipt.earned).sum := by
    rw [History.treasury]
    omega
  exact ⟨balance, by omega⟩

end State

end

open Reference in
theorem State.Run.treasury_balances_spendDeposit :
    History.treasury Node.spendHistory + ((Node.spendHistory.map Receipt.bundleFee).sum : ℕ) =
      (totalValue (Node.spendBlock.next .checked Node.depositNode).state.utxos.toList : ℤ) +
        totalValue (bundleEntries
          (Node.spendBlock.next .checked Node.depositNode).state.pendingWithdrawalBundle) +
        (Node.spendHistory.map Receipt.earned).sum :=
  (Run.treasury_balances Node.spendHistory_run.state_run Node.spendHistory_wellNamed
    ⟨Node.spendHistory_run.deposits_named, Node.spendHistory_delivered⟩).1

end Ddk

import Ddk.Proof.Node.Runs
import Ddk.Proof.Run.Accounting

namespace Ddk

open Foundation State

section

variable [Bitcoin] {A C : Type} [GetValue C]

/-- Numbering keeps the values. -/
theorem totalValue_numbered (name : UInt32 → OutPoint) (outputs : List (Output C)) :
    totalValue (numbered name outputs) = Overflow.exactSum (outputs.map getValue) := by
  have values : (numbered name outputs).map (fun entry => getValue entry.2) =
      (outputs.zipIdx.map Prod.fst).map getValue := by
    rw [numbered, List.map_map, List.map_map]
    rfl
  rw [totalValue, values, List.zipIdx_map_fst]

variable [Blake3] [Bincode C]

/-- Checked transactions spend what they create and their fees. -/
theorem totalValue_filled {state : State C} {transactions : List (Transaction C)}
    {filledTransactions : List (FilledTransaction C)} {feeList : List UInt64}
    (filled : List.Forall₂ (fun transaction filled =>
      state.fillTransaction transaction = .ok filled)
      transactions filledTransactions)
    (checks : List.Forall₂ (fun filled fee => validateFilledTransaction .checked filled = .ok fee)
      filledTransactions feeList) :
    totalValue (filledTransactions.flatMap FilledTransaction.spentEntries) =
      totalValue (transactions.flatMap Transaction.createdOutputs) + Overflow.exactSum feeList := by
  induction filled generalizing feeList with
  | nil =>
      cases checks
      rfl
  | @cons transaction filled _ _ success _ ih =>
      obtain ⟨fee, rest, checked, later, rfl⟩ := List.forall₂_cons_left_iff.mp checks
      obtain ⟨same, found⟩ := fillTransaction_eq_ok.mp success
      have spent : totalValue filled.spentEntries = valueIn filled := by
        have outputs : filled.spentEntries.map Prod.snd = filled.spentUtxos := by
          rw [FilledTransaction.spentEntries, List.map_snd_zip (by rw [same, found.length_eq])]
        rw [totalValue, valueIn, ← outputs, List.map_map]
        rfl
      have created : totalValue transaction.createdOutputs = valueOut filled := by
        rw [Transaction.createdOutputs, totalValue_numbered, valueOut, same]
      have balance := validateFilledTransaction_checked checked
      simp only [List.flatMap_cons, totalValue_append, Overflow.exactSum_cons, spent, created,
        ih later]
      omega

/-- A block earns the difference between its fees and its coinbase. -/
def Receipt.earned (receipt : Receipt A C) : ℤ :=
  receipt.fees.toNat - Overflow.exactSum (receipt.body.coinbase.map getValue)

/-- A block that creates and spends accordingly balances. -/
def Receipt.Balanced (receipt : Receipt A C) : Prop :=
  (totalValue receipt.createdEntries : ℤ) + receipt.earned =
    totalValue receipt.spentEntries + totalValue receipt.deposits.toList

namespace History

/-- The created value of balanced blocks is what they spent and received less what they earned. -/
theorem created_balanced {history : List (Receipt A C)}
    (balanced : ∀ receipt ∈ history, receipt.Balanced) :
    (totalValue (createdEntries history) : ℤ) + (history.map Receipt.earned).sum =
      totalValue (spentEntries history) + totalValue (depositEntries history) := by
  induction history with
  | nil => rfl
  | cons receipt history ih =>
      have first := balanced receipt List.mem_cons_self
      have rest := ih fun other member => balanced other (List.mem_cons_of_mem _ member)
      simp only [createdEntries, spentEntries, depositEntries, List.flatMap_cons, totalValue_append,
        List.map_cons, List.sum_cons] at rest ⊢
      rw [Receipt.Balanced] at first
      push_cast
      linarith

end History

variable [GetAddress A] [Verify A C] [DecidableEq C]

/-- A checked block balances. -/
theorem State.Describes.balanced {state collected next : State C} {orders : Orders C}
    {twoWayPegData : TwoWayPegData C} {blockHeight : UInt32} {receipt : Receipt A C}
    (describes : Describes orders .checked state twoWayPegData blockHeight receipt collected next) :
    receipt.Balanced := by
  obtain ⟨feeList, checks, sum⟩ := describes.valid.valued
  have fees := Overflow.sum_checked.mp sum
  have spent : totalValue receipt.spentEntries = _ :=
    totalValue_filled describes.valid.filled checks
  have coinbase : totalValue receipt.body.coinbaseOutputs =
      Overflow.exactSum (receipt.body.coinbase.map getValue) := totalValue_numbered ..
  rw [Receipt.Balanced, Receipt.earned, Receipt.createdEntries, Body.createdOutputs,
    totalValue_append, totalValue_append, coinbase, spent, fees]
  push_cast
  ring

namespace State

/-- Every checked run accounts for its outputs, and each of its blocks balances. -/
theorem Run.accounted {history : List (Receipt A C)} {state : State C}
    (run : Run .checked history state) (free : History.WellNamed history)
    (delivered : History.DeliveredOnce history) :
    History.Accounted history state ∧ ∀ receipt ∈ history, receipt.Balanced := by
  induction run with
  | empty =>
      refine ⟨⟨?_, ?_, ?_⟩, ?_⟩
      · exact Accounts.empty
      · intro entry member
        cases member
      · intro receipt member
        cases member
      · intro receipt member
        cases member
  | block before connects ih =>
      obtain ⟨accounted, balanced⟩ := ih free.tail delivered.tail
      obtain ⟨collected, describes⟩ := connects.describes
      refine ⟨accounted.block describes free delivered, ?_⟩
      intro receipt member
      rcases List.mem_cons.mp member with rfl | earlier
      · exact describes.balanced
      · exact balanced receipt earlier

/-- The supply is what the deposits brought less what was paid out or left unclaimed. -/
theorem supply_conserved {history : List (Receipt A C)} {state : State C}
    (run : Run .checked history state) (free : History.WellNamed history)
    (delivered : History.DeliveredOnce history) :
    (totalValue state.utxos.toList : ℤ) + totalValue (bundleEntries state.pendingWithdrawalBundle) =
      totalValue (History.depositEntries history) - totalValue (History.paidEntries history) -
        (history.map Receipt.earned).sum := by
  obtain ⟨accounted, balanced⟩ := run.accounted free delivered
  have created := History.created_balanced balanced
  have same : totalValue (History.heldEntries history state) =
      totalValue (History.createdEntries history) := by
    have sums := accounted.accounts.sum_eq (fun output => (getValue output).toNat) ?_
    · simpa [totalValue, Overflow.exactSum, Function.comp_def] using sums
    · intro entry member weighted
      exact accounted.once entry member (Overflow.toNat_pos.mp (Nat.pos_of_ne_zero weighted))
  have held : totalValue (History.heldEntries history state) =
      totalValue state.utxos.toList + totalValue (bundleEntries state.pendingWithdrawalBundle) +
        (totalValue (History.spentEntries history) + totalValue (History.paidEntries history)) := by
    simp only [History.heldEntries, totalValue_append]
  omega

end State

end

open Reference in
/-- The deposit of ten leaves four units, a withdrawal of five and a coinbase of one. -/
theorem State.supply_conserved_spendDeposit :
    let state := (Node.spendBlock.next .checked Node.depositNode).state
    (totalValue state.utxos.toList : ℤ) + totalValue (bundleEntries state.pendingWithdrawalBundle) =
      totalValue (History.depositEntries Node.spendHistory) -
        totalValue (History.paidEntries Node.spendHistory) -
        (Node.spendHistory.map Receipt.earned).sum :=
  supply_conserved Node.spendHistory_run.state_run Node.spendHistory_wellNamed
    ⟨Node.spendHistory_run.deposits_named, Node.spendHistory_delivered⟩

end Ddk

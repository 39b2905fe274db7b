import Ddk.Proof.Node.Runs
import Ddk.Proof.Withdrawals.Coverage

namespace Ddk.Node

open Foundation

section

variable [Bitcoin] {A C S : Type} [CustomState S A C]
variable [GetValue C] [GetAddress A] [Verify A C] [Blake3] [Bincode C] [DecidableEq C] [Bs58]

/-- In every run, a bundle is covered exactly when its fees are, and always if none were created. -/
theorem bundle_covered_iff {mode : Overflow} {history : List (Receipt A C)} {node : Node A C S}
    (run : Run mode history node) {orders : Orders C} {blockHeight : UInt32}
    {bundle : WithdrawalBundle C}
    (collected : State.collectWithdrawalBundle orders mode node.state.utxos blockHeight =
      .ok (some bundle)) :
    (bundle.Covered ↔ State.FeesCovered orders node.state.utxos) ∧
      ((∀ entry ∈ History.createdEntries history, entry.2.mainFee = 0) → bundle.Covered) := by
  obtain ⟨groups, fee, collected⟩ := State.collectWithdrawalBundle_eq_some.mp collected
  refine ⟨collected.covered_iff, fun free => collected.covered_iff.mpr
    (State.FeesCovered.of_free ?_)⟩
  intro entry listed
  have held : entry ∈ History.heldEntries history node.state :=
    List.mem_append_left _ (List.mem_append_left _ listed)
  exact free entry (run.state_run.accounts.authentic entry held)

end

section

open Reference

/-- The second block left a withdrawal of five with a fee of three. -/
def spendBundle : WithdrawalBundle Unit :=
  ((State.collectWithdrawalBundle orders .checked (spendBlock.next .checked depositNode).state.utxos
    6).toOption.getD
    none).getD ⟨∅, treasury 0⟩

theorem spendBundle_collected :
    State.collectWithdrawalBundle orders .checked
      (spendBlock.next .checked depositNode).state.utxos 6 =
      .ok (some spendBundle) := by
  decide +kernel

theorem bundle_covered_iff_spendBundle :
    (spendBundle.Covered ↔ State.FeesCovered orders
      (spendBlock.next .checked depositNode).state.utxos) ∧
      ((∀ entry ∈ History.createdEntries spendHistory, entry.2.mainFee = 0) →
        spendBundle.Covered) :=
  bundle_covered_iff spendHistory_run spendBundle_collected

/-- The mainchain takes eight units for the bundle, and the sidechain burns five. -/
theorem bundle_uncovered :
    ¬ ∀ (history : List (Receipt Authorization Unit)) (node : Node Authorization Unit Unit),
      Run .checked history node → ∀ (orders : Orders Unit) (blockHeight : UInt32)
        (bundle : WithdrawalBundle Unit),
      State.collectWithdrawalBundle orders .checked node.state.utxos blockHeight =
        .ok (some bundle) →
      bundle.Covered := by
  intro covered
  have claimed := covered spendHistory _ spendHistory_run orders 6 spendBundle spendBundle_collected
  have spent : ¬ spendBundle.Covered := by
    rw [WithdrawalBundle.Covered]
    decide +kernel
  exact spent claimed

end

end Ddk.Node

import Ddk.Proof.Node.Runs
import Ddk.Proof.Run.Places

namespace Ddk.Node

open Foundation

section

variable [Bitcoin] {A C S : Type} [CustomState S A C]
variable [GetValue C] [GetAddress A] [Verify A C] [Blake3] [Bincode C] [DecidableEq C] [Bs58]

/-- A checked node run accounts for its outputs. -/
theorem Run.accounted {history : List (Receipt A C)} {node : Node A C S}
    (run : Run .checked history node) (named : History.WellNamed history)
    (delivered : ((History.depositEntries history).map Prod.fst).Nodup) :
    History.Accounted history node.state :=
  (run.state_run.accounted named ⟨run.deposits_named, delivered⟩).1

/-- Every output with value has one place at each time, and its consumption or payment is final. -/
theorem outputs_placed_once {history : List (Receipt A C)} {node : Node A C S}
    (run : Run .checked history node) (named : History.WellNamed history)
    (delivered : ((History.depositEntries history).map Prod.fst).Nodup) {outpoint : OutPoint}
    {output : Output C} (created : (outpoint, output) ∈ History.createdEntries history)
    (positive : 0 < getValue output) :
    ∃ place : Place, place.Placed history node.state outpoint output ∧
      (place = .consumed ∨ place = .paid → ∀ (later : List (Receipt A C)) (next : Node A C S),
        Run .checked (later ++ history) next → History.WellNamed (later ++ history) →
        ((History.depositEntries (later ++ history)).map Prod.fst).Nodup →
        place.Placed (later ++ history) next.state outpoint output) := by
  obtain ⟨place, placed⟩ := Place.exists_placed (run.accounted named delivered) created positive
  refine ⟨place, placed, ?_⟩
  intro final later next extended renamed redelivered
  exact placed.final final (extended.accounted renamed redelivered) created positive

end

section

open Reference

def deposited : Output Unit := ⟨Authorization.getAddress (7 : ℕ), .value 10⟩

theorem outputs_placed_once_spendDeposit :
    ∃ place : Place, place.Placed spendHistory (spendBlock.next .checked depositNode).state
        (depositOutPoint 10) deposited ∧
      (place = .consumed ∨ place = .paid → ∀ (later : List (Receipt Authorization Unit))
        (next : Node Authorization Unit Unit), Run .checked (later ++ spendHistory) next →
        History.WellNamed (later ++ spendHistory) →
        ((History.depositEntries (later ++ spendHistory)).map Prod.fst).Nodup →
        place.Placed (later ++ spendHistory) next.state (depositOutPoint 10) deposited) :=
  outputs_placed_once spendHistory_run spendHistory_wellNamed spendHistory_delivered
    (by decide +kernel) (by decide +kernel)

end

end Ddk.Node

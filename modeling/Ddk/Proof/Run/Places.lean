import Ddk.Proof.Run.Supply

namespace Ddk

open Foundation State

variable [Bitcoin] {A C : Type}

/-- A created output is unspent, pending, consumed or paid out. -/
inductive Place where
  | unspent
  | pending
  | consumed
  | paid
  deriving DecidableEq

namespace Place

/-- This number counts how often a place has a name. -/
def count (history : List (Receipt A C)) (state : State C) (outpoint : OutPoint) : Place → ℕ
  | unspent => if (state.utxos[outpoint]?).isSome then 1 else 0
  | pending => state.pendingWithdrawalBundle.toList.countP
    fun bundle => (bundle.spentUtxos[outpoint]?).isSome
  | consumed => ((History.transactions history).flatMap (·.inputs)).count outpoint
  | paid => (history.filterMap (·.confirmed)).countP fun bundle =>
    (bundle.spentUtxos[outpoint]?).isSome

/-- A place keeps an output under its name. -/
def Keeps (history : List (Receipt A C)) (state : State C) (outpoint : OutPoint)
    (output : Output C) :
    Place → Prop
  | unspent => state.utxos[outpoint]? = some output
  | pending => ∃ bundle, state.pendingWithdrawalBundle = some bundle ∧
      bundle.spentUtxos[outpoint]? = some output
  | consumed => (outpoint, output) ∈ History.spentEntries history
  | paid => ∃ bundle ∈ history.filterMap (·.confirmed), bundle.spentUtxos[outpoint]? = some output

/-- An output is exactly once in one place and nowhere else. -/
structure Placed (place : Place) (history : List (Receipt A C)) (state : State C)
    (outpoint : OutPoint)
    (output : Output C) : Prop where
  once : place.count history state outpoint = 1
  kept : place.Keeps history state outpoint output
  elsewhere : ∀ other : Place, other ≠ place → other.count history state outpoint = 0

/-- The entries of one place are a part of the held entries. -/
def entries (history : List (Receipt A C)) (state : State C) : Place → List (OutPoint × Output C)
  | unspent => state.utxos.toList
  | pending => bundleEntries state.pendingWithdrawalBundle
  | consumed => History.spentEntries history
  | paid => History.paidEntries history

/-- The consumed names are the inputs of the included transactions. -/
theorem spentEntries_keys {history : List (Receipt A C)}
    (inputs : ∀ receipt ∈ history, receipt.spentEntries.map Prod.fst = receipt.body.getInputs) :
    (History.spentEntries history).map Prod.fst = (History.transactions history).flatMap
      (·.inputs) := by
  induction history with
  | nil => rfl
  | cons receipt history ih =>
      have first := inputs receipt List.mem_cons_self
      have rest := ih fun other member => inputs other (List.mem_cons_of_mem _ member)
      rw [History.spentEntries, List.flatMap_cons, List.map_append, first, History.transactions,
        List.flatMap_cons, List.flatMap_append]
      exact congrArg _ rest

/-- Each confirmed bundle pays a name at most once. -/
theorem occurrences_paidEntries (history : List (Receipt A C)) (outpoint : OutPoint) :
    occurrences (History.paidEntries history) outpoint =
      (history.filterMap (·.confirmed)).countP fun bundle =>
        (bundle.spentUtxos[outpoint]?).isSome := by
  induction history with
  | nil => rfl
  | cons receipt history ih =>
      have split : occurrences (History.paidEntries (receipt :: history)) outpoint =
          occurrences receipt.paidEntries outpoint + occurrences
              (History.paidEntries history) outpoint :=
        occurrences_append ..
      rw [split, ih, Receipt.paidEntries]
      cases confirmed : receipt.confirmed with
      | none => simp [confirmed, bundleEntries]
      | some bundle =>
          rw [occurrences_bundleEntries, List.filterMap_cons, confirmed, List.countP_cons]
          omega

/-- The count of a place is the number of its entries with that name. -/
theorem count_eq {history : List (Receipt A C)}
    (inputs : ∀ receipt ∈ history, receipt.spentEntries.map Prod.fst = receipt.body.getInputs)
    (state : State C) (outpoint : OutPoint) (place : Place) :
    place.count history state outpoint = occurrences (place.entries history state) outpoint := by
  cases place with
  | unspent => exact (Database.occurrences_toList _ _).symm
  | pending =>
      change List.countP _ _ = occurrences (bundleEntries _) outpoint
      cases state.pendingWithdrawalBundle with
      | none => rfl
      | some bundle =>
          rw [occurrences_bundleEntries, Option.toList_some, List.countP_singleton]
  | consumed =>
      change List.count _ _ = List.count outpoint ((History.spentEntries history).map Prod.fst)
      rw [spentEntries_keys inputs]
  | paid => exact (occurrences_paidEntries history outpoint).symm

/-- A place keeps the outputs that its entries list. -/
theorem keeps_of_mem {history : List (Receipt A C)} {state : State C} {outpoint : OutPoint}
    {output : Output C} {place : Place} (member : (outpoint, output) ∈ place.entries history state)
    :
    place.Keeps history state outpoint output := by
  cases place with
  | unspent => exact Database.mem_entries_iff.mp member
  | pending =>
      have stored := mem_stored.mp (List.mem_append_right state.utxos.toList member)
      unfold entries at member
      cases pending : state.pendingWithdrawalBundle with
      | none =>
          rw [pending] at member
          cases member
      | some bundle =>
          rw [pending] at member
          exact ⟨bundle, pending, Database.mem_entries_iff.mp member⟩
  | consumed => exact member
  | paid =>
      obtain ⟨receipt, listed, paid⟩ := List.mem_flatMap.mp member
      rw [Receipt.paidEntries] at paid
      cases confirmed : receipt.confirmed with
      | none =>
          rw [confirmed] at paid
          cases paid
      | some bundle =>
          rw [confirmed] at paid
          exact ⟨bundle, List.mem_filterMap.mpr ⟨receipt, listed, confirmed⟩,
            Database.mem_entries_iff.mp paid⟩

variable [GetValue C] [Blake3] [Bincode C]

/-- Every output with value is in exactly one place. -/
theorem exists_placed {history : List (Receipt A C)} {state : State C}
    (accounted : History.Accounted history state) {outpoint : OutPoint} {output : Output C}
    (created : (outpoint, output) ∈ History.createdEntries history)
    (positive : 0 < getValue output) :
    ∃ place : Place, place.Placed history state outpoint output := by
  have single := accounted.once (outpoint, output) created positive
  have counted := accounted.accounts.counted outpoint single.le
  have counts := count_eq accounted.inputs state outpoint
  have total : count history state outpoint unspent + count history state outpoint pending +
      (count history state outpoint consumed + count history state outpoint paid) = 1 := by
    simp only [counts, ← occurrences_append]
    exact counted.trans single
  have kept (place : Place) (once : place.count history state outpoint = 1)
      (included : ∀ entry ∈ place.entries history state,
        entry ∈ History.heldEntries history state) :
      place.Keeps history state outpoint output := by
    rw [counts] at once
    obtain ⟨value, member⟩ := exists_of_occurrences_pos (once ▸ Nat.one_pos)
    rw [accounted.accounts.held_value single created (included _ member)] at member
    exact keeps_of_mem member
  have cases : count history state outpoint unspent = 1 ∨ count history state outpoint pending = 1 ∨
      count history state outpoint consumed = 1 ∨ count history state outpoint paid = 1 := by omega
  rcases cases with once | once | once | once
  · refine ⟨unspent, once, kept unspent once fun entry member => ?_, ?_⟩
    · exact List.mem_append_left _ (List.mem_append_left _ member)
    · rintro (_ | _ | _ | _) other <;> first | exact absurd rfl other | omega
  · refine ⟨pending, once, kept pending once fun entry member => ?_, ?_⟩
    · exact List.mem_append_left _ (List.mem_append_right _ member)
    · rintro (_ | _ | _ | _) other <;> first | exact absurd rfl other | omega
  · refine ⟨consumed, once, kept consumed once fun entry member => ?_, ?_⟩
    · exact List.mem_append_right _ (List.mem_append_left _ member)
    · rintro (_ | _ | _ | _) other <;> first | exact absurd rfl other | omega
  · refine ⟨paid, once, kept paid once fun entry member => ?_, ?_⟩
    · exact List.mem_append_right _ (List.mem_append_right _ member)
    · rintro (_ | _ | _ | _) other <;> first | exact absurd rfl other | omega

omit [GetValue C] [Blake3] [Bincode C] in
/-- Later blocks only add consumed and paid outputs. -/
theorem count_le {place : Place} (final : place = consumed ∨ place = paid)
    (later history : List (Receipt A C)) (state next : State C) (outpoint : OutPoint) :
    place.count history state outpoint ≤ place.count (later ++ history) next outpoint := by
  rcases final with rfl | rfl
  · rw [count, count, History.transactions, History.transactions, List.flatMap_append,
      List.flatMap_append, List.count_append]
    exact Nat.le_add_left ..
  · rw [count, count, List.filterMap_append, List.countP_append]
    exact Nat.le_add_left ..

/-- A consumed or paid output stays where it is. -/
theorem Placed.final {history later : List (Receipt A C)} {state next : State C}
    {outpoint : OutPoint} {output : Output C} {place : Place}
    (placed : place.Placed history state outpoint output) (final : place = consumed ∨ place = paid)
    (accounted : History.Accounted (later ++ history) next)
    (created : (outpoint, output) ∈ History.createdEntries history) (positive : 0 < getValue output)
    :
    place.Placed (later ++ history) next outpoint output := by
  have known : (outpoint, output) ∈ History.createdEntries (later ++ history) := by
    rw [History.createdEntries, List.flatMap_append]
    exact List.mem_append_right _ created
  obtain ⟨current, there⟩ := exists_placed accounted known positive
  have grown := count_le final later history state next outpoint
  rw [placed.once] at grown
  by_cases same : place = current
  · exact same ▸ there
  · have gone := there.elsewhere place same
    omega

end Place

end Ddk

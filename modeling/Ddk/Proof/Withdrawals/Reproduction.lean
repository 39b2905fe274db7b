import Ddk.Construction.Reference
import Ddk.Foundation.Lists
import Ddk.Proof.State.Blocks
import Ddk.Proof.Withdrawals.Weight

namespace Ddk

open Foundation

namespace State

section

variable [Bitcoin] {C : Type} [DecidableEq C]

/-- The gathered outputs do not depend on the iteration order. -/
theorem gatherSpent_orders (first second : Orders C) (spentUtxos : HashMap OutPoint (Output C))
    (aggregatedWithdrawals : List (AggregatedWithdrawal C)) :
    gatherSpent first spentUtxos aggregatedWithdrawals =
      gatherSpent second spentUtxos aggregatedWithdrawals := by
  apply congrArg fun step => aggregatedWithdrawals.foldl step spentUtxos
  funext gathered aggregated
  exact HashOrder.putAll_eq first.outputs second.outputs aggregated.spentUtxos gathered

/-- The deposits do not depend on the iteration order. -/
theorem connectDeposits_orders (first second : Orders C) (state : State C)
    (twoWayPegData : TwoWayPegData C) :
    state.connectDeposits first twoWayPegData = state.connectDeposits second twoWayPegData := by
  rw [connectDeposits, connectDeposits, HashOrder.putAll_eq first.outputs second.outputs]

/-- A settled bundle does not depend on the iteration order. -/
theorem settleBundle_orders (first second : Orders C) (state : State C) (blockHeight : UInt32)
    (bundle : WithdrawalBundle C) (status : WithdrawalBundleStatus) :
    state.settleBundle first blockHeight bundle status =
      state.settleBundle second blockHeight bundle status := by
  cases status with
  | failed => rw [settleBundle, settleBundle, HashOrder.putAll_eq first.outputs second.outputs]
  | confirmed => rfl

/-- The statuses do not depend on the iteration order. -/
theorem connectStatuses_orders (first second : Orders C) (state : State C)
    (bundleStatuses : HashMap Bitcoin.Txid WithdrawalBundleStatus) (blockHeight : UInt32) :
    state.connectStatuses first bundleStatuses blockHeight =
      state.connectStatuses second bundleStatuses blockHeight := by
  cases pending : state.pendingWithdrawalBundle with
  | none =>
      rw [connectStatuses, connectStatuses, foldl_connectStatus_none pending,
        foldl_connectStatus_none pending]
  | some bundle =>
      rw [connectStatuses_eq first pending, connectStatuses_eq second pending]
      split
      next => rfl
      next status _ => exact settleBundle_orders first second state blockHeight bundle status

/-- A stored bundle does not depend on the iteration order. -/
theorem storeBundle_orders (first second : Orders C) (state : State C)
    (bundle : WithdrawalBundle C) :
    state.storeBundle first bundle = state.storeBundle second bundle := by
  have same : (state.storeBundle first bundle).utxos = (state.storeBundle second bundle).utxos := by
    apply Std.ExtTreeMap.ext_getElem?
    intro outpoint
    rw [storeBundle_utxos, storeBundle_utxos]
  rw [storeBundle, storeBundle] at same ⊢
  exact congrArg (fun utxos => { state with utxos, pendingWithdrawalBundle := some bundle }) same

variable [Blake3] [Bincode C]

/-- A node hashes the outpoints of its bundle in its own iteration order. -/
def committedInputs (orders : Orders C) (utxos : Database OutPoint (Output C)) : List OutPoint :=
  (orders.outputs.iter (gatherSpent orders ∅ (chosen orders (groupsOf utxos)))).map Prod.fst

/-- The commitments of two nodes do not collide: one hash has one list of inputs. -/
def CommitsApart (first second : Orders C) (utxos : Database OutPoint (Output C))
    (blockHeight : UInt32) : Prop :=
  inputsCommitment (C := C) (committedInputs first utxos) blockHeight =
      inputsCommitment (C := C) (committedInputs second utxos) blockHeight →
    committedInputs first utxos = committedInputs second utxos

/-- This node iterates over its outputs from the end. -/
def backwards (orders : Orders C) : Orders C := { orders with outputs := orders.outputs.reversed }

omit [Blake3] [Bincode C] in
theorem committedInputs_backwards (orders : Orders C) (utxos : Database OutPoint (Output C)) :
    committedInputs (backwards orders) utxos = (committedInputs orders utxos).reverse := by
  have gathered := gatherSpent_orders (backwards orders) orders ∅ (chosen orders (groupsOf utxos))
  have selected : chosen (backwards orders) (groupsOf utxos) = chosen orders (groupsOf utxos) := rfl
  rw [committedInputs, selected, gathered, committedInputs, ← List.map_reverse]
  rfl

/-- The bundle stays the same when another order selects and commits in the same way. -/
theorem Collected.reorder {orders other : Orders C} {mode : Overflow}
    {utxos : Database OutPoint (Output C)} {blockHeight : UInt32}
    {groups : HashMap Bitcoin.Address (AggregatedWithdrawal C)} {fee : UInt64}
    {bundle : WithdrawalBundle C}
    (collected : Collected orders mode utxos blockHeight groups fee bundle)
    (selected : chosen other groups = chosen orders groups)
    (committed : other.outputs.iter (gatherSpent orders ∅ (chosen orders groups)) =
      orders.outputs.iter (gatherSpent orders ∅ (chosen orders groups))) :
    Collected other mode utxos blockHeight groups fee bundle := by
  have same : chosenBundle other groups blockHeight fee =
      chosenBundle orders groups blockHeight fee := by
    rw [chosenBundle, chosenBundle, selected, gatherSpent_orders other orders, committed]
  exact {
    aggregated := collected.aggregated
    present := collected.present
    charged := selected ▸ collected.charged
    light := collected.light
    bundle := collected.bundle.trans same.symm }

/-- Every iteration order proposes the same bundle and reaches the same state. -/
def Reproducible (orders : Orders C) (mode : Overflow) (state : State C)
    (twoWayPegData : TwoWayPegData C)
    (blockHeight : UInt32) : Prop :=
  ∀ other : Orders C, other.sort = orders.sort →
    (state.connectDeposits other twoWayPegData).connectWithdrawals other mode blockHeight =
        (state.connectDeposits orders twoWayPegData).connectWithdrawals orders mode blockHeight ∧
      state.connectTwoWayPegData other mode twoWayPegData blockHeight =
        state.connectTwoWayPegData orders mode twoWayPegData blockHeight

/-- The state follows from the proposed bundle. -/
theorem reproducible_iff {orders : Orders C} {mode : Overflow} {state : State C}
    {twoWayPegData : TwoWayPegData C} {blockHeight : UInt32} :
    Reproducible orders mode state twoWayPegData blockHeight ↔
      ∀ other : Orders C, other.sort = orders.sort →
      (state.connectDeposits orders twoWayPegData).connectWithdrawals other mode blockHeight =
        (state.connectDeposits orders twoWayPegData).connectWithdrawals orders mode
          blockHeight := by
  refine forall₂_congr fun other _ => ?_
  rw [connectTwoWayPegData, connectTwoWayPegData, connectDeposits_orders other orders]
  refine ⟨And.left, fun same => ⟨same, ?_⟩⟩
  rw [same]
  apply congrArg (_ >>= ·)
  funext collected
  rw [connectStatuses_orders other orders]

/-- A withdrawal phase without a due bundle has one result. -/
theorem connectWithdrawals_of_not_due {mode : Overflow} {state : State C} {blockHeight : UInt32}
    (waiting : bundleDue mode state blockHeight ≠ .ok true) (first second : Orders C) :
    state.connectWithdrawals first mode blockHeight =
      state.connectWithdrawals second mode blockHeight := by
  rw [connectWithdrawals, connectWithdrawals]
  cases answer : bundleDue mode state blockHeight with
  | error => rfl
  | ok due =>
      cases due with
      | false => rfl
      | true => exact absurd answer waiting

omit [DecidableEq C] in
/-- The inputs of a bundle transaction are committed in its third output. -/
theorem bundleTransaction_commitment {first second : List OutPoint} {blockHeight : UInt32}
    {fee : UInt64} {bundleOutputs : List Bitcoin.TxOut}
    (same : bundleTransaction (C := C) first blockHeight fee bundleOutputs =
      bundleTransaction (C := C) second blockHeight fee bundleOutputs) :
    inputsCommitment (C := C) first blockHeight = inputsCommitment (C := C) second blockHeight := by
  have outputs := congrArg (fun transaction => transaction.output[2]?) same
  have scripts := congrArg Bitcoin.TxOut.scriptPubkey (Option.some.inj outputs)
  apply hashBytes_injective
  exact (List.cons.inj (List.cons.inj scripts).2).2

variable [GetValue C]

/-- At most one withdrawal leaves one possible bundle. -/
theorem collectWithdrawalBundle_of_single {orders other : Orders C} {mode : Overflow}
    {utxos : Database OutPoint (Output C)} {blockHeight : UInt32}
    {result : Option (WithdrawalBundle C)} (same : other.sort = orders.sort)
    (single : (withdrawals utxos).length ≤ 1)
    (success : collectWithdrawalBundle orders mode utxos blockHeight = .ok result) :
    collectWithdrawalBundle other mode utxos blockHeight = .ok result := by
  cases result with
  | none => exact collectWithdrawalBundle_eq_none.mpr (collectWithdrawalBundle_eq_none.mp success)
  | some bundle =>
      obtain ⟨groups, fee, collected⟩ := collectWithdrawalBundle_eq_some.mp success
      obtain ⟨rfl, _⟩ := aggregateUtxos_eq_ok.mp collected.aggregated
      have few : (groupsOf utxos).toList.length ≤ 1 := by
        rw [← List.length_map Prod.fst, Std.ExtTreeMap.map_fst_toList_eq_keys]
        exact (groupsOf_length_le utxos).trans single
      have selected : chosen other (groupsOf utxos) = chosen orders (groupsOf utxos) := by
        rw [chosen, chosen, same, HashOrder.iter_eq other.groups orders.groups few]
      have committed := HashOrder.iter_eq other.outputs orders.outputs
        ((gatherSpent_length_le orders utxos).trans single)
      exact collectWithdrawalBundle_eq_some.mpr ⟨_, fee, collected.reorder selected committed⟩

/-- Two withdrawals leave two possible bundles, since a node may iterate from the end. -/
theorem exists_other_bundle {orders : Orders C} {mode : Overflow}
    {utxos : Database OutPoint (Output C)} {blockHeight : UInt32} {bundle : WithdrawalBundle C}
    (committed : CommitsApart (backwards orders) orders utxos blockHeight)
    (several : 2 ≤ (withdrawals utxos).length)
    (success : collectWithdrawalBundle orders mode utxos blockHeight = .ok (some bundle)) :
    ∃ changed, collectWithdrawalBundle (backwards orders) mode utxos blockHeight =
      .ok (some changed) ∧
      changed ≠ bundle := by
  obtain ⟨groups, fee, collected⟩ := collectWithdrawalBundle_eq_some.mp success
  obtain ⟨rfl, _⟩ := aggregateUtxos_eq_ok.mp collected.aggregated
  let spent := gatherSpent orders ∅ (chosen orders (groupsOf utxos))
  have written (other : Orders C) :
      (chosenBundle other (groupsOf utxos) blockHeight fee).transaction =
      bundleTransaction (C := C) (committedInputs other utxos) blockHeight fee
        ((chosen other (groupsOf utxos)).map bundleOutput) := rfl
  have light :
      (chosenBundle (backwards orders) (groupsOf utxos) blockHeight fee).transaction.weight ≤
      Bitcoin.maxStandardTxWeight := by
    have bound := collected.light
    rw [collected.bundle, written, bundleTransaction_weight] at bound
    rw [written, bundleTransaction_weight]
    exact bound
  refine ⟨chosenBundle (backwards orders) (groupsOf utxos) blockHeight fee,
    collectWithdrawalBundle_eq_some.mpr ⟨groupsOf utxos, fee, ?_⟩, ?_⟩
  · exact {
      aggregated := collected.aggregated
      present := collected.present
      charged := collected.charged
      light := light
      bundle := rfl }
  · intro same
    rw [collected.bundle] at same
    have transactions := congrArg WithdrawalBundle.transaction same
    rw [written, written] at transactions
    have palindrome := committed (bundleTransaction_commitment transactions)
    rw [committedInputs_backwards] at palindrome
    have distinct : (committedInputs orders utxos).Nodup := orders.outputs.keys_nodup spent
    have short := length_le_one_of_reverse_eq distinct palindrome
    have long : 2 ≤ spent.toList.length := two_le_gatherSpent_length orders several
    rw [committedInputs, List.length_map, (orders.outputs.perm spent).length_eq] at short
    omega

/-- No bundle is due, or at most one withdrawal can enter it. -/
def Unambiguous (orders : Orders C) (mode : Overflow) (state : State C)
    (twoWayPegData : TwoWayPegData C)
    (blockHeight : UInt32) : Prop :=
  bundleDue mode state blockHeight ≠ .ok true ∨
    (withdrawals (state.connectDeposits orders twoWayPegData).utxos).length ≤ 1

omit [GetValue C] in
/-- The phase of a due bundle collects and stores it in any iteration order. -/
theorem connectWithdrawals_of_due {mode : Overflow} {state : State C} {blockHeight : UInt32}
    (due : bundleDue mode state blockHeight = .ok true) (orders other : Orders C) :
    state.connectWithdrawals other mode blockHeight =
      (collectWithdrawalBundle other mode state.utxos (blockHeight + 1)).map fun bundle =>
        bundle.elim state (state.storeBundle orders) := by
  rw [connectWithdrawals, due]
  change (collectWithdrawalBundle other mode state.utxos (blockHeight + 1) >>= _) = _
  cases collectWithdrawalBundle other mode state.utxos (blockHeight + 1) with
  | error => rfl
  | ok bundle =>
      cases bundle with
      | none => rfl
      | some bundle => exact congrArg Except.ok (storeBundle_orders other orders state bundle)

omit [GetValue C] in
/-- A due bundle was collected when its phase succeeds. -/
theorem collected_of_due {orders : Orders C} {mode : Overflow} {state next : State C}
    {blockHeight : UInt32} (due : bundleDue mode state blockHeight = .ok true)
    (reached : state.connectWithdrawals orders mode blockHeight = .ok next) :
    ∃ result, collectWithdrawalBundle orders mode state.utxos (blockHeight + 1) = .ok result := by
  rw [connectWithdrawals_of_due due orders] at reached
  cases found : collectWithdrawalBundle orders mode state.utxos (blockHeight + 1) with
  | error fault =>
      rw [found] at reached
      cases reached
  | ok result => exact ⟨result, rfl⟩

/-- An unambiguous bundle is reproducible, whatever the hash. -/
theorem Unambiguous.reproducible {orders : Orders C} {mode : Overflow} {state next : State C}
    {twoWayPegData : TwoWayPegData C} {blockHeight : UInt32}
    (unambiguous : Unambiguous orders mode state twoWayPegData blockHeight)
    (success : state.connectTwoWayPegData orders mode twoWayPegData blockHeight = .ok next) :
    Reproducible orders mode state twoWayPegData blockHeight := by
  rw [reproducible_iff]
  obtain ⟨collected, reached, _⟩ := Outcome.bind_eq_ok.mp success
  intro other same
  by_cases due : bundleDue mode (state.connectDeposits orders twoWayPegData) blockHeight = .ok true
  · have single := unambiguous.resolve_left fun waiting => waiting due
    obtain ⟨result, success⟩ := collected_of_due due reached
    rw [connectWithdrawals_of_due due orders, connectWithdrawals_of_due due orders, success,
      collectWithdrawalBundle_of_single same single success]
  · exact connectWithdrawals_of_not_due due other orders

/-- A reproducible bundle is unambiguous when the hash separates its inputs from their reverse. -/
theorem Reproducible.unambiguous {orders : Orders C} {mode : Overflow} {state next : State C}
    {twoWayPegData : TwoWayPegData C} {blockHeight : UInt32}
    (reproducible : Reproducible orders mode state twoWayPegData blockHeight)
    (committed : CommitsApart (backwards orders) orders
      (state.connectDeposits orders twoWayPegData).utxos (blockHeight + 1))
    (success : state.connectTwoWayPegData orders mode twoWayPegData blockHeight = .ok next) :
    Unambiguous orders mode state twoWayPegData blockHeight := by
  let deposited := state.connectDeposits orders twoWayPegData
  obtain ⟨collected, reached, _⟩ := Outcome.bind_eq_ok.mp success
  by_cases due : bundleDue mode deposited blockHeight = .ok true
  · refine .inr (Nat.le_of_not_lt fun several => ?_)
    obtain ⟨result, success⟩ := collected_of_due due reached
    cases result with
    | none =>
        have empty := (aggregateUtxos_eq_ok.mp (collectWithdrawalBundle_eq_none.mp success)).1
        have spent := two_le_gatherSpent_length orders several
        have selected := chosen_length orders (groupsOf deposited.utxos)
        rw [← empty, Database.keys_empty] at selected
        rw [← empty, List.length_eq_zero_iff.mp selected] at spent
        simp [gatherSpent] at spent
    | some bundle =>
        obtain ⟨changed, proposed, different⟩ := exists_other_bundle committed several success
        have equal := reproducible_iff.mp reproducible (backwards orders) rfl
        rw [connectWithdrawals_of_due due orders, connectWithdrawals_of_due due orders, proposed,
          success] at equal
        have pending := congrArg State.pendingWithdrawalBundle (Except.ok.inj equal)
        exact different (Option.some.inj pending)
  · exact .inl due

/-- The connected state is reproducible exactly when no bundle is due or at most one withdrawal
exists. Only the necessity needs the hash, for the inputs of the bundle in two orders. -/
theorem bundle_reproducible_iff {orders : Orders C} {mode : Overflow} {state next : State C}
    {twoWayPegData : TwoWayPegData C} {blockHeight : UInt32}
    (success : state.connectTwoWayPegData orders mode twoWayPegData blockHeight = .ok next) :
    (Unambiguous orders mode state twoWayPegData blockHeight →
        Reproducible orders mode state twoWayPegData blockHeight) ∧
      (CommitsApart (backwards orders) orders
          (state.connectDeposits orders twoWayPegData).utxos (blockHeight + 1) →
        (Reproducible orders mode state twoWayPegData blockHeight ↔
          Unambiguous orders mode state twoWayPegData blockHeight)) :=
  ⟨fun unambiguous => unambiguous.reproducible success, fun committed =>
    ⟨fun reproducible => reproducible.unambiguous committed success,
      fun unambiguous => unambiguous.reproducible success⟩⟩

end

section

open Reference

/-- Two withdrawals of one destination wait for their first bundle. -/
def twoWithdrawals : State Unit :=
  ⟨Database.putAll ∅ [(.regular ⟨1⟩ 0, ⟨⟨5⟩, .withdrawal 5 1 (9 : ℕ)⟩),
    (.regular ⟨2⟩ 0, ⟨⟨5⟩, .withdrawal 6 1 (9 : ℕ)⟩)],
    none, none, none⟩

/-- The commitments of the two orders of its inputs differ. -/
theorem twoWithdrawals_committed : CommitsApart (backwards orders) orders
    (twoWithdrawals.connectDeposits orders ⟨∅, none, ∅⟩).utxos 5 := by
  unfold CommitsApart
  decide +kernel

def twoWithdrawalsNext : State Unit :=
  (twoWithdrawals.connectTwoWayPegData orders .checked ⟨∅, none, ∅⟩ 4).toOption.getD twoWithdrawals

theorem bundle_reproducible_iff_twoWithdrawals :
    Reproducible orders .checked twoWithdrawals ⟨∅, none, ∅⟩ 4 ↔
      Unambiguous orders .checked twoWithdrawals ⟨∅, none, ∅⟩ 4 :=
  have success : twoWithdrawals.connectTwoWayPegData orders .checked ⟨∅, none, ∅⟩ 4 =
      .ok twoWithdrawalsNext := Outcome.eq_ok_getD _ (by decide +kernel)
  (bundle_reproducible_iff success).2 twoWithdrawals_committed

/-- The proposed transaction is the transaction of the pending bundle. -/
def proposedTransaction (result : Outcome Error (State Unit)) : Option Bitcoin.Transaction :=
  (result.toOption.bind State.pendingWithdrawalBundle).map WithdrawalBundle.transaction

/-- Two iteration orders propose two transactions, and their commitments do not collide. -/
theorem bundle_not_reproducible :
    ¬ ∀ (state : State Unit) (twoWayPegData : TwoWayPegData Unit) (blockHeight : UInt32)
      (first second : Orders Unit), first.sort = second.sort →
      CommitsApart first second (state.connectDeposits first twoWayPegData).utxos
        (blockHeight + 1) →
      state.connectTwoWayPegData first .checked twoWayPegData blockHeight =
        state.connectTwoWayPegData second .checked twoWayPegData blockHeight := by
  intro same
  have equal := same twoWithdrawals ⟨∅, none, ∅⟩ 4 (backwards orders) orders rfl
    twoWithdrawals_committed
  have different :
      proposedTransaction (twoWithdrawals.connectTwoWayPegData (backwards orders) .checked
        ⟨∅, none, ∅⟩ 4) ≠
        proposedTransaction (twoWithdrawals.connectTwoWayPegData orders .checked
            ⟨∅, none, ∅⟩ 4) := by
    decide +kernel
  exact different (congrArg proposedTransaction equal)

end

end State

end Ddk

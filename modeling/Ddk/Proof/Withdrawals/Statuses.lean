import Ddk.Construction.Reference
import Ddk.Proof.State.Blocks
import Ddk.Proof.Withdrawals.Reproduction

namespace Ddk

open Foundation

namespace Drivechain

/-- A view holds the withdrawal lists that the mainchain gives at one time. -/
structure WithdrawalView where
  spent : List SpentWithdrawal
  failed : List FailedWithdrawal

namespace WithdrawalView

/-- The client of a view answers both withdrawal calls. -/
def client (view : WithdrawalView) : MainClient :=
  ⟨fun _ _ _ => none, some view.spent, some view.failed⟩

/-- Two views contain the same entries of one sidechain. -/
structure SameOwn (sidechainNumber : UInt8) (first second : WithdrawalView) : Prop where
  spent : ∀ entry, entry.nsidechain = sidechainNumber → (entry ∈ first.spent ↔ entry ∈ second.spent)
  failed : ∀ entry, entry.nsidechain = sidechainNumber →
    (entry ∈ first.failed ↔ entry ∈ second.failed)

/-- A sidechain confirmed the bundle with this name. -/
def Confirmed (view : WithdrawalView) (sidechainNumber : UInt8) (txid : Bitcoin.Txid) : Prop :=
  ∃ entry ∈ view.spent, entry.nsidechain = sidechainNumber ∧ entry.hash = txid

/-- Some sidechain failed a bundle with this name. -/
def FailedAnywhere (view : WithdrawalView) (txid : Bitcoin.Txid) : Prop :=
  ∃ entry ∈ view.failed, entry.hash = txid

/-- A sidechain failed the bundle with this name. -/
def Failed (view : WithdrawalView) (sidechainNumber : UInt8) (txid : Bitcoin.Txid) : Prop :=
  ∃ entry ∈ view.failed, entry.nsidechain = sidechainNumber ∧ entry.hash = txid

variable {sidechainNumber : UInt8} {first second view : WithdrawalView}

/-- The own failures agree in both views. -/
theorem SameOwn.failed_iff (same : SameOwn sidechainNumber first second) (txid : Bitcoin.Txid) :
    first.Failed sidechainNumber txid ↔ second.Failed sidechainNumber txid := by
  apply exists_congr
  intro entry
  by_cases own : entry.nsidechain = sidechainNumber
  · rw [same.failed entry own]
  · simp [own]

theorem Failed.anywhere {txid : Bitcoin.Txid} (failed : view.Failed sidechainNumber txid) :
    view.FailedAnywhere txid := by
  obtain ⟨entry, member, _, named⟩ := failed
  exact ⟨entry, member, named⟩

/-- The own confirmations agree in both views. -/
theorem SameOwn.confirmed (same : SameOwn sidechainNumber first second) (txid : Bitcoin.Txid) :
    first.Confirmed sidechainNumber txid ↔ second.Confirmed sidechainNumber txid := by
  apply exists_congr
  intro entry
  by_cases own : entry.nsidechain = sidechainNumber
  · rw [same.spent entry own]
  · simp [own]

open Classical in
/-- A failure on any sidechain replaces an own confirmation. -/
theorem statuses_lookup {statuses : HashMap Bitcoin.Txid WithdrawalBundleStatus}
    (success : getWithdrawalBundleStatuses view.client sidechainNumber = .ok statuses)
    (txid : Bitcoin.Txid) :
    statuses[txid]? =
      if view.FailedAnywhere txid then some .failed
      else if view.Confirmed sidechainNumber txid then some .confirmed else none := by
  have stored :
      Database.putAll (Database.putAll ∅ ((view.spent.filter (·.nsidechain = sidechainNumber)).map
        fun spent => (spent.hash, .confirmed)))
            (view.failed.map fun failed => (failed.hash, .failed)) = statuses :=
    Except.ok.inj success
  have confirmations : (view.spent.filter (·.nsidechain = sidechainNumber)).map
      (fun spent => (spent.hash, WithdrawalBundleStatus.confirmed)) =
      ((view.spent.filter (·.nsidechain = sidechainNumber)).map SpentWithdrawal.hash).map
        fun txid => (txid, .confirmed) := by
    rw [List.map_map]
    rfl
  have failures : view.failed.map (fun failed => (failed.hash, WithdrawalBundleStatus.failed)) =
      (view.failed.map FailedWithdrawal.hash).map fun txid => (txid, .failed) := by
    rw [List.map_map]
    rfl
  have failed : txid ∈ view.failed.map FailedWithdrawal.hash ↔ view.FailedAnywhere txid := by
    rw [List.mem_map, FailedAnywhere]
  have confirmed : txid ∈ (view.spent.filter (·.nsidechain = sidechainNumber)).map
      SpentWithdrawal.hash ↔
      view.Confirmed sidechainNumber txid := by
    simp only [List.mem_map, List.mem_filter, decide_eq_true_eq, Confirmed, and_assoc]
  rw [← stored, confirmations, failures, Database.getElem?_putAll_constant,
    Database.getElem?_putAll_constant, if_congr failed rfl rfl, if_congr confirmed rfl rfl,
    Std.ExtTreeMap.getElem?_empty]

end WithdrawalView

end Drivechain

namespace State

open Drivechain

section

variable [Bitcoin] {C : Type} [DecidableEq C]

/-- A refund of this bundle would change nothing but the pending bundle. -/
structure AlreadyRefunded (state : State C) (bundle : WithdrawalBundle C)
    (blockHeight : UInt32) : Prop where
  recorded : state.lastWithdrawalBundleFailureHeight = some (blockHeight + 1)
  returned : ∀ (outpoint : OutPoint) (output : Output C),
    bundle.spentUtxos[outpoint]? = some output →
    state.utxos[outpoint]? = some output

/-- A refund and a confirmation agree exactly when everything was refunded before. -/
theorem settleBundle_agrees_iff (orders : Orders C) (state : State C) (bundle : WithdrawalBundle C)
    (blockHeight : UInt32) :
    state.settleBundle orders blockHeight bundle .failed =
      state.settleBundle orders blockHeight bundle .confirmed ↔
      state.AlreadyRefunded bundle blockHeight := by
  constructor
  · intro same
    have utxos := congrArg State.utxos same
    have failure := congrArg State.lastWithdrawalBundleFailureHeight same
    refine ⟨failure.symm, fun outpoint output spent => ?_⟩
    have found := congrArg (·[outpoint]?) utxos
    change (state.utxos.putAll (orders.outputs.iter bundle.spentUtxos))[outpoint]? =
      state.utxos[outpoint]? at found
    rw [orders.outputs.getElem?_putAll, spent, Option.some_or] at found
    exact found.symm
  · intro refunded
    have utxos : state.utxos.putAll (orders.outputs.iter bundle.spentUtxos) = state.utxos := by
      apply Std.ExtTreeMap.ext_getElem?
      intro outpoint
      rw [orders.outputs.getElem?_putAll]
      cases spent : bundle.spentUtxos[outpoint]? with
      | none => rfl
      | some output => rw [refunded.returned outpoint output spent, Option.some_or]
    rw [settleBundle, settleBundle, utxos, ← refunded.recorded]

/-- The status maps agree on the pending bundle, or both settle it and it was refunded before. -/
def StatusesAgree (state : State C) (first second : HashMap Bitcoin.Txid WithdrawalBundleStatus)
    (blockHeight : UInt32) : Prop :=
  ∀ bundle, state.pendingWithdrawalBundle = some bundle →
    first[Bitcoin.txid bundle.transaction]? = second[Bitcoin.txid bundle.transaction]? ∨
    (first[Bitcoin.txid bundle.transaction]? ≠ none ∧
      second[Bitcoin.txid bundle.transaction]? ≠ none ∧
      state.AlreadyRefunded bundle blockHeight)

/-- Two status maps settle a bundle in the same way exactly when they agree on its name. -/
theorem connectStatuses_eq_iff (orders : Orders C) (state : State C)
    (first second : HashMap Bitcoin.Txid WithdrawalBundleStatus) (blockHeight : UInt32) :
    state.connectStatuses orders first blockHeight =
      state.connectStatuses orders second blockHeight ↔
      state.StatusesAgree first second blockHeight := by
  cases pending : state.pendingWithdrawalBundle with
  | none =>
      rw [connectStatuses, connectStatuses, foldl_connectStatus_none pending,
        foldl_connectStatus_none pending]
      apply iff_of_true rfl
      intro bundle found
      rw [pending] at found
      cases found
  | some bundle =>
      have agrees : state.StatusesAgree first second blockHeight ↔
          first[Bitcoin.txid bundle.transaction]? = second[Bitcoin.txid bundle.transaction]? ∨
          (first[Bitcoin.txid bundle.transaction]? ≠ none ∧
            second[Bitcoin.txid bundle.transaction]? ≠ none ∧
            state.AlreadyRefunded bundle blockHeight) := by
        rw [StatusesAgree, pending]
        exact ⟨fun agree => agree bundle rfl, fun agree _ found => Option.some.inj found ▸ agree⟩
      have unsettled (status : WithdrawalBundleStatus) :
          state ≠ state.settleBundle orders blockHeight bundle status := by
        intro settled
        have gone := congrArg State.pendingWithdrawalBundle settled
        rw [pending] at gone
        cases status <;> cases gone
      have refunded := settleBundle_agrees_iff orders state bundle blockHeight
      rw [agrees, connectStatuses_eq orders pending, connectStatuses_eq orders pending]
      cases first[Bitcoin.txid bundle.transaction]? with
      | none =>
          cases second[Bitcoin.txid bundle.transaction]? with
          | none => simp
          | some status => simp [unsettled]
      | some status =>
          cases second[Bitcoin.txid bundle.transaction]? with
          | none => simp [(unsettled _).symm]
          | some other =>
              cases status <;> cases other <;>
                simp [refunded,
                  eq_comm (a := state.settleBundle orders blockHeight bundle .confirmed)]

/-- The status loop reaches the failure of this bundle while it is pending and refunds it. -/
def Refunds (orders : Orders C) (state : State C)
    (bundleStatuses : HashMap Bitcoin.Txid WithdrawalBundleStatus) (blockHeight : UInt32)
    (bundle : WithdrawalBundle C) : Prop :=
  ∃ before after,
    orders.statuses.iter bundleStatuses = before ++
      (Bitcoin.txid bundle.transaction, .failed) :: after ∧
    (before.foldl (connectStatus orders blockHeight) state).pendingWithdrawalBundle = some bundle

/-- The pending bundle is refunded exactly when its status is a failure. -/
theorem refunds_iff {orders : Orders C} {state : State C}
    {bundleStatuses : HashMap Bitcoin.Txid WithdrawalBundleStatus} {blockHeight : UInt32}
    {bundle : WithdrawalBundle C} (pending : state.pendingWithdrawalBundle = some bundle) :
    state.Refunds orders bundleStatuses blockHeight bundle ↔
      bundleStatuses[Bitcoin.txid bundle.transaction]? = some .failed := by
  constructor
  · intro refunded
    obtain ⟨before, after, split, _⟩ := refunded
    have member : (Bitcoin.txid bundle.transaction, .failed) ∈
        orders.statuses.iter bundleStatuses := by
      rw [split]
      exact List.mem_append_right _ List.mem_cons_self
    exact orders.statuses.mem_iter.mp member
  · intro found
    obtain ⟨before, after, split, absent⟩ := orders.statuses.exists_split found
    refine ⟨before, after, split, ?_⟩
    rw [foldl_connectStatus_other pending absent, pending]

/-- The statuses refund the pending bundle only when this sidechain failed it. -/
def RefundsOwn (orders : Orders C) (state : State C)
    (bundleStatuses : HashMap Bitcoin.Txid WithdrawalBundleStatus) (blockHeight : UInt32)
    (sidechainNumber : UInt8) (view : WithdrawalView) : Prop :=
  ∀ bundle, state.pendingWithdrawalBundle = some bundle →
    state.Refunds orders bundleStatuses blockHeight bundle →
    view.Failed sidechainNumber (Bitcoin.txid bundle.transaction)

/-- A failure of the pending bundle on some sidechain comes with a failure on this one. -/
def FailsHere (state : State C) (sidechainNumber : UInt8) (view : WithdrawalView) : Prop :=
  ∀ bundle, state.pendingWithdrawalBundle = some bundle →
    view.FailedAnywhere (Bitcoin.txid bundle.transaction) →
    view.Failed sidechainNumber (Bitcoin.txid bundle.transaction)

/-- A view refunds only own failures exactly when no other failure names the pending bundle. -/
theorem refundsOwn_iff {orders : Orders C} {state : State C} {sidechainNumber : UInt8}
    {view : WithdrawalView} {bundleStatuses : HashMap Bitcoin.Txid WithdrawalBundleStatus}
    (read : getWithdrawalBundleStatuses view.client sidechainNumber = .ok bundleStatuses)
    (blockHeight : UInt32) :
    state.RefundsOwn orders bundleStatuses blockHeight sidechainNumber view ↔
      state.FailsHere sidechainNumber view := by
  classical
  refine forall₂_congr fun bundle pending => imp_congr_left ?_
  rw [refunds_iff pending, WithdrawalView.statuses_lookup read]
  by_cases failed : view.FailedAnywhere (Bitcoin.txid bundle.transaction)
  · simp [failed]
  · by_cases confirmed : view.Confirmed sidechainNumber (Bitcoin.txid bundle.transaction) <;>
      simp [failed, confirmed]

omit [DecidableEq C] in
/-- Two views with the same own entries give one status when their failures are own ones. -/
theorem FailsHere.statusesAgree {state : State C} {sidechainNumber : UInt8}
    {first second : WithdrawalView} (same : WithdrawalView.SameOwn sidechainNumber first second)
    {firstStatuses secondStatuses : HashMap Bitcoin.Txid WithdrawalBundleStatus}
    (firstRead : getWithdrawalBundleStatuses first.client sidechainNumber = .ok firstStatuses)
    (secondRead : getWithdrawalBundleStatuses second.client sidechainNumber = .ok secondStatuses)
    (firstHere : state.FailsHere sidechainNumber first)
    (secondHere : state.FailsHere sidechainNumber second)
    (blockHeight : UInt32) : state.StatusesAgree firstStatuses secondStatuses blockHeight := by
  classical
  intro bundle pending
  have failures : first.FailedAnywhere (Bitcoin.txid bundle.transaction) ↔
      second.FailedAnywhere (Bitcoin.txid bundle.transaction) :=
    ⟨fun failed => ((same.failed_iff _).mp (firstHere bundle pending failed)).anywhere,
      fun failed => ((same.failed_iff _).mpr (secondHere bundle pending failed)).anywhere⟩
  left
  rw [WithdrawalView.statuses_lookup firstRead, WithdrawalView.statuses_lookup secondRead,
    if_congr failures rfl (if_congr (same.confirmed (Bitcoin.txid bundle.transaction)) rfl rfl)]

variable [Blake3] [Bincode C]

/-- Two status maps connect one state exactly when they agree on the bundle that is then pending. -/
theorem connectTwoWayPegData_eq_iff (orders : Orders C) (mode : Overflow) (state : State C)
    (deposits : HashMap OutPoint (Output C)) (depositBlockHash : Option Bitcoin.BlockHash)
    (blockHeight : UInt32) (first second : HashMap Bitcoin.Txid WithdrawalBundleStatus) :
    state.connectTwoWayPegData orders mode ⟨deposits, depositBlockHash, first⟩ blockHeight =
        state.connectTwoWayPegData orders mode ⟨deposits, depositBlockHash, second⟩ blockHeight ↔
      ∀ waiting,
        (state.connectDeposits orders ⟨deposits, depositBlockHash, first⟩).connectWithdrawals
          orders mode blockHeight = .ok waiting →
        waiting.StatusesAgree first second blockHeight := by
  have deposited : state.connectDeposits orders ⟨deposits, depositBlockHash, second⟩ =
      state.connectDeposits orders ⟨deposits, depositBlockHash, first⟩ := rfl
  rw [connectTwoWayPegData, connectTwoWayPegData, deposited]
  cases phase :
    (state.connectDeposits orders ⟨deposits, depositBlockHash, first⟩).connectWithdrawals
      orders mode blockHeight with
  | error fault =>
      apply iff_of_true rfl
      intro waiting reached
      cases reached
  | ok waiting =>
      have settled := connectStatuses_eq_iff orders waiting first second blockHeight
      constructor
      · intro equal reached found
        rw [← Except.ok.inj found]
        exact settled.mp (Except.ok.inj equal)
      · intro agree
        exact congrArg Except.ok (settled.mpr (agree waiting rfl))

/-- Other sidechains change nothing, and no bundle is refunded that did not fail here,
exactly when each failure of the bundle that is pending at the statuses comes with a
failure on this sidechain. -/
theorem statuses_noninterference_iff (orders : Orders C) (mode : Overflow) (state : State C)
    (deposits : HashMap OutPoint (Output C)) (depositBlockHash : Option Bitcoin.BlockHash)
    (blockHeight : UInt32) {sidechainNumber : UInt8} {first second : WithdrawalView}
    (same : WithdrawalView.SameOwn sidechainNumber first second)
    {firstStatuses secondStatuses : HashMap Bitcoin.Txid WithdrawalBundleStatus}
    (firstRead : getWithdrawalBundleStatuses first.client sidechainNumber = .ok firstStatuses)
    (secondRead : getWithdrawalBundleStatuses second.client sidechainNumber = .ok secondStatuses) :
    (state.connectTwoWayPegData orders mode
          ⟨deposits, depositBlockHash, firstStatuses⟩ blockHeight =
        state.connectTwoWayPegData orders mode
          ⟨deposits, depositBlockHash, secondStatuses⟩ blockHeight ∧
      ∀ waiting,
        (state.connectDeposits orders
          ⟨deposits, depositBlockHash, firstStatuses⟩).connectWithdrawals orders mode blockHeight =
            .ok waiting →
        waiting.RefundsOwn orders firstStatuses blockHeight sidechainNumber first ∧
          waiting.RefundsOwn orders secondStatuses blockHeight sidechainNumber second) ↔
      ∀ waiting,
        (state.connectDeposits orders
          ⟨deposits, depositBlockHash, firstStatuses⟩).connectWithdrawals orders mode blockHeight =
            .ok waiting →
        waiting.FailsHere sidechainNumber first ∧ waiting.FailsHere sidechainNumber second := by
  rw [connectTwoWayPegData_eq_iff]
  simp only [refundsOwn_iff firstRead, refundsOwn_iff secondRead]
  refine ⟨And.right, fun here => ⟨fun waiting reached => ?_, here⟩⟩
  obtain ⟨firstHere, secondHere⟩ := here waiting reached
  exact FailsHere.statusesAgree same firstRead secondRead firstHere secondHere blockHeight

end

section

open Reference

/-- The bundle of two withdrawals is pending. -/
def pendingTxid : Bitcoin.Txid :=
  (twoWithdrawalsNext.pendingWithdrawalBundle.map fun bundle =>
    Bitcoin.txid bundle.transaction).getD 0

/-- Sidechain zero confirmed the bundle in both views, and sidechain one failed it in one view. -/
def confirmedView (txid : Bitcoin.Txid) : WithdrawalView := ⟨[⟨0, txid, 2⟩], []⟩

def disputedView (txid : Bitcoin.Txid) : WithdrawalView := ⟨[⟨0, txid, 2⟩], [⟨1, txid⟩]⟩

theorem confirmedView_sameOwn (txid : Bitcoin.Txid) :
    WithdrawalView.SameOwn 0 (confirmedView txid) (disputedView txid) where
  spent entry _ := Iff.rfl
  failed entry own := by
    apply iff_of_false List.not_mem_nil
    intro member
    rw [List.mem_singleton.mp member] at own
    cases own

def confirmedStatuses (txid : Bitcoin.Txid) : HashMap Bitcoin.Txid WithdrawalBundleStatus :=
  Database.putAll ∅ [(txid, .confirmed)]

def disputedStatuses (txid : Bitcoin.Txid) : HashMap Bitcoin.Txid WithdrawalBundleStatus :=
  Database.putAll (confirmedStatuses txid) [(txid, .failed)]

theorem confirmedView_read (txid : Bitcoin.Txid) :
    getWithdrawalBundleStatuses (confirmedView txid).client 0 = .ok (confirmedStatuses txid) := rfl

theorem disputedView_read (txid : Bitcoin.Txid) :
    getWithdrawalBundleStatuses (disputedView txid).client 0 = .ok (disputedStatuses txid) := rfl

theorem statuses_noninterference_iff_disputed :
    (twoWithdrawalsNext.connectTwoWayPegData orders .checked
        ⟨∅, none, confirmedStatuses pendingTxid⟩ 5 =
        twoWithdrawalsNext.connectTwoWayPegData orders .checked
          ⟨∅, none, disputedStatuses pendingTxid⟩ 5 ∧
      ∀ waiting, (twoWithdrawalsNext.connectDeposits orders
          ⟨∅, none, confirmedStatuses pendingTxid⟩).connectWithdrawals orders .checked 5 =
            .ok waiting →
        waiting.RefundsOwn orders (confirmedStatuses pendingTxid) 5 0 (confirmedView pendingTxid) ∧
          waiting.RefundsOwn orders (disputedStatuses pendingTxid) 5 0 (disputedView pendingTxid)) ↔
      ∀ waiting, (twoWithdrawalsNext.connectDeposits orders
          ⟨∅, none, confirmedStatuses pendingTxid⟩).connectWithdrawals orders .checked 5 =
            .ok waiting →
        waiting.FailsHere 0 (confirmedView pendingTxid) ∧
          waiting.FailsHere 0 (disputedView pendingTxid) :=
  statuses_noninterference_iff orders .checked twoWithdrawalsNext ∅ none 5
    (confirmedView_sameOwn pendingTxid)
    (confirmedView_read pendingTxid) (disputedView_read pendingTxid)

/-- This number counts the outputs after a block. -/
def outputCount (result : Outcome Error (State Unit)) : Option ℕ :=
  result.toOption.map fun state => state.utxos.toList.length

/-- A failure on another sidechain refunds a bundle that this sidechain confirmed. -/
theorem other_sidechain_refunds :
    (¬ ∀ (state : State Unit) (blockHeight : UInt32) (first second : WithdrawalView)
        (firstStatuses secondStatuses : HashMap Bitcoin.Txid WithdrawalBundleStatus),
        WithdrawalView.SameOwn 0 first second →
        getWithdrawalBundleStatuses first.client 0 = .ok firstStatuses →
        getWithdrawalBundleStatuses second.client 0 = .ok secondStatuses →
        state.connectTwoWayPegData orders .checked ⟨∅, none, firstStatuses⟩ blockHeight =
          state.connectTwoWayPegData orders .checked ⟨∅, none, secondStatuses⟩ blockHeight) ∧
      outputCount (twoWithdrawalsNext.connectTwoWayPegData orders .checked
        ⟨∅, none, confirmedStatuses pendingTxid⟩ 5) = some 0 ∧
      outputCount (twoWithdrawalsNext.connectTwoWayPegData orders .checked
        ⟨∅, none, disputedStatuses pendingTxid⟩ 5) = some 2 := by
  have kept : outputCount (twoWithdrawalsNext.connectTwoWayPegData orders .checked
      ⟨∅, none, confirmedStatuses pendingTxid⟩ 5) = some 0 := by decide +kernel
  have refunded : outputCount (twoWithdrawalsNext.connectTwoWayPegData orders .checked
      ⟨∅, none, disputedStatuses pendingTxid⟩ 5) = some 2 := by decide +kernel
  refine ⟨fun claim => ?_, kept, refunded⟩
  have equal := claim twoWithdrawalsNext 5 _ _ _ _ (confirmedView_sameOwn pendingTxid)
    (confirmedView_read pendingTxid) (disputedView_read pendingTxid)
  rw [equal, refunded] at kept
  exact absurd kept (by decide)

end

end State

end Ddk

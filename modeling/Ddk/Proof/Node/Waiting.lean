import Ddk.Proof.Node.Pacing

namespace Ddk

open Foundation

section

variable [Bitcoin] {C : Type} [DecidableEq C]

namespace State

omit [DecidableEq C] in
/-- No bundle is due while one is pending or the gap after a failure lasts. -/
theorem bundleDue_waits {mode : Overflow} {state : State C} {blockHeight : UInt32}
    (waits : bundleDue mode state blockHeight = .ok false) (room : blockHeight.toNat + 1 < 2 ^ 32)
    (below : (state.lastWithdrawalBundleFailureHeight.getD 0).toNat ≤ blockHeight.toNat) :
    state.pendingWithdrawalBundle ≠ none ∨
      blockHeight.toNat + 1 ≤
        (state.lastWithdrawalBundleFailureHeight.getD 0).toNat +
          withdrawalBundleFailureGap.toNat := by
  obtain ⟨nextHeight, added, waits⟩ := Outcome.bind_eq_ok.mp waits
  obtain ⟨elapsed, subtracted, waits⟩ := Outcome.bind_eq_ok.mp waits
  have either := Outcome.pure_eq_ok.mp waits
  rw [Bool.and_eq_false_iff, decide_eq_false_iff_not, Option.isNone_eq_false_iff,
    Option.isSome_iff_ne_none] at either
  apply either.symm.imp_right
  intro soon
  have raised : nextHeight.toNat = blockHeight.toNat + 1 := by
    rw [Overflow.guard_value added, UInt32.toNat_add, UInt32.toNat_one, Nat.mod_eq_of_lt room]
  have enough : state.lastWithdrawalBundleFailureHeight.getD 0 ≤ nextHeight := by
    rw [UInt32.le_iff_toNat_le]
    omega
  rw [Overflow.guard_value subtracted, gt_iff_lt, UInt32.lt_iff_toNat_lt,
    UInt32.toNat_sub_of_le _ _ enough] at soon
  omega

variable [Blake3] [Bincode C] [GetValue C]

/-- A collection without a bundle saw no withdrawal. -/
theorem collectWithdrawalBundle_unowed {orders : Orders C} {mode : Overflow}
    {utxos : Database OutPoint (Output C)} {blockHeight : UInt32}
    (nothing : collectWithdrawalBundle orders mode utxos blockHeight = .ok none)
    {outpoint : OutPoint}
    {output : Output C} (stored : utxos[outpoint]? = some output) : output.destination = none := by
  have empty := (aggregateUtxos_eq_ok.mp (collectWithdrawalBundle_eq_none.mp nothing)).1
  by_contra owed
  obtain ⟨address, named⟩ := Option.ne_none_iff_exists'.mp owed
  have member : (outpoint, output) ∈ withdrawalsTo address utxos.toList :=
    mem_withdrawalsTo.mpr ⟨Database.mem_entries_iff.mpr stored, named⟩
  have listed := (groupsOf_aggregates utxos).listed address
  rw [← empty, Std.ExtTreeMap.getElem?_empty] at listed
  cases listed.mpr (List.ne_nil_of_mem member)

omit [Blake3] [Bincode C] [GetValue C] in
/-- The statuses remove a bundle only when they fail or confirm it. -/
theorem connectStatuses_removes {orders : Orders C} {state : State C}
    {bundleStatuses : HashMap Bitcoin.Txid WithdrawalBundleStatus} {blockHeight : UInt32}
    {bundle : WithdrawalBundle C} (pending : state.pendingWithdrawalBundle = some bundle)
    (removed : (state.connectStatuses orders bundleStatuses blockHeight).pendingWithdrawalBundle =
      none) :
    bundleStatuses[Bitcoin.txid bundle.transaction]? = some .failed ∨
      bundleStatuses[Bitcoin.txid bundle.transaction]? = some .confirmed := by
  rw [connectStatuses_eq orders pending] at removed
  split at removed
  next =>
    rw [pending] at removed
    cases removed
  next status named => cases status <;> simp [named]

end State

end

namespace Node

section

variable [Bitcoin] {A C S : Type} [CustomState S A C]
variable [GetValue C] [GetAddress A] [Verify A C] [Blake3] [Bincode C] [DecidableEq C]

/-- A withdrawal waits for a bundle, for the gap after a failure or for one confirming block. -/
def Prompt (log : List (PacingEntry C)) (state : State C) : Prop :=
  ∀ (outpoint : OutPoint) (output : Output C), state.utxos[outpoint]? = some output →
    output.destination ≠ none →
    state.pendingWithdrawalBundle = none → ∃ entry earlier, log = entry :: earlier ∧
      (entry.height ≤ PacingEntry.lastFailure log + State.withdrawalBundleFailureGap.toNat ∨
        ∃ bundle, entry.collected = some bundle ∧ entry.status bundle = some .confirmed)

/-- Each block collects a bundle as soon as it may. -/
theorem Paced.prompt {mode : Overflow} {log : List (PacingEntry C)} {node next : Node A C S}
    {orders : Orders C} {header : Header} {body : Body A C} {twoWayPegData : TwoWayPegData C}
    {collected : State C} (paced : Paced log node)
    (room : node.archive.getHeight.toNat + 1 < 2 ^ 32)
    (collects : ((node.state.connectBody body).connectDeposits orders
      twoWayPegData).connectWithdrawals
      orders mode node.archive.getHeight = .ok collected)
    (committed : node.commitBlock orders mode header body twoWayPegData = .ok next) :
    Prompt ({
      blockHeight := node.archive.getHeight
      before := node.state.pendingWithdrawalBundle
      collected := collected.pendingWithdrawalBundle
      bundleStatuses := twoWayPegData.bundleStatuses } :: log) next.state := by
  intro outpoint output stored owed removed
  refine ⟨_, log, rfl, ?_⟩
  have settled : collected.connectStatuses orders twoWayPegData.bundleStatuses
      node.archive.getHeight = next.state := by
    obtain ⟨reached, same, returned⟩ :=
      Outcome.bind_eq_ok.mp (commitBlock_eq_ok.mp committed).connected
    rw [collects] at same
    cases same
    exact Outcome.pure_eq_ok.mp returned
  rw [← settled] at stored removed
  cases pending : collected.pendingWithdrawalBundle with
  | some bundle =>
      rcases State.connectStatuses_removes pending removed with failed | confirmed
      · have fails :
            (PacingEntry.mk node.archive.getHeight node.state.pendingWithdrawalBundle (some bundle)
              twoWayPegData.bundleStatuses).fails := by
          simp [PacingEntry.fails, PacingEntry.status, failed]
        rw [PacingEntry.lastFailure, if_pos fails]
        exact .inl (Nat.le_add_right ..)
      · exact .inr ⟨bundle, rfl, confirmed⟩
  | none =>
      -- Nothing was pending, so the statuses changed nothing and the outputs are those of the
      -- collection.
      rw [State.connectStatuses, State.foldl_connectStatus_none pending] at stored
      obtain ⟨due, waited, collection⟩ := Outcome.bind_eq_ok.mp collects
      cases due with
      | false =>
          cases collection
          have soon :=
            (State.bundleDue_waits waited room (paced.failure.trans_le paced.below)).resolve_left
            fun present => present pending
          have failure : ((node.state.connectBody body).connectDeposits orders
              twoWayPegData).lastWithdrawalBundleFailureHeight =
                  node.state.lastWithdrawalBundleFailureHeight := rfl
          rw [failure, paced.failure] at soon
          exact .inl soon
      | true =>
          obtain ⟨result, collected_bundle, collection⟩ := Outcome.bind_eq_ok.mp collection
          cases result with
          | some bundle =>
              cases collection
              cases pending
          | none =>
              cases collection
              exact absurd (State.collectWithdrawalBundle_unowed collected_bundle stored) owed

/-- In every run, a withdrawal without a bundle waits for the gap or for the next block. -/
theorem PacingRun.withdrawal_waits {mode : Overflow} {log : List (PacingEntry C)}
    {node : Node A C S} (run : PacingRun mode log node)
    (bounded : mode = .wrapping → node.archive.getHeight.toNat < 2 ^ 32 - 1) :
    Prompt log node.state := by
  induction run with
  | new customState =>
      intro outpoint output stored
      simp [Node.new, State.empty] at stored
  | mempool _ _ ih => exact ih bounded
  | submitBlock before collects committed _ =>
      obtain ⟨lower, room⟩ := commitBlock_room committed bounded
      exact (before.paced lower).prompt room collects committed

end

section

open Reference

/-- Some accepted blocks form a run. -/
theorem runBlocks_run {blocks : List PacedBlock}
    (accepted : (blocks.foldlM PacedBlock.extend ([], Node.new ())).isSome = true) :
    PacingRun .wrapping (runBlocks blocks).1 (runBlocks blocks).2 := by
  obtain ⟨paced, reached⟩ := Option.isSome_iff_exists.mp accepted
  rw [runBlocks, reached]
  exact PacedBlock.foldlM_extend (.new ()) reached

/-- The withdrawal of the first block waits for the fifth block. -/
def fourBlocks : List PacedBlock := withdrawalBlock :: List.replicate 3 quietBlock

theorem withdrawal_waits_fourBlocks :
    Prompt (runBlocks fourBlocks).1 (runBlocks fourBlocks).2.state :=
  (runBlocks_run (by decide +kernel)).withdrawal_waits fun _ => by decide +kernel

end

end Node

end Ddk

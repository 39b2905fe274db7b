import Ddk.Construction.Replay
import Ddk.Proof.Drivechain.Batches
import Ddk.Proof.Net.Download
import Ddk.Proof.Node.Capacity
import Ddk.Proof.Withdrawals.Statuses

namespace Ddk

open Foundation

/-- The outcome and the deposit block determine the state. -/
theorem State.SameOutcome.eq [Bitcoin] {C : Type} {first second : State C}
    (same : first.SameOutcome second)
    (kept : first.lastDepositBlock = second.lastDepositBlock) : first = second := by
  cases first
  cases second
  obtain ⟨rfl, rfl, rfl⟩ := same
  cases kept
  rfl

namespace Node

section

variable [Bitcoin] [Blake3] [Bs58] {A C S : Type} [DecidableEq C] [CustomState S A C]

omit [Blake3] in
/-- A later fetch gives the same deposits, and only the statuses may differ. -/
theorem getTwoWayPegData_later {arrival : Arrival A C (CustomState.thisSidechain S A C)}
    {start : Option Bitcoin.BlockHash} {twoWayPegData : TwoWayPegData C}
    (fetched : getTwoWayPegData (S := S) (A := A) arrival.first arrival.header start =
      .ok twoWayPegData) :
    ∃ statuses, getTwoWayPegData (S := S) (A := A) arrival.second arrival.header start =
      .ok { twoWayPegData with bundleStatuses := statuses } := by
  have required {α : Type} {value : Option α} {error : Drivechain.Error} {found : α}
      (success : Drivechain.require value error = .ok found) : value = some found := by
    cases value with
    | none => cases success
    | some other => exact congrArg some (Except.ok.inj success)
  obtain ⟨scan, scanned, fetched⟩ := Outcome.bind_eq_ok.mp (Outcome.convert_eq_ok.mp fetched)
  obtain ⟨_, read, stored⟩ := Outcome.bind_eq_ok.mp fetched
  obtain ⟨spent, listed, read⟩ := Outcome.bind_eq_ok.mp read
  obtain ⟨failed, refused, _⟩ := Outcome.bind_eq_ok.mp read
  obtain ⟨moreSpent, relisted, _⟩ := arrival.spent spent (required listed)
  obtain ⟨moreFailed, rerefused, _⟩ := arrival.failed failed (required refused)
  have again : Drivechain.getDepositOutputs arrival.second (CustomState.thisSidechain S A C)
      arrival.header.prevMainHash start = .ok scan := by
    rw [Drivechain.getDepositOutputs, arrival.deposits start]
    exact scanned
  have reread : ∃ statuses, Drivechain.getWithdrawalBundleStatuses arrival.second
      (CustomState.thisSidechain S A C) = .ok statuses := by
    rw [Drivechain.getWithdrawalBundleStatuses, relisted, rerefused]
    exact ⟨_, rfl⟩
  obtain ⟨statuses, reread⟩ := reread
  cases stored
  refine ⟨statuses, Outcome.convert_eq_ok.mpr ?_⟩
  rw [Drivechain.getTwoWayPegData, again]
  change Drivechain.getWithdrawalBundleStatuses arrival.second _ >>= _ = _
  rw [reread]
  rfl

variable [Bincode C] [GetValue C] [GetAddress A] [Verify A C]

/-- The statuses at arrival and replay agree on the bundle that is pending when they are handled. -/
def StatusesKept (mode : Overflow) (node : Node A C S)
    (arrival : Arrival A C (CustomState.thisSidechain S A C)) :
    Prop :=
  ∀ (first second : TwoWayPegData C) (waiting : State C),
    getTwoWayPegData (S := S) (A := A) arrival.first arrival.header node.state.lastDepositBlock =
      .ok first →
    getTwoWayPegData (S := S) (A := A) arrival.second arrival.header node.state.lastDepositBlock =
      .ok second →
    ((node.state.connectBody arrival.body).connectDeposits arrival.orders first).connectWithdrawals
      arrival.orders
      mode node.archive.getHeight = .ok waiting →
    waiting.StatusesAgree first.bundleStatuses second.bundleStatuses node.archive.getHeight

/-- The nodes agree on everything but the mempool. -/
structure SameChain (first second : Node A C S) : Prop where
  state : first.state = second.state
  customState : first.customState = second.customState
  archive : first.archive = second.archive

/-- The replay accepts the next block too, and it agrees exactly when the statuses agree. -/
theorem replay_step {mode : Overflow} {first second next : Node A C S}
    {arrival : Arrival A C (CustomState.thisSidechain S A C)} (same : SameChain first second)
    (accepted : (replay mode).accept first arrival = .ok next) :
    ∃ after, (replay mode).replay second arrival = .ok after ∧
      ((replay mode).observe next after → SameChain next after) ∧
      ((replay mode).observe next after ↔ StatusesKept mode first arrival) := by
  obtain ⟨twoWayPegData, fetched, committed⟩ := submitBlock_eq_ok.mp accepted
  obtain ⟨statuses, later⟩ := getTwoWayPegData_later fetched
  obtain ⟨waiting, collected, settled⟩ := Outcome.bind_eq_ok.mp committed.connected
  obtain ⟨state, customState, archive, mempool⟩ := second
  obtain ⟨rfl, rfl, rfl⟩ := same
  let relisted : TwoWayPegData C := { twoWayPegData with bundleStatuses := statuses }
  let after : Node A C S := {
    state := waiting.connectStatuses arrival.orders statuses first.archive.getHeight
    customState := next.customState
    archive := next.archive
    mempool := arrival.body.transactions.foldl
      (fun mempool transaction => mempool.delete transaction.txid) mempool }
  have reconnected : (first.state.connectBody arrival.body).connectTwoWayPegData arrival.orders
    mode relisted
      first.archive.getHeight = .ok after.state := Outcome.bind_eq_ok.mpr ⟨waiting, collected, rfl⟩
  have replayed : (replay mode).replay ⟨first.state, first.customState, first.archive, mempool⟩
      arrival = .ok after :=
    submitBlock_eq_ok.mpr ⟨relisted, later, {
      accepted := committed.accepted
      permitted := committed.permitted
      custom := committed.custom
      connected := reconnected
      archived := committed.archived
      mempool := rfl }⟩
  -- The deposit block is the same, so the observation decides the equality of the states.
  have kept : next.state.lastDepositBlock = after.state.lastDepositBlock := by
    rw [Drivechain.connectTwoWayPegData_lastDepositBlock committed.connected,
      Drivechain.connectTwoWayPegData_lastDepositBlock reconnected]
    rfl
  have observed : (replay mode).observe next after ↔ next.state = after.state := by
    change next.state.SameOutcome after.state ↔ _
    constructor
    · intro outcome
      exact outcome.eq kept
    · intro equal
      rw [equal]
      exact ⟨rfl, rfl, rfl⟩
  have shown : next.state = after.state ↔
      waiting.StatusesAgree twoWayPegData.bundleStatuses statuses first.archive.getHeight := by
    rw [← Except.ok.inj settled]
    exact State.connectStatuses_eq_iff arrival.orders waiting _ _ _
  refine ⟨after, replayed, fun outcome => ⟨observed.mp outcome, rfl, rfl⟩,
    observed.trans (shown.trans ?_)⟩
  constructor
  · intro agree firstData secondData reached firstFetch secondFetch phase
    cases fetched.symm.trans firstFetch
    cases later.symm.trans secondFetch
    cases collected.symm.trans phase
    exact agree
  · intro agree
    exact agree twoWayPegData relisted waiting fetched later collected

/-- The replay accepts and agrees exactly when the statuses of each pending bundle are kept. -/
theorem replay_agrees_iff {mode : Overflow} {customState : S}
    {arrivals : List (Arrival A C (CustomState.thisSidechain S A C))} {node : Node A C S}
    (accepted : arrivals.foldlM (replay mode).accept (Node.new customState) = .ok node) :
    (replay mode).Agrees (Node.new customState) (Node.new customState) arrivals ↔
      (replay mode).Stable (StatusesKept mode) (Node.new customState) arrivals := by
  have observed (first second : Node A C S) (same : SameChain first second) :
      (replay mode).observe first second := by
    change first.state.SameOutcome second.state
    rw [same.state]
    exact ⟨rfl, rfl, rfl⟩
  exact Replay.agrees_iff observed (fun _ _ _ _ same step => replay_step same step)
    ⟨rfl, rfl, rfl⟩ accepted

end

section

open Reference

/-- A block arrives before the mainchain confirms a bundle, and it is replayed after that. -/
def lateArrival (header : Header) (body : Body Authorization Unit) (txid : Bitcoin.Txid) :
    Arrival Authorization Unit 0 where
  orders := orders
  header := header
  body := body
  mempool := MemPool.empty
  first := client [] [] []
  second := client [] [⟨0, txid, 1⟩] []
  deposits _ := rfl
  spent spent listed := ⟨_, rfl, by
    rw [← Option.some.inj listed]
    exact List.nil_subset _⟩
  failed failed listed := ⟨_, rfl, by
    rw [← Option.some.inj listed]
    exact List.Subset.refl _⟩

/-- The fifth block creates a withdrawal, and its bundle is proposed at once. -/
def proposalBlock : Submission :=
  .extending (emptyNode 4) (freeBody [⟨⟨5⟩, .withdrawal 0 0 (9 : ℕ)⟩]) 1 (client [] [] [])

def proposedTxid : Bitcoin.Txid :=
  ((proposalBlock.next .checked (emptyNode 4)).state.pendingWithdrawalBundle.map fun bundle =>
    Bitcoin.txid bundle.transaction).getD 0

/-- Four empty blocks arrive before the proposal. -/
def proposalArrivals (txid : Bitcoin.Txid) : List (Arrival Authorization Unit 0) :=
  (List.range 4).map (fun height => lateArrival (emptyBlock (emptyNode height)).header
    ⟨[], [], []⟩ txid) ++
    [lateArrival proposalBlock.header proposalBlock.body txid]

def arrivedNode (txid : Bitcoin.Txid) : Node Authorization Unit Unit :=
  ((proposalArrivals txid).foldlM (replay .checked).accept (Node.new ())).toOption.getD
    (Node.new ())

def replayedNode (txid : Bitcoin.Txid) : Node Authorization Unit Unit :=
  ((proposalArrivals txid).foldlM (replay .checked).replay (Node.new ())).toOption.getD
    (Node.new ())

theorem replay_agrees_iff_proposed :
    (replay .checked).Agrees (Node.new () : Node Authorization Unit Unit) (Node.new ())
        (proposalArrivals proposedTxid) ↔
      (replay .checked).Stable (StatusesKept .checked) (Node.new ())
        (proposalArrivals proposedTxid) := by
  have accepted : (proposalArrivals proposedTxid).foldlM (replay .checked).accept (Node.new ()) =
      .ok (arrivedNode proposedTxid) := Outcome.eq_ok_getD _ (by decide +kernel)
  exact replay_agrees_iff accepted

/-- The replay confirms the bundle in the block that proposes it. -/
theorem replayed_bundle_vanishes :
    ∃ (arrivals : List (Arrival Authorization Unit 0))
      (node replayed : Node Authorization Unit Unit),
      arrivals.foldlM (replay .checked).accept (Node.new ()) = .ok node ∧
      arrivals.foldlM (replay .checked).replay (Node.new ()) = .ok replayed ∧
      node.state.pendingWithdrawalBundle ≠ none ∧
        replayed.state.pendingWithdrawalBundle = none := by
  have pending : ((arrivedNode proposedTxid).state.pendingWithdrawalBundle).isSome := by
    decide +kernel
  have gone : ((replayedNode proposedTxid).state.pendingWithdrawalBundle).isNone := by
    decide +kernel
  exact ⟨proposalArrivals proposedTxid, arrivedNode proposedTxid, replayedNode proposedTxid,
    Outcome.eq_ok_getD _ (by decide +kernel), Outcome.eq_ok_getD _ (by decide +kernel),
    Option.isSome_iff_ne_none.mp pending, Option.isNone_iff_eq_none.mp gone⟩

end

end Node

end Ddk

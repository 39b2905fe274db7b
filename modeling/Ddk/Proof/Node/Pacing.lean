import Ddk.Construction.Pacing
import Ddk.Proof.Archive.Chain

namespace Ddk

open Foundation

/-- A height that is counted up has room above it unless it wraps. -/
theorem room_of_add32 {ε : Type} {mode : Overflow} {height next : UInt32}
    (added : (mode.add32 height 1 : Outcome ε UInt32) = .ok next)
    (bounded : mode = .wrapping → height.toNat < 2 ^ 32 - 1) : height.toNat + 1 < 2 ^ 32 := by
  cases mode with
  | checked => exact of_decide_eq_true (Overflow.guard_checked_eq_ok.mp added).1
  | wrapping =>
      have limit := bounded rfl
      omega

section

variable [Bitcoin] {C : Type} [DecidableEq C]

namespace State

variable [Blake3] [Bincode C]

/-- The collection changes the pending bundle only when a bundle is due. -/
theorem connectWithdrawals_pending {orders : Orders C} {mode : Overflow} {state next : State C}
    {blockHeight : UInt32} (success : state.connectWithdrawals orders mode blockHeight = .ok next) :
    next.lastWithdrawalBundleFailureHeight = state.lastWithdrawalBundleFailureHeight ∧
      (next.pendingWithdrawalBundle ≠ state.pendingWithdrawalBundle →
        bundleDue mode state blockHeight = .ok true) := by
  obtain ⟨due, waited, success⟩ := Outcome.bind_eq_ok.mp success
  cases due with
  | false =>
      cases success
      exact ⟨rfl, fun changed => absurd rfl changed⟩
  | true =>
      refine ⟨?_, fun _ => waited⟩
      obtain ⟨collected, _, success⟩ := Outcome.bind_eq_ok.mp success
      cases collected <;> cases success <;> rfl

omit [Blake3] [Bincode C] [DecidableEq C] in
/-- A due bundle follows no pending one and keeps the gap to a failure below its block. -/
theorem bundleDue_spaced {mode : Overflow} {state : State C} {blockHeight : UInt32}
    (due : bundleDue mode state blockHeight = .ok true) (room : blockHeight.toNat + 1 < 2 ^ 32)
    (below : (state.lastWithdrawalBundleFailureHeight.getD 0).toNat ≤ blockHeight.toNat) :
    state.pendingWithdrawalBundle = none ∧
      (state.lastWithdrawalBundleFailureHeight.getD 0).toNat + withdrawalBundleFailureGap.toNat <
        blockHeight.toNat + 1 := by
  obtain ⟨nextHeight, added, due⟩ := Outcome.bind_eq_ok.mp due
  obtain ⟨elapsed, subtracted, due⟩ := Outcome.bind_eq_ok.mp due
  have both := Outcome.pure_eq_ok.mp due
  rw [Bool.and_eq_true, decide_eq_true_eq, Option.isNone_iff_eq_none] at both
  refine ⟨both.2, ?_⟩
  have raised : nextHeight.toNat = blockHeight.toNat + 1 := by
    rw [Overflow.guard_value added, UInt32.toNat_add, UInt32.toNat_one, Nat.mod_eq_of_lt room]
  have enough : state.lastWithdrawalBundleFailureHeight.getD 0 ≤ nextHeight := by
    rw [UInt32.le_iff_toNat_le]
    omega
  have apart := both.1
  rw [Overflow.guard_value subtracted, gt_iff_lt, UInt32.lt_iff_toNat_lt,
    UInt32.toNat_sub_of_le _ _ enough] at apart
  omega

omit [Blake3] [Bincode C] in
/-- The statuses record a failure of the pending bundle and keep a bundle that they do not name. -/
theorem connectStatuses_pending (orders : Orders C) (state : State C)
    (bundleStatuses : HashMap Bitcoin.Txid WithdrawalBundleStatus) (blockHeight : UInt32)
    (before : Option (WithdrawalBundle C)) :
    (state.connectStatuses orders bundleStatuses blockHeight).lastWithdrawalBundleFailureHeight =
        (if (PacingEntry.mk blockHeight before state.pendingWithdrawalBundle
            bundleStatuses).fails then
          some (blockHeight + 1)
        else state.lastWithdrawalBundleFailureHeight) ∧
      ∀ bundle, state.pendingWithdrawalBundle = some bundle →
        bundleStatuses[Bitcoin.txid bundle.transaction]? = none →
        (state.connectStatuses orders bundleStatuses blockHeight).pendingWithdrawalBundle =
          some bundle := by
  cases pending : state.pendingWithdrawalBundle with
  | none =>
      rw [connectStatuses, foldl_connectStatus_none pending]
      refine ⟨rfl, ?_⟩
      intro bundle found
      cases found
  | some bundle =>
      rw [connectStatuses_eq orders pending]
      constructor
      · unfold PacingEntry.fails PacingEntry.status
        dsimp only
        split
        next missing => simp [missing]
        next status found => cases status <;> simp [found, settleBundle]
      · intro other same unnamed
        cases same
        rw [unnamed]
        exact pending

end State

end

namespace Node

section

variable [Bitcoin] {A C S : Type} [CustomState S A C]
variable [GetValue C] [GetAddress A] [Verify A C] [Blake3] [Bincode C] [DecidableEq C]

/-- The log of a run spaces its bundles, and a stored bundle stays until a status names it. -/
structure Paced (log : List (PacingEntry C)) (node : Node A C S) : Prop where
  failure : (node.state.lastWithdrawalBundleFailureHeight.getD 0).toNat =
    PacingEntry.lastFailure log
  below : PacingEntry.lastFailure log ≤ node.archive.getHeight.toNat
  spaced : ∀ later entry earlier, log = later ++ entry :: earlier → entry.collected ≠ entry.before →
    entry.before = none ∧
      PacingEntry.lastFailure earlier + State.withdrawalBundleFailureGap.toNat < entry.height
  kept : ∀ later entry earlier bundle, log = later ++ entry :: earlier →
    entry.collected = some bundle →
    entry.status bundle = none → (∀ other ∈ later, other.status bundle = none) →
      node.state.pendingWithdrawalBundle = some bundle ∧
        ∀ other ∈ later, other.before = some bundle ∧ other.collected = some bundle

omit [CustomState S A C] [GetValue C] [GetAddress A] [Verify A C] [Blake3] [Bincode C]
  [DecidableEq C] in
/-- An empty log is paced. -/
theorem Paced.new (customState : S) : Paced [] (Node.new customState : Node A C S) where
  failure := rfl
  below := Nat.zero_le _
  spaced later entry earlier split := by cases later <;> cases split
  kept later entry earlier bundle split := by cases later <;> cases split

/-- One more block keeps the pace while its height does not wrap. -/
theorem Paced.submitBlock {mode : Overflow} {log : List (PacingEntry C)} {node next : Node A C S}
    {orders : Orders C} {header : Header} {body : Body A C} {twoWayPegData : TwoWayPegData C}
    {collected : State C} (paced : Paced log node)
    (room : node.archive.getHeight.toNat + 1 < 2 ^ 32)
    (collects : ((node.state.connectBody body).connectDeposits orders
      twoWayPegData).connectWithdrawals
      orders mode node.archive.getHeight = .ok collected)
    (committed : node.commitBlock orders mode header body twoWayPegData = .ok next) :
    Paced ({
      blockHeight := node.archive.getHeight
      before := node.state.pendingWithdrawalBundle
      collected := collected.pendingWithdrawalBundle
      bundleStatuses := twoWayPegData.bundleStatuses } :: log) next := by
  have committed := commitBlock_eq_ok.mp committed
  have settled : collected.connectStatuses orders twoWayPegData.bundleStatuses
      node.archive.getHeight = next.state := by
    obtain ⟨reached, same, stored⟩ := Outcome.bind_eq_ok.mp committed.connected
    rw [collects] at same
    cases same
    exact Outcome.pure_eq_ok.mp stored
  obtain ⟨appended, header, archived⟩ := committed.archived
  have raised := Archive.appendHeader_height header
  rw [← Archive.putBody_height archived, UInt32.le_iff_toNat_le, UInt32.toNat_add, UInt32.toNat_one,
    Nat.mod_eq_of_lt room] at raised
  obtain ⟨unchanged, due⟩ := State.connectWithdrawals_pending collects
  obtain ⟨recorded, remains⟩ :=
    State.connectStatuses_pending orders collected twoWayPegData.bundleStatuses
    node.archive.getHeight node.state.pendingWithdrawalBundle
  rw [settled] at recorded remains
  have height : (node.archive.getHeight + 1).toNat = node.archive.getHeight.toNat + 1 := by
    rw [UInt32.toNat_add, UInt32.toNat_one, Nat.mod_eq_of_lt room]
  have ready (changed : collected.pendingWithdrawalBundle ≠ node.state.pendingWithdrawalBundle) :
      node.state.pendingWithdrawalBundle = none ∧
        (node.state.lastWithdrawalBundleFailureHeight.getD 0).toNat +
          State.withdrawalBundleFailureGap.toNat <
          node.archive.getHeight.toNat + 1 :=
    State.bundleDue_spaced (due changed) room (paced.failure.trans_le paced.below)
  constructor
  · rw [recorded, PacingEntry.lastFailure]
    split
    next => exact height
    next =>
      rw [unchanged, ← paced.failure]
      rfl
  · have earlier := paced.below
    rw [PacingEntry.lastFailure]
    split
    next => exact raised
    next => omega
  · intro later entry earlier split changed
    cases later with
    | nil =>
        cases split
        rw [← paced.failure]
        exact ready changed
    | cons other later =>
        cases split
        exact paced.spaced later entry earlier rfl changed
  · intro later entry earlier bundle split stored unnamed others
    cases later with
    | nil =>
        cases split
        exact ⟨remains bundle stored unnamed, fun _ member => absurd member List.not_mem_nil⟩
    | cons other later =>
        cases split
        obtain ⟨pending, same⟩ := paced.kept later entry earlier bundle rfl stored unnamed
          fun other member => others other (List.mem_cons_of_mem _ member)
        have waiting : collected.pendingWithdrawalBundle = some bundle := by
          by_contra changed
          rw [← pending] at changed
          have none := (ready changed).1
          rw [pending] at none
          cases none
        refine ⟨remains bundle waiting (others _ List.mem_cons_self), ?_⟩
        intro other member
        rcases List.mem_cons.mp member with rfl | earlier
        · exact ⟨pending, waiting⟩
        · exact same other earlier

/-- A committed block had room for its height, and its archive was no higher before. -/
theorem commitBlock_room {orders : Orders C} {mode : Overflow} {node next : Node A C S}
    {header : Header} {body : Body A C} {twoWayPegData : TwoWayPegData C}
    (committed : node.commitBlock orders mode header body twoWayPegData = .ok next)
    (bounded : mode = .wrapping → next.archive.getHeight.toNat < 2 ^ 32 - 1) :
    (mode = .wrapping → node.archive.getHeight.toNat < 2 ^ 32 - 1) ∧
      node.archive.getHeight.toNat + 1 < 2 ^ 32 := by
  obtain ⟨newHeight, step⟩ := Archive.appends_iff.mp (commitBlock_eq_ok.mp committed).archived
  have risen := UInt32.le_iff_toNat_le.mp step.getHeight_le
  have lower := fun wrapping => lt_of_le_of_lt risen (bounded wrapping)
  exact ⟨lower, room_of_add32 step.counted lower⟩

namespace PacingRun

variable {mode : Overflow} {log : List (PacingEntry C)} {node : Node A C S}

/-- In every run, the height counts stored headers. -/
theorem height_le_size (run : PacingRun mode log node) :
    node.archive.getHeight.toNat ≤ node.archive.headers.size := by
  induction run with
  | new => exact Nat.zero_le _
  | mempool _ _ ih => exact ih
  | submitBlock _ _ committed ih =>
      obtain ⟨newHeight, step⟩ := Archive.appends_iff.mp (commitBlock_eq_ok.mp committed).archived
      exact step.height_le_size ih

/-- The map of the environment ends long before the heights wrap. -/
theorem height_lt (run : PacingRun mode log node) (mapped : node.Mapped) :
    node.archive.getHeight.toNat < 2 ^ 32 - 1 := by
  have fits : node.archive.headers.size ≤ mapSize := mapped
  have small : mapSize < 2 ^ 32 - 1 := by decide
  have counted := run.height_le_size
  omega

/-- Every run is paced while its heights do not wrap. -/
theorem paced (run : PacingRun mode log node)
    (bounded : mode = .wrapping → node.archive.getHeight.toNat < 2 ^ 32 - 1) : Paced log node := by
  induction run with
  | new customState => exact .new customState
  | mempool mempool _ ih =>
      have earlier := ih bounded
      exact ⟨earlier.failure, earlier.below, earlier.spaced, earlier.kept⟩
  | submitBlock _ collects committed ih =>
      obtain ⟨lower, room⟩ := commitBlock_room committed bounded
      exact (ih lower).submitBlock room collects committed

end PacingRun

/-- A run whose headers fit the map is paced, and no failure height is above the next height. -/
theorem bundles_paced {mode : Overflow} {log : List (PacingEntry C)} {node : Node A C S}
    (run : PacingRun mode log node) (mapped : node.Mapped) :
    Paced log node ∧
      ∀ nextHeight, (mode.add32 node.archive.getHeight 1 : Outcome State.Error UInt32) =
        .ok nextHeight →
        node.state.lastWithdrawalBundleFailureHeight.getD 0 ≤ nextHeight := by
  have bounded := run.height_lt mapped
  have paced := run.paced fun _ => bounded
  refine ⟨paced, fun nextHeight added => ?_⟩
  have room := room_of_add32 added fun _ => bounded
  have failure := paced.failure
  have below := paced.below
  rw [Overflow.guard_value added, UInt32.le_iff_toNat_le, UInt32.toNat_add, UInt32.toNat_one,
    Nat.mod_eq_of_lt room]
  omega

end

section

open Reference

/-- A paced block extends the chain of a node and brings some statuses. -/
structure PacedBlock where
  body : Body Authorization Unit
  bundleStatuses : HashMap Bitcoin.Txid WithdrawalBundleStatus

namespace PacedBlock

variable (block : PacedBlock) (node : Node Authorization Unit Unit)

def header : Header := ⟨block.body.computeMerkleRoot, node.archive.getBestHash, 1⟩

def pegData : TwoWayPegData Unit := ⟨∅, none, block.bundleStatuses⟩

def collect : Outcome State.Error (State Unit) :=
  ((node.state.connectBody block.body).connectDeposits orders block.pegData).connectWithdrawals
    orders .wrapping node.archive.getHeight

def commit : Node.Result Unit Authorization Unit (Node Authorization Unit Unit) :=
  node.commitBlock orders .wrapping (block.header node) block.body block.pegData

/-- An accepted block extends the log. -/
def extend (paced : List (PacingEntry Unit) × Node Authorization Unit Unit) (block : PacedBlock) :
    Option (List (PacingEntry Unit) × Node Authorization Unit Unit) :=
  match block.collect paced.2, block.commit paced.2 with
  | .ok collected, .ok next => some ({
      blockHeight := paced.2.archive.getHeight
      before := paced.2.state.pendingWithdrawalBundle
      collected := collected.pendingWithdrawalBundle
      bundleStatuses := block.bundleStatuses } :: paced.1, next)
  | _, _ => none

/-- Accepted blocks form a run. -/
theorem foldlM_extend {blocks : List PacedBlock}
    {start paced : List (PacingEntry Unit) × Node Authorization Unit Unit}
    (run : PacingRun .wrapping start.1 start.2) (accepted : blocks.foldlM extend start = some paced)
    :
    PacingRun .wrapping paced.1 paced.2 := by
  induction blocks generalizing start with
  | nil =>
      cases accepted
      exact run
  | cons block blocks ih =>
      obtain ⟨next, first, rest⟩ := Option.bind_eq_some_iff.mp accepted
      apply ih _ rest
      unfold extend at first
      split at first
      next collects commits =>
        cases first
        exact run.submitBlock collects commits
      next => cases first

end PacedBlock

/-- The first block creates a withdrawal without value, and other blocks are empty. -/
def withdrawalBlock : PacedBlock := ⟨⟨[⟨⟨5⟩, .withdrawal 0 0 (9 : ℕ)⟩], [], []⟩, ∅⟩

def quietBlock : PacedBlock := ⟨⟨[], [], []⟩, ∅⟩

def runBlocks (blocks : List PacedBlock) : List (PacingEntry Unit) × Node Authorization Unit Unit :=
  (blocks.foldlM PacedBlock.extend ([], Node.new ())).getD ([], Node.new ())

/-- The fifth block stores this bundle when no status arrives. -/
def fifthBundle : Bitcoin.Txid :=
  ((runBlocks (withdrawalBlock :: List.replicate 4 quietBlock)).2.state.pendingWithdrawalBundle.map
    fun bundle => Bitcoin.txid bundle.transaction).getD 0

/-- The fifth block stores a bundle and fails it, and the tenth block stores the next bundle. -/
def tenBlocks : List PacedBlock :=
  withdrawalBlock :: List.replicate 3 quietBlock ++
    { quietBlock with bundleStatuses := Database.putAll ∅ [(fifthBundle, .failed)] } ::
      List.replicate 5 quietBlock

/-- The blocks extend a new node, and their headers fit the map. -/
theorem tenBlocks_facts : (tenBlocks.foldlM PacedBlock.extend ([], Node.new ())).isSome ∧
    (runBlocks tenBlocks).2.archive.headers.size ≤ mapSize := by
  decide +kernel

theorem tenBlocks_run : PacingRun .wrapping (runBlocks tenBlocks).1 (runBlocks tenBlocks).2 := by
  obtain ⟨paced, reached⟩ := Option.isSome_iff_exists.mp tenBlocks_facts.1
  rw [runBlocks, reached]
  exact PacedBlock.foldlM_extend (.new ()) reached

theorem bundles_paced_tenBlocks :
    Paced (runBlocks tenBlocks).1 (runBlocks tenBlocks).2 ∧
      ∀ nextHeight, (Overflow.wrapping.add32 (runBlocks tenBlocks).2.archive.getHeight 1 :
          Outcome State.Error UInt32) = .ok nextHeight →
        (runBlocks tenBlocks).2.state.lastWithdrawalBundleFailureHeight.getD 0 ≤ nextHeight :=
  bundles_paced tenBlocks_run tenBlocks_facts.2

end

end Node

end Ddk

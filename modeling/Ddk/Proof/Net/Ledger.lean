import Ddk.Construction.Ledger
import Ddk.Proof.Net.Forks

namespace Ddk

open Foundation Relation

section

variable [Bitcoin] [Blake3] [Bs58] {A C S : Type} [DecidableEq C] [Bincode C] [CustomState S A C]
variable {orders : Orders C} {mode : Overflow} {client : Drivechain.MainClient}

omit [Bs58] [DecidableEq C] in
/-- A body changes the outputs without its authorizations. -/
theorem State.connectBody_covered {state : State C} {left right : Body A C}
    (coinbase : left.coinbase = right.coinbase)
    (transactions : left.transactions = right.transactions) :
    state.connectBody left = state.connectBody right := by
  cases left
  cases right
  cases coinbase
  cases transactions
  rfl

namespace Node

/-- A replay does not read the authorizations of a block. -/
theorem replayBlock_covered (chain : State C × UInt32) {left right : Header × Body A C}
    (same : Archive.covered left = Archive.covered right) :
    replayBlock (S := S) orders mode client chain left =
      replayBlock orders mode client chain right := by
  rw [Archive.covered, Archive.covered, Prod.mk.injEq, Prod.mk.injEq] at same
  obtain ⟨header, coinbase, transactions⟩ := same
  rw [replayBlock, replayBlock, header, State.connectBody_covered coinbase transactions]

/-- The state of the node is the replay of its archive. -/
def Replays (orders : Orders C) (mode : Overflow) (client : Drivechain.MainClient)
    (node : Node A C S) : Prop :=
  ∃ blocks, node.archive.Holds blocks ∧
    replayBlocks (S := S) orders mode client blocks = .ok (node.state, node.archive.getHeight)

theorem new_replays (customState : S) : (new customState : Node A C S).Replays orders mode client :=
  ⟨[], .empty, rfl⟩

variable [GetValue C] [GetAddress A] [Verify A C] {node next : Node A C S} {header : Header}
variable {body : Body A C}
variable {twoWayPegData : TwoWayPegData C}

/-- A committed block goes on with the replay when its mainchain answers do. -/
theorem commitBlock_replays (replays : node.Replays orders mode client)
    (fetched : getTwoWayPegData (S := S) (A := A) client header node.state.lastDepositBlock =
      .ok twoWayPegData)
    (committed : node.commitBlock orders mode header body twoWayPegData = .ok next)
    (bounded : next.archive.getHeight.toNat < 2 ^ 32 - 1) : next.Replays orders mode client := by
  obtain ⟨blocks, holds, replayed⟩ := replays
  have parts := commitBlock_eq_ok.mp committed
  obtain ⟨newHeight, step⟩ := Archive.appends_iff.mp parts.archived
  obtain ⟨_, height, _⟩ := step.next_height (step.room bounded)
  have counted : next.archive.getHeight = node.archive.getHeight + 1 :=
    height.trans (Overflow.guard_value step.counted)
  refine ⟨blocks ++ [(header, body)], commitBlock_holds holds committed bounded, ?_⟩
  rw [replayBlocks] at replayed
  rw [replayBlocks, List.foldlM_append, replayed, counted]
  change replayBlock orders mode client _ _ >>= pure = _
  rw [bind_pure]
  exact Outcome.bind_eq_ok.mpr ⟨twoWayPegData, fetched, Outcome.bind_eq_ok.mpr
    ⟨next.state, Outcome.convert_eq_ok.mpr parts.connected, rfl⟩⟩

end Node

namespace ChainNetwork

variable {N : Type} [DecidableEq N] [GetValue C] [GetAddress A] [Verify A C]
variable {customStates : N → S} {events : List (LogEvent N (Header × Body A C))}
variable {first network next : ChainNetwork N A C S}

theorem SteadyRun.run (steady : SteadyRun mode orders client first events network) :
    Run mode first events network := by
  induction steady with
  | start => exact .start
  | step _ _ taken ih => exact ih.step taken

/-- A played list of steady actions continues a steady run. -/
theorem SteadyRun.play {actions : List (Action N A C)}
    {last : List (LogEvent N (Header × Body A C)) × ChainNetwork N A C S}
    (steady : ∀ action ∈ actions, ∀ network : ChainNetwork N A C S,
      network.Steady orders client action)
    (played : ChainNetwork.play mode actions first = some last) :
    SteadyRun mode orders client first last.1 last.2 :=
  play_induction .start (fun action member _ network _ before taken =>
    before.step (steady action member network) taken)
    played

omit [GetValue C] [GetAddress A] [Verify A C] in
/-- A changed node that replays its archive keeps the replays of the others. -/
theorem replays_update {nodes : N → Node A C S}
    (replays : ∀ node, (nodes node).Replays orders mode client) {node : N}
    {changed : Node A C S} (after : changed.Replays orders mode client) (other : N) :
    (Function.update nodes node changed other).Replays orders mode client :=
  Replicas.forall_update (fun _ (node : Node A C S) => node.Replays orders mode client)
    replays after other

/-- A steady step keeps the replays. -/
theorem Steady.step {action : Action N A C} (steady : network.Steady orders client action)
    (taken : network.step mode action = some next) (bounded : Bounded next)
    (replays : ∀ node, (network.nodes node).Replays orders mode client) (node : N) :
    (next.nodes node).Replays orders mode client := by
  cases action with
  | submit changed used header body twoWayPegData =>
      obtain ⟨rfl, fetched⟩ := steady
      cases taken
      have low := bounded changed
      unfold ChainNetwork.submit at low ⊢
      split
      next committed success =>
        rw [success] at low
        dsimp only at low
        rw [Function.update_self] at low
        exact replays_update replays
          (Node.commitBlock_replays (replays changed) fetched success low) node
      next => exact replays node
  | pool changed mempool =>
      cases taken
      have after : ({ network.nodes changed with mempool } : Node A C S).Replays orders mode
          client := replays changed
      exact replays_update replays after node
  | heartBeatListen position =>
      obtain ⟨_, _, rfl⟩ := Option.map_eq_some_iff.mp taken
      exact replays node
  | request changed peer =>
      rw [nodes_of_request taken]
      exact replays node
  | answer changed =>
      rw [nodes_of_answer taken]
      exact replays node
  | receive changed used twoWayPegData =>
      change network.receive mode changed used twoWayPegData = some next at taken
      unfold ChainNetwork.receive at taken
      split at taken
      next peer height header body answered =>
        obtain ⟨rfl, fetched⟩ := steady _ _ _ _ answered
        split at taken
        next committed success =>
          cases taken
          have low := bounded changed
          dsimp only at low
          rw [Function.update_self] at low
          exact replays_update replays
            (Node.commitBlock_replays (replays changed) fetched success low) node
        next =>
          cases taken
          exact replays node
      next =>
        cases taken
        exact replays node
      next => cases taken
  | connect changed peer =>
      cases taken
      exact replays node
  | heartBeat sender receiver =>
      cases taken
      exact replays node
  | lose position =>
      cases taken
      exact replays node
  | fail changed =>
      cases taken
      exact replays node

/-- In every steady run, the state of each node is the replay of its archive. -/
theorem SteadyRun.replays (steady : SteadyRun mode orders client (new customStates) events network)
    (bounded : Bounded network) (node : N) : (network.nodes node).Replays orders mode client := by
  induction steady generalizing node with
  | start => exact Node.new_replays (customStates node)
  | step before here taken ih =>
      have low := fun node => (height_le_of_step taken node).trans_lt (bounded node)
      exact here.step taken bounded (fun node => ih low node) node

/-- In a steady run, nodes that hold the same blocks up to their authorizations have one state. -/
theorem SteadyRun.same_state
    (steady : SteadyRun mode orders client (new customStates) events network)
    (bounded : Bounded network) {node peer : N} {left right : List (Header × Body A C)}
    (leftHolds : (network.nodes node).archive.Holds left)
    (rightHolds : (network.nodes peer).archive.Holds right)
    (same : left.map Archive.covered = right.map Archive.covered) :
    (network.nodes node).state = (network.nodes peer).state := by
  obtain ⟨blocks, holds, replayed⟩ := steady.replays bounded node
  obtain ⟨others, held, replayedToo⟩ := steady.replays bounded peer
  rw [holds.eq leftHolds] at replayed
  rw [held.eq rightHolds] at replayedToo
  have equal : Node.replayBlocks (S := S) orders mode client left =
      Node.replayBlocks orders mode client right :=
    foldlM_eq_of_map (fun chain first second covered => Node.replayBlock_covered chain covered) same
      (State.empty, 0)
  have results := replayed.symm.trans (equal.trans replayedToo)
  exact congrArg Prod.fst (Except.ok.inj results)

/-- In a steady run with one miner, each node that is linked to it has its ledger at rest. -/
theorem SteadyRun.rests_same_ledger {source : N}
    (steady : SteadyRun mode orders client (new customStates) events network)
    (bounded : Bounded network) (mined : Replicas.ProducedBy source events) {linked : N → N → Prop}
    (rests : Rests mode linked network) {node : N} (connected : ReflTransGen linked node source) :
    (network.nodes node).state = (network.nodes source).state := by
  obtain ⟨replicas, follows, simulates⟩ := steady.run.followed bounded mined
  have same := follows.settled (rests.settled simulates) connected
  exact steady.same_state bounded (simulates.logs node) (simulates.logs source) (congrArg _ same)

/-- In a steady run, one best block has one state, whatever authorizations the blocks carry. -/
theorem SteadyRun.best_hash_state
    (steady : SteadyRun mode orders client (new customStates) events network)
    (bounded : Bounded network) {node peer : N}
    (apart : (network.nodes node).archive.Apart (network.nodes peer).archive)
    (same : (network.nodes node).archive.getBestHash = (network.nodes peer).archive.getBestHash) :
    (network.nodes node).state = (network.nodes peer).state := by
  obtain ⟨replicas, _, simulates⟩ := steady.run.replicated bounded
  have left := simulates.logs node
  have right := simulates.logs peer
  exact steady.same_state bounded left right (apart.same_contents left right same)

end ChainNetwork

end

namespace ChainNetwork

open Reference

/-- The mainchain has no deposits and no statuses for each block of this run. -/
theorem syncing_steady : SteadyRun .wrapping orders (client [] [] []) newPair
    (played syncing newPair).1
    (played syncing newPair).2 := by
  have steady : ∀ action ∈ syncing, ∀ network : ChainNetwork Bool Authorization Unit Unit,
      network.Steady orders (client [] [] []) action := by
    intro action member network
    simp only [syncing, asking, taking, List.cons_append, List.nil_append, List.mem_cons,
      List.not_mem_nil, or_false] at member
    rcases member with rfl | rfl | rfl | rfl | rfl | rfl | rfl | rfl
    case inl => exact ⟨rfl, rfl⟩
    case inr.inr.inr.inr.inr.inl => exact fun _ _ _ _ _ => ⟨rfl, rfl⟩
    all_goals trivial
  obtain ⟨last, reached⟩ := Option.isSome_iff_exists.mp syncing_facts.1
  rw [played, reached]
  exact SteadyRun.play steady reached

theorem rests_same_ledger_syncing :
    ((played syncing newPair).2.nodes true).state =
      ((played syncing newPair).2.nodes false).state :=
  SteadyRun.rests_same_ledger syncing_steady syncing_bounded syncing_mined syncing_rests
    (.single (by decide))

end ChainNetwork

end Ddk

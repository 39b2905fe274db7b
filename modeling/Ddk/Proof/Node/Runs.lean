import Ddk.Construction.Reference
import Ddk.Proof.Drivechain.Deposits
import Ddk.Proof.Run.Flow
import Ddk.Proof.Run.Origins

namespace Ddk.Node

open Foundation

section

variable [Bitcoin] {A C S : Type} [CustomState S A C]
variable [GetValue C] [GetAddress A] [Verify A C] [Blake3] [Bincode C]

/-- Submitting a transaction changes the mempool only. -/
theorem submitTransaction_eq_ok {mode : Overflow} {node next : Node A C S}
    {transaction : AuthorizedTransaction A C} :
    node.submitTransaction mode transaction = .ok next ↔
      ∃ fee mempool, node.validateTransaction mode transaction = .ok fee ∧
        node.mempool.put transaction = .ok mempool ∧ { node with mempool } = next := by
  simp only [submitTransaction, Outcome.bind_eq_ok, Outcome.convert_eq_ok, Outcome.pure_eq_ok]
  constructor
  · rintro ⟨fee, valid, mempool, stored, same⟩
    exact ⟨fee, mempool, valid, stored, same⟩
  · rintro ⟨fee, mempool, valid, stored, same⟩
    exact ⟨fee, valid, mempool, stored, same⟩

omit [GetValue C] [GetAddress A] [Verify A C] in
/-- Pooling a transaction changes the mempool only. -/
theorem poolTransaction_eq_ok {node next : Node A C S} {transaction : AuthorizedTransaction A C} :
    node.poolTransaction transaction = .ok next ↔
      ∃ mempool, node.mempool.put transaction = .ok mempool ∧ { node with mempool } = next := by
  simp only [poolTransaction, Outcome.bind_eq_ok, Outcome.convert_eq_ok, Outcome.pure_eq_ok]

/-- Picking transactions changes the mempool only. -/
theorem getTransactions_eq_ok {mode : Overflow} {node next : Node A C S} {number : ℕ}
    {transactions : List (AuthorizedTransaction A C)} {fee : UInt64} :
    node.getTransactions mode number = .ok (transactions, fee, next) ↔
      ∃ template, (node.mempool.take number).foldlM (pickTransaction mode node)
          ⟨0, [], ∅, node.mempool⟩ =
          .ok template ∧ template.returnedTransactions = transactions ∧ template.fee = fee ∧
        { node with mempool := template.mempool } = next := by
  simp only [getTransactions, Outcome.bind_eq_ok, Outcome.pure_eq_ok, Prod.mk.injEq]

variable [DecidableEq C]

/-- A committed block passes each of its steps. -/
structure Committed (orders : Orders C) (mode : Overflow) (node : Node A C S) (header : Header)
    (body : Body A C) (twoWayPegData : TwoWayPegData C) (next : Node A C S) : Prop where
  accepted : ∃ fees, node.state.validateBody mode body = .ok fees
  permitted : CustomState.validateBody node.customState node.archive.getHeight node.state body =
    .ok ()
  custom : CustomState.connectBody node.customState node.archive.getHeight
    (node.state.connectBody body) body =
    .ok next.customState
  connected : (node.state.connectBody body).connectTwoWayPegData orders mode twoWayPegData
    node.archive.getHeight = .ok next.state
  archived : ∃ appended, node.archive.appendHeader mode header = .ok appended ∧
    appended.putBody header body = .ok next.archive
  mempool : body.transactions.foldl (fun mempool transaction => mempool.delete transaction.txid)
    node.mempool =
    next.mempool

/-- A block commits exactly when each of its steps succeeds. -/
theorem commitBlock_eq_ok {orders : Orders C} {mode : Overflow} {node next : Node A C S}
    {header : Header} {body : Body A C} {twoWayPegData : TwoWayPegData C} :
    node.commitBlock orders mode header body twoWayPegData = .ok next ↔
      Committed orders mode node header body twoWayPegData next := by
  simp only [commitBlock, Outcome.bind_eq_ok, Outcome.convert_eq_ok, Outcome.pure_eq_ok]
  constructor
  · rintro ⟨fees, accepted, _, permitted, customState, custom, state, connected, appended,
      reached, archive,
      archived, rfl⟩
    exact ⟨⟨fees, accepted⟩, permitted, custom, connected, ⟨appended, reached, archived⟩, rfl⟩
  · rintro ⟨⟨fees, accepted⟩, permitted, custom, connected, ⟨appended, reached, archived⟩, mempool⟩
    refine ⟨fees, accepted, (), permitted, next.customState, custom, next.state, connected,
      appended, reached,
      next.archive, archived, ?_⟩
    rw [mempool]

variable [Bs58]

/-- A node run is a run of its shared databases. -/
theorem Run.state_run {mode : Overflow} {history : List (Receipt A C)} {node : Node A C S}
    (run : Run mode history node) : State.Run mode history node.state := by
  induction run with
  | new => exact .empty
  | submitTransaction _ submitted ih =>
      obtain ⟨_, _, _, _, rfl⟩ := submitTransaction_eq_ok.mp submitted
      exact ih
  | poolTransaction _ pooled ih =>
      obtain ⟨_, _, rfl⟩ := poolTransaction_eq_ok.mp pooled
      exact ih
  | deleteTransaction _ _ ih => exact ih
  | getTransactions _ picked ih =>
      obtain ⟨_, _, _, _, rfl⟩ := getTransactions_eq_ok.mp picked
      exact ih
  | submitBlock before _ recorded committed ih =>
      have committed := commitBlock_eq_ok.mp committed
      obtain ⟨_, accepted, _⟩ := State.blockReceipt_describes recorded
      exact .block ih ⟨accepted, recorded, committed.connected⟩

/-- The blocks of a node deliver outputs with deposit names only. -/
theorem Run.deposits_named {mode : Overflow} {history : List (Receipt A C)} {node : Node A C S}
    (run : Run mode history node) :
    ∀ entry ∈ History.depositEntries history, ∃ name, entry.1 = .deposit name := by
  induction run with
  | new => simp [History.depositEntries]
  | submitTransaction _ _ ih => exact ih
  | poolTransaction _ _ ih => exact ih
  | deleteTransaction _ _ ih => exact ih
  | getTransactions _ _ ih => exact ih
  | submitBlock _ fetched recorded _ ih =>
      obtain ⟨_, _, _, describes⟩ := State.blockReceipt_describes recorded
      intro entry member
      rcases List.mem_append.mp member with here | earlier
      · dsimp only at here
        rw [describes.deposits] at here
        exact Drivechain.getTwoWayPegData_named (Outcome.convert_eq_ok.mp fetched) entry here
      · exact ih entry earlier

end

section

open Reference

/-- An accepted submission extends a run. -/
theorem Run.submission {mode : Overflow} {history : List (Receipt Authorization Unit)}
    {node : Node Authorization Unit Unit} (run : Run mode history node) (submission : Submission)
    (accepted : submission.accepted mode node = true) :
    Run mode (submission.receipt mode node :: history) (submission.next mode node) := by
  rw [Submission.accepted, Bool.and_eq_true, Bool.and_eq_true] at accepted
  exact .submitBlock run (Outcome.eq_ok_getD _ accepted.1.1) (Outcome.eq_ok_getD _ accepted.1.2)
    (Outcome.eq_ok_getD _ accepted.2)

/-- The first block brings a deposit of ten. -/
def depositBlock : Submission :=
  .extending (Node.new ()) ⟨[], [], []⟩ 1 (client [deposit 1 10] [] [])

def depositNode : Node Authorization Unit Unit := depositBlock.next .checked (Node.new ())

/-- This transaction leaves one unit to the coinbase. -/
def spendDeposit : Transaction Unit :=
  ⟨[depositOutPoint 10], [⟨⟨5⟩, .value 4⟩, ⟨⟨5⟩, .withdrawal 5 3 (9 : ℕ)⟩]⟩

/-- The second block spends the deposit. -/
def spendBlock : Submission :=
  .extending depositNode (Body.new [authorize spendDeposit] [⟨⟨5⟩, .value 1⟩]) 2
    (client [deposit 1 10] [] [])

def spendHistory : List (Receipt Authorization Unit) :=
  [spendBlock.receipt .checked depositNode, depositBlock.receipt .checked (Node.new ())]

theorem spendHistory_run : Run .checked spendHistory (spendBlock.next .checked depositNode) :=
  ((Run.new ()).submission depositBlock (by decide +kernel)).submission spendBlock
    (by decide +kernel)

theorem spendHistory_wellNamed : History.WellNamed spendHistory :=
  ⟨by decide +kernel, by decide +kernel, by decide +kernel, by decide +kernel⟩

theorem spendHistory_delivered : ((History.depositEntries spendHistory).map Prod.fst).Nodup := by
  decide +kernel

end

end Ddk.Node

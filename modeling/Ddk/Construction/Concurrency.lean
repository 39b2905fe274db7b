/-
This file gives the concurrent block submissions of one node.
-/

import Ddk.Construction.History
import Ddk.Construction.Treasury

namespace Ddk

open Foundation

/-- A call reads its start after some commits, and later the mainchain answers it. -/
structure Call [Bitcoin] (A C : Type) where
  header : Header
  body : Body A C
  start : Option Bitcoin.BlockHash
  read : ℕ
  fetched : Option (TwoWayPegData C)

/-- A commit counts the commits between the read of its call and itself. -/
structure Commit [Bitcoin] (A C : Type) where
  header : Header
  receipt : Receipt A C
  since : ℕ

namespace Commit

variable [Bitcoin] {A C : Type}

/-- The last commit stands first, and the end blocks of successive headers move forward. -/
def Forward (treasury : Treasury) (commits : List (Commit A C)) : Prop :=
  commits.Pairwise fun later earlier =>
    treasury.position earlier.header.prevMainHash ≤ treasury.position later.header.prevMainHash

/-- No commit with a deposit comes between the read and the commit of a call. -/
def Unraced : List (Commit A C) → Prop
  | [] => True
  | commit :: earlier => (∀ other ∈ earlier.take commit.since, other.receipt.deposits = ∅) ∧
    Unraced earlier

def history (commits : List (Commit A C)) : List (Receipt A C) := commits.map (·.receipt)

end Commit

namespace Node

variable [Bitcoin] [Blake3] [Bs58] {A C S : Type} [DecidableEq C] [Bincode C] [GetValue C]
variable [GetAddress A] [Verify A C]
variable [CustomState S A C]

/-- Each call reads its start, fetches and commits, and other calls may act in between. -/
inductive ConcurrentRun (mode : Overflow) (treasury : Treasury) :
    List (Call A C) → List (Commit A C) → Node A C S → Prop where
  | new (customState : S) : ConcurrentRun mode treasury [] [] (Node.new customState)
  | mempool {calls : List (Call A C)} {commits : List (Commit A C)} {node : Node A C S}
      (mempool : MemPool A C) (before : ConcurrentRun mode treasury calls commits node) :
      ConcurrentRun mode treasury calls commits { node with mempool }
  | read {calls : List (Call A C)} {commits : List (Commit A C)} {node : Node A C S}
      (header : Header) (body : Body A C)
      (before : ConcurrentRun mode treasury calls commits node) :
      ConcurrentRun mode treasury
        (⟨header, body, node.state.lastDepositBlock, commits.length, none⟩ :: calls) commits node
  | fetch {first last : List (Call A C)} {call : Call A C} {commits : List (Commit A C)}
      {node : Node A C S} {client : Drivechain.MainClient} {twoWayPegData : TwoWayPegData C}
      (before : ConcurrentRun mode treasury (first ++ call :: last) commits node)
      (answers : client.Answers (CustomState.thisSidechain S A C) treasury call.start
        call.header.prevMainHash)
      (fetched : getTwoWayPegData (S := S) (A := A) client call.header call.start =
        .ok twoWayPegData) :
      ConcurrentRun mode treasury (first ++ { call with fetched := some twoWayPegData } :: last)
        commits node
  | commit {first last : List (Call A C)} {call : Call A C} {commits : List (Commit A C)}
      {node next : Node A C S} {orders : Orders C} {twoWayPegData : TwoWayPegData C}
      {receipt : Receipt A C}
      (before : ConcurrentRun mode treasury (first ++ call :: last) commits node)
      (fetched : call.fetched = some twoWayPegData)
      (recorded : node.state.blockReceipt orders mode call.body twoWayPegData
        node.archive.getHeight = .ok receipt)
      (committed : node.commitBlock orders mode call.header call.body twoWayPegData = .ok next) :
      ConcurrentRun mode treasury (first ++ last)
        (⟨call.header, receipt, commits.length - call.read⟩ :: commits) next
  | fail {first last : List (Call A C)} {call : Call A C} {commits : List (Commit A C)}
      {node : Node A C S}
      (before : ConcurrentRun mode treasury (first ++ call :: last) commits node) :
      ConcurrentRun mode treasury (first ++ last) commits node

end Node

/-- Each deposit is put in the outputs once, and a spent deposit stays away. -/
structure State.CreditedOnce [Bitcoin] {A C : Type} (history : List (Receipt A C))
    (state : State C) : Prop where
  once : ((History.depositEntries history).map Prod.fst).Nodup
  gone : ∀ receipt ∈ history, ∀ name, .deposit name ∈ receipt.body.getInputs →
    state.utxos[OutPoint.deposit name]? = none

end Ddk

import Ddk.Construction.Client
import Ddk.Proof.Node.Picks

namespace Ddk

open Foundation

section

variable [Bitcoin] {A C : Type} [Blake3] [Bincode C]

namespace MemPool

/-- The names of the returned transactions are their txids. -/
theorem Keyed.take_names {mempool : MemPool A C} (keyed : mempool.Keyed) (number : ℕ) :
    (mempool.transactions.toList.take number).map Prod.fst =
      (mempool.take number).map (·.transaction.txid.hash) := by
  rw [MemPool.take, List.map_map]
  apply List.map_congr_left
  intro entry listed
  exact (keyed entry.1 entry.2 (Database.mem_entries_iff.mp (List.mem_of_mem_take listed))).symm

/-- A pool behind some transactions keeps the names of the others. -/
theorem Keyed.drop {mempool rest : MemPool A C} (keyed : mempool.Keyed) {number : ℕ}
    (remains : rest.transactions.toList = mempool.transactions.toList.drop number) :
    rest.Keyed := by
  intro name transaction found
  have listed : (name, transaction) ∈ rest.transactions.toList := Database.mem_entries_iff.mpr found
  rw [remains] at listed
  exact keyed name transaction (Database.mem_entries_iff.mp (List.mem_of_mem_drop listed))

/-- A block deletes the names of its transactions. -/
theorem foldl_delete (mempool : MemPool A C) (transactions : List (Transaction C)) :
    transactions.foldl (fun mempool transaction => mempool.delete transaction.txid) mempool =
      ⟨mempool.transactions.deleteAll (transactions.map (·.txid.hash)), mempool.spentUtxos⟩ := by
  induction transactions generalizing mempool with
  | nil => rfl
  | cons transaction transactions ih => exact ih (mempool.delete transaction.txid)

end MemPool

end

namespace Node

section

variable [Bitcoin] {A C S : Type} [CustomState S A C]
variable [GetValue C] [GetAddress A] [Verify A C] [Blake3] [Bincode C]

/-- The loop keeps the eligible transactions and evicts the rejected ones. -/
theorem foldlM_pickTransaction_pool {mode : Overflow} {node : Node A C S}
    {template result : Template A C} {pooled : List (AuthorizedTransaction A C)}
    (looped : pooled.foldlM (pickTransaction mode node) template = .ok result) :
    result.returnedTransactions = template.returnedTransactions ++
      eligible mode node template.spentUtxos pooled ∧
      result.mempool = ⟨template.mempool.transactions.deleteAll
        ((rejected mode node template.spentUtxos pooled).map (·.transaction.txid.hash)),
        template.mempool.spentUtxos⟩ := by
  induction pooled generalizing template with
  | nil =>
      cases looped
      exact ⟨(List.append_nil _).symm, rfl⟩
  | cons transaction pooled ih =>
      obtain ⟨next, picked, looped⟩ := Outcome.bind_eq_ok.mp looped
      obtain ⟨returned, evicted⟩ := ih looped
      rw [eligible, rejected]
      rcases pickTransaction_cases picked with ⟨refused, same⟩ | ⟨apart, fee, valid, _, same⟩
      · rw [if_neg refused, if_neg refused]
        rw [same] at returned evicted
        exact ⟨returned, evicted⟩
      · have accepted : Disjoint template.spentUtxos transaction.transaction.inputs.toFinset ∧
            (node.validateTransaction mode transaction).isOk := ⟨apart, by rw [valid]; rfl⟩
        rw [if_pos accepted, if_pos accepted]
        rw [same] at returned evicted
        rw [List.append_assoc] at returned
        exact ⟨returned, evicted⟩

/-- A template takes the eligible transactions and leaves a pool without the rejected ones. -/
theorem getTransactions_pool {mode : Overflow} {node next : Node A C S} {number : ℕ}
    {transactions : List (AuthorizedTransaction A C)} {fee : UInt64}
    (returned : node.getTransactions mode number = .ok (transactions, fee, next)) :
    transactions = eligible mode node ∅ (node.mempool.take number) ∧
      next.mempool = ⟨node.mempool.transactions.deleteAll
        ((rejected mode node ∅ (node.mempool.take number)).map (·.transaction.txid.hash)),
        node.mempool.spentUtxos⟩ := by
  obtain ⟨template, looped, rfl, _, rfl⟩ := getTransactions_eq_ok.mp returned
  exact foldlM_pickTransaction_pool looped

variable [DecidableEq C]

/-- A template run lists its rounds, the last one first. Each round mines a template of the pool. -/
inductive TemplateRun (mode : Overflow) (number : ℕ) (start : Node A C S) :
    List (Node A C S × Body A C) → Node A C S → Prop where
  | idle : TemplateRun mode number start [] start
  | mine {rounds : List (Node A C S × Body A C)} {node picked next : Node A C S} {orders : Orders C}
      {header : Header} {transactions : List (AuthorizedTransaction A C)} {fee : UInt64}
      {coinbase : List (Output C)} {twoWayPegData : TwoWayPegData C}
      (before : TemplateRun mode number start rounds node)
      (returned : node.getTransactions mode number = .ok (transactions, fee, picked))
      (committed : picked.commitBlock orders mode header
        (Body.new transactions coinbase) twoWayPegData = .ok next) :
      TemplateRun mode number start ((node, Body.new transactions coinbase) :: rounds) next

/-- A round mines a valid transaction exactly when no mined one of a lesser txid has its input. -/
def Decides (mode : Overflow) (round : Node A C S × Body A C)
    (transaction : AuthorizedTransaction A C) : Prop :=
  transaction.transaction ∈ round.2.transactions ↔
    (∃ fee, round.1.validateTransaction mode transaction = .ok fee) ∧
      ∀ earlier ∈ round.2.transactions, earlier.txid.hash < transaction.transaction.txid.hash →
        earlier.inputs.Disjoint transaction.transaction.inputs

omit [DecidableEq C] in
/-- A template decides each of its candidates. -/
theorem eligible_decides {mode : Overflow} {node : Node A C S} (keyed : node.mempool.Keyed)
    {number : ℕ} (coinbase : List (Output C)) {transaction : AuthorizedTransaction A C}
    (candidate : transaction ∈ node.mempool.take number) :
    Decides mode (node, Body.new (eligible mode node ∅ (node.mempool.take number)) coinbase)
      transaction := by
  have sorted := keyed.take_sorted number
  have picks := eligible_sublist mode node ∅ (node.mempool.take number)
  have named {other : AuthorizedTransaction A C} (listed : other ∈ node.mempool.take number)
      (same : other.transaction = transaction.transaction) : other = transaction := by
    have found := keyed.take listed
    rw [same, keyed.take candidate] at found
    exact (Option.some.inj found).symm
  have mined : transaction.transaction ∈
      (Body.new (eligible mode node ∅ (node.mempool.take number)) coinbase).transactions ↔
        transaction ∈ eligible mode node ∅ (node.mempool.take number) := by
    constructor
    · intro member
      obtain ⟨other, picked, same⟩ := List.mem_map.mp member
      rw [← named (picks.subset picked) same]
      exact picked
    · intro picked
      exact List.mem_map_of_mem picked
  obtain ⟨first, last, split⟩ := List.append_of_mem candidate
  have distinct : (first ++ transaction :: last).Nodup := by
    rw [← split]
    exact sorted.imp fun before same => absurd (congrArg (·.transaction.txid.hash) same) before.ne
  have divided := sorted
  rw [split, List.pairwise_append, List.pairwise_cons] at divided
  rw [Decides, mined]
  have chosen := @mem_eligible_iff _ _ _ _ _ _ _ _ mode node _ _ _ distinct
  rw [← split] at chosen
  rw [chosen]
  apply and_congr_right
  intro _
  constructor
  · intro apart earlier member lesser
    obtain ⟨other, picked, rfl⟩ := List.mem_map.mp member
    have listed := picks.subset picked
    rw [split, List.mem_append, List.mem_cons] at listed
    rcases listed with early | rfl | late
    · exact apart other early picked
    · exact absurd lesser (lt_irrefl _)
    · exact absurd lesser (divided.2.1.1 other late).asymm
  · intro apart earlier early picked
    exact apart earlier.transaction (List.mem_map_of_mem picked)
      (divided.2.2 earlier early transaction List.mem_cons_self)

/-- A round removes exactly its candidates from the pool. -/
theorem mined_pool {mode : Overflow} {node picked next : Node A C S} (keyed : node.mempool.Keyed)
    {number : ℕ} {orders : Orders C} {header : Header}
    {transactions : List (AuthorizedTransaction A C)} {fee : UInt64} {coinbase : List (Output C)}
    {twoWayPegData : TwoWayPegData C}
    (returned : node.getTransactions mode number = .ok (transactions, fee, picked))
    (committed : picked.commitBlock orders mode header
      (Body.new transactions coinbase) twoWayPegData = .ok next) :
    next.mempool.transactions.toList = node.mempool.transactions.toList.drop number ∧
      next.mempool.spentUtxos = node.mempool.spentUtxos := by
  obtain ⟨rfl, evicted⟩ := getTransactions_pool returned
  have deleted := (commitBlock_eq_ok.mp committed).mempool
  rw [MemPool.foldl_delete, evicted] at deleted
  rw [← deleted]
  refine ⟨Database.toList_eq_drop fun name => ?_, rfl⟩
  have names : name ∈ (node.mempool.transactions.toList.take number).map Prod.fst ↔
      name ∈ (Body.new (eligible mode node ∅ (node.mempool.take number)) coinbase).transactions.map
        (·.txid.hash) ∨
      name ∈ (rejected mode node ∅ (node.mempool.take number)).map (·.transaction.txid.hash) := by
    have all := (eligible_append_rejected mode node ∅ (node.mempool.take number)).map
      (·.transaction.txid.hash)
    rw [keyed.take_names, ← all.mem_iff, List.map_append, List.mem_append, Body.new, List.map_map]
    rfl
  simp only [Database.getElem?_deleteAll, names]
  by_cases mined : name ∈
      (Body.new (eligible mode node ∅ (node.mempool.take number)) coinbase).transactions.map
        (·.txid.hash)
  · rw [if_pos mined, if_pos (.inl mined)]
  · simp only [if_neg mined, or_iff_right mined]

/-- The pool after some rounds is the pool behind their candidates, each decided in its round. -/
structure Drained (mode : Overflow) (number : ℕ) (start : Node A C S)
    (rounds : List (Node A C S × Body A C))
    (node : Node A C S) : Prop where
  remains : node.mempool.transactions.toList = start.mempool.transactions.toList.drop
    (number * rounds.length)
  marks : node.mempool.spentUtxos = start.mempool.spentUtxos
  decided : ∀ transaction ∈ start.mempool.take (number * rounds.length), ∃ round ∈ rounds,
    transaction ∈ round.1.mempool.take number ∧ Decides mode round transaction

/-- In every run, the rounds drain the pool. -/
theorem TemplateRun.drained [Bs58] {mode : Overflow} {history : List (Receipt A C)}
    {start node : Node A C S} {number : ℕ} {rounds : List (Node A C S × Body A C)}
    (mining : TemplateRun mode number start rounds node)
    (run : Run mode history start) : Drained mode number start rounds node := by
  induction mining with
  | idle => exact ⟨rfl, rfl, fun _ none => by cases none⟩
  | @mine rounds node picked next _ _ transactions _ coinbase _ before returned committed ih =>
      have keyed := run.keyed.drop ih.remains
      obtain ⟨dropped, marks⟩ := mined_pool keyed returned committed
      have count : number * (rounds.length + 1) = number * rounds.length + number := Nat.mul_succ ..
      refine ⟨?_, marks.trans ih.marks, ?_⟩
      · rw [dropped, ih.remains, List.drop_drop, List.length_cons, count]
      · intro transaction candidate
        rw [List.length_cons, count, MemPool.take, List.take_add, List.map_append, List.mem_append]
          at candidate
        rcases candidate with earlier | here
        · obtain ⟨round, listed, decided⟩ := ih.decided transaction earlier
          exact ⟨round, List.mem_cons_of_mem _ listed, decided⟩
        · rw [← ih.remains] at here
          obtain ⟨rfl, _⟩ := getTransactions_pool returned
          exact ⟨_, List.mem_cons_self, here, eligible_decides keyed coinbase here⟩

/-- In every run, the rounds drain the pool in txid order, decide each candidate and keep marks. -/
theorem TemplateRun.drains_pool [Bs58] {mode : Overflow} {history : List (Receipt A C)}
    {start node : Node A C S} {number : ℕ} {rounds : List (Node A C S × Body A C)}
    (mining : TemplateRun mode number start rounds node) (run : Run mode history start) :
    node.getAllTransactions = start.getAllTransactions.drop (number * rounds.length) ∧
      (∀ transaction ∈ start.getAllTransactions.take (number * rounds.length), ∃ round ∈ rounds,
        transaction ∈ round.1.mempool.take number ∧ Decides mode round transaction) ∧
      node.mempool.spentUtxos = start.mempool.spentUtxos := by
  have drained := mining.drained run
  refine ⟨?_, fun transaction candidate => drained.decided transaction ?_, drained.marks⟩
  · rw [getAllTransactions, getAllTransactions, MemPool.takeAll, MemPool.takeAll, drained.remains,
      List.map_drop]
  · rw [getAllTransactions, MemPool.takeAll, ← List.map_take] at candidate
    exact candidate

end

section

open Reference

/-- A template of the reference node holds the first transaction of its pool. -/
def firstPicked (node : Node Authorization Unit Unit) :
    List (AuthorizedTransaction Authorization Unit) × UInt64 × Node Authorization Unit Unit :=
  (node.getTransactions .checked 1).toOption.getD ([], 0, node)

def firstBody (node : Node Authorization Unit Unit) : Body Authorization Unit :=
  Body.new (firstPicked node).1 []

def firstCommit (node : Node Authorization Unit Unit) :
    Node.Result Unit Authorization Unit (Node Authorization Unit Unit) :=
  (firstPicked node).2.2.commitBlock orders .checked
    ⟨(firstBody node).computeMerkleRoot, node.archive.getBestHash, 2⟩ (firstBody node) ⟨∅, none, ∅⟩

def firstMined (node : Node Authorization Unit Unit) : Node Authorization Unit Unit :=
  (firstCommit node).toOption.getD node

/-- A round of the reference node extends a run. -/
theorem TemplateRun.first {start node : Node Authorization Unit Unit}
    {rounds : List (Node Authorization Unit Unit × Body Authorization Unit)}
    (before : TemplateRun .checked 1 start rounds node)
    (returned : (node.getTransactions .checked 1).isOk = true)
    (committed : (firstCommit node).isOk = true) :
    TemplateRun .checked 1 start ((node, firstBody node) :: rounds) (firstMined node) :=
  .mine before (Outcome.eq_ok_getD ([], 0, node) returned) (Outcome.eq_ok_getD node committed)

theorem drains_pool_twice :
    (firstMined (firstMined shiftedNode)).getAllTransactions =
      shiftedNode.getAllTransactions.drop 2 := by
  have once := (TemplateRun.idle : TemplateRun .checked 1 shiftedNode [] shiftedNode).first
    (by decide +kernel) (by decide +kernel)
  exact ((once.first (by decide +kernel) (by decide +kernel)).drains_pool shiftedNode_run).1

end

end Node

end Ddk

import Ddk.Proof.MemPool.Marks

namespace Ddk

open Foundation

section

variable [Bitcoin] {A C : Type}

/-- Pooled transactions share no input, and each of their inputs has a mark. -/
structure MemPool.Exclusive (mempool : MemPool A C) : Prop where
  marked : ∀ (name : Hash) (transaction : AuthorizedTransaction A C),
    mempool.transactions[name]? = some transaction →
      ∀ input ∈ transaction.transaction.inputs, (mempool.spentUtxos[input]?).isSome
  apart : ∀ (name other : Hash) (first second : AuthorizedTransaction A C), name ≠ other →
    mempool.transactions[name]? = some first → mempool.transactions[other]? = some second →
      first.transaction.inputs.Disjoint second.transaction.inputs

namespace MemPool

/-- An empty mempool holds no conflict. -/
theorem Exclusive.empty : (MemPool.empty : MemPool A C).Exclusive := by
  constructor
  · intro name transaction found
    rw [MemPool.empty, Std.ExtTreeMap.getElem?_empty] at found
    cases found
  · intro name other first second _ found
    rw [MemPool.empty, Std.ExtTreeMap.getElem?_empty] at found
    cases found

/-- A deletion keeps the marks and removes one transaction. -/
theorem Exclusive.delete {mempool : MemPool A C} (exclusive : mempool.Exclusive) (txid : Txid) :
    (mempool.delete txid).Exclusive := by
  have kept : ∀ (name : Hash) (transaction : AuthorizedTransaction A C),
      (mempool.delete txid).transactions[name]? = some transaction →
        mempool.transactions[name]? = some transaction := by
    intro name transaction found
    rw [MemPool.delete, Database.getElem?_delete] at found
    split at found
    next => cases found
    next => exact found
  constructor
  · intro name transaction found
    exact exclusive.marked name transaction (kept name transaction found)
  · intro name other first second different left right
    exact exclusive.apart name other first second different (kept name first left)
      (kept other second right)

variable [Blake3] [Bincode C]

/-- A put refuses each marked input, so the new transaction shares no input with a pooled one. -/
theorem Exclusive.put {mempool next : MemPool A C} (exclusive : mempool.Exclusive)
    {transaction : AuthorizedTransaction A C} (success : mempool.put transaction = .ok next) :
    next.Exclusive := by
  obtain ⟨spentUtxos, marking, rfl⟩ := put_eq_ok.mp success
  obtain ⟨_, unmarked⟩ := markInputs_nodup marking
  have fresh : ∀ (name : Hash) (other : AuthorizedTransaction A C),
      mempool.transactions[name]? = some other →
      transaction.transaction.inputs.Disjoint other.transaction.inputs := by
    intro name other found input used shared
    have mark := exclusive.marked name other found input shared
    rw [unmarked input used] at mark
    cases mark
  constructor
  · intro name other found input used
    change (spentUtxos[input]?).isSome = true
    rw [markInputs_marks marking]
    rw [Database.getElem?_put] at found
    split at found
    next =>
      cases found
      exact .inl used
    next => exact .inr (exclusive.marked name other found input used)
  · intro name other first second different left right
    rw [Database.getElem?_put] at left right
    split at left
    next own =>
      cases left
      rw [if_neg fun same => different (own.trans same.symm)] at right
      exact fresh other second right
    next =>
      split at right
      next =>
        cases right
        exact (fresh name first left).symm
      next => exact exclusive.apart name other first second different left right

end MemPool

/-- The first transactions of a mempool without conflicts share no input. -/
theorem MemPool.Exclusive.take {mempool : MemPool A C} (exclusive : mempool.Exclusive)
    (number : ℕ) :
    (mempool.take number).Pairwise fun first second =>
      first.transaction.inputs.Disjoint second.transaction.inputs := by
  have distinct : (mempool.transactions.toList.take number).Pairwise
      fun first second => first.1 ≠ second.1 := by
    have keys := Database.entries_nodup mempool.transactions
    rw [List.Nodup, List.pairwise_map] at keys
    exact keys.sublist (List.take_sublist number _)
  rw [MemPool.take, List.pairwise_map]
  apply distinct.imp_of_mem
  intro first second left right different
  exact exclusive.apart first.1 second.1 first.2 second.2 different
    (Database.mem_entries_iff.mp (List.mem_of_mem_take left))
    (Database.mem_entries_iff.mp (List.mem_of_mem_take right))

namespace Node

variable [Blake3] [Bincode C] [GetValue C] [GetAddress A] [Verify A C] {S : Type}
variable [CustomState S A C]

/-- The template loop reaches a transaction that spends an input of an earlier pick. -/
def DoubleSpent (mode : Overflow) (node : Node A C S) (number : ℕ) : Prop :=
  ∃ first transaction last template, node.mempool.take number = first ++ transaction :: last ∧
    first.foldlM (pickTransaction mode node) ⟨0, [], ∅, node.mempool⟩ = .ok template ∧
    ¬ Disjoint template.spentUtxos transaction.transaction.inputs.toFinset

/-- The loop collects inputs of the transactions that it has passed. -/
theorem foldlM_pickTransaction_spent {mode : Overflow} {node : Node A C S}
    {template result : Template A C} {transactions : List (AuthorizedTransaction A C)}
    (success : transactions.foldlM (pickTransaction mode node) template = .ok result) :
    result.spentUtxos ⊆ template.spentUtxos ∪
      (transactions.flatMap (·.transaction.inputs)).toFinset := by
  induction transactions generalizing template with
  | nil =>
      cases success
      exact Finset.subset_union_left
  | cons transaction transactions ih =>
      obtain ⟨next, first, rest⟩ := Outcome.bind_eq_ok.mp success
      have step : next.spentUtxos ⊆ template.spentUtxos ∪
          transaction.transaction.inputs.toFinset := by
        rcases pickTransaction_cases first with ⟨_, same⟩ | ⟨_, _, _, _, same⟩
        · rw [same]
          exact Finset.subset_union_left
        · rw [same]
      rw [List.flatMap_cons, List.toFinset_append, ← Finset.union_assoc]
      exact (ih rest).trans (Finset.union_subset_union_left step)

/-- A mempool without conflicts never reaches the double spend branch. -/
theorem not_doubleSpent {mode : Overflow} {node : Node A C S} (exclusive : node.mempool.Exclusive)
    (number : ℕ) :
    ¬ node.DoubleSpent mode number := by
  intro reached
  obtain ⟨first, transaction, last, template, split, looped, conflict⟩ := reached
  have pairs := exclusive.take number
  rw [split, List.pairwise_append] at pairs
  obtain ⟨_, _, across⟩ := pairs
  apply conflict
  apply Finset.disjoint_left.mpr
  intro input spent used
  have earlier := foldlM_pickTransaction_spent looped spent
  rw [Finset.empty_union, List.mem_toFinset, List.mem_flatMap] at earlier
  obtain ⟨other, passed, listed⟩ := earlier
  exact across other passed transaction List.mem_cons_self listed (List.mem_toFinset.mp used)

variable [DecidableEq C] [Bs58]

/-- Every step of a run keeps the pooled transactions apart. -/
theorem Run.exclusive {mode : Overflow} {history : List (Receipt A C)} {node : Node A C S}
    (run : Run mode history node) : node.mempool.Exclusive := by
  apply run.mempool_preserves
  · exact .empty
  · intro mempool next transaction exclusive stored
    exact exclusive.put stored
  · intro mempool txid exclusive
    exact exclusive.delete txid

/-- In every run, pooled transactions share no input, and no template finds a double spend. -/
theorem pool_spends_once {mode : Overflow} {history : List (Receipt A C)} {node : Node A C S}
    (run : Run mode history node) :
    (∀ (name other : Hash) (first second : AuthorizedTransaction A C), name ≠ other →
      node.mempool.transactions[name]? = some first →
        node.mempool.transactions[other]? = some second →
        first.transaction.inputs.Disjoint second.transaction.inputs) ∧
    (∀ (name : Hash) (transaction : AuthorizedTransaction A C),
      node.mempool.transactions[name]? = some transaction → transaction.transaction.inputs.Nodup) ∧
    ∀ number, ¬ node.DoubleSpent mode number :=
  ⟨run.exclusive.apart, run.pooled_nodup, not_doubleSpent run.exclusive⟩

end Node

end

namespace Node

open Reference

/-- Two transactions are pooled. -/
theorem pool_spends_once_shifted :
    (∀ (name other : Hash) (first second : AuthorizedTransaction Authorization Unit), name ≠ other →
      shiftedNode.mempool.transactions[name]? = some first →
        shiftedNode.mempool.transactions[other]? = some second →
        first.transaction.inputs.Disjoint second.transaction.inputs) ∧
    (∀ (name : Hash) (transaction : AuthorizedTransaction Authorization Unit),
      shiftedNode.mempool.transactions[name]? = some transaction →
        transaction.transaction.inputs.Nodup) ∧
    ∀ number, ¬ shiftedNode.DoubleSpent .checked number :=
  pool_spends_once shiftedNode_run

end Node

end Ddk

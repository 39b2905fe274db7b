import Ddk.Construction.Reference
import Ddk.Proof.Node.Templates

namespace Ddk.MemPool

open Foundation

section

variable [Bitcoin] {A C : Type}

omit [Bitcoin] in
/-- Marking succeeds exactly for distinct inputs without a mark. -/
theorem markInputs_succeeds_iff {spentUtxos : Database OutPoint Unit} {inputs : List OutPoint} :
    (∃ marked, markInputs spentUtxos inputs = .ok marked) ↔
      inputs.Nodup ∧ ∀ input ∈ inputs, spentUtxos[input]? = none := by
  constructor
  · intro success
    obtain ⟨marked, success⟩ := success
    exact markInputs_nodup success
  · intro fresh
    obtain ⟨distinct, unmarked⟩ := fresh
    induction inputs generalizing spentUtxos with
    | nil => exact ⟨spentUtxos, rfl⟩
    | cons input inputs ih =>
        rw [List.nodup_cons] at distinct
        have absent : ¬ (spentUtxos[input]?).isSome = true := by
          rw [unmarked input List.mem_cons_self]
          exact Bool.false_ne_true
        rw [markInputs, if_neg absent]
        apply ih distinct.2
        intro other member
        have different : other ≠ input := fun same => distinct.1 (same ▸ member)
        rw [Database.getElem?_put, if_neg different]
        exact unmarked other (List.mem_cons_of_mem _ member)

omit [Bitcoin] in
/-- Marking adds the marks of the inputs. -/
theorem markInputs_marks {spentUtxos marked : Database OutPoint Unit} {inputs : List OutPoint}
    (success : markInputs spentUtxos inputs = .ok marked) (outpoint : OutPoint) :
    (marked[outpoint]?).isSome ↔ outpoint ∈ inputs ∨ (spentUtxos[outpoint]?).isSome := by
  induction inputs generalizing spentUtxos with
  | nil =>
      cases success
      simp
  | cons input inputs ih =>
      rw [markInputs] at success
      split at success
      next => cases success
      next =>
        rw [ih success, Database.getElem?_put, List.mem_cons]
        by_cases same : outpoint = input <;> simp [same]

variable [Blake3] [Bincode C]

/-- A put succeeds exactly when the marking of the inputs succeeds. -/
theorem put_eq_ok {mempool next : MemPool A C} {transaction : AuthorizedTransaction A C} :
    mempool.put transaction = .ok next ↔
      ∃ spentUtxos, markInputs mempool.spentUtxos transaction.transaction.inputs = .ok spentUtxos ∧
        ⟨mempool.transactions.insert transaction.transaction.txid.hash transaction, spentUtxos⟩ =
          next := by
  simp only [put, Outcome.bind_eq_ok, Outcome.pure_eq_ok]

/-- The deletions of a block keep the marks. -/
theorem connect_spentUtxos (mempool : MemPool A C) (transactions : List (Transaction C)) :
    (transactions.foldl (fun mempool transaction => mempool.delete transaction.txid)
      mempool).spentUtxos =
      mempool.spentUtxos := by
  induction transactions generalizing mempool with
  | nil => rfl
  | cons transaction transactions ih => exact ih (mempool.delete transaction.txid)

variable [GetValue C] [GetAddress A] [Verify A C] {S : Type} [CustomState S A C]

/-- A clean-up keeps the marks. -/
theorem getTransactions_spentUtxos {mode : Overflow} {node next : Node A C S} {number : ℕ}
    {returned : List (AuthorizedTransaction A C)} {fee : UInt64}
    (picked : node.getTransactions mode number = .ok (returned, fee, next)) :
    next.mempool.spentUtxos = node.mempool.spentUtxos := by
  obtain ⟨template, looped, _, _, rfl⟩ := Node.getTransactions_eq_ok.mp picked
  apply Outcome.foldlM_preserves
    (fun template : Node.Template A C => template.mempool.spentUtxos = node.mempool.spentUtxos)
      _ rfl looped
  intro before transaction after kept step
  rcases Node.pickTransaction_cases step with ⟨_, same⟩ | ⟨_, _, _, _, same⟩
  · rw [same]
    exact kept
  · rw [same]
    exact kept

variable [DecidableEq C] {mode : Overflow} {puts : List (AuthorizedTransaction A C)}
variable {mempool : MemPool A C}

/-- In every run, the marks are the inputs of all transactions that were ever put. -/
theorem Run.marked_iff (run : Run S mode puts mempool) (outpoint : OutPoint) :
    (mempool.spentUtxos[outpoint]?).isSome ↔
      ∃ earlier ∈ puts, outpoint ∈ earlier.transaction.inputs := by
  induction run with
  | empty => simp [MemPool.empty]
  | put _ stored ih =>
      obtain ⟨spentUtxos, marking, rfl⟩ := put_eq_ok.mp stored
      rw [markInputs_marks marking, ih, List.exists_mem_cons_iff]
  | delete _ _ ih => exact ih
  | getTransactions _ picked ih => rw [getTransactions_spentUtxos picked, ih]
  | submitBlock _ committed ih =>
      rw [← (Node.commitBlock_eq_ok.mp committed).mempool, connect_spentUtxos, ih]

/-- A transaction reuses an input of an earlier transaction that is no longer stored. -/
def ReusesInput (puts : List (AuthorizedTransaction A C)) (mempool : MemPool A C)
    (transaction : AuthorizedTransaction A C) : Prop :=
  ∃ earlier ∈ puts, (∀ name : Hash, mempool.transactions[name]? ≠ some earlier) ∧
    ∃ input ∈ transaction.transaction.inputs, input ∈ earlier.transaction.inputs

/-- In every run, an unconflicted transaction is put exactly when it reuses no deleted input. -/
theorem put_succeeds_iff (run : Run S mode puts mempool) {transaction : AuthorizedTransaction A C}
    (distinct : transaction.transaction.inputs.Nodup)
    (apart : ∀ (name : Hash) (other : AuthorizedTransaction A C),
      mempool.transactions[name]? = some other →
      transaction.transaction.inputs.Disjoint other.transaction.inputs) :
    (∃ next, mempool.put transaction = .ok next) ↔ ¬ ReusesInput puts mempool transaction := by
  have marking : (∃ next, mempool.put transaction = .ok next) ↔
      ∃ marked, markInputs mempool.spentUtxos transaction.transaction.inputs = .ok marked := by
    simp only [put_eq_ok]
    exact ⟨fun ⟨_, marked, success, _⟩ => ⟨marked, success⟩,
      fun ⟨marked, success⟩ => ⟨_, marked, success, rfl⟩⟩
  rw [marking, markInputs_succeeds_iff]
  constructor
  · intro fresh reused
    obtain ⟨earlier, member, _, input, used, shared⟩ := reused
    have marked := (run.marked_iff input).mpr ⟨earlier, member, shared⟩
    rw [fresh.2 input used] at marked
    cases marked
  · intro unused
    refine ⟨distinct, fun input used => ?_⟩
    rw [← Option.not_isSome_iff_eq_none, run.marked_iff input]
    intro marked
    obtain ⟨earlier, member, shared⟩ := marked
    exact unused ⟨earlier, member, fun name stored => apart name earlier stored used shared, input,
      used, shared⟩

/-- The mempool of a node run is the mempool of a mempool run. -/
theorem Run.of_node [Bs58] {history : List (Receipt A C)} {node : Node A C S}
    (run : Node.Run mode history node) :
    ∃ puts, Run S mode puts node.mempool := by
  induction run with
  | new => exact ⟨[], .empty⟩
  | submitTransaction _ submitted ih =>
      obtain ⟨puts, before⟩ := ih
      obtain ⟨_, _, _, stored, rfl⟩ := Node.submitTransaction_eq_ok.mp submitted
      exact ⟨_, before.put stored⟩
  | poolTransaction _ pooled ih =>
      obtain ⟨puts, before⟩ := ih
      obtain ⟨_, stored, rfl⟩ := Node.poolTransaction_eq_ok.mp pooled
      exact ⟨_, before.put stored⟩
  | deleteTransaction txid _ ih =>
      obtain ⟨puts, before⟩ := ih
      exact ⟨puts, before.delete txid⟩
  | getTransactions _ picked ih =>
      obtain ⟨puts, before⟩ := ih
      exact ⟨puts, before.getTransactions picked⟩
  | submitBlock _ _ _ committed ih =>
      obtain ⟨puts, before⟩ := ih
      exact ⟨puts, before.submitBlock committed⟩

end

section

open Reference

/-- The only pooled transaction is deleted. -/
def pooled : MemPool Authorization Unit :=
  (MemPool.empty.put (authorize Node.spendDeposit)).toOption.getD MemPool.empty

def deleted : MemPool Authorization Unit := pooled.delete Node.spendDeposit.txid

/-- The put succeeds, and nothing is stored after the deletion. -/
theorem deleted_facts :
    ((MemPool.empty : MemPool Authorization Unit).put (authorize Node.spendDeposit)).isOk = true ∧
    deleted.transactions.isEmpty = true := by
  decide +kernel

theorem deleted_run : Run Unit .checked [authorize Node.spendDeposit] deleted :=
  (Run.empty.put (Outcome.eq_ok_getD MemPool.empty deleted_facts.1)).delete _

theorem deleted_transactions : deleted.transactions = ∅ :=
  Std.ExtTreeMap.isEmpty_iff.mp deleted_facts.2

/-- Nothing stored shares an input with a transaction. -/
theorem deleted_apart (inputs : List OutPoint) (name : Hash)
    (other : AuthorizedTransaction Authorization Unit)
    (stored : deleted.transactions[name]? = some other) :
    inputs.Disjoint other.transaction.inputs := by
  rw [deleted_transactions, Std.ExtTreeMap.getElem?_empty] at stored
  cases stored

theorem put_succeeds_iff_deleted :
    (∃ next, deleted.put (authorize Node.spendDeposit) = .ok next) ↔
      ¬ ReusesInput [authorize Node.spendDeposit] deleted (authorize Node.spendDeposit) :=
  put_succeeds_iff deleted_run (by decide +kernel) (deleted_apart _)

/-- A deleted transaction cannot be put again, although nothing is stored. -/
theorem delete_keeps_marks :
    (¬ ∀ (puts : List (AuthorizedTransaction Authorization Unit))
        (mempool : MemPool Authorization Unit),
        Run Unit .checked puts mempool → ∀ transaction : AuthorizedTransaction Authorization Unit,
        transaction.transaction.inputs.Nodup →
        (∀ (name : Hash) (other : AuthorizedTransaction Authorization Unit),
          mempool.transactions[name]? = some other →
            transaction.transaction.inputs.Disjoint other.transaction.inputs) →
        ∃ next, mempool.put transaction = .ok next) ∧
      deleted.transactions = ∅ := by
  refine ⟨fun claim => ?_, deleted_transactions⟩
  obtain ⟨next, stored⟩ :=
    claim _ deleted deleted_run (authorize Node.spendDeposit) (by decide +kernel)
    (deleted_apart _)
  have refused : (deleted.put (authorize Node.spendDeposit)).isOk = false := by decide +kernel
  rw [stored] at refused
  cases refused

end

end Ddk.MemPool

import Ddk.Proof.Run.Flow
import Ddk.Proof.Run.Origins

namespace Ddk

open Foundation State

variable [Bitcoin] {A C : Type} [GetValue C]

/-- A transaction that spends value spends an output with value. -/
theorem FilledTransaction.exists_positive {filled : FilledTransaction C}
    (aligned : filled.transaction.inputs.length = filled.spentUtxos.length)
    (positive : 0 < valueIn filled) :
    ∃ entry ∈ filled.spentEntries, 0 < getValue entry.2 := by
  obtain ⟨value, member, some⟩ := Overflow.exists_of_exactSum_pos positive
  obtain ⟨utxo, spent, rfl⟩ := List.mem_map.mp member
  have outputs : filled.spentEntries.map Prod.snd = filled.spentUtxos := List.map_snd_zip aligned.ge
  rw [← outputs] at spent
  obtain ⟨entry, listed, rfl⟩ := List.mem_map.mp spent
  exact ⟨entry, listed, some⟩

/-- An included transaction spends an output with value. -/
def Funded (state : State C) (transaction : Transaction C) : Prop :=
  ∃ entry : OutPoint × Output C, entry.1 ∈ transaction.inputs ∧
    state.utxos[entry.1]? = some entry.2 ∧
    0 < getValue entry.2

/-- A filled transaction that spends value is funded. -/
theorem funded_of_valueIn {state : State C} {transaction : Transaction C}
    {filled : FilledTransaction C} (success : state.fillTransaction transaction = .ok filled)
    (positive : 0 < valueIn filled) :
    Funded state transaction := by
  obtain ⟨same, found⟩ := fillTransaction_eq_ok.mp success
  obtain ⟨entry, listed, some⟩ :=
    FilledTransaction.exists_positive (by rw [same]; exact found.length_eq) positive
  refine ⟨entry, ?_, FilledTransaction.spentEntries_found success listed, some⟩
  rw [← FilledTransaction.spentEntries_keys success]
  exact List.mem_map_of_mem listed

namespace State

variable [GetAddress A] [Verify A C]
variable {state : State C} {body : Body A C} {filledTransactions : List (FilledTransaction C)}
variable {fees : UInt64}

/-- In a checked body, a transaction that creates value is funded. -/
theorem ValidBody.funded (valid : ValidBody .checked state body filledTransactions fees)
    {transaction : Transaction C} (included : transaction ∈ body.transactions)
    {output : Output C} (listed : output ∈ transaction.outputs) (positive : 0 < getValue output) :
    Funded state transaction := by
  obtain ⟨feeList, checks, _⟩ := valid.valued
  obtain ⟨filled, member, success⟩ := forall₂_mem_left valid.filled included
  obtain ⟨fee, _, checked⟩ := forall₂_mem_left checks member
  have balance := validateFilledTransaction_checked checked
  have created : 0 < valueOut filled := by
    have one : (getValue output).toNat ≤ valueOut filled := by
      apply Overflow.le_exactSum
      rw [(fillTransaction_eq_ok.mp success).1]
      exact List.mem_map_of_mem listed
    have some := Overflow.toNat_pos.mpr positive
    omega
  exact funded_of_valueIn success (by omega)

/-- In a checked body, a coinbase with value takes it from the fees of a funded transaction. -/
theorem ValidBody.coinbase_funded (valid : ValidBody .checked state body filledTransactions fees)
    {output : Output C} (listed : output ∈ body.coinbase) (positive : 0 < getValue output) :
    ∃ transaction ∈ body.transactions, Funded state transaction := by
  obtain ⟨feeList, checks, sum⟩ := valid.valued
  obtain ⟨coinbaseValue, coinbase, enough⟩ := valid.covered
  have total := Overflow.sum_checked.mp sum
  have paid := Overflow.sum_checked.mp coinbase
  have ordered := UInt64.le_iff_toNat_le.mp enough
  have one : (getValue output).toNat ≤ Overflow.exactSum (body.coinbase.map getValue) :=
    Overflow.le_exactSum (List.mem_map_of_mem listed)
  have some := Overflow.toNat_pos.mpr positive
  have claimed : 0 < Overflow.exactSum feeList := by omega
  obtain ⟨fee, member, earned⟩ := Overflow.exists_of_exactSum_pos claimed
  obtain ⟨filled, filledMember, checked⟩ := forall₂_mem_right checks member
  obtain ⟨transaction, included, success⟩ := forall₂_mem_right valid.filled filledMember
  have balance := validateFilledTransaction_checked checked
  have spent := Overflow.toNat_pos.mpr earned
  exact ⟨transaction, included, funded_of_valueIn success (by omega)⟩

end State

namespace History

variable [Blake3] [Bincode C]

/-- The history accounts for the state, and each output with value has one creation. -/
structure Accounted (history : List (Receipt A C)) (state : State C) : Prop where
  accounts : Accounts (createdEntries history) (heldEntries history state)
  once : ∀ entry ∈ createdEntries history, 0 < getValue entry.2 →
    occurrences (createdEntries history) entry.1 = 1
  inputs : ∀ receipt ∈ history, receipt.spentEntries.map Prod.fst = receipt.body.getInputs

namespace Accounted

variable {history : List (Receipt A C)} {state : State C}

/-- An unspent output with value was never an input. -/
theorem unspent (accounted : Accounted history state) {entry : OutPoint × Output C}
    (found : state.utxos[entry.1]? = some entry.2) (positive : 0 < getValue entry.2)
    {receipt : Receipt A C} (member : receipt ∈ history) : entry.1 ∉ receipt.body.getInputs := by
  intro spent
  have stored : entry ∈ state.stored := mem_stored.mpr (.inl found)
  have held : entry ∈ heldEntries history state := List.mem_append_left _ stored
  have single := accounted.once entry (accounted.accounts.authentic entry held) positive
  have counted := accounted.accounts.counted entry.1 single.le
  rw [← accounted.inputs receipt member] at spent
  obtain ⟨other, listed, same⟩ := List.mem_map.mp spent
  have consumed : 0 < occurrences (spentEntries history) entry.1 := by
    rw [← same]
    exact occurrences_pos (List.mem_flatMap.mpr ⟨receipt, member, listed⟩)
  have present := occurrences_pos stored
  have split : occurrences (heldEntries history state) entry.1 = occurrences state.stored entry.1 +
      (occurrences (spentEntries history) entry.1 + occurrences (paidEntries history) entry.1) := by
    rw [← occurrences_append, ← occurrences_append]
    rfl
  omega

/-- A funded transaction is new. -/
theorem not_included (accounted : Accounted history state) {transaction : Transaction C}
    (funded : Funded state transaction) {receipt : Receipt A C} (member : receipt ∈ history) :
    transaction ∉ receipt.body.transactions := by
  intro included
  obtain ⟨entry, listed, found, positive⟩ := funded
  exact accounted.unspent found positive member
    (List.mem_flatMap.mpr ⟨transaction, included, listed⟩)

end Accounted

omit [GetValue C] in
/-- A transaction with an input creates each name once in a body with distinct inputs. -/
theorem occurrences_createdOutputs_le_one {transactions : List (Transaction C)}
    (distinct : (transactions.flatMap (·.inputs)).Nodup) {transaction : Transaction C}
    {input : OutPoint} (spent : input ∈ transaction.inputs)
    (names : (transaction.createdOutputs.map Prod.fst).Nodup)
    (free : ∀ other ∈ transactions, other.txid = transaction.txid → other = transaction)
    (vout : UInt32) :
    occurrences (transactions.flatMap Transaction.createdOutputs)
      (.regular transaction.txid vout) ≤ 1 := by
  induction transactions with
  | nil => simp
  | cons head transactions ih =>
      rw [List.flatMap_cons, List.nodup_append] at distinct
      rw [List.flatMap_cons, occurrences_append]
      by_cases same : head = transaction
      · have later : occurrences (transactions.flatMap Transaction.createdOutputs)
            (.regular transaction.txid vout) = 0 := by
          apply occurrences_createdOutputs
          intro other member index named
          have twin := free other (List.mem_cons_of_mem _ member)
            (OutPoint.regular.inj named).1.symm
          rw [twin] at member
          exact distinct.2.2 input (same ▸ spent) input
            (List.mem_flatMap.mpr ⟨transaction, member, spent⟩) rfl
        have once := occurrences_le_one names (.regular transaction.txid vout)
        rw [same]
        omega
      · have none : occurrences head.createdOutputs (.regular transaction.txid vout) = 0 := by
          apply occurrences_numbered
          intro index named
          exact same (free head List.mem_cons_self (OutPoint.regular.inj named).1.symm)
        have rest := ih distinct.2.1 fun other member => free other (List.mem_cons_of_mem _ member)
        omega

omit [GetValue C] in
/-- A name that no block creates does not occur. -/
theorem occurrences_createdEntries {history : List (Receipt A C)} {outpoint : OutPoint}
    (uncreated : ∀ receipt ∈ history, ∀ output, ¬ receipt.Creates outpoint output) :
    occurrences (createdEntries history) outpoint = 0 := by
  by_contra positive
  obtain ⟨output, member⟩ := exists_of_occurrences_pos (Nat.pos_of_ne_zero positive)
  obtain ⟨receipt, listed, creates⟩ := mem_createdEntries.mp member
  exact uncreated receipt listed output creates

omit [GetValue C] [Blake3] [Bincode C] in
/-- The deposits have no name of another kind. -/
theorem DeliveredOnce.occurrences_deposits {history : List (Receipt A C)}
    (delivered : DeliveredOnce history) {receipt : Receipt A C} (member : receipt ∈ history)
    (outpoint : OutPoint) (other : ∀ name, outpoint ≠ .deposit name) :
    occurrences receipt.deposits.toList outpoint = 0 := by
  apply occurrences_eq_zero
  intro listed
  obtain ⟨entry, inside, rfl⟩ := List.mem_map.mp listed
  obtain ⟨name, named⟩ := delivered.named entry (mem_depositEntries.mpr ⟨receipt, member, inside⟩)
  exact other name named

namespace Accounted

variable [GetAddress A] [Verify A C] [DecidableEq C]
variable {history : List (Receipt A C)} {state next collected : State C} {orders : Orders C}
variable {twoWayPegData : TwoWayPegData C} {blockHeight : UInt32} {receipt : Receipt A C}

/-- A checked block creates each output with value for the first time. -/
theorem fresh (accounted : Accounted history state)
    (describes : Describes orders .checked state twoWayPegData blockHeight receipt collected next)
    (free : WellNamed (receipt :: history)) (delivered : DeliveredOnce (receipt :: history))
    {outpoint : OutPoint} {output : Output C} (creates : receipt.Creates outpoint output)
    (positive : 0 < getValue output) :
    occurrences (createdEntries (receipt :: history)) outpoint ≤ 1 := by
  have here : receipt ∈ receipt :: history := List.mem_cons_self
  have split : occurrences (createdEntries (receipt :: history)) outpoint =
      occurrences receipt.body.coinbaseOutputs outpoint +
        occurrences (receipt.body.transactions.flatMap Transaction.createdOutputs) outpoint +
        occurrences receipt.deposits.toList outpoint + occurrences
            (createdEntries history) outpoint := by
    rw [← occurrences_append, ← occurrences_append, ← occurrences_append]
    rfl
  rcases creates with ⟨vout, named, listed⟩ | ⟨transaction, vout, included, named, listed⟩ | listed
  · obtain ⟨index, found, _⟩ := mem_numbered.mp listed
    obtain ⟨transaction, included, funded⟩ :=
      describes.valid.coinbase_funded (List.mem_of_getElem? found) positive
    have earlier : occurrences (createdEntries history) outpoint = 0 := by
      apply occurrences_createdEntries
      rintro other member value (⟨index, renamed, _⟩ | ⟨_, _, _, renamed, _⟩ | relisted)
      · have root := (OutPoint.coinbase.inj (named.symm.trans renamed)).1
        have same := (free.merkleRoots receipt here other (List.mem_cons_of_mem _ member) root).2
        exact accounted.not_included funded member (same ▸ included)
      · cases named.symm.trans renamed
      · obtain ⟨name, renamed⟩ := delivered.named (outpoint, value)
          (mem_depositEntries.mpr ⟨other, List.mem_cons_of_mem _ member, relisted⟩)
        cases named.symm.trans renamed
    have once := occurrences_le_one (free.coinbase_nodup here) outpoint
    have regular : occurrences (receipt.body.transactions.flatMap Transaction.createdOutputs)
        outpoint = 0 := by
      rw [named]
      exact occurrences_createdOutputs fun _ _ _ same => by cases same
    have deposits := delivered.occurrences_deposits here outpoint fun _ same => by
      cases named.symm.trans same
    omega
  · obtain ⟨index, found, _⟩ := mem_numbered.mp listed
    have funded := describes.valid.funded included (List.mem_of_getElem? found) positive
    have known : transaction ∈ transactions (receipt :: history) :=
      mem_transactions.mpr ⟨receipt, here, included⟩
    have earlier : occurrences (createdEntries history) outpoint = 0 := by
      apply occurrences_createdEntries
      rintro other member value (⟨_, renamed, _⟩ | ⟨twin, _, reincluded, renamed, _⟩ | relisted)
      · cases named.symm.trans renamed
      · have same := free.txids transaction known twin
          (mem_transactions.mpr ⟨other, List.mem_cons_of_mem _ member, reincluded⟩)
          (OutPoint.regular.inj (named.symm.trans renamed)).1
        exact accounted.not_included funded member (same ▸ reincluded)
      · obtain ⟨name, renamed⟩ := delivered.named (outpoint, value)
          (mem_depositEntries.mpr ⟨other, List.mem_cons_of_mem _ member, relisted⟩)
        cases named.symm.trans renamed
    have coinbase : occurrences receipt.body.coinbaseOutputs outpoint = 0 := by
      rw [named]
      exact occurrences_numbered fun _ same => by cases same
    obtain ⟨entry, spent, _⟩ := funded
    have once : occurrences (receipt.body.transactions.flatMap Transaction.createdOutputs)
        outpoint ≤ 1 := by
      rw [named]
      refine occurrences_createdOutputs_le_one describes.valid.distinct spent
        (free.createdOutputs_nodup known) ?_ vout
      intro other member same
      exact free.txids other (mem_transactions.mpr ⟨receipt, here, member⟩) transaction known same
    have deposits := delivered.occurrences_deposits here outpoint fun _ same => by
      cases named.symm.trans same
    omega
  · obtain ⟨name, named⟩ :=
      delivered.named (outpoint, output) (mem_depositEntries.mpr ⟨receipt, here, listed⟩)
    dsimp only at named
    rw [named, occurrences_deposit]
    exact occurrences_le_one delivered.distinct _

/-- A checked block keeps the accounting. -/
theorem block (accounted : Accounted history state)
    (describes : Describes orders .checked state twoWayPegData blockHeight receipt collected next)
    (free : WellNamed (receipt :: history)) (delivered : DeliveredOnce (receipt :: history)) :
    Accounted (receipt :: history) next where
  accounts := describes.accounts accounted.accounts
  once := by
    rintro ⟨outpoint, output⟩ member positive
    have present : 0 < occurrences (createdEntries (receipt :: history)) outpoint :=
      occurrences_pos member
    suffices occurrences (createdEntries (receipt :: history)) outpoint ≤ 1 by
      dsimp only
      omega
    rcases List.mem_append.mp (show (outpoint, output) ∈ receipt.createdEntries ++
      createdEntries history from member)
      with new | old
    · exact accounted.fresh describes free delivered (Receipt.mem_createdEntries.mp new) positive
    · have split : occurrences (createdEntries (receipt :: history)) outpoint =
          occurrences receipt.createdEntries outpoint + occurrences
              (createdEntries history) outpoint :=
        occurrences_append ..
      have single := accounted.once (outpoint, output) old positive
      dsimp only at single
      by_cases recreated : 0 < occurrences receipt.createdEntries outpoint
      · obtain ⟨other, listed⟩ := exists_of_occurrences_pos recreated
        have same := created_unique free delivered member (List.mem_append_left _ listed)
        rw [← same] at listed
        exact accounted.fresh describes free delivered
          (Receipt.mem_createdEntries.mp listed) positive
      · omega
  inputs := by
    intro other member
    rcases List.mem_cons.mp member with rfl | earlier
    · exact describes.spentEntries_keys
    · exact accounted.inputs other earlier

end Accounted

end History

end Ddk

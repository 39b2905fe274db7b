import Ddk.Foundation.Lists
import Ddk.Proof.Run.Phases

namespace Ddk

open Foundation State

variable [Bitcoin] {A C : Type}

/-- A filled transaction lists its inputs in order. -/
theorem FilledTransaction.spentEntries_keys {state : State C} {transaction : Transaction C}
    {filled : FilledTransaction C} (success : state.fillTransaction transaction = .ok filled) :
    filled.spentEntries.map Prod.fst = transaction.inputs := by
  obtain ⟨same, found⟩ := fillTransaction_eq_ok.mp success
  rw [FilledTransaction.spentEntries, same, List.map_fst_zip found.length_eq.le]

/-- A filled transaction spends outputs from the database. -/
theorem FilledTransaction.spentEntries_found {state : State C} {transaction : Transaction C}
    {filled : FilledTransaction C} (success : state.fillTransaction transaction = .ok filled)
    {entry : OutPoint × Output C} (member : entry ∈ filled.spentEntries) :
    state.utxos[entry.1]? = some entry.2 := by
  obtain ⟨same, found⟩ := fillTransaction_eq_ok.mp success
  rw [FilledTransaction.spentEntries, same] at member
  exact (List.forall₂_iff_zip.mp found).2 member

/-- Filled transactions list the inputs of their transactions in order. -/
theorem FilledTransaction.flatMap_spentEntries_keys {state : State C}
    {transactions : List (Transaction C)} {filledTransactions : List (FilledTransaction C)}
    (filled : List.Forall₂ (fun transaction filled =>
      state.fillTransaction transaction = .ok filled)
      transactions filledTransactions) :
    (filledTransactions.flatMap FilledTransaction.spentEntries).map Prod.fst =
      transactions.flatMap (·.inputs) := by
  induction filled with
  | nil => rfl
  | cons first _ ih =>
      rw [List.flatMap_cons, List.map_append, ih, FilledTransaction.spentEntries_keys first,
        List.flatMap_cons]

namespace State

variable [GetValue C] [GetAddress A] [Verify A C] [DecidableEq C] [Blake3] [Bincode C]
variable {orders : Orders C} {mode : Overflow} {state next : State C} {body : Body A C}
variable {twoWayPegData : TwoWayPegData C} {blockHeight : UInt32} {receipt : Receipt A C}

/-- A receipt describes its block. -/
structure Describes (orders : Orders C) (mode : Overflow) (state : State C)
    (twoWayPegData : TwoWayPegData C) (blockHeight : UInt32) (receipt : Receipt A C)
    (collected next : State C) : Prop where
  valid : ValidBody mode state receipt.body receipt.filledTransactions receipt.fees
  deposits : receipt.deposits = twoWayPegData.deposits
  collection :
    ((state.connectBody receipt.body).connectDeposits orders twoWayPegData).connectWithdrawals
    orders mode blockHeight = .ok collected
  confirmed : receipt.confirmed = collected.confirmedBundle twoWayPegData.bundleStatuses
  statuses : next = collected.connectStatuses orders twoWayPegData.bundleStatuses blockHeight

/-- Each receipt describes a block that passes its steps up to the statuses. -/
theorem blockReceipt_describes
    (recorded : state.blockReceipt orders mode body twoWayPegData blockHeight = .ok receipt) :
    receipt.body = body ∧ state.validateBody mode body = .ok receipt.fees ∧ ∃ collected,
      Describes orders mode state twoWayPegData blockHeight receipt collected
        (collected.connectStatuses orders twoWayPegData.bundleStatuses blockHeight) := by
  obtain ⟨fees, accepted, recorded⟩ := Outcome.bind_eq_ok.mp recorded
  obtain ⟨filled, found, recorded⟩ := Outcome.bind_eq_ok.mp recorded
  obtain ⟨collected, collection, recorded⟩ := Outcome.bind_eq_ok.mp recorded
  rw [Outcome.pure_eq_ok] at recorded
  subst recorded
  obtain ⟨filledTransactions, valid⟩ := validateBody_eq_ok.mp accepted
  have same : filledTransactions = filled :=
    Except.ok.inj ((Outcome.mapM_eq_ok.mpr valid.filled).symm.trans found)
  subst same
  exact ⟨rfl, accepted, collected, valid, rfl, collection, rfl, rfl⟩

/-- Each connected block has a receipt that describes it. -/
theorem Connects.describes
    (connects : Connects orders mode state body twoWayPegData blockHeight receipt next) :
    ∃ collected, Describes orders mode state twoWayPegData blockHeight receipt collected next := by
  obtain ⟨same, _, collected, describes⟩ := blockReceipt_describes connects.recorded
  obtain ⟨other, reached, connected⟩ := Outcome.bind_eq_ok.mp connects.connected
  rw [← same] at reached
  have unique : other = collected := Except.ok.inj (reached.symm.trans describes.collection)
  rw [Outcome.pure_eq_ok, unique] at connected
  exact ⟨collected, describes.valid, describes.deposits, describes.collection, describes.confirmed,
    connected.symm⟩

namespace Describes

variable {collected : State C}

/-- The spent entries of a block are its inputs in order. -/
theorem spentEntries_keys
    (describes : Describes orders mode state twoWayPegData blockHeight receipt collected next) :
    receipt.spentEntries.map Prod.fst = receipt.body.getInputs :=
  FilledTransaction.flatMap_spentEntries_keys describes.valid.filled

/-- A block spends outputs from the database before it. -/
theorem spentEntries_found
    (describes : Describes orders mode state twoWayPegData blockHeight receipt collected next)
    {entry : OutPoint × Output C} (member : entry ∈ receipt.spentEntries) :
    state.utxos[entry.1]? = some entry.2 := by
  obtain ⟨filled, listed, spent⟩ := List.mem_flatMap.mp member
  obtain ⟨transaction, _, success⟩ := forall₂_mem_right describes.valid.filled listed
  exact FilledTransaction.spentEntries_found success spent

/-- Each input of a block is in the database before it. -/
theorem input_found
    (describes : Describes orders mode state twoWayPegData blockHeight receipt collected next)
    {input : OutPoint} (member : input ∈ receipt.body.getInputs) :
    (state.utxos[input]?).isSome := by
  rw [← describes.spentEntries_keys] at member
  obtain ⟨entry, listed, rfl⟩ := List.mem_map.mp member
  rw [describes.spentEntries_found listed]
  rfl

omit [GetValue C] [GetAddress A] [Verify A C] in
/-- The pending bundle waits while the body and the deposits connect. -/
theorem connected_pending :
    ((state.connectBody body).connectDeposits orders twoWayPegData).pendingWithdrawalBundle =
      state.pendingWithdrawalBundle := rfl

/-- Every stored or paid entry was stored before the block or created by it. -/
theorem stored_origin
    (describes : Describes orders mode state twoWayPegData blockHeight receipt collected next)
    {entry : OutPoint × Output C} (member : entry ∈ next.stored ++ receipt.paidEntries) :
    entry ∈ receipt.createdEntries ∨ entry ∈ state.stored := by
  rw [Receipt.paidEntries, describes.confirmed, describes.statuses] at member
  have settled :=
    (connectStatuses_stored orders collected twoWayPegData.bundleStatuses blockHeight).1
      entry member
  have waiting := (connectWithdrawals_stored describes.collection).1 entry settled
  rw [Receipt.createdEntries, List.mem_append, Database.mem_entries_iff, describes.deposits]
  rw [mem_stored] at waiting ⊢
  rcases waiting with found | pending
  · rw [connectDeposits_utxos, Option.or_eq_some_iff] at found
    rcases found with delivered | ⟨_, kept⟩
    · exact .inl (.inr delivered)
    · rcases connectBody_origin kept with created | old
      · exact .inl (.inl created)
      · exact .inr (.inl old)
  · exact .inr (.inr pending)

/-- A block moves each entry with one creation and adds the entries that it creates. -/
theorem stored_balanced
    (describes : Describes orders mode state twoWayPegData blockHeight receipt collected next)
    (outpoint : OutPoint)
    (once : occurrences receipt.createdEntries outpoint + occurrences state.stored outpoint ≤ 1) :
    occurrences next.stored outpoint + receipt.body.getInputs.count outpoint +
        occurrences receipt.paidEntries outpoint =
      occurrences state.stored outpoint + occurrences receipt.createdEntries outpoint := by
  rw [Receipt.createdEntries, occurrences_append, describes.deposits, stored, occurrences_append]
    at once ⊢
  have body : occurrences (state.connectBody receipt.body).utxos.toList outpoint + _ = _ :=
    connectBody_balanced describes.valid.distinct (fun input member => describes.input_found member)
      (by omega) (fun single => Database.getElem?_eq_none (by omega))
  have deposits :
      occurrences ((state.connectBody receipt.body).connectDeposits orders
          twoWayPegData).utxos.toList outpoint = _ :=
    connectDeposits_balanced orders fun delivered => Database.getElem?_eq_none (by omega)
  have withdrawals := (connectWithdrawals_stored describes.collection).2 outpoint
  rw [stored, stored, occurrences_append, occurrences_append, connected_pending] at withdrawals
  have statuses :=
    (connectStatuses_stored orders collected twoWayPegData.bundleStatuses blockHeight).2 outpoint
    (by rw [stored, occurrences_append]; omega)
  rw [← describes.statuses, ← describes.confirmed, stored, stored, occurrences_append,
    occurrences_append] at statuses
  rw [stored, occurrences_append, Receipt.paidEntries]
  omega

/-- Every block keeps the accounts of its history. -/
theorem accounts {history : List (Receipt A C)}
    (before : Accounts (History.createdEntries history) (History.heldEntries history state))
    (describes : Describes orders mode state twoWayPegData blockHeight receipt collected next) :
    Accounts (History.createdEntries (receipt :: history))
      (History.heldEntries (receipt :: history) next) := by
  have held (history : List (Receipt A C)) (state : State C) : History.heldEntries history state =
      state.stored ++ (History.spentEntries history ++ History.paidEntries history) := rfl
  have spent : History.spentEntries (receipt :: history) =
      receipt.spentEntries ++ History.spentEntries history := rfl
  have paid : History.paidEntries (receipt :: history) =
      receipt.paidEntries ++ History.paidEntries history := rfl
  have created : History.createdEntries (receipt :: history) =
      receipt.createdEntries ++ History.createdEntries history := rfl
  rw [created]
  refine before.extend ?_ ?_
  · intro entry member
    simp only [held, spent, paid, List.mem_append] at member ⊢
    rcases member with stored | (spending | old) | (paying | old)
    · exact (describes.stored_origin (List.mem_append_left _ stored)).imp_right .inl
    · exact .inr (.inl (mem_stored.mpr (.inl (describes.spentEntries_found spending))))
    · exact .inr (.inr (.inl old))
    · exact (describes.stored_origin (List.mem_append_right _ paying)).imp_right .inl
    · exact .inr (.inr (.inr old))
  · intro outpoint once
    rw [occurrences_append] at once
    have counted := before.counted outpoint (by omega)
    simp only [held, spent, paid, occurrences_append] at counted ⊢
    have balanced := describes.stored_balanced outpoint (by omega)
    have inputs : occurrences receipt.spentEntries outpoint =
        receipt.body.getInputs.count outpoint := by
      rw [occurrences, describes.spentEntries_keys]
    omega

end Describes

/-- Every run keeps the accounts of its history. -/
theorem Run.accounts {history : List (Receipt A C)} (run : Run mode history state) :
    Accounts (History.createdEntries history) (History.heldEntries history state) := by
  induction run with
  | empty => exact Accounts.empty
  | block _ connects ih =>
      obtain ⟨_, describes⟩ := connects.describes
      exact describes.accounts ih

end State

end Ddk

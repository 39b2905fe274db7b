import Ddk.Construction.Withdrawals

namespace Ddk.State

open Foundation

variable [Bitcoin] {A C : Type}

section

variable [Blake3] [Bincode C]

/-- One transaction keeps the outputs that it neither spends nor creates. -/
theorem connectTransaction_kept {utxos : Database OutPoint (Output C)} {transaction : Transaction C}
    {outpoint : OutPoint} (uncreated : outpoint ∉ transaction.createdOutputs.map Prod.fst) :
    (connectTransaction utxos transaction)[outpoint]? =
      if outpoint ∈ transaction.inputs then none else utxos[outpoint]? := by
  rw [connectTransaction, Database.getElem?_putAll_of_notMem uncreated, Database.getElem?_deleteAll]

/-- The transactions keep the outputs that they neither spend nor create. -/
theorem connectTransactions_kept {utxos : Database OutPoint (Output C)}
    {transactions : List (Transaction C)} {outpoint : OutPoint}
    (uncreated : outpoint ∉ (transactions.flatMap Transaction.createdOutputs).map Prod.fst) :
    (transactions.foldl connectTransaction utxos)[outpoint]? =
      if outpoint ∈ transactions.flatMap (·.inputs) then none else utxos[outpoint]? := by
  induction transactions generalizing utxos with
  | nil => simp
  | cons transaction transactions ih =>
      rw [List.flatMap_cons, List.map_append, List.mem_append, not_or] at uncreated
      rw [List.foldl_cons, ih uncreated.2, connectTransaction_kept uncreated.1, List.flatMap_cons]
      by_cases later : outpoint ∈ transactions.flatMap (·.inputs) <;> simp [later]

/-- An output that the transactions create or keep is present when none of them spends it. -/
theorem connectTransactions_present {utxos : Database OutPoint (Output C)}
    {transactions : List (Transaction C)} {outpoint : OutPoint}
    (unspent : outpoint ∉ transactions.flatMap (·.inputs))
    (created : outpoint ∈ (transactions.flatMap Transaction.createdOutputs).map Prod.fst ∨
      (utxos[outpoint]?).isSome) :
    ((transactions.foldl connectTransaction utxos)[outpoint]?).isSome := by
  induction transactions generalizing utxos with
  | nil => simpa using created
  | cons transaction transactions ih =>
      rw [List.flatMap_cons, List.mem_append, not_or] at unspent
      rw [List.flatMap_cons, List.map_append, List.mem_append] at created
      apply ih unspent.2
      by_cases here : outpoint ∈ transaction.createdOutputs.map Prod.fst
      · exact .inr (Database.isSome_putAll_of_mem here)
      · rw [connectTransaction_kept here, if_neg unspent.1]
        tauto

/-- Every output after the transactions was created by one of them or was there before. -/
theorem connectTransactions_origin {utxos : Database OutPoint (Output C)}
    {transactions : List (Transaction C)} {outpoint : OutPoint} {output : Output C}
    (found : (transactions.foldl connectTransaction utxos)[outpoint]? = some output) :
    (outpoint, output) ∈ transactions.flatMap Transaction.createdOutputs ∨
      utxos[outpoint]? = some output := by
  induction transactions generalizing utxos with
  | nil => exact .inr found
  | cons transaction transactions ih =>
      rw [List.flatMap_cons, List.mem_append]
      rcases ih found with later | here
      · exact .inl (.inr later)
      · rcases Database.putAll_origin here with created | kept
        · exact .inl (.inl created)
        · rw [Database.getElem?_deleteAll] at kept
          split at kept
          next => simp at kept
          next => exact .inr kept

/-- Every output after the body was created by it or was there before. -/
theorem connectBody_origin {state : State C} {body : Body A C} {outpoint : OutPoint}
    {output : Output C} (found : (state.connectBody body).utxos[outpoint]? = some output) :
    (outpoint, output) ∈ body.createdOutputs ∨ state.utxos[outpoint]? = some output := by
  rw [Body.createdOutputs, List.mem_append]
  rcases connectTransactions_origin found with created | earlier
  · exact .inl (.inr created)
  · rcases Database.putAll_origin earlier with coinbase | kept
    · exact .inl (.inl coinbase)
    · exact .inr kept

/-- The body keeps the outputs that it neither spends nor creates. -/
theorem connectBody_kept {state : State C} {body : Body A C} {outpoint : OutPoint}
    (uncreated : outpoint ∉ body.createdOutputs.map Prod.fst) :
    (state.connectBody body).utxos[outpoint]? =
      if outpoint ∈ body.getInputs then none else state.utxos[outpoint]? := by
  rw [Body.createdOutputs, List.map_append, List.mem_append, not_or] at uncreated
  rw [connectBody, connectTransactions_kept uncreated.2,
    Database.getElem?_putAll_of_notMem uncreated.1]
  rfl

/-- A created output is present when the body does not spend it. -/
theorem connectBody_created {state : State C} {body : Body A C} {outpoint : OutPoint}
    (created : outpoint ∈ body.createdOutputs.map Prod.fst) (unspent : outpoint ∉ body.getInputs) :
    ((state.connectBody body).utxos[outpoint]?).isSome := by
  rw [Body.createdOutputs, List.map_append, List.mem_append] at created
  apply connectTransactions_present unspent
  rcases created with coinbase | later
  · exact .inr (Database.isSome_putAll_of_mem coinbase)
  · exact .inl later

end

variable [DecidableEq C]

/-- A deposit replaces an output of the same name. -/
theorem connectDeposits_utxos (orders : Orders C) (state : State C)
    (twoWayPegData : TwoWayPegData C) (outpoint : OutPoint) :
    (state.connectDeposits orders twoWayPegData).utxos[outpoint]? =
      (twoWayPegData.deposits[outpoint]?).or state.utxos[outpoint]? :=
  orders.outputs.getElem?_putAll _ _ _

/-- A stored bundle removes exactly its own outputs. -/
theorem storeBundle_utxos (orders : Orders C) (state : State C) (bundle : WithdrawalBundle C)
    (outpoint : OutPoint) :
    (state.storeBundle orders bundle).utxos[outpoint]? =
      if (bundle.spentUtxos[outpoint]?).isSome then none else state.utxos[outpoint]? :=
  orders.outputs.getElem?_deleteAll _ _ _

/-- Later statuses change nothing once no bundle is pending. -/
theorem foldl_connectStatus_none {orders : Orders C} {state : State C} {blockHeight : UInt32}
    (none : state.pendingWithdrawalBundle = none)
    (entries : List (Bitcoin.Txid × WithdrawalBundleStatus)) :
    entries.foldl (connectStatus orders blockHeight) state = state := by
  induction entries with
  | nil => rfl
  | cons entry entries ih =>
      have unchanged : connectStatus orders blockHeight state entry = state := by
        rw [connectStatus, none]
      rw [List.foldl_cons, unchanged, ih]

/-- A status with another name changes nothing. -/
theorem connectStatus_other {orders : Orders C} {state : State C} {blockHeight : UInt32}
    {bundle : WithdrawalBundle C} (pending : state.pendingWithdrawalBundle = some bundle)
    {entry : Bitcoin.Txid × WithdrawalBundleStatus}
    (other : Bitcoin.txid bundle.transaction ≠ entry.1) :
    connectStatus orders blockHeight state entry = state := by
  rw [connectStatus, pending]
  exact if_pos other

/-- A status with the pending name settles the pending bundle. -/
theorem connectStatus_pending {orders : Orders C} {state : State C} {blockHeight : UInt32}
    {bundle : WithdrawalBundle C} (pending : state.pendingWithdrawalBundle = some bundle)
    (status : WithdrawalBundleStatus) :
    connectStatus orders blockHeight state (Bitcoin.txid bundle.transaction, status) =
      state.settleBundle orders blockHeight bundle status := by
  rw [connectStatus, pending]
  exact if_neg (not_not.mpr rfl)

/-- Statuses without the pending name change nothing. -/
theorem foldl_connectStatus_other {orders : Orders C} {state : State C} {blockHeight : UInt32}
    {bundle : WithdrawalBundle C} (pending : state.pendingWithdrawalBundle = some bundle)
    {entries : List (Bitcoin.Txid × WithdrawalBundleStatus)}
    (absent : Bitcoin.txid bundle.transaction ∉ entries.map Prod.fst) :
    entries.foldl (connectStatus orders blockHeight) state = state := by
  induction entries with
  | nil => rfl
  | cons entry entries ih =>
      rw [List.map_cons, List.mem_cons, not_or] at absent
      rw [List.foldl_cons, connectStatus_other pending absent.1, ih absent.2]

/-- The status loop reads one entry: the status of the pending bundle. -/
theorem connectStatuses_eq (orders : Orders C) {state : State C}
    {bundle : WithdrawalBundle C} (pending : state.pendingWithdrawalBundle = some bundle)
    (bundleStatuses : HashMap Bitcoin.Txid WithdrawalBundleStatus) (blockHeight : UInt32) :
    state.connectStatuses orders bundleStatuses blockHeight =
      match bundleStatuses[Bitcoin.txid bundle.transaction]? with
      | none => state
      | some status => state.settleBundle orders blockHeight bundle status := by
  unfold connectStatuses
  cases found : bundleStatuses[Bitcoin.txid bundle.transaction]? with
  | none =>
      apply foldl_connectStatus_other pending
      intro member
      obtain ⟨value, present⟩ := orders.statuses.mem_keys.mp member
      rw [found] at present
      cases present
  | some status =>
      obtain ⟨before, after, split, absent⟩ := orders.statuses.exists_split found
      rw [split, List.foldl_append, foldl_connectStatus_other pending absent, List.foldl_cons,
        connectStatus_pending pending, foldl_connectStatus_none]
      cases status <;> rfl

end Ddk.State

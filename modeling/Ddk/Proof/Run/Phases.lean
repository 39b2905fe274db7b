import Ddk.Construction.History
import Ddk.Proof.State.Blocks
import Ddk.Proof.State.Validation
import Ddk.Proof.Withdrawals.Contents

namespace Ddk.State

open Foundation

variable [Bitcoin] {A C : Type}

/-- The entries of a state are in the database or in the pending bundle. -/
def stored (state : State C) : List (OutPoint × Output C) :=
  state.utxos.toList ++ bundleEntries state.pendingWithdrawalBundle

theorem mem_stored {state : State C} {entry : OutPoint × Output C} :
    entry ∈ state.stored ↔ state.utxos[entry.1]? = some entry.2 ∨
      ∃ bundle, state.pendingWithdrawalBundle = some bundle ∧
        bundle.spentUtxos[entry.1]? = some entry.2 := by
  rw [stored, List.mem_append, Database.mem_entries_iff]
  refine or_congr Iff.rfl ?_
  cases state.pendingWithdrawalBundle with
  | none => simp [bundleEntries]
  | some bundle => simp [bundleEntries, Database.mem_entries_iff]

/-- A state stores a name in the database, in the pending bundle or in both. -/
theorem occurrences_stored (state : State C) (outpoint : OutPoint) :
    occurrences state.stored outpoint =
      (if (state.utxos[outpoint]?).isSome then 1 else 0) +
        occurrences (bundleEntries state.pendingWithdrawalBundle) outpoint := by
  rw [stored, occurrences_append, Database.occurrences_toList]

theorem occurrences_bundleEntries (bundle : WithdrawalBundle C) (outpoint : OutPoint) :
    occurrences (bundleEntries (some bundle)) outpoint =
      if (bundle.spentUtxos[outpoint]?).isSome then 1 else 0 :=
  Database.occurrences_toList _ _

section

variable [Blake3] [Bincode C]

/-- A body moves each spent output out of the database and each created output into it. -/
theorem connectBody_balanced {state : State C} {body : Body A C} {outpoint : OutPoint}
    (distinct : body.getInputs.Nodup)
    (found : ∀ input ∈ body.getInputs, (state.utxos[input]?).isSome)
    (once : occurrences body.createdOutputs outpoint ≤ 1)
    (fresh : occurrences body.createdOutputs outpoint = 1 → state.utxos[outpoint]? = none) :
    occurrences (state.connectBody body).utxos.toList outpoint + body.getInputs.count outpoint =
      occurrences state.utxos.toList outpoint + occurrences body.createdOutputs outpoint := by
  rw [Database.occurrences_toList, Database.occurrences_toList, distinct.count]
  by_cases created : outpoint ∈ body.createdOutputs.map Prod.fst
  · have single : occurrences body.createdOutputs outpoint = 1 := by
      have positive : 0 < occurrences body.createdOutputs outpoint := List.count_pos_iff.mpr created
      omega
    have absent := fresh single
    have unspent : outpoint ∉ body.getInputs := by
      intro member
      have present := found outpoint member
      rw [absent] at present
      cases present
    rw [single, absent, if_pos (connectBody_created created unspent), if_neg unspent]
    rfl
  · rw [occurrences_eq_zero created, connectBody_kept created]
    by_cases spent : outpoint ∈ body.getInputs
    · rw [if_pos spent, if_pos spent, if_pos (found outpoint spent)]
      rfl
    · rw [if_neg spent, if_neg spent]

end

variable [DecidableEq C]

/-- A new deposit enters the database. -/
theorem connectDeposits_balanced (orders : Orders C) {state : State C}
    {twoWayPegData : TwoWayPegData C} {outpoint : OutPoint}
    (fresh : 0 < occurrences twoWayPegData.deposits.toList outpoint →
      state.utxos[outpoint]? = none) :
    occurrences (state.connectDeposits orders twoWayPegData).utxos.toList outpoint =
      occurrences state.utxos.toList outpoint + occurrences twoWayPegData.deposits.toList
        outpoint := by
  simp only [Database.occurrences_toList] at fresh ⊢
  rw [connectDeposits_utxos]
  cases delivered : twoWayPegData.deposits[outpoint]? with
  | none => simp
  | some output =>
      rw [fresh (by simp [delivered])]
      simp

section

variable [Blake3] [Bincode C]

/-- The withdrawal phase keeps the state or moves database entries into a new pending bundle. -/
theorem connectWithdrawals_cases {orders : Orders C} {mode : Overflow} {state next : State C}
    {blockHeight : UInt32} (success : state.connectWithdrawals orders mode blockHeight = .ok next) :
    next = state ∨ ∃ bundle groups fee, state.pendingWithdrawalBundle = none ∧
      Collected orders mode state.utxos (blockHeight + 1) groups fee bundle ∧
      next = state.storeBundle orders bundle := by
  obtain ⟨due, waited, success⟩ := Outcome.bind_eq_ok.mp success
  split at success
  next ready =>
    obtain ⟨collected, reached, success⟩ := Outcome.bind_eq_ok.mp success
    cases collected with
    | none => exact .inl (Outcome.pure_eq_ok.mp success).symm
    | some bundle =>
        obtain ⟨groups, fee, collected⟩ := collectWithdrawalBundle_eq_some.mp reached
        obtain ⟨nextHeight, _, waited⟩ := Outcome.bind_eq_ok.mp waited
        obtain ⟨elapsed, _, same⟩ := Outcome.bind_eq_ok.mp waited
        rw [← Outcome.pure_eq_ok.mp same, Bool.and_eq_true, Option.isNone_iff_eq_none] at ready
        exact .inr ⟨bundle, groups, fee, ready.2, collected, (Outcome.pure_eq_ok.mp success).symm⟩
  next => exact .inl (Outcome.pure_eq_ok.mp success).symm

variable [GetValue C]

/-- The withdrawal phase keeps the stored entries. -/
theorem connectWithdrawals_stored {orders : Orders C} {mode : Overflow} {state next : State C}
    {blockHeight : UInt32} (success : state.connectWithdrawals orders mode blockHeight = .ok next) :
    (∀ entry ∈ next.stored, entry ∈ state.stored) ∧
      ∀ outpoint, occurrences next.stored outpoint = occurrences state.stored outpoint := by
  rcases connectWithdrawals_cases success with rfl | ⟨bundle, groups, fee, none, collected, rfl⟩
  · exact ⟨fun _ member => member, fun _ => rfl⟩
  · constructor
    · intro entry member
      rw [mem_stored] at member ⊢
      rcases member with kept | ⟨stored, same, moved⟩
      · rw [storeBundle_utxos] at kept
        split at kept
        next => cases kept
        next => exact .inl kept
      · cases same
        exact .inl (collected.spent_mem moved)
    · intro outpoint
      rw [occurrences_stored, occurrences_stored, none, storeBundle_utxos]
      change _ + occurrences (bundleEntries (some bundle)) outpoint = _
      rw [occurrences_bundleEntries]
      cases moved : bundle.spentUtxos[outpoint]? with
      | none => simp [bundleEntries]
      | some output => simp [bundleEntries, collected.spent_mem moved]

end

/-- The statuses keep the stored entries except those of the confirmed bundle. -/
theorem connectStatuses_stored (orders : Orders C) (state : State C)
    (bundleStatuses : HashMap Bitcoin.Txid WithdrawalBundleStatus) (blockHeight : UInt32) :
    let next := state.connectStatuses orders bundleStatuses blockHeight
    let confirmed := bundleEntries (state.confirmedBundle bundleStatuses)
    (∀ entry ∈ next.stored ++ confirmed, entry ∈ state.stored) ∧
      ∀ outpoint, occurrences state.stored outpoint ≤ 1 →
        occurrences next.stored outpoint + occurrences confirmed outpoint =
          occurrences state.stored outpoint := by
  intro next confirmed
  cases pending : state.pendingWithdrawalBundle with
  | none =>
      have kept : next = state := foldl_connectStatus_none pending _
      have unpaid : confirmed = [] := by
        simp [confirmed, confirmedBundle, pending, bundleEntries]
      rw [kept, unpaid]
      simp
  | some bundle =>
      have reached : next = _ := connectStatuses_eq orders pending bundleStatuses blockHeight
      have paid : confirmed = bundleEntries
        (if bundleStatuses[Bitcoin.txid bundle.transaction]? = some .confirmed
          then some bundle else none) := by
        simp only [confirmed, confirmedBundle, pending]
      cases status : bundleStatuses[Bitcoin.txid bundle.transaction]? with
      | none =>
          rw [status] at reached
          dsimp only at reached
          have unpaid : confirmed = [] := by simp [paid, status, bundleEntries]
          rw [reached, unpaid]
          simp
      | some status' =>
          rw [status] at reached
          dsimp only at reached
          cases status' with
          | failed =>
              have unpaid : confirmed = [] := by simp [paid, status, bundleEntries]
              dsimp only [settleBundle] at reached
              rw [reached, unpaid]
              constructor
              · intro entry member
                rw [List.append_nil, mem_stored] at member
                rw [mem_stored, pending]
                rcases member with restored | ⟨_, none, _⟩
                · rw [orders.outputs.getElem?_putAll, Option.or_eq_some_iff] at restored
                  rcases restored with moved | ⟨_, kept⟩
                  · exact .inr ⟨bundle, rfl, moved⟩
                  · exact .inl kept
                · cases none
              · intro outpoint once
                rw [occurrences_stored, pending, occurrences_bundleEntries] at once
                rw [occurrences_stored, occurrences_stored, pending, occurrences_bundleEntries,
                  orders.outputs.getElem?_putAll]
                cases moved : bundle.spentUtxos[outpoint]? with
                | none => simp [bundleEntries]
                | some output =>
                    cases kept : state.utxos[outpoint]? with
                    | none => simp [bundleEntries]
                    | some => simp [moved, kept] at once
          | confirmed =>
              have settled : confirmed = bundleEntries (some bundle) := by simp [paid, status]
              dsimp only [settleBundle] at reached
              rw [reached, settled]
              constructor
              · intro entry member
                rw [List.mem_append, mem_stored] at member
                rw [mem_stored, pending]
                rcases member with (kept | ⟨_, none, _⟩) | moved
                · exact .inl kept
                · cases none
                · exact .inr ⟨bundle, rfl, Database.mem_entries_iff.mp moved⟩
              · intro outpoint _
                rw [occurrences_stored, occurrences_stored, pending]
                rfl

end Ddk.State
